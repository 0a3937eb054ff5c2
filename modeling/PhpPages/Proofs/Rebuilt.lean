import PhpPages.Proofs.Forward

namespace PhpPages

open Text

namespace FileSystem

/-- Results of following that differ at most in the path that is shown for a place. -/
inductive SamePlace : Followed → Followed → Prop where
  | reached {r r' : Reached} (same : r.location = r'.location) :
      SamePlace (.reached r) (.reached r')
  | looped (pieces : List String) : SamePlace (.looped pieces) (.looped pieces)
  | failed (e : ResolveError) : SamePlace (.failed e) (.failed e)

/-- Leniently, following pieces depends on the place where it starts alone: no error
shows a path. -/
theorem follow_samePlace {fs : FileSystem}
    {enter : List Location → Reached → List String → Followed} {pending : List Location}
    {r r' : Reached} {ps : List String}
    (henter : ∀ pending r r' ps, r.location = r'.location → (∀ p ∈ ps, '/' ∉ p.toList) →
      SamePlace (enter pending r ps) (enter pending r' ps))
    (h : r.location = r'.location) (hs : ∀ p ∈ ps, '/' ∉ p.toList) :
    SamePlace (follow fs false enter pending r ps) (follow fs false enter pending r' ps) := by
  induction ps generalizing r r' with
  | nil => exact .reached h
  | cons p ps ih =>
    have hrest : ∀ q ∈ ps, '/' ∉ q.toList := fun q hq => hs q (List.mem_cons_of_mem _ hq)
    have hdown : (r.down p).location = (r'.down p).location := congrArg (· ++ [p]) h
    cases piece_case (hs p (by simp)) with
    | stay hd =>
      rw [follow_stay hd, follow_stay hd]
      exact ih h hrest
    | up hu =>
      rw [hu, follow_up, follow_up]
      exact ih (congrArg List.dropLast h) hrest
    | null hd hu hz =>
      rw [follow_null hd hu hz, follow_null hd hu hz]
      exact .failed _
    | name hn =>
      rw [follow_named hn, follow_named hn, ← h]
      split
      · exact ih hdown hrest
      · rename_i target _
        split
        · exact .looped _
        · have hstart : (if target.toList.head? = some '/' then Reached.root else r).location =
              (if target.toList.head? = some '/' then Reached.root else r').location := by
            split
            · rfl
            · exact h
          have hin := henter ((r.location ++ [p]) :: pending) _ _ (pieces '/' target) hstart
            fun q hq => (mem_pieces hq).1
          generalize enter ((r.location ++ [p]) :: pending)
              (if target.toList.head? = some '/' then Reached.root else r)
              (pieces '/' target) = f at hin ⊢
          generalize enter ((r.location ++ [p]) :: pending)
              (if target.toList.head? = some '/' then Reached.root else r')
              (pieces '/' target) = f' at hin ⊢
          cases hin with
          | reached same => exact ih same hrest
          | looped raw => exact .looped _
          | failed e => exact .failed e
      · exact ih hdown hrest

theorem followLinks_samePlace {fs : FileSystem} (depth : Nat) (pending : List Location)
    (r r' : Reached) (ps : List String) (h : r.location = r'.location)
    (hs : ∀ p ∈ ps, '/' ∉ p.toList) :
    SamePlace (FileSystem.followLinks fs false depth pending r ps)
      (FileSystem.followLinks fs false depth pending r' ps) := by
  induction depth generalizing pending r r' ps with
  | zero => exact follow_samePlace (fun _ _ _ _ _ _ => .looped []) h hs
  | succ depth ih => exact follow_samePlace ih h hs

theorem resolve_samePlace {fs : FileSystem} {strict : Bool} {p p' : Path} {start start' : Reached}
    (hp : fs.startOf p = some start) (hp' : fs.startOf p' = some start')
    (h : SamePlace (FileSystem.followLinks fs strict fs.linkCount [] start p.segments)
      (FileSystem.followLinks fs strict fs.linkCount [] start' p'.segments)) :
    fs.resolve strict p = fs.resolve strict p' := by
  simp only [resolve, hp, hp']
  generalize FileSystem.followLinks fs strict fs.linkCount [] start p.segments = f at h ⊢
  generalize FileSystem.followLinks fs strict fs.linkCount [] start' p'.segments = f' at h ⊢
  cases h with
  | reached same => exact congrArg Except.ok same
  | looped raw => rfl
  | failed e => rfl

/-- A path resolves leniently as it does with the place of a front that exists put in its stead.
Unlike `leads_behind` this also covers paths that run into a loop. -/
theorem resolveLenient_behind {fs : FileSystem} (hw : fs.WellFormed) {p : Path} {j : Nat}
    {x : Location} (hs : ∀ s ∈ p.segments, '/' ∉ s.toList)
    (hx : fs.resolveStrict ⟨p.anchor, p.segments.take j⟩ = .ok x) :
    fs.resolveLenient (Path.at (x ++ p.segments.drop j)) = fs.resolveLenient p := by
  have hfrontSlash : ∀ s ∈ p.segments.take j, '/' ∉ s.toList :=
    fun s h => hs s (List.mem_of_mem_take h)
  obtain ⟨start, us, hstart, hfront⟩ :=
    (resolveStrict_iff (p := ⟨p.anchor, p.segments.take j⟩) hfrontSlash).mp hx
  have hstart : fs.startOf p = some start := hstart
  have hstands := hfront.stands hw (startOf_stands hw hstart)
  obtain ⟨r, hr, hrx⟩ := (hfront.relax false).followLinks fs.pending_nil (by simp) start.shown
  obtain ⟨r', hr', hrx'⟩ :=
    ((hstands.leads hw).relax false).followLinks fs.pending_nil (by simp) Reached.root.shown
  -- Both ways come to `x` first and go on with the same pieces.
  have hwhole : FileSystem.followLinks fs false fs.linkCount [] start p.segments =
      FileSystem.followLinks fs false fs.linkCount [] r (p.segments.drop j) := by
    obtain ⟨enter, he⟩ := followLinks_eq fs false fs.linkCount
    rw [he] at hr ⊢
    conv => lhs; rw [← List.take_append_drop j p.segments]
    exact follow_append hfrontSlash hr
  have hrebuilt :
      FileSystem.followLinks fs false fs.linkCount [] Reached.root (x ++ p.segments.drop j) =
      FileSystem.followLinks fs false fs.linkCount [] r' (p.segments.drop j) := by
    obtain ⟨enter, he⟩ := followLinks_eq fs false fs.linkCount
    rw [he] at hr' ⊢
    exact follow_append (fun s h => (hstands.names hw s h).noSlash) hr'
  refine resolve_samePlace (p := Path.at (x ++ p.segments.drop j)) rfl hstart ?_
  change SamePlace
    (FileSystem.followLinks fs false fs.linkCount [] Reached.root (x ++ p.segments.drop j)) _
  rw [hwhole, hrebuilt]
  exact followLinks_samePlace _ _ _ _ _ (hrx'.trans hrx.symm) fun s h =>
    hs s (List.mem_of_mem_drop h)

end FileSystem

namespace Boundary

/-- Whatever is returned for an accepted path of plain names resolves as that path does. -/
theorem Accepted.resolveLenient {fs : FileSystem} (hw : fs.WellFormed) (hb : fs.NoBackslash)
    {root : Location} {candidate p : Path} (hc : ∀ s ∈ candidate.segments, IsPlain s)
    (h : Accepted fs root candidate p) :
    ∃ l, fs.resolveLenient candidate = .ok l ∧ fs.resolveLenient p = .ok l := by
  have hslash : ∀ s ∈ candidate.segments, '/' ∉ s.toList := fun s hs => (hc s hs).noSlash
  cases h with
  | @existing l found _ =>
    obtain ⟨hdenotes, hstands⟩ := FileSystem.resolveStrict_denotes hw hslash found
    exact ⟨l, hdenotes.resolveLenient,
      ((hstands.linkFree hw).denotes (hstands.names hw)).resolveLenient⟩
  | @missing x followed j _ _ _ _ found _ _ leads =>
    refine ⟨followed, leads, ?_⟩
    rw [reread_plain (plain_behind hw hb hc found),
      FileSystem.resolveLenient_behind hw hslash found]
    exact leads

/-- Without backslashes and ways back, the path that comes out of the check is the path that was
checked: an absolute path of names that comes, followed leniently, to the same place as the path
that was meant. -/
theorem check_keeps_place {fs : FileSystem} (hw : fs.WellFormed) (hb : fs.NoBackslash)
    {path root label : String} {p : Path} (hpath : Forward path)
    (h : check fs path root label = .ok p) :
    ∃ location l, fs.resolveStrict (Path.ofText root) = .ok location ∧
      fs.resolveLenient (meant location path) = .ok l ∧ fs.resolveLenient p = .ok l ∧
      p.anchor = .root ∧ ∀ s ∈ p.segments, IsName s := by
  obtain ⟨location, hroot⟩ := check_root h
  have hplain := (FileSystem.resolveStrict_denotes hw Path.ofText_noSlash hroot).2.plain hw hb
  obtain ⟨hnull, hacc⟩ := check_accepted hw hroot h
  have hslash := Path.ofText_noSlash (t := candidateFor location path)
  obtain ⟨names, rfl, hnames⟩ := hacc.names hw hslash hnull
  have hc : ∀ s ∈ (Path.ofText (candidateFor location path)).segments, IsPlain s := by
    intro s hs
    obtain ⟨hup, hback⟩ := candidateFor_forward hplain hpath s hs
    exact ⟨⟨(Path.mem_textSegments hs).1, hup, hslash s hs, hnull s hs⟩, hback⟩
  obtain ⟨l, hcandidate, hreturned⟩ := hacc.resolveLenient hw hb hc
  rw [ofText_candidateFor hplain hpath.2] at hcandidate
  exact ⟨location, l, hroot, hcandidate, hreturned, rfl, hnames⟩

/-- A project with a link to a directory in which another link leads to something that is
still missing. -/
def bridged : FileSystem where
  entries := [(["p"], .directory), (["p", "real"], .directory), (["p", "s"], .link "real"),
    (["p", "real", "k"], .link "../gone")]

theorem check_keeps_place_bridged :
    bridged.WellFormed ∧ bridged.NoBackslash ∧ Forward "s/k/x" ∧
    check bridged "s/k/x" "/p" "Path" = .ok (Path.at ["p", "real", "k", "x"]) ∧
    bridged.resolveLenient (Path.at ["p", "s", "k", "x"]) = .ok ["p", "gone", "x"] ∧
    bridged.resolveLenient (Path.at ["p", "real", "k", "x"]) = .ok ["p", "gone", "x"] := by
  have hw : bridged.WellFormed := FileSystem.wellFormed_of_check (by decide +kernel)
  have hb : bridged.NoBackslash := FileSystem.noBackslash_of_check (by decide +kernel)
  have hpath : Forward "s/k/x" := by decide +kernel
  have hroot : bridged.resolveStrict (Path.ofText "/p") = .ok ["p"] :=
    ok_of_toOption (by decide +kernel)
  have hcheck : check bridged "s/k/x" "/p" "Path" = .ok (Path.at ["p", "real", "k", "x"]) :=
    ok_of_toOption (by decide +kernel)
  have hlenient :
      bridged.resolveLenient (Path.at ["p", "real", "k", "x"]) = .ok ["p", "gone", "x"] :=
    ok_of_toOption (by decide +kernel)
  have hmeant : meant ["p"] "s/k/x" = Path.at ["p", "s", "k", "x"] := by decide +kernel
  obtain ⟨location, l, hlocation, hl, hl', _⟩ := check_keeps_place hw hb hpath hcheck
  obtain rfl : ["p"] = location := Except.ok.inj (hroot.symm.trans hlocation)
  obtain rfl : ["p", "gone", "x"] = l := Except.ok.inj (hlenient.symm.trans hl')
  rw [hmeant] at hl
  exact ⟨hw, hb, hpath, hcheck, hl, hl'⟩

end Boundary

end PhpPages
