import PhpPages.Proofs.PageLinks
import PhpPages.Proofs.Resolution
import PhpPages.Proofs.Runs

namespace PhpPages

open Text

namespace FileSystem

/-- No null character is in what was followed, and none was met. -/
def NullFree : Followed → Prop
  | .reached r => ∀ n ∈ r.location, '\x00' ∉ n.toList
  | .looped ps => ∀ p ∈ ps, '\x00' ∉ p.toList
  | .failed e => e ≠ .nullCharacter

theorem obstacle_ne_null (shown : Path) (fault : Fault) :
    obstacle shown fault ≠ .nullCharacter := by
  unfold obstacle
  split <;> simp

theorem loopError_ne_null (fs : FileSystem) (r : Reached) : fs.loopError r ≠ .nullCharacter := by
  unfold loopError
  split <;> simp

theorem nullFree_joinRaw {ps rest : List String} (hp : ∀ p ∈ ps, '\x00' ∉ p.toList)
    (hrest : ∀ p ∈ rest, '\x00' ∉ p.toList) : NullFree (.looped (joinRaw ps rest)) := by
  intro p hm
  rcases mem_joinRaw hm with hm | hm
  · exact hp p hm
  · exact hrest p hm

/-- Following pieces without the null character meets none: the targets of links
hold none either. -/
theorem follow_nullFree {fs : FileSystem} (hw : fs.WellFormed) {strict : Bool}
    {enter : List Location → Reached → List String → Followed} {pending : List Location}
    {r : Reached} {ps : List String}
    (henter : ∀ pending r ps, (∀ n ∈ r.location, '\x00' ∉ n.toList) →
      (∀ p ∈ ps, '/' ∉ p.toList ∧ '\x00' ∉ p.toList) → NullFree (enter pending r ps))
    (hr : ∀ n ∈ r.location, '\x00' ∉ n.toList)
    (hps : ∀ p ∈ ps, '/' ∉ p.toList ∧ '\x00' ∉ p.toList) :
    NullFree (follow fs strict enter pending r ps) := by
  induction ps generalizing r with
  | nil => exact hr
  | cons p ps ih =>
    have hrest : ∀ q ∈ ps, '/' ∉ q.toList ∧ '\x00' ∉ q.toList :=
      fun q hq => hps q (List.mem_cons_of_mem _ hq)
    obtain ⟨hslash, hnull⟩ := hps p (by simp)
    have hdown : ∀ n ∈ r.location ++ [p], '\x00' ∉ n.toList := forall_mem_snoc hr hnull
    cases piece_case hslash with
    | stay hd =>
      rw [follow_stay hd]
      exact ih hr hrest
    | up hu =>
      rw [hu, follow_up]
      exact ih (fun n hn => hr n ((List.dropLast_prefix _).subset hn)) hrest
    | null _ _ hz => exact absurd hz hnull
    | name hn =>
      rw [follow_named hn]
      split
      · split
        · exact obstacle_ne_null _ _
        · exact ih hdown hrest
      · rename_i target hstatus
        split
        · split
          · exact loopError_ne_null _ _
          · exact nullFree_joinRaw hdown fun q hq => (hrest q hq).2
        · have hstart : ∀ n ∈ (if target.toList.head? = some '/' then Reached.root else r).location,
              '\x00' ∉ n.toList := by
            split
            · simp [Reached.root]
            · exact hr
          have htarget : ∀ q ∈ pieces '/' target, '/' ∉ q.toList ∧ '\x00' ∉ q.toList := fun q hq =>
            ⟨(mem_pieces hq).1, fun hm => hw.target (status_ok hstatus) ((mem_pieces hq).2 _ hm)⟩
          have hin := henter ((r.location ++ [p]) :: pending) _ _ hstart htarget
          split
          · rename_i reached hreached
            rw [hreached] at hin
            exact ih hin hrest
          · rename_i raw hraw
            rw [hraw] at hin
            exact nullFree_joinRaw hin fun q hq => (hrest q hq).2
          · rename_i e he
            rw [he] at hin
            exact hin
      · exact ih hdown hrest

theorem followLinks_nullFree {fs : FileSystem} (hw : fs.WellFormed) {strict : Bool} (depth : Nat)
    (pending : List Location) (r : Reached) (ps : List String)
    (hr : ∀ n ∈ r.location, '\x00' ∉ n.toList)
    (hps : ∀ p ∈ ps, '/' ∉ p.toList ∧ '\x00' ∉ p.toList) :
    NullFree (FileSystem.followLinks fs strict depth pending r ps) := by
  induction depth generalizing pending r ps with
  | zero => exact follow_nullFree hw (by simp [NullFree]) hr hps
  | succ depth ih => exact follow_nullFree hw ih hr hps

/-- A path without the null character is never refused for one. -/
theorem resolve_ne_null {fs : FileSystem} (hw : fs.WellFormed) {strict : Bool} {p : Path}
    (hps : ∀ s ∈ p.segments, '/' ∉ s.toList ∧ '\x00' ∉ s.toList) :
    fs.resolve strict p ≠ .error .nullCharacter := by
  unfold resolve
  split
  · simp
  · rename_i start hstart
    have hnull := (startOf_stands hw hstart).names hw
    have hfree : NullFree (FileSystem.followLinks fs strict fs.linkCount [] start p.segments) :=
      followLinks_nullFree hw _ _ _ _ (fun n hn => (hnull n hn).noNull) hps
    split
    · simp
    · rename_i e he
      rw [he] at hfree
      exact fun h => hfree (Except.error.inj h)
    · rename_i raw hraw
      rw [hraw] at hfree
      have hlocation : (Segments.collapse raw).any (·.toList.contains '\x00') = false := by
        rw [List.any_eq_false]
        intro n hn
        simpa using hfree n (Segments.mem_collapse hn).1
      dsimp only
      rw [hlocation, if_neg (by simp)]
      split <;> simp

end FileSystem

namespace Link

/-- The text of an absolute path that is cleaned segment by segment. -/
theorem clamped_eq {path : String} (habs : Segments.startsAtRoot path = true) :
    Segments.clamped path =
      (Path.at (Segments.collapse (pieces '/' (Segments.slashed path)))).text :=
  Segments.clamped_root (Segments.startsAtRoot_slashed habs)

/-- What normalizing a path can come to. -/
inductive NormalizeCase (fs : FileSystem) (path : String) : Except ResolveError String → Prop where
  | found (l : Location) (strict : fs.resolveStrict (Path.ofText path) = .ok l) :
      NormalizeCase fs path (.ok (Path.at l).text)
  | null (strict : fs.resolveStrict (Path.ofText path) = .error .nullCharacter) :
      NormalizeCase fs path (.error .nullCharacter)
  | relative (atRoot : Segments.startsAtRoot (Segments.slashed path) = false) :
      NormalizeCase fs path (.ok (Segments.clamped path))
  | followed (l : Location) (atRoot : Segments.startsAtRoot (Segments.slashed path) = true)
      (lenient : fs.resolveLenient (Path.ofText (Segments.clamped path)) = .ok l) :
      NormalizeCase fs path (.ok (Path.at l).text)
  | nullBehind (atRoot : Segments.startsAtRoot (Segments.slashed path) = true)
      (lenient : fs.resolveLenient (Path.ofText (Segments.clamped path)) = .error .nullCharacter) :
      NormalizeCase fs path (.error .nullCharacter)
  | unfollowed (e : ResolveError)
      (atRoot : Segments.startsAtRoot (Segments.slashed path) = true) (other : e ≠ .nullCharacter)
      (lenient : fs.resolveLenient (Path.ofText (Segments.clamped path)) = .error e) :
      NormalizeCase fs path (.ok (Segments.clamped path))

theorem normalizePath_case (fs : FileSystem) (path : String) :
    NormalizeCase fs path (normalizePath fs path) := by
  unfold normalizePath
  split
  · exact .found _ ‹_›
  · exact .null ‹_›
  · dsimp only
    rw [Segments.startsAtRoot_clamped]
    cases hroot : Segments.startsAtRoot (Segments.slashed path) with
    | false => exact .relative hroot
    | true =>
      rw [if_neg (by simp)]
      split
      · exact .followed _ hroot ‹_›
      · exact .nullBehind hroot ‹_›
      · rename_i e hne he
        exact .unfollowed e hroot hne he

/-- A normalized path is the text of segments that lead down from the root. -/
theorem normalizePath_steps {fs : FileSystem} (hw : fs.WellFormed) {path t : String}
    (habs : Segments.startsAtRoot path = true) (h : normalizePath fs path = .ok t) :
    ∃ names, t = (Path.at names).text ∧ ∀ n ∈ names, IsStep n := by
  have hclamped :
      ∃ names, Segments.clamped path = (Path.at names).text ∧ ∀ n ∈ names, IsStep n := by
    refine ⟨_, clamped_eq habs, fun n hn => ?_⟩
    obtain ⟨hm, hd, hu⟩ := Segments.mem_collapse hn
    exact ⟨hd, hu, (mem_pieces hm).1⟩
  have hcase := normalizePath_case fs path
  rw [h] at hcase
  cases hcase with
  | found l strict =>
    exact ⟨l, rfl, fun n hn => (FileSystem.resolve_names hw Path.ofText_noSlash strict n hn).isStep⟩
  | followed l _ lenient =>
    exact ⟨l, rfl, fun n hn =>
      (FileSystem.resolve_names hw Path.ofText_noSlash lenient n hn).isStep⟩
  | relative | unfollowed => exact hclamped

theorem not_mem_clamped {path : String}
    (hroot : Segments.startsAtRoot (Segments.slashed path) = true) (hz : '\x00' ∉ path.toList) :
    '\x00' ∉ (Segments.clamped path).toList := by
  rw [Segments.clamped_root hroot]
  apply Path.not_mem_text_at (by decide)
  intro n hn hnull
  have hm := (mem_pieces (Segments.mem_collapse hn).1).2 _ hnull
  exact hz (Segments.mem_of_mem_slashed (by decide) hm)

/-- Every path without the null character can be normalized. -/
theorem exists_normalizePath {fs : FileSystem} (hw : fs.WellFormed) {path : String}
    (habs : Segments.startsAtRoot path = true) (hz : '\x00' ∉ path.toList) :
    ∃ t, normalizePath fs path = .ok t := by
  have hcase := normalizePath_case fs path
  generalize normalizePath fs path = result at hcase
  cases hcase with
  | found | relative | followed | unfollowed => exact ⟨_, rfl⟩
  | null strict => exact absurd strict (FileSystem.resolve_ne_null hw (Path.ofText_segments hz))
  | nullBehind _ lenient =>
    have hclean := not_mem_clamped (Segments.startsAtRoot_slashed habs) hz
    exact absurd lenient (FileSystem.resolve_ne_null hw (Path.ofText_segments hclean))

theorem startsAtRoot_directory {output : String} (page : String)
    (habs : Segments.startsAtRoot output = true) :
    Segments.startsAtRoot (Slashed.directory (output ++ "/" ++ page)) = true := by
  simp only [Segments.startsAtRoot, decide_eq_true_eq] at habs ⊢
  obtain ⟨rest, hrest⟩ := List.head?_eq_some_iff.mp habs
  have htext :
      (output ++ "/" ++ page).toList = ['/'] ++ (rest ++ '/' :: page.toList) := by simp [hrest]
  have hcut : ∃ c ∈ rest ++ '/' :: page.toList, (fun c => decide (c ≠ '/')) c = false :=
    ⟨'/', by simp, by simp⟩
  rw [Slashed.directory, String.toList_ofList, Slashed.directoryChars, htext,
    dropEndWhile_append hcut]
  split
  · rfl
  · rename_i hall
    -- Something else than slashes is left behind the first one, so that one stays.
    have hother : ∃ c ∈ dropEndWhile (fun c => decide (c ≠ '/')) (rest ++ '/' :: page.toList),
        (fun c => decide (c = '/')) c = false := by
      simpa using hall
    rw [dropEndWhile_append hother]
    rfl

theorem mem_directory {c : Char} {s : String} (h : c ∈ (Slashed.directory s).toList) :
    c ∈ s.toList := by
  have hdrop : ∀ {p : Char → Bool} {cs : List Char}, c ∈ dropEndWhile p cs → c ∈ cs := by
    intro p cs hm
    rw [dropEndWhile, List.mem_reverse] at hm
    exact List.mem_reverse.mp ((List.dropWhile_sublist _).subset hm)
  rw [Slashed.directory, String.toList_ofList, Slashed.directoryChars] at h
  split at h
  · exact hdrop h
  · exact hdrop (hdrop h)

/-- Where a link leads that stands in a directory: its segments are walked from there. A walk beyond
the root leads nowhere. -/
def landing? (directory link : String) : Option String :=
  let segments := pieces '/' directory ++ pieces '/' link
  if Segments.climbs 0 segments then none
  else some (Segments.rendered true (Segments.collapse segments))

/-- The text of a location other than the root ends in a name. -/
theorem text_at_end {l : Location} (hl : l ≠ []) (hn : ∀ n ∈ l, IsStep n) :
    ∃ cs c, (Path.at l).text.toList = cs ++ [c] ∧ c ≠ '/' := by
  obtain ⟨k, n, rfl⟩ := exists_snoc hl
  have hstep := hn n (by simp)
  have hne : n.toList ≠ [] := by
    intro he
    exact hstep.ne_empty (String.toList_inj.mp (he.trans String.toList_empty.symm))
  obtain ⟨cs, c, hc⟩ := exists_snoc hne
  obtain ⟨front, hfront⟩ := intercalate_snoc k
  refine ⟨'/' :: front.toList ++ cs, c, ?_, fun e => hstep.noSlash (by simp [hc, e])⟩
  rw [Path.toList_text_at, hfront, String.toList_append, hc]
  simp

theorem directory_root {n : String} (hn : '/' ∉ n.toList) : Slashed.directory ("/" ++ n) = "/" := by
  have hname : ∀ x ∈ n.toList, (fun c => decide (c ≠ '/')) x = true := by
    intro x hx
    simpa using fun e : x = '/' => hn (e ▸ hx)
  have htext : ("/" ++ n).toList = ['/'] ++ n.toList := by simp
  apply String.toList_inj.mp
  rw [Slashed.directory, String.toList_ofList, Slashed.directoryChars, htext,
    dropEndWhile_all hname]
  rfl

/-- The directory and the last segment of a location. The root lies in itself. -/
theorem directory_at {l : Location} (hn : ∀ n ∈ l, IsStep n) :
    ∃ dirs name, Slashed.directory (Path.at l).text = (Path.at dirs).text ∧
      Slashed.last (Path.at l).text = name ∧
      (l = dirs ++ [name] ∨ l = [] ∧ dirs = [] ∧ name = "") := by
  by_cases hl : l = []
  · subst hl
    exact ⟨[], "", by decide, by decide, .inr ⟨rfl, rfl, rfl⟩⟩
  · obtain ⟨dirs, name, rfl⟩ := exists_snoc hl
    have hslash : ∀ n ∈ dirs ++ [name], '/' ∉ n.toList := fun n h => (hn n h).noSlash
    refine ⟨dirs, name, ?_, ?_, .inl rfl⟩
    · by_cases hd : dirs = []
      · subst hd
        have htext : (Path.at ([] ++ [name])).text = "/" ++ name := by simp [Path.text_at]
        rw [htext, directory_root (hslash name (by simp))]
        decide
      · obtain ⟨cs, c, hend, hc⟩ := text_at_end hd fun n h => hn n (by simp [h])
        rw [Path.text_snoc hd]
        exact directory_append hend hc (hslash name (by simp))
    · have hp : pieces '/' (Path.at (dirs ++ [name])).text = ("" :: dirs) ++ [name] := by
        rw [Path.pieces_text_at hslash, if_neg hl, List.cons_append]
      simp only [Slashed.last, lastPiece_eq, hp, List.getLast_concat]

/-- Two locations have the root in common, and nothing else counts unless they share a directory. -/
theorem common_at {ds dirs : Location} {common : List String} (hd : ∀ n ∈ ds, IsStep n)
    (hdirs : ∀ n ∈ dirs, IsStep n)
    (hfront : CommonFront common (pieces '/' (Path.at ds).text) (pieces '/' (Path.at dirs).text))
    (htwo : 2 ≤ common.length) :
    (ds = [] ∧ dirs = [] ∧ common = ["", ""]) ∨
      ∃ shared, common = "" :: shared ∧ ds ≠ [] ∧ dirs ≠ [] ∧ CommonFront shared ds dirs := by
  rw [Path.pieces_text_at fun n h => (hd n h).noSlash,
    Path.pieces_text_at fun n h => (hdirs n h).noSlash] at hfront
  obtain ⟨shared, hshared, _⟩ :=
    commonLength_front (if ds = [] then [""] else ds) (if dirs = [] then [""] else dirs)
  obtain rfl := hfront.unique (hshared.cons "")
  obtain ⟨s, shared, rfl⟩ : ∃ s rest, shared = s :: rest := by
    cases shared with
    | nil => simp at htwo
    | cons s rest => exact ⟨s, rest, rfl⟩
  by_cases hds : ds = [] <;> by_cases hdd : dirs = []
  · refine .inl ⟨hds, hdd, ?_⟩
    have hcommon := hshared.left
    rw [if_pos hds, List.cons_prefix_cons, List.prefix_nil] at hcommon
    rw [hcommon.1, hcommon.2]
  · have hs := hshared.left.subset (List.mem_cons_self ..)
    have hs' := hshared.right.subset (List.mem_cons_self ..)
    rw [if_pos hds, List.mem_singleton] at hs
    rw [if_neg hdd] at hs'
    exact absurd hs (hdirs s hs').ne_empty
  · have hs := hshared.left.subset (List.mem_cons_self ..)
    have hs' := hshared.right.subset (List.mem_cons_self ..)
    rw [if_pos hdd, List.mem_singleton] at hs'
    rw [if_neg hds] at hs
    exact absurd hs' (hd s hs).ne_empty
  · rw [if_neg hds, if_neg hdd] at hshared
    exact .inr ⟨s :: shared, rfl, hds, hdd, hshared⟩

/-- The root in front of a walk from a location makes no difference. -/
theorem walk_at {l : Location} (hn : ∀ n ∈ l, IsStep n) (ps : List String) :
    Segments.climbs 0 (pieces '/' (Path.at l).text ++ ps) = Segments.climbs 0 (l ++ ps) ∧
      Segments.collapse (pieces '/' (Path.at l).text ++ ps) = Segments.collapse (l ++ ps) := by
  rw [Path.pieces_text_at fun n h => (hn n h).noSlash]
  have hdropped : Segments.isDropped "" = true := by decide
  by_cases hl : l = []
  · subst hl
    simp [Segments.climbs, Segments.collapse, Segments.collapseFrom, hdropped]
  · simp [hl, Segments.climbs, Segments.collapse, Segments.collapseFrom, hdropped]

/-- The route up to a shared directory and down again leads from one location to the other. -/
theorem landing_route {shared ups downs : List String} {name : String}
    (hup : ∀ n ∈ shared ++ ups, IsStep n) (hdown : ∀ n ∈ downs ++ [name], IsStep n) :
    landing? (Path.at (shared ++ ups)).text (route ups.length downs ++ name) =
      some (Path.at (shared ++ (downs ++ [name]))).text := by
  have hups : ∀ s ∈ shared ++ ups, Segments.isDropped s = false ∧ s ≠ ".." :=
    fun s h => ⟨(hup s h).notDropped, (hup s h).notUp⟩
  have hdowns : ∀ s ∈ downs ++ [name], Segments.isDropped s = false ∧ s ≠ ".." :=
    fun s h => ⟨(hdown s h).notDropped, (hdown s h).notUp⟩
  obtain ⟨hclimbs, hcollapse⟩ := walk_at hup (List.replicate ups.length ".." ++ (downs ++ [name]))
  dsimp only [landing?]
  rw [pieces_route fun s h => (hdown s h).noSlash, hclimbs, hcollapse,
    Segments.climbs_route hups hdowns, Segments.collapse_route hups hdowns, Path.text_at]
  rfl

/-- The link that is made when two locations share a directory: it leads from one to the other, and
it goes up only at its start. -/
theorem near_leads {ds ss : Location} {common : List String} (hd : ∀ n ∈ ds, IsStep n)
    (hs : ∀ n ∈ ss, IsStep n)
    (hfront : CommonFront common (pieces '/' (Path.at ds).text)
      (pieces '/' (Slashed.directory (Path.at ss).text)))
    (htwo : 2 ≤ common.length) :
    ∃ rest, route ((pieces '/' (Path.at ds).text).length - common.length)
          ((pieces '/' (Slashed.directory (Path.at ss).text)).drop common.length) ++
          Slashed.last (Path.at ss).text =
        String.join
          (List.replicate ((pieces '/' (Path.at ds).text).length - common.length) "../") ++ rest ∧
      ".." ∉ pieces '/' rest ∧
      landing? (Path.at ds).text
        (String.join
          (List.replicate ((pieces '/' (Path.at ds).text).length - common.length) "../") ++ rest) =
          some (Path.at ss).text := by
  obtain ⟨dirs, name, hdir, hlast, hparts⟩ := directory_at hs
  have hdirs : ∀ n ∈ dirs, IsStep n := by
    intro n hn
    rcases hparts with rfl | ⟨_, rfl, _⟩
    · exact hs n (by simp [hn])
    · cases hn
  rw [hdir] at hfront ⊢
  rw [hlast]
  have hslash : ∀ n ∈ ds, '/' ∉ n.toList := fun n h => (hd n h).noSlash
  have hslash' : ∀ n ∈ dirs, '/' ∉ n.toList := fun n h => (hdirs n h).noSlash
  rw [Path.pieces_text_at hslash, Path.pieces_text_at hslash']
  rcases common_at hd hdirs hfront htwo with ⟨rfl, rfl, rfl⟩ | ⟨shared, rfl, hne, hne', hshared⟩
  · -- Both stand in the root.
    refine ⟨name, rfl, ?_⟩
    rcases hparts with rfl | ⟨rfl, _, rfl⟩
    · have hname := hs name (by simp)
      refine ⟨?_, ?_⟩
      · rw [pieces_of_not_mem hname.noSlash, List.mem_singleton]
        exact fun h => hname.notUp h.symm
      · have hland :
            landing? (Path.at ([] ++ [])).text (route ([] : List String).length [] ++ name) =
              some (Path.at ([] ++ ([] ++ [name]))).text :=
          landing_route (by simp) (by simpa using hname)
        simpa [route] using hland
    · exact ⟨by decide, by decide⟩
  · obtain ⟨ups, rfl⟩ := hshared.left
    obtain ⟨downs, rfl⟩ := hshared.right
    obtain rfl : ss = shared ++ downs ++ [name] := by
      rcases hparts with h | ⟨_, h, _⟩
      · exact h
      · exact absurd h hne'
    have hdown : ∀ n ∈ downs ++ [name], IsStep n := by
      intro n h
      apply hs
      rw [List.append_assoc]
      exact List.mem_append_right _ h
    have hlevels : ("" :: (shared ++ ups)).length - ("" :: shared).length = ups.length := by simp
    have hdowns : ("" :: (shared ++ downs)).drop ("" :: shared).length = downs := by simp
    rw [if_neg hne, if_neg hne', hlevels, hdowns, route_eq]
    refine ⟨_, rfl, ?_, ?_⟩
    · rw [pieces_intercalate (by simp) fun n h => (hdown n h).noSlash]
      exact fun h => (hdown ".." h).notUp rfl
    · rw [← route_eq, landing_route hd hdown, List.append_assoc]

/-- The link from a directory below the root to a source, by what the two share. -/
theorem sourceLinkFrom_eq {page directory source : String} {common : List String}
    (hroot : (pieces '/' directory).head? = some "")
    (hfront : CommonFront common (pieces '/' directory) (pieces '/' (Slashed.directory source))) :
    sourceLinkFrom page directory source =
      if 2 ≤ common.length ∧ (pieces '/' directory).length - common.length ≤ 5 then
        .near (route ((pieces '/' directory).length - common.length)
          ((pieces '/' (Slashed.directory source)).drop common.length) ++ Slashed.last source)
      else .far page ((pieces '/' directory).length - common.length)
        (Slashed.stem page ++ (Path.ofText source).suffix) := by
  simp only [sourceLinkFrom, hfront.commonLength, hroot, maxLevels]
  by_cases hnear : 2 ≤ common.length ∧ (pieces '/' directory).length - common.length ≤ 5
  · rw [if_pos hnear, if_neg]
    simp only [Bool.or_eq_true, Bool.and_eq_true, decide_eq_true_eq]
    omega
  · rw [if_neg hnear, if_pos]
    simp only [Bool.or_eq_true, Bool.and_eq_true, decide_eq_true_eq, and_true]
    omega

/-- A path text is cut into its stem and its ending at the last dot of its last segment, unless
nothing but dots stands before that dot. -/
inductive Cut (text : String) : String → String → Prop where
  | bare (undotted : '.' ∉ (Slashed.last text).toList.dropWhile (· = '.')) : Cut text text ""
  | dotted {stem ending : String} (whole : text = stem ++ "." ++ ending)
      (last : '.' ∉ ending.toList) (inside : '/' ∉ ending.toList)
      (named : ∃ c ∈ (Slashed.last stem).toList, c ≠ '.') : Cut text stem ("." ++ ending)

theorem stem_cut (text : String) : ∃ ending, Cut text (Slashed.stem text) ending := by
  by_cases hdot : ((Slashed.last text).toList.dropWhile (· = '.')).contains '.' = true
  · obtain ⟨dirs, n, hp⟩ := exists_snoc (pieces_ne_nil '/' text)
    have hslash : ∀ d ∈ dirs ++ [n], '/' ∉ d.toList := fun d hd => (mem_pieces (hp ▸ hd)).1
    obtain ⟨front, hfront⟩ := intercalate_snoc dirs
    have htext : text = front ++ n := by rw [← hfront, ← hp, intercalate_pieces]
    have hbehind : '.' ∈ n.toList.dropWhile (· = '.') := by
      rw [htext, ← hfront, last_intercalate hslash] at hdot
      exact List.contains_iff_mem.mp hdot
    obtain ⟨before, _, after, hn, rfl, hafter⟩ :=
      exists_last (P := (· = '.')) ⟨'.', (List.dropWhile_sublist _).subset hbehind, rfl⟩
    have hchars : text.toList = front.toList ++ before ++ ['.'] ++ after := by simp [htext, hn]
    have hstem : Slashed.stem text = front ++ String.ofList before := by
      rw [Slashed.stem, if_pos hdot, hchars, dropEndWhile_all (by simpa using hafter),
        dropEndWhile_snoc (by simp), List.dropLast_concat]
      apply String.toList_inj.mp
      simp
    have hnslash := hslash n (by simp)
    rw [hn, List.mem_append, List.mem_cons, not_or, not_or] at hnslash
    have hlast : Slashed.last (front ++ String.ofList before) = String.ofList before := by
      rw [← hfront]
      exact last_intercalate
        (forall_mem_snoc (fun d hd => hslash d (by simp [hd])) (by simpa using hnslash.1))
    refine ⟨"." ++ String.ofList after, hstem ▸ .dotted ?_ ?_ ?_ ?_⟩
    · apply String.toList_inj.mp
      simp [hchars]
    · simpa using fun h => hafter '.' h rfl
    · simpa using hnslash.2.2
    · -- If only dots stood before the last one, nothing behind them would hold a dot.
      rw [hlast, String.toList_ofList]
      apply Classical.byContradiction
      intro hnone
      have hdots : ∀ c ∈ before ++ ['.'], decide (c = '.') = true := by
        intro c hc
        rcases List.mem_append.mp hc with hc | hc
        · exact decide_eq_true (Classical.byContradiction fun hne => hnone ⟨c, hc, hne⟩)
        · simpa using hc
      have hsplit : n.toList = before ++ ['.'] ++ after := by simp [hn]
      rw [hsplit, List.dropWhile_append_of_pos hdots] at hbehind
      exact hafter '.' ((List.dropWhile_sublist _).subset hbehind) rfl
  · refine ⟨"", ?_⟩
    rw [Slashed.stem, if_neg hdot]
    exact .bare (by simpa using hdot)

/-- A link from a page to its source. Both ends can be normalized unless a null character is in the
way. If they share more than the root and at most five levels lead up to what they share, the link
goes up just so far, never again, and leads from the directory of the page to the source. Otherwise
it is the page with the suffix of the source in place of its own. -/
theorem toSource_leads_or_falls_back {fs : FileSystem} (hw : fs.WellFormed)
    (page source output : String) (houtput : Segments.startsAtRoot output = true)
    (hsource : Segments.startsAtRoot source = true) :
    ('\x00' ∉ output.toList → '\x00' ∉ page.toList → '\x00' ∉ source.toList → ∃ directory target,
      normalizePath fs (Slashed.directory (output ++ "/" ++ page)) = .ok directory ∧
      normalizePath fs source = .ok target) ∧
    ∀ directory target, normalizePath fs (Slashed.directory (output ++ "/" ++ page)) =
      .ok directory → normalizePath fs source = .ok target → ∃ common link,
        CommonFront common (pieces '/' directory) (pieces '/' (Slashed.directory target)) ∧
        toSource fs page source output = .ok link ∧
        (2 ≤ common.length ∧ (pieces '/' directory).length - common.length ≤ 5 →
          (∃ rest, link.text =
              String.join (List.replicate ((pieces '/' directory).length - common.length) "../") ++
                rest ∧
            ".." ∉ pieces '/' rest) ∧
          landing? directory link.text = some target) ∧
        (¬ (2 ≤ common.length ∧ (pieces '/' directory).length - common.length ≤ 5) →
          ∃ stem ending,
            Cut page stem ending ∧ link.text = stem ++ (Path.ofText target).suffix) := by
  have hdirectory := startsAtRoot_directory page houtput
  refine ⟨fun hzo hzp hzs => ?_, fun directory target hd ht => ?_⟩
  · have hz : '\x00' ∉ (Slashed.directory (output ++ "/" ++ page)).toList := by
      intro h
      have hm := mem_directory h
      rw [String.toList_append, String.toList_append, List.mem_append, List.mem_append] at hm
      rcases hm with (hm | hm) | hm
      · exact hzo hm
      · exact absurd hm (by decide)
      · exact hzp hm
    obtain ⟨directory, hd⟩ := exists_normalizePath hw hdirectory hz
    obtain ⟨target, ht⟩ := exists_normalizePath hw hsource hzs
    exact ⟨directory, target, hd, ht⟩
  · obtain ⟨ds, rfl, hds⟩ := normalizePath_steps hw hdirectory hd
    obtain ⟨ss, rfl, hss⟩ := normalizePath_steps hw hsource ht
    obtain ⟨common, hfront, _⟩ :=
      commonLength_front (pieces '/' (Path.at ds).text)
        (pieces '/' (Slashed.directory (Path.at ss).text))
    have hroot : (pieces '/' (Path.at ds).text).head? = some "" := by
      rw [Path.pieces_text_at fun n h => (hds n h).noSlash]
      rfl
    refine ⟨common, sourceLinkFrom page (Path.at ds).text (Path.at ss).text, hfront, ?_, ?_, ?_⟩
    · simp only [toSource, hd, ht, bind, Except.bind, pure, Except.pure]
    · intro hnear
      obtain ⟨rest, hlink, hrest, hlands⟩ := near_leads hds hss hfront hnear.1
      rw [sourceLinkFrom_eq hroot hfront, if_pos hnear, SourceLink.text, hlink]
      exact ⟨⟨rest, rfl, hrest⟩, hlands⟩
    · intro hfar
      obtain ⟨ending, hcut⟩ := stem_cut page
      rw [sourceLinkFrom_eq hroot hfront, if_neg hfar]
      exact ⟨_, ending, hcut, rfl⟩

/-- A project whose output directory is a link to a directory that is still missing. -/
def detour : FileSystem where
  entries := [(["p"], .directory), (["p", "src"], .directory), (["p", "src", "A.php"], .file ⟨#[]⟩),
    (["p", "out"], .link "docs")]

theorem toSource_leads_or_falls_back_detour :
    detour.WellFormed ∧ normalizePath detour "/p/out/x" = .ok "/p/docs/x" ∧
    ∃ link, toSource detour "x/A.md" "/p/src/A.php" "/p/out" = .ok link ∧
      landing? "/p/docs/x" link.text = some "/p/src/A.php" := by
  have hw : detour.WellFormed := FileSystem.wellFormed_of_check (by decide +kernel)
  have hdirectory :
      Slashed.directory ("/p/out" ++ "/" ++ "x/A.md") = "/p/out/x" := by decide +kernel
  have hd : normalizePath detour "/p/out/x" = .ok "/p/docs/x" := ok_of_toOption (by decide +kernel)
  have ht : normalizePath detour "/p/src/A.php" = .ok "/p/src/A.php" :=
    ok_of_toOption (by decide +kernel)
  obtain ⟨common, link, hfront, hlink, hnear, _⟩ :=
    (toSource_leads_or_falls_back hw "x/A.md" "/p/src/A.php" "/p/out" (by decide) (by decide)).2 _ _
      (hdirectory ▸ hd) ht
  have hcommon : common.length = 2 := by
    rw [← hfront.commonLength]
    decide +kernel
  have hlength : (pieces '/' "/p/docs/x").length = 4 := by decide +kernel
  exact ⟨hw, hd, link, hlink, (hnear (by rw [hcommon, hlength]; decide)).2⟩

end Link

end PhpPages
