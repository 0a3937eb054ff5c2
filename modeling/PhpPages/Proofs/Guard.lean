import PhpPages.Proofs.Boundary
import PhpPages.Proofs.Changes
import PhpPages.Proofs.Runs

namespace PhpPages

open Text

namespace Segments

theorem dropTrailing_ne_slash (s : String) : dropTrailing ['/'] s ≠ "/" := by
  intro h
  have hd : s.toList.reverse.dropWhile ['/'].contains = ['/'] := by
    have hl := congrArg (fun t => t.toList.reverse) h
    simpa [dropTrailing] using hl
  have hne : s.toList.reverse.dropWhile ['/'].contains ≠ [] := by simp [hd]
  have hhead := List.head_dropWhile_not ['/'].contains hne
  simp [hd] at hhead

/-- What lies below a location reads as lying wherever the location does. -/
theorem isWithin_below {l x : Location} {out : String} (hx : l <+: x)
    (h : isWithin (Path.at l).text out = true) : isWithin (Path.at x).text out = true := by
  obtain ⟨rest, rfl⟩ := hx
  have hslash : slashed "/" = "/" := by decide
  rw [isWithin_iff] at h ⊢
  by_cases hr : rest = []
  · simpa [hr] using h
  by_cases hl : l = []
  · subst hl
    -- Only the empty piece in front is common: no text without slashes at its end is the root.
    have hroot : pieces '/' (slashed (Path.at []).text) = ["", ""] := by decide
    rw [hroot] at h
    have hp : pieces '/' (dropTrailing ['/'] (slashed out)) = [""] := by
      obtain ⟨t, ht⟩ := h
      have hi := intercalate_pieces (dropTrailing ['/'] (slashed out))
      have hne := pieces_ne_nil '/' (dropTrailing ['/'] (slashed out))
      have hns := dropTrailing_ne_slash (slashed out)
      revert ht hi hne
      generalize pieces '/' (dropTrailing ['/'] (slashed out)) = ps
      intro ht hi hne
      match ps with
      | [] => exact absurd rfl hne
      | [p] => simp_all
      | [p, q] =>
        simp only [List.cons_append, List.nil_append, List.cons.injEq] at ht
        obtain ⟨rfl, rfl, _⟩ := ht
        exact absurd hi.symm hns
      | p :: q :: r :: ps => simp at ht
    rw [hp, Path.text_at, slashed_append, hslash, pieces_slash_append]
    simp
  · rw [Path.text_append hl hr, slashed_append, slashed_append, hslash, pieces_append_slash]
    exact h.trans (List.prefix_append _ _)

end Segments

namespace FileSystem

/-- A path that is written the way it leads. -/
def Resolved (fs : FileSystem) (p : Path) : Prop :=
  ∃ l, p = Path.at l ∧ fs.Denotes (Path.at l) l

theorem Stands.resolved {fs : FileSystem} (hw : fs.WellFormed) {l : Location} (h : fs.Stands l) :
    fs.Resolved (Path.at l) :=
  ⟨l, rfl, (h.linkFree hw).denotes (h.names hw)⟩

theorem Denotes.resolved {fs : FileSystem} (hw : fs.WellFormed) {p : Path} {l : Location}
    (h : fs.Denotes p l) : fs.Resolved (Path.at l) := by
  obtain ⟨start, us, hs, hl⟩ := h
  have hstart := startOf_stands hw hs
  exact ⟨l, rfl, (hl.linkFree (hstart.linkFree hw)).denotes (hl.names (hstart.names hw))⟩

/-- A path whose front exists is found where it leads from there on. -/
theorem resolveStrict_behind {fs : FileSystem} (hw : fs.WellFormed) {p : Path} {j : Nat}
    {x l : Location} {followLast : Bool} {e : Entry}
    (hp : ∀ s ∈ p.segments, '/' ∉ s.toList ∧ '\x00' ∉ s.toList)
    (found : fs.resolveStrict ⟨p.anchor, p.segments.take j⟩ = .ok x)
    (hl : (fs.lookup followLast (Path.at (x ++ p.segments.drop j))).place? = some (l, some e))
    (he : ∀ t, e ≠ .link t) : fs.resolveStrict p = .ok l := by
  have hslash : ∀ s ∈ p.segments, '/' ∉ s.toList := fun s hs => (hp s hs).1
  obtain ⟨_, hx⟩ := resolveStrict_denotes hw (fun s hs => hslash s (List.mem_of_mem_take hs)) found
  obtain ⟨_, hs, ha, hentry⟩ := lookup_arrives hw hl (by simpa using he)
  obtain rfl := Option.some.inj hs
  obtain ⟨us, hlead⟩ : ∃ us, Leads fs true [] (x ++ p.segments.drop j) l us := by
    apply ha.leads hw _ fun _ => ⟨e, hentry, he⟩
    intro n hn
    rcases List.mem_append.mp hn with hn | hn
    · exact ⟨(hx.names hw n hn).noSlash, (hx.names hw n hn).noNull⟩
    · exact hp n (List.mem_of_mem_drop hn)
  exact (resolveStrict_iff hslash).mpr (leads_behind hw hslash found hlead)

end FileSystem

theorem Boundary.plain_behind {fs : FileSystem} (hw : fs.WellFormed) (hb : fs.NoBackslash)
    {candidate : Path} {j : Nat} {x : Location} (hc : ∀ s ∈ candidate.segments, IsPlain s)
    (found : fs.resolveStrict ⟨candidate.anchor, candidate.segments.take j⟩ = .ok x) :
    ∀ n ∈ x ++ candidate.segments.drop j, IsPlain n := by
  intro n hn
  rcases List.mem_append.mp hn with hn | hn
  · have hslash : ∀ s ∈ candidate.segments.take j, '/' ∉ s.toList :=
      fun s hs => (hc s (List.mem_of_mem_take hs)).noSlash
    exact (FileSystem.resolveStrict_denotes hw hslash found).2.plain hw hb n hn
  · exact hc n (List.mem_of_mem_drop hn)

/-- Where something stands at the path that was returned for plain names, these were found. -/
theorem Boundary.Accepted.found {fs : FileSystem} (hw : fs.WellFormed) (hb : fs.NoBackslash)
    {root : Location} {candidate p : Path} (h : Accepted fs root candidate p)
    (hc : ∀ s ∈ candidate.segments, IsPlain s) {followLast : Bool} {l : Location} {e : Entry}
    (hl : (fs.lookup followLast p).place? = some (l, some e)) (he : ∀ t, e ≠ .link t) :
    ∃ x, fs.resolveStrict candidate = .ok x := by
  cases h with
  | existing found => exact ⟨_, found⟩
  | missing _ _ found =>
    rw [reread_plain (plain_behind hw hb hc found)] at hl
    exact ⟨l, FileSystem.resolveStrict_behind hw (fun s hs => ⟨(hc s hs).noSlash, (hc s hs).noNull⟩)
      found hl he⟩

namespace Site

theorem guardOutput_ok {fs : FileSystem} {plan : Plan} {output : Path} {sources : List Path} :
    guardOutput fs plan output sources = .ok () ↔
      ∃ root, fs.resolveLenient plan.root = .ok root ∧ output ≠ Path.at root ∧
        ∀ p ∈ sources, Segments.isWithin p.text output.text = false := by
  unfold guardOutput
  rw [bind_eq_ok]
  refine exists_congr fun root => ?_
  rw [resolving, mapError_eq_ok]
  refine and_congr_right fun _ => ?_
  by_cases hroot : output = Path.at root
  · simp [hroot, bind, Except.bind, throw, throwThe, MonadExceptOf.throw]
  · simp only [hroot, ↓reduceIte, ne_eq, not_false_eq_true, true_and]
    cases hf : sources.find? fun source => Segments.isWithin source.text output.text with
    | none => simpa [pure, Except.pure] using hf
    | some p =>
      simp only [throw, throwThe, MonadExceptOf.throw, reduceCtorEq, false_iff]
      intro hall
      simpa [hall p (List.mem_of_find?_eq_some hf)] using List.find?_some hf

theorem prepare_iff {fs : FileSystem} {s : Settings} {plan : Plan} {output : Path}
    {sources : List Path} :
    prepare fs s = .ok (plan, output, sources) ↔ Settings.problems s = [] ∧
      (fs.here = none → filled? (s.text? "project_root") ≠ none) ∧ plan = planOf s fs.here ∧
      places fs plan = .ok (output, sources) ∧ guardOutput fs plan output sources = .ok () := by
  unfold prepare
  by_cases hproblems : Settings.problems s = []
  · by_cases hgone : fs.here = none ∧ filled? (s.text? "project_root") = none
    · simp [hproblems, hgone.1, hgone.2, bind, Except.bind, throw, throwThe, MonadExceptOf.throw]
    · have hroot : (fs.here.isNone && (filled? (s.text? "project_root")).isNone) = false := by
        rw [← Bool.not_eq_true, Bool.and_eq_true, Option.isNone_iff_eq_none,
          Option.isNone_iff_eq_none]
        exact hgone
      simp only [hproblems, List.isEmpty_nil, Bool.not_true, hroot, Bool.false_eq_true,
        ↓reduceIte, bind_eq_ok]
      constructor
      · rintro ⟨⟨o, ss⟩, hplaces, _, hguard, hret⟩
        cases hret
        exact ⟨trivial, fun hh hn => hgone ⟨hh, hn⟩, rfl, hplaces, hguard⟩
      · rintro ⟨_, _, rfl, hplaces, hguard⟩
        exact ⟨_, hplaces, _, hguard, rfl⟩
  · simp [hproblems, bind, Except.bind, throw, throwThe, MonadExceptOf.throw]

theorem prepare_ok {fs : FileSystem} {s : Settings} {plan : Plan} {output : Path}
    {sources : List Path} (h : prepare fs s = .ok (plan, output, sources)) :
    plan = planOf s fs.here ∧ places fs plan = .ok (output, sources) ∧
    guardOutput fs plan output sources = .ok () :=
  (prepare_iff.mp h).2.2

theorem planOf_root {fs : FileSystem} (hw : fs.WellFormed) (s : Settings) :
    ∀ n ∈ (planOf s fs.here).root.segments, '/' ∉ n.toList := by
  simp only [planOf]
  split
  · exact Path.ofText_noSlash
  · intro n hn
    cases hh : fs.here with
    | none => simp [hh, Path.at] at hn
    | some here =>
      simp only [hh, Option.getD_some, Path.at] at hn
      exact (hw.named (hw.here hh) n hn).noSlash

/-- A place is written as a list of names from the root. -/
theorem place_names {fs : FileSystem} (hw : fs.WellFormed) {s : Settings} {path label : String}
    {p : Path} (h : place fs (planOf s fs.here) path label = .ok p) :
    ∃ l, p = Path.at l ∧ ∀ n ∈ l, IsName n := by
  unfold place at h
  split at h
  · simp only [absolute, resolving, bind_eq_ok, mapError_eq_ok, pure, Except.pure,
      Except.ok.injEq] at h
    obtain ⟨l, hl, rfl⟩ := h
    refine ⟨l, rfl, FileSystem.resolve_names hw (fun n hn => ?_) hl⟩
    unfold Path.join at hn
    split at hn
    · exact Path.ofText_noSlash n hn
    · rcases List.mem_append.mp hn with hn | hn
      · exact planOf_root hw s n hn
      · exact Path.ofText_noSlash n hn
  · rw [mapError_eq_ok] at h
    obtain ⟨root, hroot⟩ := Boundary.check_root h
    obtain ⟨hz, hacc⟩ := Boundary.check_accepted hw hroot h
    exact hacc.names hw Path.ofText_noSlash hz

/-- The places of a run are the places of the configured paths. -/
theorem places_ok {fs : FileSystem} {plan : Plan} {output : Path} {sources : List Path}
    (h : places fs plan = .ok (output, sources)) :
    place fs plan plan.output "Output path" = .ok output ∧
      ∀ p ∈ sources, ∃ path ∈ plan.sources, place fs plan path "Source directory" = .ok p := by
  simp only [places, bind_eq_ok, pure, Except.pure, Except.ok.injEq, Prod.mk.injEq] at h
  obtain ⟨o, ho, ss, hss, rfl, rfl⟩ := h
  exact ⟨ho, mem_of_mapM_ok hss⟩

/-- The places of a run are paths of names from the root of the file system. -/
theorem prepare_names {fs : FileSystem} (hw : fs.WellFormed) {s : Settings} {plan : Plan}
    {output : Path} {sources : List Path} (h : prepare fs s = .ok (plan, output, sources)) :
    (∃ l, output = Path.at l ∧ ∀ n ∈ l, IsName n) ∧ ∀ d ∈ sources, ∃ l, d = Path.at l ∧ ∀ n ∈ l,
    IsName n := by
  obtain ⟨rfl, hplaces, _⟩ := prepare_ok h
  obtain ⟨houtput, hsources⟩ := places_ok hplaces
  refine ⟨place_names hw houtput, ?_⟩
  intro d hd
  obtain ⟨path, _, hpath⟩ := hsources d hd
  exact place_names hw hpath

/-- A configured path that can be followed: to something that exists, or, unchecked,
without a loop. -/
def Followable (fs : FileSystem) (plan : Plan) (path : String) : Prop :=
  if plan.unchecked then ∃ l, fs.Denotes (plan.root.join (Path.ofText path)) l
  else ∃ root l, fs.resolveStrict (Path.ofText plan.root.text) = .ok root ∧
    fs.resolveStrict (Path.ofText (Boundary.candidateFor root path)) = .ok l

/-- A configured path that is checked and neither goes back nor holds a backslash, where no name and
no link target holds one. -/
structure Straight (fs : FileSystem) (plan : Plan) (path : String) : Prop where
  checked : plan.unchecked = false
  noBackslash : fs.NoBackslash
  segments : ∀ root, fs.resolveStrict (Path.ofText plan.root.text) = .ok root →
    ∀ s ∈ (Path.ofText (Boundary.candidateFor root path)).segments, s ≠ ".." ∧ '\\' ∉ s.toList

theorem Straight.plain {fs : FileSystem} {plan : Plan} {path : String} (hs : Straight fs plan path)
    {root : Location} (hroot : fs.resolveStrict (Path.ofText plan.root.text) = .ok root)
    (hnull : ∀ s ∈ (Path.ofText (Boundary.candidateFor root path)).segments, '\x00' ∉ s.toList) :
    ∀ s ∈ (Path.ofText (Boundary.candidateFor root path)).segments, IsPlain s := by
  intro s hm
  obtain ⟨hup, hback⟩ := hs.segments root hroot s hm
  obtain ⟨hd, hslash, _⟩ := Path.mem_textSegments hm
  exact ⟨⟨hd, hup, hslash, hnull s hm⟩, hback⟩

theorem Straight.followable {fs : FileSystem} (hw : fs.WellFormed) {plan : Plan}
    {path label : String} {p : Path} (hs : Straight fs plan path)
    (h : place fs plan path label = .ok p) {followLast : Bool} {l : Location} {e : Entry}
    (hl : (fs.lookup followLast p).place? = some (l, some e)) (he : ∀ t, e ≠ .link t) :
    Followable fs plan path := by
  unfold place at h
  unfold Followable
  simp only [hs.checked, Bool.false_eq_true, ↓reduceIte, mapError_eq_ok] at h ⊢
  obtain ⟨root, hroot⟩ := Boundary.check_root h
  obtain ⟨hnull, hacc⟩ := Boundary.check_accepted hw hroot h
  obtain ⟨x, hx⟩ := hacc.found hw hs.noBackslash (hs.plain hroot hnull) hl he
  exact ⟨root, x, hroot, hx⟩

theorem Followable.resolved {fs : FileSystem} (hw : fs.WellFormed) {plan : Plan}
    {path label : String} {p : Path} (hf : Followable fs plan path)
    (h : place fs plan path label = .ok p) : fs.Resolved p := by
  unfold Followable at hf
  unfold place at h
  cases hu : plan.unchecked with
  | true =>
    simp only [hu, ↓reduceIte] at hf h
    obtain ⟨l, hl⟩ := hf
    simp only [absolute, resolving, bind_eq_ok, mapError_eq_ok, hl.resolveLenient, Except.ok.injEq,
      pure, Except.pure] at h
    obtain ⟨_, rfl, rfl⟩ := h
    exact hl.resolved hw
  | false =>
    simp only [hu, Bool.false_eq_true, ↓reduceIte, mapError_eq_ok] at hf h
    obtain ⟨root, l, hroot, hl⟩ := hf
    obtain ⟨_, hacc⟩ := Boundary.check_accepted hw hroot h
    cases hacc with
    | existing found =>
      exact (FileSystem.resolveStrict_denotes hw Path.ofText_noSlash found).2.resolved hw
    | missing absent =>
      rw [hl] at absent
      cases absent

/-- Deleting what stands at a location costs neither the project nor a source directory. -/
structure Spared (fs : FileSystem) (plan : Plan) (l : Location) (sources : List Path) : Prop where
  root : ∀ x, fs.Denotes plan.root x → l ≠ x
  sources : ∀ p ∈ sources, ∀ x, fs.Denotes p x → ¬ l <+: x

/-- For resolved sources the guard is right exactly if the place it protects reads as lying in
the output path. -/
theorem guardOutput_iff {fs : FileSystem} (hw : fs.WellFormed) {plan : Plan} {output : Path}
    {l root : Location} (hroot : fs.resolveLenient plan.root = .ok root)
    (hne : output ≠ Path.at root) (hl : fs.Stands l) :
    (∀ sources, (∀ p ∈ sources, fs.Resolved p) → guardOutput fs plan output sources = .ok () →
      ∀ p ∈ sources, ∀ x, fs.Denotes p x → ¬ l <+: x) ↔
      Segments.isWithin (Path.at l).text output.text = true := by
  constructor
  · intro h
    cases hin : Segments.isWithin (Path.at l).text output.text with
    | true => rfl
    | false =>
      have hok : guardOutput fs plan output [Path.at l] = .ok () :=
        guardOutput_ok.mpr ⟨root, hroot, hne, by simpa using hin⟩
      have hlost := h [Path.at l] (by simpa using hl.resolved hw) hok (Path.at l) (by simp) l
        ((hl.linkFree hw).denotes (hl.names hw))
      exact absurd (List.prefix_refl l) hlost
  · intro hin sources hres hok p hp x hx hlx
    obtain ⟨_, _, _, hall⟩ := guardOutput_ok.mp hok
    obtain ⟨y, rfl, hy⟩ := hres p hp
    have he := hx.unique hy
    subst he
    have hread := Segments.isWithin_below hlx hin
    rw [hall _ hp] at hread
    cases hread

/-- When a run goes on to delete its output directory, the project and the source directories are
spared if the output path and the sources are resolved. They are when the configured paths can be
followed, and for the output path it is enough that it is straight. Whether every list of resolved
sources would be spared depends on the output path alone: it is the case exactly if the place to be
cleared reads as lying in it. -/
theorem deletion_spares_sources {fs cleared : FileSystem} {s : Settings} {plan : Plan}
    {output : Path} {sources : List Path} (hw : fs.WellFormed)
    (hprep : prepare fs s = .ok (plan, output, sources))
    (hdel : fs.clearDirectory output = .ok cleared) :
    ∃ l, fs.Denotes output l ∧ cleared = fs.clear l ∧
      (Followable fs plan plan.output ∨ Straight fs plan plan.output → fs.Resolved output) ∧
      ((∀ path ∈ plan.sources, Followable fs plan path) → ∀ p ∈ sources, fs.Resolved p) ∧
      (fs.Resolved output → (∀ p ∈ sources, fs.Resolved p) → Spared fs plan l sources) ∧
      ((∀ others, (∀ p ∈ others, fs.Resolved p) → guardOutput fs plan output others = .ok () →
          ∀ p ∈ others, ∀ x, fs.Denotes p x → ¬ l <+: x) ↔
        Segments.isWithin (Path.at l).text output.text = true) := by
  obtain ⟨rfl, hplaces, hguard⟩ := prepare_ok hprep
  obtain ⟨houtput, hsources⟩ := places_ok hplaces
  obtain ⟨root, hroot, hne, hall⟩ := guardOutput_ok.mp hguard
  obtain ⟨l, hlookup, rfl⟩ := FileSystem.clearDirectory_ok hdel
  obtain ⟨o, rfl, hnames⟩ := place_names hw houtput
  have hplace : (fs.lookup false (Path.at o)).place? = some (l, some .directory) := by
    rw [hlookup]
    rfl
  obtain ⟨hl, hentry⟩ := FileSystem.lookup_denotes hw
    (fun n hn => ⟨(hnames n hn).noSlash, (hnames n hn).noNull⟩) hplace (by simp)
  have hiff := guardOutput_iff hw hroot hne (FileSystem.stands_directory hentry)
  refine ⟨l, hl, rfl, ?_, fun hf p hp => ?_, fun hres hsrc => ⟨fun x hx hlx => ?_, ?_⟩, hiff⟩
  · rintro (hf | hs)
    · exact hf.resolved hw houtput
    · exact (hs.followable hw houtput hplace (by simp)).resolved hw houtput
  · obtain ⟨path, hpath, hp⟩ := hsources p hp
    exact (hf path hpath).resolved hw hp
  · obtain ⟨y, hy, hden⟩ := hres
    rw [← hy] at hden
    have hroot' := Except.ok.inj (hroot.symm.trans hx.resolveLenient)
    rw [hl.unique hden] at hlx
    exact hne (by rw [hy, hlx, hroot'])
  · obtain ⟨y, hy, hden⟩ := hres
    rw [← hy] at hden
    refine hiff.mpr ?_ sources hsrc hguard
    rw [hl.unique hden, hy]
    exact Segments.isWithin_refl _

/-- A project in which a link is another way to the sources. -/
def aliased : FileSystem where
  entries :=
    [(["real"], .directory), (["real", "y"], .directory), (["real", "y", "A.php"], .file .empty),
      (["x"], .link "real"), (["docs"], .directory)]

def aliasedSettings (output : String) : Settings :=
  [(.text "output_path", .text output), (.text "source_directories", Settings.texts ["real/y"]),
    (.text "project_root", .text "/")]

theorem wellFormed_aliased : aliased.WellFormed :=
  FileSystem.wellFormed_of_check (by decide +kernel)

theorem deletion_spares_sources_aliased :
    ∃ plan, prepare aliased (aliasedSettings "docs") =
        .ok (plan, Path.at ["docs"], [Path.at ["real", "y"]]) ∧
      Spared aliased plan ["docs"] [Path.at ["real", "y"]] := by
  obtain ⟨⟨plan, places⟩, hprep, hplaces⟩ := exists_of_toOption (f := (·.2))
    (x := prepare aliased (aliasedSettings "docs"))
    (b := (Path.at ["docs"], [Path.at ["real", "y"]]))
    (by decide +kernel)
  obtain rfl : places = (Path.at ["docs"], [Path.at ["real", "y"]]) := hplaces
  obtain ⟨cleared, hdel, _⟩ := exists_of_toOption (f := fun fs : FileSystem => fs.entry? ["docs"])
    (x := aliased.clearDirectory (Path.at ["docs"])) (b := some .directory) (by decide +kernel)
  have hdocs : aliased.Stands ["docs"] := FileSystem.stands_directory (by decide)
  have hreal : aliased.Stands ["real", "y"] := FileSystem.stands_directory (by decide)
  obtain ⟨l, hl, _, _, _, hsafe, _⟩ := deletion_spares_sources wellFormed_aliased hprep hdel
  obtain rfl : l = ["docs"] :=
    hl.unique ((hdocs.linkFree wellFormed_aliased).denotes (hdocs.names wellFormed_aliased))
  exact ⟨plan, hprep, hsafe (hdocs.resolved wellFormed_aliased)
    (by simpa using hreal.resolved wellFormed_aliased)⟩

/-- An output path that goes back behind a missing name comes out as it is written, and the sources
that it leads to are deleted. -/
theorem deletion_takes_source :
    ∃ plan cleared, prepare aliased (aliasedSettings "new/../x/y") =
        .ok (plan, Path.at ["x", "y"], [Path.at ["real", "y"]]) ∧
      aliased.Denotes (Path.at ["x", "y"]) ["real", "y"] ∧
      aliased.clearDirectory (Path.at ["x", "y"]) = .ok cleared ∧
      aliased.entry? ["real", "y", "A.php"] = some (.file .empty) ∧
      cleared.entry? ["real", "y", "A.php"] = none := by
  obtain ⟨⟨plan, places⟩, hprep, hplaces⟩ := exists_of_toOption (f := (·.2))
    (x := prepare aliased (aliasedSettings "new/../x/y"))
    (b := (Path.at ["x", "y"], [Path.at ["real", "y"]]))
    (by decide +kernel)
  obtain rfl : places = (Path.at ["x", "y"], [Path.at ["real", "y"]]) := hplaces
  obtain ⟨cleared, hdel, hgone⟩ := exists_of_toOption
    (f := fun fs : FileSystem => fs.entry? ["real", "y", "A.php"])
    (x := aliased.clearDirectory (Path.at ["x", "y"])) (b := none) (by decide +kernel)
  have hxy : aliased.Denotes (Path.at ["x", "y"]) ["real", "y"] :=
    (FileSystem.resolveStrict_denotes wellFormed_aliased (by decide)
      (ok_of_toOption (by decide +kernel))).1
  exact ⟨plan, cleared, hprep, hxy, hdel, by decide +kernel, hgone⟩

end Site

end PhpPages
