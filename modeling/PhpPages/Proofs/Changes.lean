import PhpPages.FileSystem.Change
import PhpPages.Proofs.Lookup

namespace PhpPages.FileSystem

open Text

theorem isPrefixOf_eq (l x : Location) : l.isPrefixOf x = decide (l <+: x) := by
  rw [Bool.eq_iff_iff, List.isPrefixOf_iff_prefix, decide_eq_true_iff]

theorem lookup_filter (p : Location → Bool) (entries : List (Location × Entry)) (x : Location) :
    (entries.filter fun e => p e.1).lookup x = if p x then entries.lookup x else none := by
  induction entries with
  | nil => simp
  | cons e entries ih =>
    obtain ⟨l, e⟩ := e
    by_cases hx : x = l
    · subst hx
      cases hp : p x with
      | true => simp [hp]
      | false => simp [hp, ih]
    · have hne : (x == l) = false := by simpa using hx
      cases hp : p l with
      | true => simp [hp, List.lookup_cons, hne, ih]
      | false => simp [hp, List.lookup_cons, hne, ih]

theorem entry?_insert (fs : FileSystem) {l : Location} (hl : l ≠ []) (e : Entry) (x : Location) :
    entry? (fs.insert l e) x = if x = l then some e else fs.entry? x := by
  by_cases hx : x = []
  · simp [hx, entry?, Ne.symm hl]
  · have hf := lookup_filter (fun k => decide (k ≠ l)) fs.entries x
    simp only [insert, entry?, List.isEmpty_iff, hx, ↓reduceIte, List.lookup_cons]
    by_cases hxl : x = l
    · simp [hxl]
    · have hne : (x == l) = false := by simpa using hxl
      simp only [hne, hxl, ↓reduceIte]
      rw [hf]
      simp [hxl]

theorem entry?_erase (fs : FileSystem) (l x : Location) :
    entry? (fs.erase l) x = if x ≠ [] ∧ l <+: x then none else fs.entry? x := by
  by_cases hx : x = []
  · simp [hx, entry?]
  · have hf := lookup_filter (fun k => !l.isPrefixOf k) fs.entries x
    simp only [erase, entry?, List.isEmpty_iff, hx, ↓reduceIte, hf]
    by_cases hp : l <+: x
    · simp [isPrefixOf_eq, hp, hx]
    · simp [isPrefixOf_eq, hp]

theorem entry?_clear (fs : FileSystem) (l x : Location) :
    entry? (fs.clear l) x = if x ≠ l ∧ l <+: x then none else fs.entry? x := by
  by_cases hx : x = []
  · have hl : ¬ (x ≠ l ∧ l <+: x) := by
      rintro ⟨hne, hp⟩
      rw [hx, List.prefix_nil] at hp
      exact hne (by rw [hx, hp])
    rw [if_neg hl]
    simp [hx, entry?]
  · have hf := lookup_filter (fun k => decide (k = l) || !l.isPrefixOf k) fs.entries x
    simp only [clear, entry?, List.isEmpty_iff, hx, ↓reduceIte, hf]
    by_cases hxl : x = l
    · simp [hxl]
    · by_cases hp : l <+: x
      · simp [isPrefixOf_eq, hp, hxl]
      · simp [isPrefixOf_eq, hp]

/-- An entry other than a link may be put into a directory, in place of anything but a directory. -/
theorem WellFormed.insert {fs : FileSystem} (hw : fs.WellFormed) {k : Location} {n : String}
    {e : Entry} (hk : fs.entry? k = some .directory) (hn : IsName n) (he : ∀ t, e ≠ .link t)
    (hold : fs.entry? (k ++ [n]) ≠ some .directory) : (fs.insert (k ++ [n]) e).WellFormed := by
  have hne : k ++ [n] ≠ [] := by simp
  refine ⟨?_, ?_, ?_, ?_⟩
  · intro x e' hx m hm
    rw [entry?_insert fs hne] at hx
    split at hx
    · rename_i hxl
      rw [hxl] at hm
      exact Text.forall_mem_snoc (hw.named hk) hn m hm
    · exact hw.named hx m hm
  · intro x m e' hx
    rw [entry?_insert fs hne] at hx ⊢
    have hdir : fs.entry? x = some .directory := by
      split at hx
      · rename_i hxl
        obtain ⟨rfl, _⟩ := List.append_inj' hxl rfl
        exact hk
      · exact hw.nested hx
    have hx' : x ≠ k ++ [n] := fun h => hold (h ▸ hdir)
    rw [if_neg hx', hdir]
  · intro x t hx
    rw [entry?_insert fs hne] at hx
    split at hx
    · exact absurd (Option.some.inj hx) (he t)
    · exact hw.target hx
  · intro h hh
    have hdir := hw.here hh
    have hx' : h ≠ k ++ [n] := fun heq => hold (heq ▸ hdir)
    rw [entry?_insert fs hne, if_neg hx', hdir]

/-- Entries may be removed if what is left still stands in its directories. -/
theorem WellFormed.restrict {fs fs' : FileSystem} (hw : fs.WellFormed) (kept : Location → Prop)
    (hentry : ∀ {x e}, fs'.entry? x = some e → kept x ∧ fs.entry? x = some e)
    (hkept : ∀ {x}, kept x → fs'.entry? x = fs.entry? x)
    (hclosed : ∀ {x n}, kept (x ++ [n]) → kept x)
    (hhere : ∀ {h}, fs'.here = some h → kept h ∧ fs.here = some h) : fs'.WellFormed := by
  refine ⟨fun hx => hw.named (hentry hx).2, ?_, fun hx => hw.target (hentry hx).2, ?_⟩
  · intro x n e hx
    obtain ⟨hk, he⟩ := hentry hx
    rw [hkept (hclosed hk)]
    exact hw.nested he
  · intro h hh
    obtain ⟨hk, he⟩ := hhere hh
    rw [hkept hk]
    exact hw.here he

theorem WellFormed.erase {fs : FileSystem} (hw : fs.WellFormed) (l : Location) :
    (fs.erase l).WellFormed := by
  refine hw.restrict (fun x => ¬ (x ≠ [] ∧ l <+: x)) ?_ ?_ ?_ ?_
  · intro x e hx
    rw [entry?_erase] at hx
    split at hx
    · cases hx
    · rename_i hk
      exact ⟨hk, hx⟩
  · intro x hk
    rw [entry?_erase, if_neg hk]
  · rintro x n hk ⟨_, hp⟩
    exact hk ⟨by simp, hp.trans (List.prefix_append _ _)⟩
  · intro h hh
    simp only [FileSystem.erase, Option.filter_eq_some_iff, isPrefixOf_eq] at hh
    exact ⟨fun hk => by simp [hk.2] at hh, hh.1⟩

theorem WellFormed.clear {fs : FileSystem} (hw : fs.WellFormed) (l : Location) :
    (fs.clear l).WellFormed := by
  refine hw.restrict (fun x => ¬ (x ≠ l ∧ l <+: x)) ?_ ?_ ?_ ?_
  · intro x e hx
    rw [entry?_clear] at hx
    split at hx
    · cases hx
    · rename_i hk
      exact ⟨hk, hx⟩
  · intro x hk
    rw [entry?_clear, if_neg hk]
  · rintro x n hk ⟨_, hp⟩
    refine hk ⟨?_, hp.trans (List.prefix_append _ _)⟩
    rintro rfl
    have hlen := hp.length_le
    rw [List.length_append, List.length_singleton] at hlen
    omega
  · intro h hh
    simp only [FileSystem.clear, Option.filter_eq_some_iff, isPrefixOf_eq] at hh
    exact ⟨fun hk => by simp [hk.1, hk.2] at hh, hh.1⟩

theorem isDirectory_iff {fs : FileSystem} {p : Path} : fs.isDirectory p = true ↔
    ∃ l, (fs.lookup true p).place? = some (l, some .directory) := by
  unfold isDirectory
  cases fs.lookup true p with
  | entry l e => cases e <;> simp [Found.place?]
  | free l => simp [Found.place?]
  | nowhere f => simp [Found.place?]

/-- Directories were added on the way to a location, and nothing else has changed. -/
structure Grown (fs fs' : FileSystem) (l : Location) : Prop where
  entries : ∀ x, fs'.entry? x = fs.entry? x ∨
    fs.entry? x = none ∧ x <+: l ∧ fs'.entry? x = some .directory
  here : fs'.here = fs.here

theorem Grown.refl (fs : FileSystem) (l : Location) : Grown fs fs l :=
  ⟨fun _ => .inl rfl, rfl⟩

theorem Grown.kept {fs fs' : FileSystem} {l : Location} (h : Grown fs fs' l) :
    ∀ x e, fs.entry? x = some e → fs'.entry? x = some e := by
  intro x e he
  rcases h.entries x with hx | ⟨hx, _⟩
  · rw [hx, he]
  · rw [hx] at he
    cases he

theorem Grown.trans {fs fs₁ fs₂ : FileSystem} {l m : Location} (h : Grown fs fs₁ l)
    (h' : Grown fs₁ fs₂ m) (hlm : l <+: m) : Grown fs fs₂ m := by
  refine ⟨fun x => ?_, h'.here.trans h.here⟩
  rcases h'.entries x with hx | ⟨hx, hp, hd⟩
  · rcases h.entries x with hy | ⟨hy, hp, hd⟩
    · exact .inl (hx.trans hy)
    · exact .inr ⟨hy, hp.trans hlm, hx.trans hd⟩
  · rcases h.entries x with hy | ⟨_, _, hd'⟩
    · exact .inr ⟨hy ▸ hx, hp, hd⟩
    · rw [hx] at hd'
      cases hd'

theorem makeDirectory_free {fs fs' : FileSystem} {p : Path} (h : fs.makeDirectory p = .ok fs') :
    ∃ l, (fs.lookup false p).place? = some (l, none) ∧ fs' = fs.insert l .directory := by
  unfold makeDirectory at h
  split at h
  · rename_i l hl
    cases h
    exact ⟨l, by rw [hl]; rfl, rfl⟩
  · cases h
  · cases h

/-- A directory that is made stands where its path leads, in the directory that the path of its
parent leads to. -/
theorem makeDirectory_ok {fs fs' : FileSystem} (hw : fs.WellFormed) {a : Anchor} {ps : List String}
    {n : String} (hn : IsName n) (h : fs.makeDirectory ⟨a, ps ++ [n]⟩ = .ok fs') :
    ∃ k, (fs.lookup true ⟨a, ps⟩).place? = some (k, some .directory) ∧ fs'.WellFormed ∧
      Grown fs fs' (k ++ [n]) ∧
      (fs'.lookup true ⟨a, ps ++ [n]⟩).place? = some (k ++ [n], some .directory) := by
  obtain ⟨l, hl, rfl⟩ := makeDirectory_free h
  obtain ⟨start, hs, ha, hfree⟩ := lookup_arrives hw hl (by simp)
  obtain ⟨k, hpar, hk, rfl⟩ := ha.parent hw (startOf_directory hw hs) hn
  have hne : k ++ [n] ≠ [] := by simp
  have hw' : (fs.insert (k ++ [n]) .directory).WellFormed :=
    hw.insert hk hn (by simp) (by simp [hfree])
  have hgrown : Grown fs (fs.insert (k ++ [n]) .directory) (k ++ [n]) := by
    refine ⟨fun x => ?_, rfl⟩
    rw [entry?_insert fs hne]
    split
    · rename_i hx
      exact .inr ⟨hx ▸ hfree, hx ▸ List.prefix_refl _, rfl⟩
    · exact .inl rfl
  have hthere : entry? (fs.insert (k ++ [n]) .directory) (k ++ [n]) = some .directory := by
    rw [entry?_insert fs hne, if_pos rfl]
  refine ⟨k, ?_, hw', hgrown, ?_⟩
  · have hs' : fs.startOf ⟨a, ps⟩ = some start := hs
    rw [hpar.lookup hw hs', hk]
  · have ha' := ha.followLast.mono (fun x e _ => hgrown.kept x e) (linkAt?_directory hthere)
    rw [ha'.lookup hw' hs, hthere]

theorem makeDirectoriesFrom_nil {fs made : FileSystem} {a : Anchor}
    (h : makeDirectoriesFrom a fs [] = .ok made) : fs.isDirectory ⟨a, []⟩ = true ∧ made = fs := by
  simp only [makeDirectoriesFrom] at h
  split at h
  · rename_i hd
    cases h
    exact ⟨hd, rfl⟩
  · cases h

/-- How the directories on the way to one more name come to stand. -/
inductive MakeCase (a : Anchor) (fs : FileSystem) (last : String) (above : List String) :
    FileSystem → Prop where
  | last {made : FileSystem} (makes : fs.makeDirectory ⟨a, above.reverse ++ [last]⟩ = .ok made) :
      MakeCase a fs last above made
  | way {changed made : FileSystem}
      (missing : fs.makeDirectory ⟨a, above.reverse ++ [last]⟩ = .error .missing)
      (way : makeDirectoriesFrom a fs above = .ok changed)
      (makes : changed.makeDirectory ⟨a, above.reverse ++ [last]⟩ = .ok made) :
      MakeCase a fs last above made
  | there (directory : fs.isDirectory ⟨a, above.reverse ++ [last]⟩ = true) :
      MakeCase a fs last above fs

theorem makeDirectoriesFrom_case {fs made : FileSystem} {a : Anchor} {last : String}
    {above : List String} (h : makeDirectoriesFrom a fs (last :: above) = .ok made) :
    MakeCase a fs last above made := by
  simp only [makeDirectoriesFrom, List.reverse_cons] at h
  split at h
  · rename_i changed hm
    cases h
    exact .last hm
  · rename_i hm
    cases hway : makeDirectoriesFrom a fs above with
    | error f => simp [hway, bind, Except.bind] at h
    | ok changed =>
      simp only [hway, bind, Except.bind] at h
      exact .way hm hway h
  · split at h
    · rename_i hd
      cases h
      exact .there hd
    · cases h

theorem makeDirectories_case {fs made : FileSystem} {ps : List String} {n : String}
    (h : fs.makeDirectories (Path.at (ps ++ [n])) = .ok made) :
    MakeCase .root fs n ps.reverse made := by
  have hreverse : (Path.at (ps ++ [n])).segments.reverse = n :: ps.reverse := by simp [Path.at]
  unfold makeDirectories at h
  rw [hreverse] at h
  exact makeDirectoriesFrom_case h

/-- Directories that are made lead to where their path leads. -/
theorem makeDirectoriesFrom_ok {fs fs' : FileSystem} (hw : fs.WellFormed) {a : Anchor}
    {rs : List String} (hn : ∀ n ∈ rs, IsName n) (h : makeDirectoriesFrom a fs rs = .ok fs') :
    fs'.WellFormed ∧ ∃ l, (fs'.lookup true ⟨a, rs.reverse⟩).place? = some (l, some .directory) ∧
      Grown fs fs' l := by
  induction rs generalizing fs' with
  | nil =>
    obtain ⟨hd, rfl⟩ := makeDirectoriesFrom_nil h
    obtain ⟨l, hl⟩ := isDirectory_iff.mp hd
    exact ⟨hw, l, hl, .refl _ l⟩
  | cons last above ih =>
    have hlast : IsName last := hn last (by simp)
    have habove : ∀ n ∈ above, IsName n := fun n h => hn n (by simp [h])
    rw [List.reverse_cons]
    cases makeDirectoriesFrom_case h with
    | last makes =>
      obtain ⟨k, _, hw', hg, hl⟩ := makeDirectory_ok hw hlast makes
      exact ⟨hw', _, hl, hg⟩
    | way _ way makes =>
      obtain ⟨hw₁, l₁, hl₁, hg₁⟩ := ih habove way
      obtain ⟨k, hk, hw', hg, hl⟩ := makeDirectory_ok hw₁ hlast makes
      rw [hl₁] at hk
      cases hk
      exact ⟨hw', _, hl, hg₁.trans hg (List.prefix_append _ _)⟩
    | there directory =>
      obtain ⟨l, hl⟩ := isDirectory_iff.mp directory
      exact ⟨hw, l, hl, .refl fs l⟩

theorem makeDirectories_ok {fs fs' : FileSystem} (hw : fs.WellFormed) {p : Path}
    (hn : ∀ n ∈ p.segments, IsName n) (h : fs.makeDirectories p = .ok fs') :
    fs'.WellFormed ∧ ∃ l, (fs'.lookup true p).place? = some (l, some .directory) ∧
      Grown fs fs' l := by
  have hr := makeDirectoriesFrom_ok hw (fun n h => hn n (by simpa using h)) h
  rwa [List.reverse_reverse] at hr

theorem clearDirectory_ok {fs cleared : FileSystem} {p : Path}
    (h : fs.clearDirectory p = .ok cleared) :
    ∃ l, fs.lookup false p = .entry l .directory ∧ cleared = fs.clear l := by
  unfold clearDirectory at h
  split at h
  · cases h
  · split at h
    · rename_i l hl
      cases h
      exact ⟨l, hl, rfl⟩
    all_goals cases h

theorem removeDirectory_ok {fs fs' : FileSystem} {p : Path} (h : fs.removeDirectory p = .ok fs') :
    ∃ l, fs.lookup false p = .entry l .directory ∧ fs' = fs.erase l := by
  unfold removeDirectory at h
  split at h
  · rename_i l hl
    split at h
    · cases h
      exact ⟨l, hl, rfl⟩
    · cases h
  all_goals cases h

theorem entry?_erase_kept {fs : FileSystem} {l : Location} :
    ∀ x e, entry? (fs.erase l) x = some e → fs.entry? x = some e := by
  intro x e h
  rw [entry?_erase] at h
  split at h
  · cases h
  · exact h

theorem entry?_clear_kept {fs : FileSystem} {l : Location} :
    ∀ x e, entry? (fs.clear l) x = some e → fs.entry? x = some e := by
  intro x e h
  rw [entry?_clear] at h
  split at h
  · cases h
  · exact h

/-- A path that still leads to a directory when something is gone led to that directory. -/
theorem lookup_kept {fs fs' : FileSystem} (hw : fs.WellFormed) (hw' : fs'.WellFormed)
    (hkept : ∀ x e, fs'.entry? x = some e → fs.entry? x = some e) {followLast : Bool}
    {o k : Location} (h : (fs'.lookup followLast (Path.at o)).place? = some (k, some .directory)) :
    (fs.lookup followLast (Path.at o)).place? = some (k, some .directory) := by
  obtain ⟨start, hs, ha, hk⟩ := lookup_arrives hw' h (by simp)
  have hk' := hkept k _ hk
  have ha' := ha.mono (fun x e _ => hkept x e) (linkAt?_directory hk')
  have hs' : fs.startOf (Path.at o) = some start := hs
  rw [ha'.lookup hw hs', hk']

/-- What is cleared and what is removed by one path is one directory: clearing leaves the way to
it as it was. -/
theorem clear_remove {fs cleared erased : FileSystem} (hw : fs.WellFormed) {o : Location}
    (hclear : fs.clearDirectory (Path.at o) = .ok cleared)
    (hremove : cleared.removeDirectory (Path.at o) = .ok erased) :
    ∃ l, fs.lookup false (Path.at o) = .entry l .directory ∧
      ((fs.clear l).lookup false (Path.at o)).place? = some (l, some .directory) ∧
      erased = (fs.clear l).erase l := by
  obtain ⟨l, hl, rfl⟩ := clearDirectory_ok hclear
  obtain ⟨m, hm, rfl⟩ := removeDirectory_ok hremove
  have hplace : ((fs.clear l).lookup false (Path.at o)).place? = some (m, some .directory) := by
    rw [hm]
    rfl
  have hsame := lookup_kept hw (hw.clear l) entry?_clear_kept hplace
  rw [hl] at hsame
  cases hsame
  exact ⟨l, hl, hplace, rfl⟩

/-- A directory with nothing below it is the same after it was erased and inserted again. -/
theorem entry?_insert_erase {fs : FileSystem} {l : Location} (hne : l ≠ [])
    (hdir : fs.entry? l = some .directory) (hempty : ∀ r, r ≠ [] → fs.entry? (l ++ r) = none)
    (x : Location) : entry? ((fs.erase l).insert l .directory) x = fs.entry? x := by
  rw [entry?_insert _ hne, entry?_erase]
  by_cases hx : x = l
  · simp [hx, hdir]
  · by_cases hp : l <+: x
    · obtain ⟨r, rfl⟩ := hp
      have hr : r ≠ [] := by simpa using hx
      simp [hempty r hr, hr]
    · simp [hx, hp]

section

variable {fs : FileSystem} {o l : Location} (hw : fs.WellFormed) (hn : ∀ n ∈ o, IsName n)
  (hl : (fs.lookup false (Path.at o)).place? = some (l, some .directory))
  (hempty : ∀ r, r ≠ [] → fs.entry? (l ++ r) = none)
include hw hn hl hempty

/-- The ancestors of the path to an empty directory lead to directories outside it. -/
theorem ancestor_outside {ps rest : List String} (ho : ps ++ rest = o) (hr : rest ≠ []) :
    ∃ k, (fs.lookup true (Path.at ps)).place? = some (k, some .directory) ∧ ¬ l <+: k := by
  obtain ⟨start, hs, ha, _⟩ := lookup_arrives hw hl (by simp)
  have hstart := startOf_directory hw hs
  subst ho
  obtain ⟨k, n', hps, hk, hrest⟩ := Arrives.split hw hstart hr ha
  refine ⟨k, ?_, ?_⟩
  · rw [hps.lookup (p := Path.at ps) hw hs, hk]
  · rintro ⟨r, rfl⟩
    have hr' : r = [] := by
      cases r with
      | nil => rfl
      | cons n r => simp [hempty (n :: r) (by simp)] at hk
    subst hr'
    rw [List.append_nil] at hrest hk
    -- From the directory itself nothing leads on.
    obtain ⟨m, hm, hrest⟩ : ∃ m, m = l ∧ Arrives fs false n' l rest m := ⟨l, rfl, hrest⟩
    cases hrest with
    | done => exact hr rfl
    | @stay _ _ _ piece _ hd =>
      have hname := hn piece (by simp)
      simp [hname.notDropped] at hd
    | up => exact absurd rfl (hn ".." (by simp)).notUp
    | @down _ _ _ piece _ _ _ found => simp [hempty [piece] (by simp)] at found
    | last => simp at hm
    | @link _ _ _ piece _ _ _ _ found =>
      have he := linkAt?_eq_some.mp found
      simp [hempty [piece] (by simp)] at he

omit hn in
/-- The entries that are left lead where all of them led. -/
theorem place_of_erased {followLast : Bool} {ps : List String} {m : Location} {d : Option Entry}
    (hd : ∀ t, d ≠ some (.link t))
    (h : ((fs.erase l).lookup followLast (Path.at ps)).place? = some (m, d)) :
    (fs.lookup true (Path.at ps)).place? = some (m, fs.entry? m) := by
  obtain ⟨start, hs, ha, he⟩ := lookup_arrives (hw.erase l) h hd
  obtain ⟨_, _, _, hdir⟩ := lookup_arrives hw hl (by simp)
  have hlink : fs.linkAt? m = none := by
    cases hm : fs.linkAt? m with
    | none => rfl
    | some t =>
      have hentry := linkAt?_eq_some.mp hm
      rw [entry?_erase] at he
      split at he
      · rename_i hp
        obtain ⟨r, rfl⟩ := hp.2
        by_cases hr : r = []
        · simp [hr, hdir] at hentry
        · simp [hempty r hr] at hentry
      · rw [hentry] at he
        exact absurd he.symm (hd t)
  have hs' : fs.startOf (Path.at ps) = some start := hs
  have ha' := ha.mono (fun x e _ => entry?_erase_kept x e) hlink
  cases followLast with
  | true => exact ha'.lookup hw hs'
  | false => exact ha'.followLast.lookup hw hs'

omit hn in
/-- Without the directory its path leads to its place, which is free. -/
theorem free_of_erased {followLast : Bool} {m : Location} {d : Option Entry} (hne : l ≠ [])
    (hd : ∀ t, d ≠ some (.link t))
    (h : ((fs.erase l).lookup followLast (Path.at o)).place? = some (m, d)) : m = l ∧ d = none := by
  obtain ⟨start, hs, ha, _⟩ := lookup_arrives hw hl (by simp)
  have hm := place_of_erased hw hl hempty hd h
  rw [ha.followLast.lookup hw hs] at hm
  simp only [Option.some.injEq, Prod.mk.injEq] at hm
  obtain ⟨_, _, _, he⟩ := lookup_arrives (hw.erase l) h hd
  rw [← hm.1, entry?_erase, if_pos ⟨hne, List.prefix_refl l⟩] at he
  exact ⟨hm.1.symm, he.symm⟩

theorem makeDirectory_erased {fs' : FileSystem} {ps rest : List String} (ho : ps ++ rest = o)
    (hr : rest ≠ []) : (fs.erase l).makeDirectory (Path.at ps) ≠ .ok fs' := by
  intro h
  obtain ⟨k, hk, hout⟩ := ancestor_outside hw hn hl hempty ho hr
  obtain ⟨m, hfree, _⟩ := makeDirectory_free h
  have hplace := place_of_erased hw hl hempty (by simp) hfree
  rw [hk] at hplace
  simp only [Option.some.injEq, Prod.mk.injEq] at hplace
  obtain ⟨rfl, hdir⟩ := hplace
  obtain ⟨_, _, _, hnone⟩ := lookup_arrives (hw.erase l) hfree (by simp)
  rw [entry?_erase, if_neg fun hp => hout hp.2, ← hdir] at hnone
  cases hnone

/-- No ancestor has to be made again. -/
theorem makeDirectoriesFrom_erased {fs' : FileSystem} {rs rest : List String}
    (ho : rs.reverse ++ rest = o) (hr : rest ≠ [])
    (h : makeDirectoriesFrom .root (fs.erase l) rs = .ok fs') : fs' = fs.erase l := by
  induction rs generalizing rest fs' with
  | nil => exact (makeDirectoriesFrom_nil h).2
  | cons last above ih =>
    rw [List.reverse_cons] at ho
    cases makeDirectoriesFrom_case h with
    | last makes => exact absurd makes (makeDirectory_erased hw hn hl hempty ho hr)
    | @way changed _ _ way makes =>
      obtain rfl : changed = fs.erase l := ih (by simpa using ho) (by simp) way
      exact absurd makes (makeDirectory_erased hw hn hl hempty ho hr)
    | there => rfl

/-- An empty directory that is removed and made again stands where it stood, and everything
is as before. -/
theorem makeDirectories_erased {fs' : FileSystem}
    (h : (fs.erase l).makeDirectories (Path.at o) = .ok fs') : ∀ x, fs'.entry? x = fs.entry? x := by
  obtain ⟨start, hs, ha, hdir⟩ := lookup_arrives hw hl (by simp)
  obtain rfl : Reached.root = start := Option.some.inj hs
  by_cases ho : o = []
  · subst ho
    cases ha
    obtain ⟨_, rfl⟩ := makeDirectoriesFrom_nil h
    intro x
    rw [entry?_erase]
    split
    · rename_i hx
      exact (hempty x hx.1).symm
    · rfl
  · -- Only the last name is made again: the way to it lies outside what was removed.
    obtain ⟨ps, n, rfl⟩ := Text.exists_snoc ho
    obtain ⟨k, _, _, hlk⟩ := ha.parent hw (startOf_directory hw hs) (hn n (by simp))
    have hne : l ≠ [] := by simp [hlk]
    have hpath : ps.reverse.reverse ++ [n] = ps ++ [n] := by rw [List.reverse_reverse]
    cases makeDirectories_case h with
    | last makes =>
      rw [hpath] at makes
      obtain ⟨m, hfree, rfl⟩ := makeDirectory_free makes
      obtain ⟨rfl, _⟩ := free_of_erased hw hl hempty hne (by simp) hfree
      exact entry?_insert_erase hne hdir hempty
    | way missing way makes =>
      obtain rfl := makeDirectoriesFrom_erased hw hn hl hempty hpath (by simp) way
      cases missing.symm.trans makes
    | there directory =>
      rw [hpath] at directory
      obtain ⟨m, hm⟩ := isDirectory_iff.mp directory
      obtain ⟨_, hnone⟩ := free_of_erased hw hl hempty hne (by simp) hm
      cases hnone

end

end PhpPages.FileSystem
