import PhpPages.Proofs.Segments

namespace PhpPages.FileSystem

/-- The target of the link at a location, if there is a link. -/
def linkAt? (fs : FileSystem) (l : Location) : Option String :=
  match fs.entry? l with
  | some (.link target) => some target
  | _ => none

theorem linkAt?_eq_some {fs : FileSystem} {l : Location} {target : String} :
    fs.linkAt? l = some target ↔ fs.entry? l = some (.link target) := by
  unfold linkAt?
  split
  · rename_i t he
    simp [he]
  · rename_i hn
    constructor
    · simp
    · exact fun he => absurd he (hn target)

theorem entry?_nil (fs : FileSystem) : fs.entry? [] = some .directory :=
  rfl

theorem linkAt?_of_entry {fs : FileSystem} {l : Location} {e : Entry} (h : fs.entry? l = some e)
    (hn : ∀ t, e ≠ .link t) : fs.linkAt? l = none := by
  cases hl : fs.linkAt? l with
  | none => rfl
  | some t =>
    rw [linkAt?_eq_some, h] at hl
    exact absurd (Option.some.inj hl) (hn t)

theorem linkAt?_directory {fs : FileSystem} {l : Location} (h : fs.entry? l = some .directory) :
    fs.linkAt? l = none :=
  linkAt?_of_entry h (by simp)

theorem linkAt?_nil (fs : FileSystem) : fs.linkAt? [] = none :=
  linkAt?_directory fs.entry?_nil

theorem mem_entries {fs : FileSystem} {l : Location} {e : Entry} (h : fs.entry? l = some e)
    (hl : l ≠ []) : (l, e) ∈ fs.entries := by
  simp only [List.isEmpty_iff, entry?, hl, ↓reduceIte] at h
  obtain ⟨before, after, he, _⟩ := List.lookup_eq_some_iff.mp h
  simp [he]

/-- What every file system keeps to: the names on the way to an entry are names, each entry
stands in a directory, no link target holds the null character, and the working directory
is a directory. -/
structure WellFormed (fs : FileSystem) : Prop where
  named : ∀ {l e}, fs.entry? l = some e → ∀ n ∈ l, IsName n
  nested : ∀ {l n e}, fs.entry? (l ++ [n]) = some e → fs.entry? l = some .directory
  target : ∀ {l t}, fs.entry? l = some (.link t) → '\x00' ∉ t.toList
  here : ∀ {h}, fs.here = some h → fs.entry? h = some .directory

/-- The same as a check of each entry in the list. -/
def isWellFormed (fs : FileSystem) : Bool :=
  (fs.entries.all fun (l, e) =>
    l.all (fun n => decide (IsName n)) && fs.entry? l.dropLast = some .directory &&
      match e with
      | .link t => !t.toList.contains '\x00'
      | _ => true) &&
  match fs.here with
  | some h => fs.entry? h = some .directory
  | none => true

theorem wellFormed_of_check {fs : FileSystem} (h : fs.isWellFormed = true) : fs.WellFormed := by
  obtain ⟨he, hh⟩ := Bool.and_eq_true_iff.mp h
  have hm : ∀ {l e}, fs.entry? l = some e → l ≠ [] → (∀ n ∈ l, IsName n) ∧
      fs.entry? l.dropLast = some .directory ∧ ∀ t, e = .link t → '\x00' ∉ t.toList := by
    intro l e hl hne
    have hc := List.all_eq_true.mp he _ (mem_entries hl hne)
    simp only [Bool.and_eq_true, List.all_eq_true, decide_eq_true_eq] at hc
    refine ⟨hc.1.1, hc.1.2, ?_⟩
    rintro t rfl
    simpa using hc.2
  refine ⟨?_, ?_, ?_, ?_⟩
  · intro l e hl n hn
    exact (hm hl (List.ne_nil_of_mem hn)).1 n hn
  · intro l n e hl
    simpa using (hm hl (by simp)).2.1
  · intro l t hl
    have hne : l ≠ [] := by
      rintro rfl
      simp [entry?_nil] at hl
    exact (hm hl hne).2.2 t rfl
  · intro h heq
    simpa [heq] using hh

/-- Everything on the way to an entry is a directory. -/
theorem WellFormed.directory {fs : FileSystem} (h : fs.WellFormed) {l rest : Location} {e : Entry}
    (he : fs.entry? (l ++ rest) = some e) (hr : rest ≠ []) : fs.entry? l = some .directory := by
  induction rest generalizing l with
  | nil => exact absurd rfl hr
  | cons n rest ih =>
    by_cases hn : rest = []
    · rw [hn] at he
      exact h.nested he
    · have hi := ih (l := l ++ [n]) (by simpa using he) hn
      exact h.nested hi

theorem WellFormed.dropLast {fs : FileSystem} (h : fs.WellFormed) {l : Location} {e : Entry}
    (he : fs.entry? l = some e) : fs.entry? l.dropLast = some .directory := by
  by_cases hl : l = []
  · rw [hl]
    exact fs.entry?_nil
  · obtain ⟨k, n, rfl⟩ := Text.exists_snoc hl
    simpa using h.nested he

/-- Something other than a link stands at the location. -/
def Stands (fs : FileSystem) (l : Location) : Prop :=
  ∃ e, fs.entry? l = some e ∧ ∀ t, e ≠ .link t

/-- No link stands at the location or on the way to it. -/
def LinkFree (fs : FileSystem) (l : Location) : Prop :=
  ∀ k, k <+: l → fs.linkAt? k = none

theorem stands_directory {fs : FileSystem} {l : Location} (h : fs.entry? l = some .directory) :
    fs.Stands l :=
  ⟨.directory, h, by simp⟩

theorem LinkFree.mono {fs : FileSystem} {k l : Location} (h : fs.LinkFree l) (hp : k <+: l) :
    fs.LinkFree k :=
  fun j hj => h j (hj.trans hp)

theorem linkFree_nil (fs : FileSystem) : fs.LinkFree [] := by
  intro k hk
  rw [List.prefix_nil.mp hk]
  exact fs.linkAt?_nil

theorem LinkFree.snoc {fs : FileSystem} {l : Location} {n : String} (h : fs.LinkFree l)
    (hn : fs.linkAt? (l ++ [n]) = none) : fs.LinkFree (l ++ [n]) := by
  intro k hk
  rcases List.prefix_concat_iff.mp hk with rfl | hk
  · exact hn
  · exact h k hk

theorem Stands.linkFree {fs : FileSystem} {l : Location} (hw : fs.WellFormed) (h : fs.Stands l) :
    fs.LinkFree l := by
  obtain ⟨e, he, hn⟩ := h
  rintro k ⟨rest, rfl⟩
  by_cases hr : rest = []
  · rw [hr, List.append_nil] at he
    exact linkAt?_of_entry he hn
  · exact linkAt?_directory (hw.directory he hr)

theorem Stands.names {fs : FileSystem} {l : Location} (hw : fs.WellFormed) (h : fs.Stands l) :
    ∀ n ∈ l, IsName n := by
  obtain ⟨e, he, _⟩ := h
  exact hw.named he

/-- On the way to what stands everything stands. -/
theorem Stands.mono {fs : FileSystem} {k l : Location} (hw : fs.WellFormed) (h : fs.Stands l)
    (hk : k <+: l) : fs.Stands k := by
  obtain ⟨rest, rfl⟩ := hk
  by_cases hr : rest = []
  · simpa [hr] using h
  · obtain ⟨e, he, _⟩ := h
    exact stands_directory (hw.directory he hr)

/-- No name and no link target holds a backslash. -/
structure NoBackslash (fs : FileSystem) : Prop where
  names : ∀ {l e}, fs.entry? l = some e → ∀ n ∈ l, '\\' ∉ n.toList
  targets : ∀ {l t}, fs.linkAt? l = some t → '\\' ∉ t.toList

theorem NoBackslash.mono {fs fs' : FileSystem} (h : fs.NoBackslash)
    (hkept : ∀ x e, fs'.entry? x = some e → fs.entry? x = some e) : fs'.NoBackslash := by
  refine ⟨fun {l e} he => h.names (hkept l e he), fun {l t} ht => ?_⟩
  have hlink := hkept l _ (linkAt?_eq_some.mp ht)
  exact h.targets (linkAt?_eq_some.mpr hlink)

theorem noBackslash_of_check {fs : FileSystem}
    (h : (fs.entries.all fun (l, e) => l.all (fun n => !n.toList.contains '\\') &&
      match e with
      | .link t => !t.toList.contains '\\'
      | _ => true) = true) : fs.NoBackslash := by
  have hm : ∀ {l e}, fs.entry? l = some e → l ≠ [] →
      (∀ n ∈ l, '\\' ∉ n.toList) ∧ ∀ t, e = .link t → '\\' ∉ t.toList := by
    intro l e he hne
    have hc := List.all_eq_true.mp h _ (mem_entries he hne)
    simp only [Bool.and_eq_true, List.all_eq_true] at hc
    refine ⟨fun n hn => by simpa using hc.1 n hn, ?_⟩
    rintro t rfl
    simpa using hc.2
  refine ⟨fun he n hn => (hm he (List.ne_nil_of_mem hn)).1 n hn, fun {l t} hl => ?_⟩
  have hne : l ≠ [] := by
    rintro rfl
    simp [linkAt?_nil] at hl
  exact (hm (linkAt?_eq_some.mp hl) hne).2 t rfl

theorem Stands.plain {fs : FileSystem} (hw : fs.WellFormed) (hb : fs.NoBackslash) {l : Location}
    (h : fs.Stands l) : ∀ n ∈ l, IsPlain n := by
  obtain ⟨e, he, _⟩ := h
  exact fun n hn => ⟨hw.named he n hn, hb.names he n hn⟩

end PhpPages.FileSystem
