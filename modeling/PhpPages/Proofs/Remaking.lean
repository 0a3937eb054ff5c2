import PhpPages.Proofs.Generation

namespace PhpPages

namespace FileSystem

theorem erase_insert {fs : FileSystem} {l x : Location} (h : l <+: x) (e : Entry) :
    (fs.insert x e).erase l = fs.erase l := by
  have hentries : ((x, e) :: fs.entries.filter (·.1 ≠ x)).filter (fun k => !l.isPrefixOf k.1) =
      fs.entries.filter fun k => !l.isPrefixOf k.1 := by
    rw [List.filter_cons_of_neg (by simp [isPrefixOf_eq, h]), List.filter_filter]
    apply List.filter_congr
    intro k _
    by_cases hk : k.1 = x
    · simp [isPrefixOf_eq, hk, h]
    · simp [hk]
  simp only [erase, insert, hentries]

theorem exists_entry {fs : FileSystem} {k : Location} {e : Entry} (h : (k, e) ∈ fs.entries) :
    ∃ e', fs.entry? k = some e' := by
  by_cases hk : k = []
  · exact ⟨.directory, by rw [hk, entry?_nil]⟩
  · simp only [List.isEmpty_iff, entry?, hk, ↓reduceIte]
    cases hl : fs.entries.lookup k with
    | some e' => exact ⟨e', rfl⟩
    | none =>
      have hnone := List.lookup_eq_none_iff.mp hl _ h
      simp at hnone

/-- Below a place where nothing stands there is nothing. -/
theorem WellFormed.none_below {fs : FileSystem} (hw : fs.WellFormed) {l x : Location} {e : Entry}
    (hfree : fs.entry? l = none) (hx : fs.entry? x = some e) : ¬ l <+: x := by
  rintro ⟨r, rfl⟩
  by_cases hr : r = []
  · rw [hr, List.append_nil, hfree] at hx
    cases hx
  · rw [hw.directory hx hr] at hfree
    cases hfree

/-- Where nothing stands there is nothing to erase. -/
theorem erase_free {fs : FileSystem} (hw : fs.WellFormed) {l : Location}
    (hfree : fs.entry? l = none) : fs.erase l = fs := by
  have hentries : fs.entries.filter (fun k => !l.isPrefixOf k.1) = fs.entries := by
    apply List.filter_eq_self.mpr
    rintro ⟨k, e⟩ hk
    obtain ⟨e', he⟩ := exists_entry hk
    simpa [isPrefixOf_eq] using hw.none_below hfree he
  have hhere : fs.here.filter (fun h => !l.isPrefixOf h) = fs.here := by
    cases hh : fs.here with
    | none => rfl
    | some h => simpa [isPrefixOf_eq] using hw.none_below hfree (hw.here hh)
  simp only [erase, hentries, hhere]

theorem erase_clear (fs : FileSystem) (l : Location) : (fs.clear l).erase l = fs.erase l := by
  have hentries : ∀ x : Location,
      (!l.isPrefixOf x && (decide (x = l) || !l.isPrefixOf x)) = !l.isPrefixOf x := by
    intro x
    cases l.isPrefixOf x <;> simp
  have hhere : ∀ x : Location,
      ((decide (x = l) || !l.isPrefixOf x) && !l.isPrefixOf x) = !l.isPrefixOf x := by
    intro x
    rw [Bool.and_comm, hentries]
  simp only [erase, clear, List.filter_filter, Option.filter_filter, hentries, hhere]

theorem below_clear (fs : FileSystem) (l : Location) : (fs.clear l).below l = [] := by
  apply List.filterMap_eq_nil_iff.mpr
  rintro ⟨k, e⟩ hk
  have hkept := (List.mem_filter.mp hk).2
  by_cases hl : k = l
  · simp [hl]
  · simp only [hl, decide_false, Bool.false_or, Bool.not_eq_true'] at hkept
    simp [hkept]

theorem entry_of_place {f : Found} {l : Location} {e : Entry} (h : f.place? = some (l, some e)) :
    f = .entry l e := by
  cases f with
  | entry k e' =>
    cases h
    rfl
  | free k => cases h
  | nowhere fault => cases h

/-- The file system without the directory that a path leads to. -/
def without (fs : FileSystem) (p : Path) : FileSystem :=
  match fs.lookup false p with
  | .entry l .directory => fs.erase l
  | _ => fs

theorem without_kept {fs : FileSystem} {p : Path} :
    ∀ x e, entry? (fs.without p) x = some e → fs.entry? x = some e := by
  intro x e h
  unfold without at h
  split at h
  · exact entry?_erase_kept x e h
  · exact h

theorem WellFormed.without {fs : FileSystem} (hw : fs.WellFormed) (p : Path) :
    (fs.without p).WellFormed := by
  unfold FileSystem.without
  split
  · exact hw.erase _
  · exact hw

theorem isDirectory_of_lookup {fs : FileSystem} (hw : fs.WellFormed) {p : Path} {l : Location}
    (h : fs.lookup false p = .entry l .directory) : fs.isDirectory p = true := by
  have hplace : (fs.lookup false p).place? = some (l, some .directory) := by
    rw [h]
    rfl
  obtain ⟨start, hs, ha, hl⟩ := lookup_arrives hw hplace (by simp)
  refine isDirectory_iff.mpr ⟨l, ?_⟩
  rw [ha.followLast.lookup hw hs, hl]

/-- Where a path leads to no directory, there is none to be left out. -/
theorem without_missing {fs : FileSystem} (hw : fs.WellFormed) {p : Path}
    (h : fs.isDirectory p = false) : fs.without p = fs := by
  unfold without
  split
  · rename_i l hl
    rw [isDirectory_of_lookup hw hl] at h
    cases h
  · rfl

theorem mayDelete_without (fs : FileSystem) (p : Path) :
    (fs.without p).mayDelete = fs.mayDelete := by
  unfold without
  split <;> rfl

/-- A directory that was erased is not found any more. -/
theorem isDirectory_erased {fs : FileSystem} (hw : fs.WellFormed) {o m : Location}
    (hn : ∀ n ∈ o, IsName n) (ho : o ≠ [])
    (hm : (fs.lookup false (Path.at o)).place? = some (m, some .directory)) :
    (fs.erase m).isDirectory (Path.at o) = false := by
  obtain ⟨start, hs, ha, hdir⟩ := lookup_arrives hw hm (by simp)
  have hne : m ≠ [] := by
    obtain ⟨ps, n, rfl⟩ := Text.exists_snoc ho
    obtain ⟨k, _, _, hmk⟩ := ha.parent hw (startOf_directory hw hs) (hn n (by simp))
    simp [hmk]
  cases hd : (fs.erase m).isDirectory (Path.at o) with
  | false => rfl
  | true =>
    obtain ⟨k, hk⟩ := isDirectory_iff.mp hd
    have hback := lookup_kept hw (hw.erase m) entry?_erase_kept hk
    rw [ha.followLast.lookup hw hs, hdir] at hback
    cases hback
    obtain ⟨_, _, _, hgone⟩ := lookup_arrives (hw.erase m) hk (by simp)
    rw [entry?_erase, if_pos ⟨hne, List.prefix_refl m⟩] at hgone
    cases hgone

theorem mayDelete_makeDirectory {fs fs' : FileSystem} {p : Path}
    (h : fs.makeDirectory p = .ok fs') : fs'.mayDelete = fs.mayDelete := by
  obtain ⟨l, _, rfl⟩ := makeDirectory_free h
  rfl

theorem mayDelete_makeDirectoriesFrom {fs fs' : FileSystem} {a : Anchor} {rs : List String}
    (h : makeDirectoriesFrom a fs rs = .ok fs') : fs'.mayDelete = fs.mayDelete := by
  induction rs generalizing fs' with
  | nil => rw [(makeDirectoriesFrom_nil h).2]
  | cons last above ih =>
    cases makeDirectoriesFrom_case h with
    | last makes => exact mayDelete_makeDirectory makes
    | way _ way makes => rw [mayDelete_makeDirectory makes, ih way]
    | there => rfl

/-- The last directory on the way is made in a file system in which all that was missing
above it was made. -/
theorem makeDirectories_last {fs fs' : FileSystem} (hw : fs.WellFormed) {o : Location}
    (hn : ∀ n ∈ o, IsName n) (ho : o ≠ []) (hno : fs.isDirectory (Path.at o) = false)
    (h : fs.makeDirectories (Path.at o) = .ok fs') :
    ∃ bare : FileSystem, bare.WellFormed ∧ bare.mayDelete = fs.mayDelete ∧
      bare.makeDirectory (Path.at o) = .ok fs' := by
  obtain ⟨ps, n, rfl⟩ := Text.exists_snoc ho
  have hpath : ps.reverse.reverse ++ [n] = ps ++ [n] := by rw [List.reverse_reverse]
  cases makeDirectories_case h with
  | last makes =>
    rw [hpath] at makes
    exact ⟨fs, hw, rfl, makes⟩
  | @way bare _ _ way makes =>
    rw [hpath] at makes
    obtain ⟨hbare, _⟩ := makeDirectoriesFrom_ok hw (fun m hm => hn m (by simp_all)) way
    exact ⟨bare, hbare, mayDelete_makeDirectoriesFrom way, makes⟩
  | there directory =>
    rw [hpath] at directory
    cases hno.symm.trans directory

/-- A directory that is made is new. -/
theorem makeDirectory_new {fs fs' : FileSystem} (hw : fs.WellFormed) {p : Path}
    (h : fs.makeDirectory p = .ok fs') : ∃ m, (fs.lookup false p).place? = some (m, none) ∧
      fs.entry? m = none ∧ fs' = fs.insert m .directory ∧
      ∀ x, fs'.entry? x = if x = m then some .directory else fs.entry? x := by
  obtain ⟨m, hm, rfl⟩ := makeDirectory_free h
  obtain ⟨_, _, _, hfree⟩ := lookup_arrives hw hm (by simp)
  have hne : m ≠ [] := by
    rintro rfl
    rw [entry?_nil] at hfree
    cases hfree
  exact ⟨m, hm, hfree, rfl, entry?_insert fs hne _⟩

/-- Making directories changes nothing outside a place in which all that is new lies. -/
theorem makeDirectoriesFrom_erase {fs fs' : FileSystem} (hw : fs.WellFormed) {a : Anchor}
    {rs : List String} (hn : ∀ n ∈ rs, IsName n) {l : Location}
    (h : makeDirectoriesFrom a fs rs = .ok fs')
    (hnew : ∀ x, fs.entry? x = none → fs'.entry? x ≠ none → l <+: x) :
    fs'.erase l = fs.erase l := by
  induction rs generalizing fs' with
  | nil => rw [(makeDirectoriesFrom_nil h).2]
  | cons last above ih =>
    have habove : ∀ n ∈ above, IsName n := fun n h => hn n (by simp [h])
    cases makeDirectoriesFrom_case h with
    | last makes =>
      obtain ⟨m, _, hfree, rfl, hentry⟩ := makeDirectory_new hw makes
      exact erase_insert (hnew m hfree (by simp [hentry])) _
    | way _ way makes =>
      obtain ⟨hw₁, _, _, hg⟩ := makeDirectoriesFrom_ok hw habove way
      obtain ⟨m, _, hfree, rfl, hentry⟩ := makeDirectory_new hw₁ makes
      have hinside : l <+: m := by
        apply hnew m _ (by simp [hentry])
        rcases hg.entries m with he | ⟨he, _⟩
        · rw [← he, hfree]
        · exact he
      rw [erase_insert hinside]
      apply ih habove way
      intro x hx hx'
      apply hnew x hx
      rw [hentry]
      split
      · simp
      · exact hx'
    | there => rfl

end FileSystem

namespace Site

open FileSystem (Grown)

/-- The output directory is made in the file system without it. -/
theorem resetOutput_made {o : Location} {w w' : World} (hw : w.files.WellFormed)
    (hn : ∀ n ∈ o, IsName n) (ho : o ≠ []) (h : Succeeds (resetOutput (Path.at o)) w () w') :
    (w.files.without (Path.at o)).isDirectory (Path.at o) = false ∧
      (w.files.without (Path.at o)).makeDirectories (Path.at o) = .ok w'.files := by
  cases resetOutput_case h with
  | missing absent makes =>
    rw [FileSystem.without_missing hw absent]
    exact ⟨absent, makes⟩
  | removed clears removes makes =>
    obtain ⟨l, hl, _, rfl⟩ := FileSystem.clear_remove hw clears removes
    have hplace : (w.files.lookup false (Path.at o)).place? = some (l, some .directory) := by
      rw [hl]
      rfl
    rw [FileSystem.erase_clear] at makes
    unfold FileSystem.without
    rw [hl]
    exact ⟨FileSystem.isDirectory_erased hw hn ho hplace, makes⟩

/-- A file system that differs from another in what stands at a place and below it, where the
other has nothing. -/
structure Filled (bare : FileSystem) (o l : Location) (fs : FileSystem) : Prop where
  bareWellFormed : bare.WellFormed
  free : (bare.lookup false (Path.at o)).place? = some (l, none)
  wellFormed : fs.WellFormed
  directory : fs.entry? l = some .directory
  rest : fs.erase l = bare

/-- The path to the free place leads to the directory that stands there. -/
theorem Filled.lookup {bare fs : FileSystem} {o l : Location} (h : Filled bare o l fs)
    (followLast : Bool) : fs.lookup followLast (Path.at o) = .entry l .directory := by
  obtain ⟨start, hs, ha, _⟩ := FileSystem.lookup_arrives h.bareWellFormed h.free (by simp)
  have hkept : ∀ x e, bare.entry? x = some e → fs.entry? x = some e := by
    rw [← h.rest]
    exact FileSystem.entry?_erase_kept
  have ha' := ha.mono (fun x e _ => hkept x e) (FileSystem.linkAt?_directory h.directory)
  have hs' : fs.startOf (Path.at o) = some start := hs
  apply FileSystem.entry_of_place
  rw [← h.directory]
  cases followLast with
  | false => exact ha'.lookup h.wellFormed hs'
  | true => exact ha'.followLast.lookup h.wellFormed hs'

theorem Filled.clear {bare fs : FileSystem} {o l : Location} (h : Filled bare o l fs) :
    Filled bare o l (fs.clear l) := by
  refine ⟨h.bareWellFormed, h.free, h.wellFormed.clear l, ?_, ?_⟩
  · rw [FileSystem.entry?_clear, if_neg (by simp)]
    exact h.directory
  · rw [FileSystem.erase_clear]
    exact h.rest

/-- Whatever the directory was filled with, making it anew gives the empty directory in
the same place. -/
theorem Filled.reset {bare made fs : FileSystem} {o l : Location} (h : Filled bare o l fs)
    (ho : o ≠ []) (hdel : bare.mayDelete = true) (hmade : bare.makeDirectory (Path.at o) = .ok made)
    (log : List Event) : Succeeds (resetOutput (Path.at o)) ⟨fs, log⟩ () ⟨made, log⟩ := by
  have hd : fs.isDirectory (Path.at o) = true := by
    rw [FileSystem.isDirectory, h.lookup]
  have hclear : fs.clearDirectory (Path.at o) = .ok (fs.clear l) := by
    have hmay : fs.mayDelete = true := by
      rw [← h.rest] at hdel
      exact hdel
    unfold FileSystem.clearDirectory
    rw [hmay, h.lookup]
    rfl
  have hremove : (fs.clear l).removeDirectory (Path.at o) = .ok bare := by
    unfold FileSystem.removeDirectory
    rw [h.clear.lookup]
    simp only [FileSystem.below_clear, List.isEmpty_nil, ↓reduceIte, h.clear.rest]
  have hmake : bare.makeDirectories (Path.at o) = .ok made := by
    obtain ⟨ps, n, rfl⟩ := Text.exists_snoc ho
    have hreverse : (Path.at (ps ++ [n])).segments.reverse = n :: ps.reverse := by simp [Path.at]
    have hpath : (⟨(Path.at (ps ++ [n])).anchor, (n :: ps.reverse).reverse⟩ : Path) =
        Path.at (ps ++ [n]) := by
      simp [Path.at]
    rw [FileSystem.makeDirectories, hreverse, FileSystem.makeDirectoriesFrom, hpath, hmade]
  unfold resetOutput
  refine succeeds_bind.mpr ⟨fs, ⟨fs, log⟩, succeeds_files.mpr ⟨rfl, rfl⟩, ?_⟩
  simp only [hd, ↓reduceIte, removeTree]
  refine succeeds_bind.mpr ⟨(), ⟨bare, log⟩, ?_, succeeds_change.mpr ⟨made, hmake, rfl⟩⟩
  exact succeeds_bind.mpr ⟨(), ⟨fs.clear l, log⟩, succeeds_change.mpr ⟨_, hclear, rfl⟩,
    succeeds_change.mpr ⟨_, hremove, rfl⟩⟩

/-- Nothing has changed but what stands at a place and below it. -/
structure Within (l : Location) (fs fs' : FileSystem) : Prop where
  rest : fs'.erase l = fs.erase l
  here : fs'.here = fs.here

theorem Within.trans {l : Location} {fs fs₁ fs₂ : FileSystem} (h : Within l fs fs₁)
    (h' : Within l fs₁ fs₂) : Within l fs fs₂ :=
  ⟨h'.rest.trans h.rest, h'.here.trans h.here⟩

theorem Within.outside {l x : Location} {fs fs' : FileSystem} (h : Within l fs fs')
    (hx : ¬ l <+: x) : fs'.entry? x = fs.entry? x := by
  have hrest := congrArg (fun fs : FileSystem => fs.entry? x) h.rest
  simpa [FileSystem.entry?_erase, hx] using hrest

section

variable {map : ClassMap} {o l : Location} {pages : List String → Prop} (ho : ∀ n ∈ o, IsName n)
include ho

/-- Writing a page changes nothing outside the output directory. -/
theorem writeFile_within {w w' : World} {dirs : List String} {name text : String}
    (hrun : Succeeds (writeFile (Path.at (o ++ (dirs ++ [name]))) text) w () w')
    (h : Tree (Path.at o) l pages w.files) (hn : ∀ n ∈ dirs ++ [name], IsName n) :
    Within l w.files w'.files := by
  obtain ⟨made, hmake, _, hg, _, _, hfiles⟩ := writeFile_place hrun h ho hn
  rw [hfiles]
  refine ⟨?_, hg.here⟩
  rw [FileSystem.erase_insert (List.prefix_append _ _)]
  have hnames : ∀ n ∈ (Path.at (o ++ dirs)).segments.reverse, IsName n := by
    intro n hm
    rcases List.mem_append.mp (List.mem_reverse.mp hm) with hm | hm
    · exact ho n hm
    · exact hn n (by simp [hm])
  apply FileSystem.makeDirectoriesFrom_erase h.wellFormed hnames hmake
  intro x hx hx'
  rcases hg.entries x with he | ⟨_, hp, _⟩
  · rw [he] at hx'
    exact absurd hx hx'
  · exact h.new_inside hx hp

theorem writePage_within {w w' : World} {f : ParsedFile} {u : Unit}
    (h : Tree (Path.at o) l pages w.files) (hd : f.declarations ≠ []) (hrel : IsRelative f.pagePath)
    (hrun : Succeeds (writePage map (Path.at o) f) w u w') : Within l w.files w'.files := by
  obtain ⟨dirs, name, hn, _, hjoin⟩ := hrel.join o
  obtain ⟨hnone, _⟩ | ⟨_, link, _, hrun⟩ := writePage_cases hrun
  · exact absurd hnone hd
  rw [hjoin] at hrun
  exact (writeFile_within ho hrun h hn :)

theorem writePages_within {files : List ParsedFile} {w w' : World} {u : Unit}
    (h : Tree (Path.at o) l pages w.files) (hrel : ∀ f ∈ files, IsRelative f.pagePath)
    (hrun : Succeeds (writePages map (Path.at o) files) w u w') : Within l w.files w'.files := by
  induction files generalizing pages w with
  | nil =>
    obtain ⟨_, rfl⟩ := succeeds_pure.mp hrun
    exact ⟨rfl, rfl⟩
  | cons f rest ih =>
    obtain ⟨_, w₁, hpage, hrest⟩ := succeeds_bind.mp hrun
    have hrel' : ∀ g ∈ rest, IsRelative g.pagePath := fun g hg => hrel g (by simp [hg])
    rcases writePage_cases hpage with ⟨_, rfl⟩ | ⟨hd, _⟩
    · exact ih h hrel' hrest
    · obtain ⟨_, _, h₁, _⟩ := writePage_ok ho h hd (hrel f (by simp)) hpage
      exact (writePage_within ho h hd (hrel f (by simp)) hpage).trans (ih h₁ hrel' hrest)

end

end Site

end PhpPages
