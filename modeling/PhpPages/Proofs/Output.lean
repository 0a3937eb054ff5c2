import PhpPages.Proofs.Changes
import PhpPages.Proofs.Runs

namespace PhpPages.Site

open FileSystem (Grown)

/-- The output directory after it was made anew: it is empty, and everything else is as it was,
except for directories that were missing on the way to it. -/
structure Fresh (fs fs' : FileSystem) (output : Path) (l : Location) : Prop where
  wellFormed : fs'.WellFormed
  place : (fs'.lookup true output).place? = some (l, some .directory)
  empty : ∀ r, r ≠ [] → fs'.entry? (l ++ r) = none
  frame : ∀ x, ¬ l <+: x → fs'.entry? x = fs.entry? x ∨
    fs.entry? x = none ∧ x <+: l ∧ fs'.entry? x = some .directory

/-- An output directory that was missing. -/
theorem fresh_of_missing {fs fs' : FileSystem} {output : Path} (hw : fs.WellFormed)
    (hn : ∀ n ∈ output.segments, IsName n) (hno : fs.isDirectory output = false)
    (h : fs.makeDirectories output = .ok fs') : ∃ l, Fresh fs fs' output l := by
  obtain ⟨hw', l, hplace, hgrown⟩ := FileSystem.makeDirectories_ok hw hn h
  obtain ⟨start, hs, ha, hdir⟩ := FileSystem.lookup_arrives hw' hplace (by simp)
  -- Had the directory been there, nothing would be new, and the path would have led to it before.
  have hfree : fs.entry? l = none := by
    rcases hgrown.entries l with hl | ⟨hl, _⟩
    · have hback : ∀ x e, fs'.entry? x = some e → fs.entry? x = some e := by
        intro x e hx
        rcases hgrown.entries x with he | ⟨he, ⟨r, rfl⟩, _⟩
        · rw [← he, hx]
        · by_cases hr : r = []
          · subst hr
            rw [List.append_nil] at hl hdir
            rw [hl, he] at hdir
            cases hdir
          · rw [hw.directory (hl.symm.trans hdir) hr] at he
            cases he
      have hs' : fs.startOf output = some start := by
        rw [← hs]
        simp only [FileSystem.startOf, hgrown.here]
      have hdir' := hl.symm.trans hdir
      have ha' := ha.mono (fun x e _ => hback x e) (FileSystem.linkAt?_directory hdir')
      have hyes : fs.isDirectory output = true :=
        FileSystem.isDirectory_iff.mpr ⟨l, by rw [ha'.lookup hw hs', hdir']⟩
      rw [hno] at hyes
      cases hyes
    · exact hl
  refine ⟨l, hw', hplace, fun r hr => ?_, fun x _ => hgrown.entries x⟩
  cases he : fs'.entry? (l ++ r) with
  | none => rfl
  | some e =>
    rcases hgrown.entries (l ++ r) with hx | ⟨_, hp, _⟩
    · rw [he] at hx
      have := hw.directory hx.symm hr
      rw [hfree] at this
      cases this
    · have := hp.length_le
      have hpos := List.length_pos_iff.mpr hr
      rw [List.length_append] at this
      omega

/-- An output directory that was there: it was emptied, removed and made again. -/
theorem fresh_of_removed {fs cleared erased fs' : FileSystem} {o : Location} (hw : fs.WellFormed)
    (hn : ∀ n ∈ o, IsName n) (hclear : fs.clearDirectory (Path.at o) = .ok cleared)
    (hremove : cleared.removeDirectory (Path.at o) = .ok erased)
    (hmake : erased.makeDirectories (Path.at o) = .ok fs') : ∃ l, Fresh fs fs' (Path.at o) l := by
  obtain ⟨l, _, hplace, rfl⟩ := FileSystem.clear_remove hw hclear hremove
  obtain ⟨start, hs, ha, hdir⟩ := FileSystem.lookup_arrives (hw.clear l) hplace (by simp)
  have hempty : ∀ r, r ≠ [] → FileSystem.entry? (fs.clear l) (l ++ r) = none := by
    intro r hr
    rw [FileSystem.entry?_clear, if_pos ⟨by simpa using hr, List.prefix_append _ _⟩]
  have hsame := FileSystem.makeDirectories_erased (hw.clear l) hn hplace hempty hmake
  obtain ⟨hw', _⟩ := FileSystem.makeDirectories_ok ((hw.clear l).erase l) hn hmake
  refine ⟨l, hw', ?_, fun r hr => (hsame _).trans (hempty r hr), fun x hx => .inl ?_⟩
  · have hdir' : fs'.entry? l = some .directory := (hsame l).trans hdir
    have ha' :=
      ha.followLast.mono (fun x e _ hx => (hsame x).trans hx) (FileSystem.linkAt?_directory hdir')
    have hs'' : fs'.startOf (Path.at o) = some start := hs
    rw [ha'.lookup hw' hs'', hdir']
  · rw [hsame, FileSystem.entry?_clear, if_neg fun h => hx h.2]

/-- How an output directory is made ready: it is missing, or what stands there is removed first. -/
inductive ResetCase (output : Path) (fs : FileSystem) : FileSystem → Prop where
  | missing {made : FileSystem} (absent : fs.isDirectory output = false)
      (makes : fs.makeDirectories output = .ok made) : ResetCase output fs made
  | removed {cleared erased made : FileSystem} (clears : fs.clearDirectory output = .ok cleared)
      (removes : cleared.removeDirectory output = .ok erased)
      (makes : erased.makeDirectories output = .ok made) : ResetCase output fs made

theorem resetOutput_case {output : Path} {w w' : World} {u : Unit}
    (h : Succeeds (resetOutput output) w u w') : ResetCase output w.files w'.files := by
  unfold resetOutput at h
  obtain ⟨_, _, hfiles, h⟩ := succeeds_bind.mp h
  obtain ⟨rfl, rfl⟩ := succeeds_files.mp hfiles
  cases hd : w.files.isDirectory output with
  | false =>
    simp only [hd, Bool.false_eq_true, ↓reduceIte] at h
    obtain ⟨_, hmake, rfl⟩ := succeeds_change.mp h
    exact .missing hd hmake
  | true =>
    simp only [hd, ↓reduceIte, removeTree] at h
    obtain ⟨_, _, htree, h⟩ := succeeds_bind.mp h
    obtain ⟨_, _, hclear, hremove⟩ := succeeds_bind.mp htree
    obtain ⟨_, hcleared, rfl⟩ := succeeds_change.mp hclear
    obtain ⟨_, herased, rfl⟩ := succeeds_change.mp hremove
    obtain ⟨_, hmake, rfl⟩ := succeeds_change.mp h
    exact .removed hcleared herased hmake

theorem resetOutput_fresh {o : Location} {w w' : World} (hw : w.files.WellFormed)
    (hn : ∀ n ∈ o, IsName n) (h : Succeeds (resetOutput (Path.at o)) w () w') :
    ∃ l, Fresh w.files w'.files (Path.at o) l := by
  cases resetOutput_case h with
  | missing absent makes => exact fresh_of_missing hw hn absent makes
  | removed clears removes makes => exact fresh_of_removed hw hn clears removes makes

/-- An output directory with a set of pages in it, each by the names that lead to it. There
are no links. -/
structure Tree (output : Path) (l : Location) (pages : List String → Prop) (fs : FileSystem) :
    Prop where
  wellFormed : fs.WellFormed
  place : (fs.lookup true output).place? = some (l, some .directory)
  plain : ∀ r, fs.linkAt? (l ++ r) = none
  files : ∀ r, (∃ content, fs.entry? (l ++ r) = some (.file content)) ↔ pages r

theorem Fresh.tree {fs fs' : FileSystem} {output : Path} {l : Location}
    (h : Fresh fs fs' output l) : Tree output l (fun _ => False) fs' := by
  obtain ⟨_, _, _, hdir⟩ := FileSystem.lookup_arrives h.wellFormed h.place (by simp)
  have hkind : ∀ r, fs'.entry? (l ++ r) = none ∨ fs'.entry? (l ++ r) = some .directory := by
    intro r
    by_cases hr : r = []
    · exact .inr (by simpa [hr] using hdir)
    · exact .inl (h.empty r hr)
  refine ⟨h.wellFormed, h.place, fun r => ?_, fun r => ?_⟩
  · rcases hkind r with hr | hr <;> simp [FileSystem.linkAt?, hr]
  · rcases hkind r with hr | hr <;> simp [hr]

/-- Names that lead through the output path lead to the same place in the output directory. -/
theorem Tree.denotes {o l m : Location} {pages : List String → Prop} {fs : FileSystem}
    {r : List String} (h : Tree (Path.at o) l pages fs) (ho : ∀ n ∈ o, IsName n)
    (hr : ∀ n ∈ r, IsName n) (hm : fs.Denotes (Path.at (o ++ r)) m) : m = l ++ r := by
  obtain ⟨us, hlead⟩ := FileSystem.denotes_at.mp hm
  obtain ⟨k, us', vs, hk, hrest, _⟩ := hlead.split
  obtain ⟨hl, hdir⟩ := FileSystem.lookup_denotes h.wellFormed
    (fun n hn => ⟨(ho n hn).noSlash, (ho n hn).noNull⟩) h.place (by simp)
  obtain rfl : k = l := (FileSystem.denotes_at.mpr ⟨us', hk⟩).unique hl
  have hfree : fs.LinkFree (k ++ r) := by
    intro x hx
    rcases List.prefix_or_prefix_of_prefix hx (List.prefix_append k r) with hxk | ⟨s, rfl⟩
    · exact (FileSystem.stands_directory hdir).linkFree h.wellFormed x hxk
    · exact h.plain s
  have hplain : FileSystem.Leads fs false k r (k ++ r) [] := hfree.leads hr (by simp)
  exact (hrest.unique hplain).1

/-- Outside what was written everything is as it was, except for directories that were missing in
the output directory. -/
def Kept (l : Location) (written : Location → Prop) (fs fs' : FileSystem) : Prop :=
  ∀ x, ¬ written x → fs'.entry? x = fs.entry? x ∨
    fs.entry? x = none ∧ l <+: x ∧ fs'.entry? x = some .directory

theorem Kept.refl (l : Location) (written : Location → Prop) (fs : FileSystem) :
    Kept l written fs fs :=
  fun _ _ => .inl rfl

theorem Kept.trans {l : Location} {written written' : Location → Prop} {fs fs₁ fs₂ : FileSystem}
    (h : Kept l written fs fs₁) (h' : Kept l written' fs₁ fs₂) :
    Kept l (fun x => written x ∨ written' x) fs fs₂ := by
  intro x hx
  have hfirst := h x fun hw => hx (.inl hw)
  rcases h' x fun hw => hx (.inr hw) with he | ⟨hnone, hp, hd⟩
  · rw [he]
    exact hfirst
  · rcases hfirst with he | ⟨_, _, hd'⟩
    · exact .inr ⟨he ▸ hnone, hp, hd⟩
    · rw [hnone] at hd'
      cases hd'

theorem Kept.mono {l : Location} {written written' : Location → Prop} {fs fs' : FileSystem}
    (h : Kept l written fs fs') (hsub : ∀ x, written x → written' x) : Kept l written' fs fs' :=
  fun x hx => h x fun hw => hx (hsub x hw)

/-- An entry that is there and not written over stays. -/
theorem Kept.entry {l x : Location} {written : Location → Prop} {fs fs' : FileSystem} {e : Entry}
    (h : Kept l written fs fs') (hx : ¬ written x) (he : fs.entry? x = some e) :
    fs'.entry? x = some e := by
  rcases h x hx with hs | ⟨hnone, _⟩
  · rw [hs, he]
  · rw [hnone] at he
    cases he

theorem Kept.outside {l x : Location} {written : Location → Prop} {fs fs' : FileSystem}
    (h : Kept l written fs fs') (hw : ∀ y, written y → l <+: y) (hx : ¬ l <+: x) :
    fs'.entry? x = fs.entry? x := by
  rcases h x fun hwritten => hx (hw x hwritten) with hs | ⟨_, hp, _⟩
  · exact hs
  · exact absurd hp hx

theorem Tree.congr {output : Path} {l : Location} {pages pages' : List String → Prop}
    {fs : FileSystem} (h : Tree output l pages fs) (hp : ∀ r, pages r ↔ pages' r) :
    Tree output l pages' fs :=
  ⟨h.wellFormed, h.place, h.plain, fun r => (h.files r).trans (hp r)⟩

/-- Making directories in the output directory leaves its pages alone. -/
theorem Tree.grown {o l k : Location} {pages : List String → Prop} {fs fs' : FileSystem}
    (h : Tree (Path.at o) l pages fs) (hw : fs'.WellFormed) (hg : Grown fs fs' k) :
    Tree (Path.at o) l pages fs' := by
  obtain ⟨start, hs, ha, hdir⟩ := FileSystem.lookup_arrives h.wellFormed h.place (by simp)
  have hdir' := hg.kept _ _ hdir
  refine ⟨hw, ?_, fun r => ?_, fun r => ?_⟩
  · have ha' := ha.mono (fun x e _ => hg.kept x e) (FileSystem.linkAt?_directory hdir')
    have hs' : fs'.startOf (Path.at o) = some start := hs
    rw [ha'.lookup hw hs', hdir']
  · rcases hg.entries (l ++ r) with he | ⟨_, _, he⟩
    · have := h.plain r
      simpa [FileSystem.linkAt?, he] using this
    · exact FileSystem.linkAt?_directory he
  · rcases hg.entries (l ++ r) with he | ⟨hnone, _, he⟩
    · rw [he, h.files]
    · rw [← h.files, he, hnone]
      simp

theorem Tree.insert {o l : Location} {pages : List String → Prop} {fs : FileSystem}
    {dirs : List String} {name : String} {content : ByteArray} (h : Tree (Path.at o) l pages fs)
    (hname : IsName name) (hparent : fs.entry? (l ++ dirs) = some .directory)
    (hold : fs.entry? (l ++ (dirs ++ [name])) ≠ some .directory) :
    Tree (Path.at o) l (fun r => pages r ∨ r = dirs ++ [name])
      (fs.insert (l ++ (dirs ++ [name])) (.file content)) := by
  have hne : l ++ (dirs ++ [name]) ≠ [] := by simp
  have hw : (fs.insert (l ++ (dirs ++ [name])) (.file content)).WellFormed := by
    rw [← List.append_assoc] at hold ⊢
    exact h.wellFormed.insert hparent hname (by simp) hold
  obtain ⟨start, hs, ha, hdir⟩ := FileSystem.lookup_arrives h.wellFormed h.place (by simp)
  have hsub : ∀ x e, (∀ c, e ≠ .file c) → fs.entry? x = some e →
      FileSystem.entry? (fs.insert (l ++ (dirs ++ [name])) (.file content)) x = some e := by
    intro x e hfile hx
    rw [FileSystem.entry?_insert _ hne]
    split
    · rename_i hxl
      subst hxl
      cases e with
      | directory => exact absurd hx hold
      | file c => exact absurd rfl (hfile c)
      | link t =>
        rw [← FileSystem.linkAt?_eq_some, h.plain] at hx
        cases hx
    · exact hx
  refine ⟨hw, ?_, fun r => ?_, fun r => ?_⟩
  · have hdir' := hsub l .directory (by simp) hdir
    rw [(ha.mono hsub (FileSystem.linkAt?_directory hdir')).lookup hw hs, hdir']
  · have hr := h.plain r
    unfold FileSystem.linkAt? at hr ⊢
    rw [FileSystem.entry?_insert _ hne]
    by_cases hx : l ++ r = l ++ (dirs ++ [name])
    · rw [if_pos hx]
    · rw [if_neg hx]
      exact hr
  · rw [FileSystem.entry?_insert _ hne]
    by_cases hr : r = dirs ++ [name]
    · simp [hr]
    · simp [hr, h.files]

theorem write_ok {fs fs' : FileSystem} {p : Path} {content : ByteArray}
    (h : fs.write p content = .ok fs') :
    ∃ m d, (fs.lookup true p).place? = some (m, d) ∧ (d = none ∨ ∃ old, d = some (.file old)) ∧
      fs' = fs.insert m (.file content) := by
  unfold FileSystem.write at h
  split at h
  · rename_i m old hm
    cases h
    exact ⟨m, _, by rw [hm]; rfl, .inr ⟨old, rfl⟩, rfl⟩
  · cases h
  · rename_i m hm
    cases h
    exact ⟨m, none, by rw [hm]; rfl, .inl rfl, rfl⟩
  · cases h

/-- Writing a page makes the directories on the way to it, and puts it where its names say. -/
theorem writeFile_place {o l : Location} {pages : List String → Prop} {w w' : World}
    {dirs : List String} {name text : String}
    (hrun : Succeeds (writeFile (Path.at (o ++ (dirs ++ [name]))) text) w () w')
    (h : Tree (Path.at o) l pages w.files) (ho : ∀ n ∈ o, IsName n)
    (hn : ∀ n ∈ dirs ++ [name], IsName n) :
    ∃ made, w.files.makeDirectories (Path.at (o ++ dirs)) = .ok made ∧
      Tree (Path.at o) l pages made ∧
      Grown w.files made (l ++ dirs) ∧ made.entry? (l ++ dirs) = some .directory ∧
      made.entry? (l ++ (dirs ++ [name])) ≠ some .directory ∧
      w'.files = made.insert (l ++ (dirs ++ [name])) (.file text.toUTF8) := by
  have hdirs : ∀ n ∈ dirs, IsName n := fun n hm => hn n (by simp [hm])
  have hparent : (Path.at (o ++ (dirs ++ [name]))).parent = Path.at (o ++ dirs) := by
    rw [← List.append_assoc]
    simp [Path.parent, Path.at]
  have hclean : ∀ r, (∀ n ∈ r, IsName n) →
      ∀ n ∈ (Path.at (o ++ r)).segments, '/' ∉ n.toList ∧ '\x00' ∉ n.toList := by
    intro r hr n hm
    rcases List.mem_append.mp hm with hm | hm
    · exact ⟨(ho n hm).noSlash, (ho n hm).noNull⟩
    · exact ⟨(hr n hm).noSlash, (hr n hm).noNull⟩
  unfold writeFile at hrun
  obtain ⟨_, w₁, hmake, hwrite⟩ := succeeds_bind.mp hrun
  obtain ⟨fs₁, hmade, rfl⟩ := succeeds_change.mp hmake
  obtain ⟨fs₂, hwritten, rfl⟩ := succeeds_change.mp hwrite
  rw [hparent] at hmade
  obtain ⟨hw₁, k, hk, hg⟩ := FileSystem.makeDirectories_ok h.wellFormed
    (fun n hm => (List.mem_append.mp hm).elim (ho n) (hdirs n)) hmade
  have h₁ : Tree (Path.at o) l pages fs₁ := h.grown hw₁ hg
  obtain ⟨hkd, hkdir⟩ := FileSystem.lookup_denotes hw₁ (hclean dirs hdirs) hk (by simp)
  obtain rfl : k = l ++ dirs := h₁.denotes ho hdirs hkd
  obtain ⟨m, d, hm, hd, hfs₂⟩ := write_ok hwritten
  have hdl : ∀ t, d ≠ some (.link t) := by
    rcases hd with rfl | ⟨old, rfl⟩ <;> simp
  obtain ⟨hmd, hmentry⟩ := FileSystem.lookup_denotes hw₁ (hclean _ hn) hm hdl
  obtain rfl : m = l ++ (dirs ++ [name]) := h₁.denotes ho hn hmd
  have hold : fs₁.entry? (l ++ (dirs ++ [name])) ≠ some .directory := by
    rcases hd with rfl | ⟨old, rfl⟩ <;> simp [hmentry]
  exact ⟨fs₁, hmade, h₁, hg, hkdir, hold, hfs₂⟩

/-- What is new on the way to a place in the output directory lies in the output directory, for the
way to that was there. -/
theorem Tree.new_inside {output : Path} {l x : Location} {pages : List String → Prop}
    {fs : FileSystem} {dirs : List String} (h : Tree output l pages fs) (hx : fs.entry? x = none)
    (hp : x <+: l ++ dirs) : l <+: x := by
  rcases List.prefix_or_prefix_of_prefix hp (List.prefix_append l dirs) with hxl | hxl
  · obtain ⟨_, _, _, hdir⟩ := FileSystem.lookup_arrives h.wellFormed h.place (by simp)
    obtain ⟨r, rfl⟩ := hxl
    by_cases hr : r = []
    · simp [hr]
    · rw [h.wellFormed.directory hdir hr] at hx
      cases hx
  · exact hxl

/-- Writing a page puts it where its names say and touches no other. -/
theorem writeFile_ok {o l : Location} {pages : List String → Prop} {w w' : World}
    {dirs : List String} {name text : String}
    (hrun : Succeeds (writeFile (Path.at (o ++ (dirs ++ [name]))) text) w () w')
    (h : Tree (Path.at o) l pages w.files) (ho : ∀ n ∈ o, IsName n)
    (hn : ∀ n ∈ dirs ++ [name], IsName n) :
    Tree (Path.at o) l (fun r => pages r ∨ r = dirs ++ [name]) w'.files ∧
      w'.files.entry? (l ++ (dirs ++ [name])) = some (.file text.toUTF8) ∧
      Kept l (fun x => x = l ++ (dirs ++ [name])) w.files w'.files := by
  obtain ⟨made, _, htree, hg, hdir, hold, hfiles⟩ := writeFile_place hrun h ho hn
  rw [hfiles]
  refine ⟨htree.insert (hn name (by simp)) hdir hold, ?_, fun x hx => ?_⟩
  · rw [FileSystem.entry?_insert _ (by simp), if_pos rfl]
  · rw [FileSystem.entry?_insert _ (by simp), if_neg hx]
    rcases hg.entries x with he | ⟨hnone, hp, he⟩
    · exact .inl he
    · exact .inr ⟨hnone, h.new_inside hnone hp, he⟩

end PhpPages.Site
