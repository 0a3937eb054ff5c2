import PhpPages.Proofs.Boundary
import PhpPages.Proofs.Runs

/-!
What the boundary check protects. Containment is read off texts in which a backslash counts as a
slash, and a missing path is returned in a form that was not followed again. Whether an accepted
path stays inside the root therefore depends on the links and names that are there.
-/

namespace PhpPages

open Text

namespace FileSystem

/-- Without backslashes in the pieces and in the links, none comes up on the way. -/
theorem Leads.noBackslash {fs : FileSystem} (hb : fs.NoBackslash) {l m : Location}
    {ps : List String} {us : List Location} (h : Leads fs false l ps m us)
    (hps : ∀ p ∈ ps, '\\' ∉ p.toList) (hl : ∀ n ∈ l, '\\' ∉ n.toList) :
    ∀ n ∈ m, '\\' ∉ n.toList := by
  apply h.preserves (P := fun l => ∀ n ∈ l, '\\' ∉ n.toList) (by simp)
  · exact fun l hl n hn => hl n ((List.dropLast_prefix l).subset hn)
  · exact fun l piece clean _ _ _ hl => forall_mem_snoc hl clean
  · exact fun x target found p hp hm => hb.targets found ((mem_pieces hp).2 _ hm)
  · exact hps
  · exact hl

/-- Names lead out of a directory only through a link that does. -/
theorem Leads.inside {fs : FileSystem} {top : Location}
    (hlinks : ∀ x target m, top <+: x → fs.linkAt? x = some target →
      fs.Denotes (Path.at x) m → top <+: m)
    {l m : Location} {ps : List String} {us : List Location} (h : Leads fs false l ps m us)
    (hf : fs.LinkFree l) (hn : ∀ n ∈ l, IsName n) (hl : top <+: l) (hps : ∀ p ∈ ps, IsName p) :
    top <+: m := by
  induction h with
  | done l => exact hl
  | stay _ _ ih => exact ih hf hn hl fun p hp => hps p (by simp [hp])
  | up _ _ => exact absurd rfl (hps ".." (by simp)).notUp
  | @name l _ piece _ _ named plain _ _ ih =>
    exact ih (hf.snoc plain) (forall_mem_snoc hn named) (hl.trans (List.prefix_append _ _))
      fun p hp => hps p (by simp [hp])
  | @link l k _ piece target _ us vs named found inner _ _ ih =>
    have hlead :=
      (LinkFree.leads (l := []) hf hn (by simp)).append (.link named found inner (.done k))
    have hk : fs.Denotes (Path.at (l ++ [piece])) k := denotes_at.mpr ⟨_, hlead⟩
    exact ih (hlead.linkFree fs.linkFree_nil) (hlead.names (by simp))
      (hlinks _ _ _ (hl.trans (List.prefix_append _ _)) found hk) fun p hp => hps p (by simp [hp])

/-- The names that are used are of bounded length, so there is always a free one. -/
theorem exists_longer (fs : FileSystem) :
    ∃ b, ∀ l e, fs.entry? l = some e → ∀ n ∈ l, n.toList.length < b := by
  have hlist : ∀ names : List String, ∃ b, ∀ n ∈ names, n.toList.length < b := by
    intro names
    induction names with
    | nil => exact ⟨0, by simp⟩
    | cons n names ih =>
      obtain ⟨b, hb⟩ := ih
      refine ⟨max b (n.toList.length + 1), ?_⟩
      simp only [List.forall_mem_cons]
      exact ⟨by omega, fun k hk => by have := hb k hk; omega⟩
  obtain ⟨b, hb⟩ := hlist (fs.entries.flatMap (·.1))
  refine ⟨b, fun l e he n hn => hb n ?_⟩
  exact List.mem_flatMap.mpr ⟨(l, e), mem_entries he (List.ne_nil_of_mem hn), hn⟩

end FileSystem

namespace Segments

theorem slashed_substitute {s : String} (h : '\\' ∉ s.toList) :
    slashed (substitute '/' '\\' s) = s := by
  apply String.toList_inj.mp
  rw [toList_slashed, substitute, String.toList_ofList, List.map_map]
  conv => rhs; rw [← List.map_id s.toList]
  apply List.map_congr_left
  intro c hc
  have hne : c ≠ '\\' := fun e => h (e ▸ hc)
  by_cases hs : c = '/'
  · simp [hs]
  · simp [hs, hne]

end Segments

namespace Boundary

/-- Pieces written into one name: a backslash stands for each slash, and more of them
stand at the end. -/
def disguised (ps : List String) (extra : Nat) : String :=
  substitute '/' '\\' ("/".intercalate ps ++ String.ofList (List.replicate (extra + 1) '/'))

theorem slashed_disguised {ps : List String} (extra : Nat) (hb : ∀ p ∈ ps, '\\' ∉ p.toList) :
    Segments.slashed (disguised ps extra) =
      "/".intercalate ps ++ String.ofList (List.replicate (extra + 1) '/') := by
  apply Segments.slashed_substitute
  simp only [String.toList_append, String.toList_ofList, List.mem_append, not_or]
  exact ⟨not_mem_intercalate (by decide) hb, by simp [List.mem_replicate]⟩

theorem isName_disguised {ps : List String} (extra : Nat) (hz : ∀ p ∈ ps, '\x00' ∉ p.toList) :
    IsName (disguised ps extra) := by
  have hlist : (disguised ps extra).toList =
      ("/".intercalate ps).toList.map (fun c => if c = '/' then '\\' else c) ++
        List.replicate (extra + 1) '\\' := by
    simp [disguised, substitute]
  have hmem : '\\' ∈ (disguised ps extra).toList := by simp [hlist]
  refine ⟨?_, ?_, ?_, ?_⟩
  · cases hd : Segments.isDropped (disguised ps extra) with
    | false => rfl
    | true =>
      simp only [Segments.isDropped, Bool.or_eq_true, String.isEmpty_iff, beq_iff_eq] at hd
      rcases hd with hd | hd <;> simp [hd] at hmem
  · intro hu
    simp [hu] at hmem
  · simp only [hlist, List.mem_append, List.mem_map, List.mem_replicate]
    rintro (⟨c, _, hc⟩ | ⟨_, hc⟩)
    · split at hc <;> simp_all
    · simp at hc
  · simp only [hlist, List.mem_append, List.mem_map, List.mem_replicate]
    rintro (⟨c, hm, hc⟩ | ⟨_, hc⟩)
    · split at hc
      · simp at hc
      · exact not_mem_intercalate (by decide) hz (hc ▸ hm)
    · simp at hc

theorem length_disguised (ps : List String) (extra : Nat) :
    extra < (disguised ps extra).toList.length := by
  simp only [disguised, substitute, String.toList_ofList, String.toList_append, List.length_map,
    List.length_append, List.length_replicate]
  omega

theorem textSegments_disguised {ps : List String} (extra : Nat) (hb : ∀ p ∈ ps, '\\' ∉ p.toList)
    (hs : ∀ p ∈ ps, '/' ∉ p.toList) :
    Path.textSegments (Segments.slashed (disguised ps extra)) = ps.filter fun p =>
      !p.isEmpty && p != "." := by
  have hdrop :
      ∀ s : String, dropTrailing ['/'] (s ++ String.ofList (List.replicate (extra + 1) '/')) =
      dropTrailing ['/'] s := by
    intro s
    simp only [dropTrailing, String.toList_append, String.toList_ofList, List.reverse_append]
    rw [List.dropWhile_append_of_pos (by simp [List.mem_replicate])]
  rw [slashed_disguised extra hb, ← Path.textSegments_dropTrailing, hdrop,
    Path.textSegments_dropTrailing, Path.textSegments]
  by_cases hne : ps = []
  · simp [hne, pieces_of_not_mem]
  · rw [pieces_intercalate hne hs]

/-- Plain names that read as lying in a location are the reading of a name that is
still free there. -/
theorem exists_disguised (fs : FileSystem) {l names : Location} (hl : l ≠ [])
    (hn : ∀ n ∈ names, IsPlain n)
    (hin : Segments.isWithin (Path.at names).text (Path.at l).text = true) :
    ∃ n, IsName n ∧ fs.entry? (l ++ [n]) = none ∧ reread (l ++ [n]) = names := by
  have hnames : ∀ n ∈ names, IsName n := fun n h => (hn n h).toIsName
  have hplain : '\\' ∉ (Path.at names).text.toList :=
    Path.not_mem_text_at (by decide) fun n h => (hn n h).noBackslash
  have hnull : '\x00' ∉ (Path.at names).text.toList :=
    Path.not_mem_text_at (by decide) fun n h => (hn n h).noNull
  obtain ⟨rest, hrest⟩ := (Segments.isWithin_iff _ _).mp hin
  rw [Segments.slashed_of_not_mem hplain] at hrest
  have hpieces : ∀ p ∈ rest, '/' ∉ p.toList ∧ ∀ c ∈ p.toList, c ∈ (Path.at names).text.toList := by
    intro p hp
    apply mem_pieces
    rw [← hrest]
    exact List.mem_append_right _ hp
  obtain ⟨b, hb⟩ := fs.exists_longer
  refine ⟨disguised rest b, ?_, ?_, ?_⟩
  · exact isName_disguised b fun p hp hm => hnull ((hpieces p hp).2 _ hm)
  · cases he : fs.entry? (l ++ [disguised rest b]) with
    | none => rfl
    | some e =>
      have hlt := hb _ e he (disguised rest b) (by simp)
      have hgt := length_disguised rest b
      omega
  · have hslash : Segments.slashed "/" = "/" := by decide
    have hsegments :
        Path.textSegments (Segments.slashed (Path.at (l ++ [disguised rest b])).text) = names := by
      rw [Path.text_snoc hl, Segments.slashed_append, Segments.slashed_append, hslash,
        Path.textSegments_append_slash, ← Path.textSegments_dropTrailing,
        textSegments_disguised b (fun p hp hm => hplain ((hpieces p hp).2 _ hm)) fun p hp =>
          (hpieces p hp).1,
        Path.textSegments, ← List.filter_append, hrest]
      exact Path.textSegments_at hnames
    rw [reread, ← Path.collapse_textSegments, hsegments, Segments.collapse_names hnames]

/-- Whatever is returned for a path denotes a place in the root, if it denotes any. -/
def Contained (fs : FileSystem) (root label : String) (location : Location) (path : String) :
    Prop :=
  ∀ p l, check fs path root label = .ok p → fs.Denotes p l → location <+: l

/-- What has to hold of the file system: nothing that reads as lying in the root stands or
leads elsewhere. -/
structure Encloses (fs : FileSystem) (location : Location) : Prop where
  standing : ∀ x, fs.Stands x → Segments.isWithin (Path.at x).text (Path.at location).text = true →
    location <+: x
  leading : fs.entry? location = some .directory → ∀ names, (∀ n ∈ names, IsPlain n) →
    Segments.isWithin (Path.at names).text (Path.at location).text = true →
      ∀ l, fs.Denotes (Path.at names) l → location <+: l

section

variable {fs : FileSystem} {root label : String} {location : Location} (hw : fs.WellFormed)
  (hroot : fs.resolveStrict (Path.ofText root) = .ok location)
include hw hroot

theorem encloses_of_contained (h : ∀ path, Contained fs root label location path) :
    Encloses fs location := by
  refine ⟨fun x hx hin => ?_, fun hd names hn hin l hl => ?_⟩
  · exact h _ _ _ (check_standing hw hroot hx hin) ((hx.linkFree hw).denotes (hx.names hw))
  · by_cases hne : location = []
    · rw [hne]
      exact List.nil_prefix
    · obtain ⟨n, hname, hfree, hread⟩ := exists_disguised fs hne hn hin
      subst hread
      exact h _ _ _ (check_free hw hroot hne hd hname hfree hin) hl

theorem Encloses.contained (he : Encloses fs location) (path : String) :
    Contained fs root label location path := by
  intro p l h hl
  obtain ⟨hnull, hacc⟩ := check_accepted hw hroot h
  have hslash := Path.ofText_noSlash (t := candidateFor location path)
  cases hacc with
  | @existing x found inside =>
    have hx := (FileSystem.resolveStrict_denotes hw hslash found).2
    rw [hl.unique ((hx.linkFree hw).denotes (hx.names hw))]
    exact he.standing x hx inside
  | @missing x followed j shown shown' absent short found inside next leads leadsInside
      readInside =>
    have hx :=
      (FileSystem.resolveStrict_denotes hw (fun s hs => hslash s (List.mem_of_mem_take hs)) found).2
    have hin := he.standing x hx inside
    -- Something is missing behind `x`, so `x` is a directory, and the root too.
    have hxd : fs.entry? x = some .directory := by
      obtain ⟨e, hentry, hlink⟩ := hx
      cases e with
      | directory => exact hentry
      | link t => exact absurd rfl (hlink t)
      | file content =>
        rw [List.take_succ_eq_append_getElem short] at next
        refine absurd next (FileSystem.resolveStrict_behind_file hw (fun s hs => hslash s ?_)
          found hentry)
        rw [← List.take_succ_eq_append_getElem short] at hs
        exact List.mem_of_mem_take hs
    have hd : fs.entry? location = some .directory := by
      obtain ⟨rest, rfl⟩ := hin
      by_cases hr : rest = []
      · simpa [hr] using hxd
      · exact hw.directory hxd hr
    refine he.leading hd _ (isPlain_reread fun n hn => ?_) readInside l hl
    rcases List.mem_append.mp hn with hn | hn
    · exact (hx.names hw n hn).noNull
    · exact hnull n (List.mem_of_mem_drop hn)

/-- Without backslashes, a path that exists is contained, and so is a missing one that
does not go back. -/
theorem contained_of_plain (hb : fs.NoBackslash) {path : String}
    (hpath : (∃ x, fs.resolveStrict (Path.ofText (candidateFor location path)) = .ok x) ∨
      ∀ s ∈ (Path.ofText (candidateFor location path)).segments, s ≠ ".." ∧ '\\' ∉ s.toList) :
    Contained fs root label location path := by
  intro p l h hl
  obtain ⟨hnull, hacc⟩ := check_accepted hw hroot h
  have hslash := Path.ofText_noSlash (t := candidateFor location path)
  have hloc := (FileSystem.resolveStrict_denotes hw Path.ofText_noSlash hroot).2.plain hw hb
  cases hacc with
  | @existing x found inside =>
    have hx := (FileSystem.resolveStrict_denotes hw hslash found).2
    rw [hl.unique ((hx.linkFree hw).denotes (hx.names hw))]
    exact (Path.isWithin_at hloc (hx.plain hw hb)).mp inside
  | @missing x followed j shown shown' absent short found inside next leads leadsInside
      readInside =>
    rcases hpath with ⟨y, hy⟩ | hpath
    · rw [hy] at absent
      cases absent
    obtain ⟨_, hx⟩ :=
      FileSystem.resolveStrict_denotes hw (fun s hs => hslash s (List.mem_of_mem_take hs)) found
    have hplain :
        ∀ n ∈ x ++ (Path.ofText (candidateFor location path)).segments.drop j, IsPlain n := by
      intro n hn
      rcases List.mem_append.mp hn with hn | hn
      · exact hx.plain hw hb n hn
      · have hm := List.mem_of_mem_drop hn
        obtain ⟨hup, hback⟩ := hpath n hm
        exact ⟨⟨(Path.mem_textSegments hm).1, hup, hslash n hm, hnull n hm⟩, hback⟩
    rw [reread_plain hplain] at hl
    obtain ⟨vs, hv⟩ := FileSystem.denotes_at.mp hl
    obtain ⟨start, us, hstart, hwhole⟩ := FileSystem.leads_behind hw hslash found hv
    have hdenotes : fs.Denotes (Path.ofText (candidateFor location path)) l :=
      ⟨start, us, hstart, hwhole⟩
    have hl' : l = followed := Except.ok.inj (hdenotes.resolveLenient.symm.trans leads)
    have hstart' := FileSystem.startOf_stands hw hstart
    have hback := hwhole.noBackslash hb (fun s hs => (hpath s hs).2)
      fun n hn => (hstart'.plain hw hb n hn).noBackslash
    have hnames := hwhole.names (hstart'.names hw)
    rw [← hl'] at leadsInside
    exact (Path.isWithin_at hloc fun n hn => ⟨hnames n hn, hback n hn⟩).mp leadsInside

/-- Without backslashes, only a link in the root can lead out of it. -/
theorem encloses_iff (hb : fs.NoBackslash) :
    Encloses fs location ↔
      ∀ x target m, location <+: x → fs.linkAt? x = some target → fs.Denotes (Path.at x) m →
        location <+: m := by
  have hloc := (FileSystem.resolveStrict_denotes hw Path.ofText_noSlash hroot).2
  have hplain := hloc.plain hw hb
  constructor
  · rintro he x target m ⟨rest, rfl⟩ hx hm
    have hentry := FileSystem.linkAt?_eq_some.mp hx
    have hne : rest ≠ [] := by
      rintro rfl
      rw [List.append_nil] at hx
      simp [hloc.linkFree hw location (List.prefix_refl _)] at hx
    have hxp : ∀ n ∈ location ++ rest, IsPlain n :=
      fun n hn => ⟨hw.named hentry n hn, hb.names hentry n hn⟩
    exact he.leading (hw.directory hentry hne) _ hxp
      ((Path.isWithin_at hplain hxp).mpr (List.prefix_append _ _)) m hm
  · intro hlinks
    refine ⟨fun x hx hin => (Path.isWithin_at hplain (hx.plain hw hb)).mp hin,
      fun _ names hn hin l hl => ?_⟩
    obtain ⟨rest, rfl⟩ := (Path.isWithin_at hplain hn).mp hin
    obtain ⟨vs, hv⟩ := FileSystem.denotes_at.mp hl
    obtain ⟨k, us', vs', hk, hrest, _⟩ := hv.split
    have hkl : k = location :=
      (FileSystem.denotes_at.mpr ⟨us', hk⟩).unique ((hloc.linkFree hw).denotes (hloc.names hw))
    subst hkl
    exact hrest.inside hlinks (hloc.linkFree hw) (hloc.names hw) (List.prefix_refl _)
      fun n h => (hn n (List.mem_append_right _ h)).toIsName

end

/-- When accepted paths stay inside the root: exactly if nothing that reads as lying in it stands or
leads elsewhere. Without backslashes in the file system this means that no link in the root leads
out of it, and even then paths that exist, and missing ones that neither go back nor hold a
backslash, stay inside. -/
theorem check_contains {fs : FileSystem} {root : String} {location : Location} (label : String)
    (hw : fs.WellFormed) (hroot : fs.resolveStrict (Path.ofText root) = .ok location) :
    ((∀ path, Contained fs root label location path) ↔ Encloses fs location) ∧
    (fs.NoBackslash →
      (Encloses fs location ↔ ∀ x target m, location <+: x → fs.linkAt? x = some target →
        fs.Denotes (Path.at x) m → location <+: m) ∧
      ∀ path, ((∃ x, fs.resolveStrict (Path.ofText (candidateFor location path)) = .ok x) ∨
          ∀ s ∈ (Path.ofText (candidateFor location path)).segments, s ≠ ".." ∧ '\\' ∉ s.toList) →
        Contained fs root label location path) := by
  refine ⟨⟨encloses_of_contained hw hroot, Encloses.contained hw hroot⟩, fun hb => ⟨?_, ?_⟩⟩
  · exact encloses_iff hw hroot hb
  · exact fun path hpath => contained_of_plain hw hroot hb hpath

/-- A project with a link that stays inside. -/
def sealed : FileSystem where
  entries :=
    [(["p"], .directory), (["p", "q"], .directory), (["p", "k"], .link "q"), (["out"], .directory)]

theorem check_contains_sealed :
    sealed.WellFormed ∧ sealed.resolveStrict (Path.ofText "/p") = .ok ["p"] ∧
    ∀ path, Contained sealed "/p" "Path" ["p"] path := by
  have hw : sealed.WellFormed := FileSystem.wellFormed_of_check (by decide +kernel)
  have hb : sealed.NoBackslash := FileSystem.noBackslash_of_check (by decide +kernel)
  have hroot : sealed.resolveStrict (Path.ofText "/p") = .ok ["p"] :=
    ok_of_toOption (by decide +kernel)
  have hk : sealed.Denotes (Path.at ["p", "k"]) ["p", "q"] :=
    (FileSystem.resolveStrict_denotes hw (by decide) (ok_of_toOption (by decide +kernel))).1
  obtain ⟨hiff, hplain⟩ := check_contains "Path" hw hroot
  refine ⟨hw, hroot, hiff.mpr ((hplain hb).1.mpr fun x target m hx hlink hm => ?_)⟩
  have hlinks : sealed.links = [["p", "k"]] := by decide
  have hx : x = ["p", "k"] := by
    have hmem := FileSystem.mem_links hlink
    rwa [hlinks, List.mem_singleton] at hmem
  subst hx
  rw [hm.unique hk]
  decide

/-- A project with a link out of it. -/
def leaking : FileSystem where
  entries := [(["p"], .directory), (["p", "q"], .directory), (["p", "q", "r"], .directory),
    (["p", "sub"], .directory), (["p", "sub", "x"], .link "/out"),
    (["p", "sub", "k"], .link "/p/q/r"),
    (["out"], .directory)]

/-- A backslash at the end, and a way back from a link behind a missing name, each hide the link
that leads out. -/
theorem check_lets_out :
    leaking.WellFormed ∧ leaking.resolveStrict (Path.ofText "/p") = .ok ["p"] ∧
    leaking.Denotes (Path.at ["p", "sub", "x"]) ["out"] ∧ ¬ ["p"] <+: ["out"] ∧
    check leaking "sub/x\\" "/p" "Path" = .ok (Path.at ["p", "sub", "x"]) ∧
    check leaking "new/../sub/k/../x" "/p" "Path" = .ok (Path.at ["p", "sub", "x"]) := by
  have hw : leaking.WellFormed := FileSystem.wellFormed_of_check (by decide +kernel)
  have hx : leaking.Denotes (Path.at ["p", "sub", "x"]) ["out"] :=
    (FileSystem.resolveStrict_denotes hw (by decide) (ok_of_toOption (by decide +kernel))).1
  exact ⟨hw, ok_of_toOption (by decide +kernel), hx, by decide, ok_of_toOption (by decide +kernel),
    ok_of_toOption (by decide +kernel)⟩

end Boundary

end PhpPages
