import Mathlib.Data.List.Sort
import PhpPages.Proofs.SourceOrder

namespace PhpPages

theorem Text.occursIn_iff {needle text : List Char} :
    occursIn needle text = true ↔ needle <:+: text := by
  induction text with
  | nil => simp [occursIn]
  | cons c text ih =>
    simp only [occursIn, Bool.or_eq_true, List.isPrefixOf_iff_prefix, ih, List.infix_cons_iff]

/-- Without its repetitions a sorted list is still sorted, and no element equals one behind it. -/
theorem pairwise_eraseDups {α : Type} [BEq α] [LawfulBEq α] {r : α → α → Prop} {l : List α}
    (h : l.Pairwise r) : l.eraseDups.Pairwise fun a b => r a b ∧ a ≠ b := by
  match l, h with
  | [], _ => exact List.Pairwise.nil
  | a :: rest, h =>
    obtain ⟨ha, hrest⟩ := List.pairwise_cons.mp h
    rw [List.eraseDups_cons]
    refine List.pairwise_cons.mpr ⟨fun b hb => ?_, pairwise_eraseDups (hrest.filter _)⟩
    obtain ⟨hmem, hne⟩ := List.mem_filter.mp (List.mem_eraseDups.mp hb)
    exact ⟨ha b hmem, fun heq => by simp [heq] at hne⟩
termination_by l.length
decreasing_by exact Nat.lt_succ_of_le (List.length_filter_le _ _)

namespace Path

/-- An anchor is told from a segment by its slash. -/
theorem isAbsolute_iff_parts {p : Path} (hp : ∀ n ∈ p.segments, '/' ∉ n.toList) :
    p.isAbsolute = true ↔ ∃ n ∈ p.parts, '/' ∈ n.toList := by
  obtain ⟨anchor, segments⟩ := p
  cases anchor with
  | relative => simpa [parts, isAbsolute] using hp
  | root => simp [parts, isAbsolute, Anchor.text]
  | doubleRoot => simp [parts, isAbsolute, Anchor.text]

theorem anchor_of_parts {p q : Path} (hp : ∀ n ∈ p.segments, '/' ∉ n.toList)
    (hq : ∀ n ∈ q.segments, '/' ∉ n.toList) (h : p.parts = q.parts) : p.anchor = q.anchor := by
  have hsame : p.isAbsolute = q.isAbsolute := by
    rw [Bool.eq_iff_iff, isAbsolute_iff_parts hp, isAbsolute_iff_parts hq, h]
  obtain ⟨a, ps⟩ := p
  obtain ⟨b, qs⟩ := q
  cases a <;> cases b <;> simp_all [parts, isAbsolute, Anchor.text]

theorem le_iff {p q : Path} : p.le q = true ↔ ¬ q.parts < p.parts := by
  simp only [le, Bool.not_eq_true', decide_eq_false_iff_not]

theorem lt_of_le_of_ne {p q : Path} (hp : ∀ n ∈ p.segments, '/' ∉ n.toList)
    (hq : ∀ n ∈ q.segments, '/' ∉ n.toList) (hle : p.le q = true) (hne : p ≠ q) :
    p.parts < q.parts := by
  by_contra hlt
  have hparts : p.parts = q.parts := List.le_antisymm (le_iff.mp hle) hlt
  exact hne (le_antisymm (anchor_of_parts hp hq hparts) hle (le_iff.mpr hlt))

end Path

namespace FileSystem

/-- Names lead from a directory through real subdirectories to an entry. -/
inductive Trail (fs : FileSystem) : Location → List String → Entry → Prop where
  | last {l : Location} {n : String} {e : Entry} (found : fs.entry? (l ++ [n]) = some e) :
      Trail fs l [n] e
  | down {l : Location} {n : String} {names : List String} {e : Entry}
      (directory : fs.entry? (l ++ [n]) = some .directory) (rest : Trail fs (l ++ [n]) names e) :
      Trail fs l (n :: names) e

theorem Trail.entry {fs : FileSystem} {l : Location} {names : List String} {e : Entry}
    (h : Trail fs l names e) : names ≠ [] ∧ fs.entry? (l ++ names) = some e := by
  induction h with
  | last found => exact ⟨by simp, found⟩
  | down _ _ ih => exact ⟨by simp, by simpa using ih.2⟩

theorem WellFormed.trail {fs : FileSystem} (hw : fs.WellFormed) {l : Location} {names : List String}
    {e : Entry} (hne : names ≠ []) (h : fs.entry? (l ++ names) = some e) : Trail fs l names e := by
  induction names generalizing l with
  | nil => exact absurd rfl hne
  | cons n names ih =>
    by_cases hlast : names = []
    · subst hlast
      exact .last h
    · have hsplit : l ++ n :: names = l ++ [n] ++ names := by simp
      rw [hsplit] at h
      exact .down (hw.directory h hlast) (ih hlast h)

/-- What stands below a location is what trails lead to from there. -/
theorem exists_below_iff {fs : FileSystem} (hw : fs.WellFormed) {l : Location}
    {names : List String} : (∃ e, (names, e) ∈ fs.below l) ↔ ∃ e, Trail fs l names e := by
  constructor
  · intro h
    obtain ⟨e, h⟩ := h
    obtain ⟨⟨k, e'⟩, hm, hk⟩ := List.mem_filterMap.mp h
    split at hk
    · rename_i hbelow
      cases hk
      simp only [Bool.and_eq_true, decide_eq_true_eq, List.isPrefixOf_iff_prefix] at hbelow
      obtain ⟨⟨rest, rfl⟩, hlength⟩ := hbelow
      obtain ⟨e'', he⟩ := exists_entry hm
      rw [List.drop_left]
      have hne : rest ≠ [] := by
        intro hnil
        simp [hnil] at hlength
      exact ⟨e'', hw.trail hne he⟩
    · cases hk
  · intro h
    obtain ⟨e, h⟩ := h
    obtain ⟨hne, he⟩ := h.entry
    refine ⟨e, List.mem_filterMap.mpr ⟨(l ++ names, e), mem_entries he (by simp [hne]), ?_⟩⟩
    have hlength : 0 < names.length := List.length_pos_iff.mpr hne
    simp [hlength]

theorem isFile_iff {fs : FileSystem} {p : Path} : fs.isFile p = true ↔
    ∃ m content, (fs.lookup true p).place? = some (m, some (.file content)) := by
  unfold isFile
  cases fs.lookup true p with
  | entry l e => cases e <;> simp [Found.place?]
  | free l => simp [Found.place?]
  | nowhere f => simp [Found.place?]

/-- A path leads on from the directory that its front leads to. -/
theorem Arrives.behind {fs : FileSystem} {n : Nat} {l k m : Location} {ps qs : List String}
    (h : Arrives fs true n l ps k) (hk : fs.entry? k = some .directory)
    (hqs : ∀ n, Arrives fs true n k qs m) : Arrives fs true n l (ps ++ qs) m := by
  induction h with
  | done n l => exact hqs n
  | stay hd _ ih => exact .stay hd (ih hk hqs)
  | up _ ih => exact .up (ih hk hqs)
  | down hd hu found _ ih => exact .down hd hu found (ih hk hqs)
  | last n hd hu _ => exact .down hd hu hk (hqs n)
  | @link _ _ _ _ target ps hd hu found _ _ ih =>
    have hrest := ih hk hqs
    rw [List.append_assoc] at hrest
    exact .link hd hu found (.inl rfl) hrest

/-- A trail that does not end at a link is walked without following any. -/
theorem Trail.arrives {fs : FileSystem} (hw : fs.WellFormed) {l : Location} {names : List String}
    {e : Entry} (h : Trail fs l names e) (hlink : ∀ t, e ≠ .link t) (n : Nat) :
    Arrives fs true n l names (l ++ names) := by
  induction h with
  | @last l name e found =>
    have hname : IsName name := hw.named found name (by simp)
    exact .last n hname.notDropped hname.notUp (linkAt?_of_entry found hlink)
  | @down l name names e directory _ ih =>
    have hname : IsName name := hw.named directory name (by simp)
    have hrest := ih hlink
    rw [List.append_assoc, List.singleton_append] at hrest
    exact .down hname.notDropped hname.notUp directory hrest

/-- Behind a directory that a path leads to, a trail leads to a file if it ends at one. If it ends
at a link, that depends on the link. -/
theorem Trail.isFile_iff {fs : FileSystem} (hw : fs.WellFormed) {d : Path} {l : Location}
    {names : List String} {e : Entry} (hd : fs.lookup true d = .entry l .directory)
    (h : Trail fs l names e) :
    fs.isFile (d.join ⟨.relative, names⟩) = true ↔
      (∃ content, e = .file content) ∨
      (∃ t, e = .link t) ∧ fs.isFile (d.join ⟨.relative, names⟩) = true := by
  have hplace : (fs.lookup true d).place? = some (l, some .directory) := by rw [hd, Found.place?]
  obtain ⟨start, hs, ha, hl⟩ := lookup_arrives hw hplace (by simp)
  have hs' : fs.startOf (d.join ⟨.relative, names⟩) = some start := hs
  have hthere : (∀ t, e ≠ .link t) →
      (fs.lookup true (d.join ⟨.relative, names⟩)).place? = some (l ++ names, some e) := by
    intro hlink
    have harrives := ha.behind hl (h.arrives hw hlink)
    rw [harrives.lookup (p := d.join ⟨.relative, names⟩) hw hs', h.entry.2]
  cases e with
  | directory => simp [FileSystem.isFile_iff, hthere]
  | file content => simp [FileSystem.isFile_iff, hthere]
  | link t => simp

end FileSystem

theorem Path.relativeTo?_eq_some {p b q : Path} :
    p.relativeTo? b = some q ↔ ∃ names, q = ⟨.relative, names⟩ ∧ p = b.join ⟨.relative, names⟩ := by
  obtain ⟨anchor, segments⟩ := p
  constructor
  · intro h
    simp only [Path.relativeTo?] at h
    split at h
    · rename_i hbelow
      simp only [Bool.and_eq_true, decide_eq_true_eq, List.isPrefixOf_iff_prefix] at hbelow
      obtain ⟨rfl, names, rfl⟩ := hbelow
      rw [List.drop_left] at h
      exact ⟨names, (Option.some.inj h).symm, rfl⟩
    · cases h
  · intro h
    obtain ⟨names, rfl, hp⟩ := h
    rw [hp]
    simp [Path.relativeTo?, Path.join, Path.isAbsolute]

namespace Scan

/-- The extensions that are meant: those given, or else that of PHP. -/
def Filter.wanted (f : Filter) : List String :=
  if f.extensions = [] then ["php"] else f.extensions

/-- The names by which a file is seen: those that lead to it from the base, or from the directory it
was found in if it does not lie below the base. -/
inductive SeenBy (base : Option Path) (directory file : Path) : List String → Prop where
  | fromBase {b : Path} {names : List String} (isBase : base = some b)
      (below : file = b.join ⟨.relative, names⟩) : SeenBy base directory file names
  | fromDirectory {names : List String}
      (outside : ∀ b ∈ base, ∀ others, file ≠ b.join ⟨.relative, others⟩)
      (below : file = directory.join ⟨.relative, names⟩) : SeenBy base directory file names

/-- A file that a search in a directory is to find. -/
structure Selected (fs : FileSystem) (f : Filter) (directory file : Path) : Prop where
  found : ∃ l names e, fs.lookup true directory = .entry l .directory ∧ fs.Trail l names e ∧
    file = directory.join ⟨.relative, names⟩ ∧
    ((∃ content, e = .file content) ∨ (∃ t, e = .link t) ∧ fs.isFile file = true)
  suffix : ∃ x ∈ f.wanted, bareExtension x = bareExtension file.suffix
  spared : ∃ names, SeenBy f.base directory file names ∧
    ∀ e ∈ f.excluded, e ≠ "" →
      ¬ (Segments.slashed e).toList <:+: (⟨.relative, names⟩ : Path).text.toList

section

variable {f : Filter} {directory file : Path}

theorem wantsSuffix_iff :
    f.wantsSuffix file = true ↔ ∃ x ∈ f.wanted, bareExtension x = bareExtension file.suffix := by
  simp only [Filter.wantsSuffix, Filter.wanted, List.isEmpty_iff, List.contains_iff_mem,
    List.mem_map]

theorem exists_seenBy {names : List String} (h : file = directory.join ⟨.relative, names⟩) :
    ∃ seen, SeenBy f.base directory file seen := by
  by_cases hbelow : ∃ b ∈ f.base, ∃ others, file = b.join ⟨.relative, others⟩
  · obtain ⟨b, hb, others, hfile⟩ := hbelow
    exact ⟨others, .fromBase hb hfile⟩
  · refine ⟨names, .fromDirectory (fun b hb others hfile => ?_) h⟩
    exact hbelow ⟨b, hb, others, hfile⟩

theorem SeenBy.matchText {names : List String} (h : SeenBy f.base directory file names) :
    f.matchText directory file = (⟨.relative, names⟩ : Path).text := by
  unfold Filter.matchText
  cases h with
  | fromBase isBase below =>
    have hseen := Path.relativeTo?_eq_some.mpr ⟨names, rfl, below⟩
    simp [isBase, hseen]
  | fromDirectory outside below =>
    have hseen := Path.relativeTo?_eq_some.mpr ⟨names, rfl, below⟩
    have hbase : f.base.bind file.relativeTo? = none := by
      rw [Option.bind_eq_none_iff]
      intro b hb
      cases hrel : file.relativeTo? b with
      | none => rfl
      | some seen =>
        obtain ⟨others, _, hfile⟩ := Path.relativeTo?_eq_some.mp hrel
        exact absurd hfile (outside b hb others)
    simp [hbase, hseen]

theorem excludes_iff :
    f.excludes directory file = true ↔
      ∃ e ∈ f.excluded, e ≠ "" ∧
        (Segments.slashed e).toList <:+: (f.matchText directory file).toList := by
  simp [Filter.excludes, Text.occursIn_iff]

theorem mem_contribution {fs : FileSystem} (hw : fs.WellFormed) :
    file ∈ contribution fs f directory ↔ Selected fs f directory file := by
  unfold contribution
  constructor
  · intro h
    split at h
    · rename_i l hd
      obtain ⟨⟨names, e'⟩, hm, hfile⟩ := List.mem_filterMap.mp h
      dsimp only at hfile
      split at hfile
      · rename_i hkept
        obtain rfl := Option.some.inj hfile
        simp only [Bool.and_eq_true, Bool.not_eq_true'] at hkept
        obtain ⟨⟨hsuffix, hexcluded⟩, hisFile⟩ := hkept
        obtain ⟨e, htrail⟩ := (FileSystem.exists_below_iff hw).mp ⟨e', hm⟩
        obtain ⟨seen, hseen⟩ := exists_seenBy (f := f) (Eq.refl (directory.join ⟨.relative, names⟩))
        refine ⟨⟨l, names, e, hd, htrail, rfl, (htrail.isFile_iff hw hd).mp hisFile⟩,
          wantsSuffix_iff.mp hsuffix, seen, hseen, fun x hx hne hoccurs => ?_⟩
        have hexcludes := excludes_iff.mpr ⟨x, hx, hne, hseen.matchText ▸ hoccurs⟩
        rw [hexcluded] at hexcludes
        cases hexcludes
      · cases hfile
    · cases h
  · intro h
    obtain ⟨⟨l, names, e, hd, htrail, rfl, hfile⟩, hsuffix, seen, hseen, hspared⟩ := h
    obtain ⟨e', hm⟩ := (FileSystem.exists_below_iff hw).mpr ⟨e, htrail⟩
    have hexcluded : f.excludes directory (directory.join ⟨.relative, names⟩) = false := by
      rw [Bool.eq_false_iff]
      intro hexcludes
      obtain ⟨x, hx, hne, hoccurs⟩ := excludes_iff.mp hexcludes
      exact hspared x hx hne (hseen.matchText ▸ hoccurs)
    rw [hd]
    refine List.mem_filterMap.mpr ⟨(names, e'), hm, ?_⟩
    simp only [wantsSuffix_iff.mpr hsuffix, hexcluded, (htrail.isFile_iff hw hd).mpr hfile,
      Bool.not_false, Bool.and_self, ↓reduceIte]

end

/-- Filters with the same texts, however they are listed. -/
structure Filter.Alike (f f' : Filter) : Prop where
  excluded : ∀ e, e ∈ f.excluded ↔ e ∈ f'.excluded
  extensions : ∀ x, x ∈ f.extensions ↔ x ∈ f'.extensions
  base : f.base = f'.base

theorem Filter.Alike.symm {f f' : Filter} (h : f.Alike f') : f'.Alike f :=
  ⟨fun e => (h.excluded e).symm, fun x => (h.extensions x).symm, h.base.symm⟩

theorem Filter.Alike.wanted {f f' : Filter} (h : f.Alike f') {x : String} (hx : x ∈ f.wanted) :
    x ∈ f'.wanted := by
  have hnil : f.extensions = [] ↔ f'.extensions = [] := by
    simp only [List.eq_nil_iff_forall_not_mem, h.extensions]
  unfold Filter.wanted at hx ⊢
  by_cases hf : f.extensions = []
  · rw [if_pos hf] at hx
    rwa [if_pos (hnil.mp hf)]
  · rw [if_neg hf] at hx
    rw [if_neg fun hf' => hf (hnil.mpr hf')]
    exact (h.extensions x).mp hx

theorem Selected.alike {fs : FileSystem} {f f' : Filter} {directory file : Path}
    (hs : Selected fs f directory file) (h : f.Alike f') : Selected fs f' directory file := by
  obtain ⟨hfound, ⟨x, hx, hsuffix⟩, names, hseen, hspared⟩ := hs
  refine ⟨hfound, ⟨x, h.wanted hx, hsuffix⟩, names, h.base ▸ hseen, fun e he => ?_⟩
  exact hspared e ((h.excluded e).mpr he)

theorem Selected.noSlash {fs : FileSystem} (hw : fs.WellFormed) {f : Filter} {directory file : Path}
    (hs : Selected fs f directory file) (hslash : ∀ n ∈ directory.segments, '/' ∉ n.toList) :
    ∀ n ∈ file.segments, '/' ∉ n.toList := by
  obtain ⟨l, names, e, _, htrail, rfl, _⟩ := hs.found
  intro n hn
  cases List.mem_append.mp hn with
  | inl hn => exact hslash n hn
  | inr hn => exact (hw.named htrail.entry.2 n (List.mem_append_right l hn)).noSlash

/-- What is found is sorted, and it is what the directories contribute. -/
theorem sources_ok {fs : FileSystem} (hw : fs.WellFormed) {f : Filter}
    {directories found : List Path} (hslash : ∀ d ∈ directories, ∀ n ∈ d.segments, '/' ∉ n.toList)
    (h : (sources fs f directories).2 = .ok found) :
    (found.Pairwise fun p q => p.parts < q.parts) ∧
      ∀ file, file ∈ found ↔ ∃ d ∈ directories, Selected fs f d file := by
  simp only [sources] at h
  cases hc : (collect fs f directories).2 with
  | error e =>
    rw [hc] at h
    cases h
  | ok files =>
    rw [hc] at h
    obtain rfl := Except.ok.inj h
    obtain ⟨_, rfl⟩ := collect_iff.mp hc
    have hmem : ∀ file, file ∈
        ((directories.flatMap (contribution fs f)).mergeSort Path.le).eraseDups ↔
          ∃ d ∈ directories, Selected fs f d file := by
      intro file
      simp only [List.mem_eraseDups, List.mem_mergeSort, List.mem_flatMap, mem_contribution hw]
    have hnoSlash : ∀ file, (∃ d ∈ directories, Selected fs f d file) →
        ∀ n ∈ file.segments, '/' ∉ n.toList := by
      intro file hfile
      obtain ⟨d, hd, hs⟩ := hfile
      exact hs.noSlash hw (hslash d hd)
    have hsorted := pairwise_eraseDups
      (List.pairwise_mergeSort (fun p q r => Path.le_trans (p := p)) Path.le_total
        (directories.flatMap (contribution fs f)))
    refine ⟨hsorted.imp_of_mem fun {p q} hp hq hpq => ?_, hmem⟩
    exact Path.lt_of_le_of_ne (hnoSlash p ((hmem p).mp hp))
      (hnoSlash q ((hmem q).mp hq)) hpq.1 hpq.2

/-- Only a directory that cannot be listed makes a search fail. -/
theorem exists_sources_iff {fs : FileSystem} {f : Filter} {directories : List Path} :
    (∃ found, (sources fs f directories).2 = .ok found) ↔
      ∀ d ∈ directories, ¬ (fs.isDirectory d = true ∧ fs.mayList = false) := by
  simp only [sources]
  constructor
  · intro h
    obtain ⟨found, h⟩ := h
    cases hc : (collect fs f directories).2 with
    | error e =>
      rw [hc] at h
      cases h
    | ok files => exact (collect_iff.mp hc).1
  · intro h
    rw [collect_iff.mpr ⟨h, rfl⟩]
    exact ⟨_, rfl⟩

/-- A sorted list of paths is determined by its elements. -/
theorem eq_of_sorted {l l' : List Path} (h : l.Pairwise fun p q => p.parts < q.parts)
    (h' : l'.Pairwise fun p q => p.parts < q.parts) (hmem : ∀ p, p ∈ l ↔ p ∈ l') : l = l' := by
  have hirrefl : Std.Irrefl fun p q : Path => p.parts < q.parts := ⟨fun p => List.lt_irrefl p.parts⟩
  have hantisymm : Std.Antisymm fun p q : Path => p.parts < q.parts :=
    ⟨fun p q hpq hqp => absurd hqp (List.lt_asymm hpq)⟩
  exact h.eq_of_mem_iff h' hmem

/-- A search that succeeds finds exactly the files that are selected in one of the directories, in
the order of their paths. Neither the order nor repetitions in the lists it is given matter. -/
theorem sources_are_selected {fs : FileSystem} (hw : fs.WellFormed) {f : Filter}
    {directories found : List Path} (hslash : ∀ d ∈ directories, ∀ n ∈ d.segments, '/' ∉ n.toList)
    (h : (sources fs f directories).2 = .ok found) :
    (found.Pairwise fun p q => p.parts < q.parts) ∧
      (∀ file, file ∈ found ↔ ∃ d ∈ directories, Selected fs f d file) ∧
      ∀ f' directories', f.Alike f' → (∀ d, d ∈ directories ↔ d ∈ directories') →
        (sources fs f' directories').2 = .ok found := by
  obtain ⟨hsorted, hmem⟩ := sources_ok hw hslash h
  refine ⟨hsorted, hmem, fun f' directories' hf hdirectories => ?_⟩
  have hlist := exists_sources_iff.mp ⟨found, h⟩
  obtain ⟨found', h'⟩ : ∃ found', (sources fs f' directories').2 = .ok found' :=
    exists_sources_iff.mpr fun d hd => hlist d ((hdirectories d).mpr hd)
  obtain ⟨hsorted', hmem'⟩ := sources_ok hw (fun d hd => hslash d ((hdirectories d).mpr hd)) h'
  rw [h', eq_of_sorted hsorted' hsorted fun file => ?_]
  rw [hmem', hmem]
  constructor
  · intro hfile
    obtain ⟨d, hd, hs⟩ := hfile
    exact ⟨d, (hdirectories d).mpr hd, hs.alike hf.symm⟩
  · intro hfile
    obtain ⟨d, hd, hs⟩ := hfile
    exact ⟨d, (hdirectories d).mp hd, hs.alike hf⟩

/-- A source directory with a file, a link to it, a link to a directory, and a file in
that directory. -/
def attic : FileSystem where
  entries := [(["src"], .directory), (["src", "A.php"], .file "<?php class A {}".toUTF8),
    (["src", "B.PHP"], .link "A.php"), (["src", "old.php"], .link "vendor"),
    (["src", "vendor"], .directory), (["src", "vendor", "C.php"], .file "<?php class C {}".toUTF8)]

theorem wellFormed_attic : attic.WellFormed :=
  FileSystem.wellFormed_of_check (by decide +kernel)

theorem exists_sources_attic (f : Filter) (directories : List Path) :
    ∃ found, (sources attic f directories).2 = .ok found :=
  exists_sources_iff.mpr (by simp [attic])

def atticFilter : Filter where
  excluded := ["", "dor\\C"]
  extensions := [".php", "txt"]

theorem sources_are_selected_attic :
    ∃ found, (sources attic atticFilter [Path.at ["src"]]).2 = .ok found ∧
      (found.Pairwise fun p q => p.parts < q.parts) ∧
      Path.at ["src", "B.PHP"] ∈ found ∧ Path.at ["src", "vendor", "C.php"] ∉ found ∧
      (sources attic { excluded := ["dor\\C", ""], extensions := ["txt", ".php"] }
        [Path.at ["src"], Path.at ["src"]]).2 = .ok found := by
  obtain ⟨found, hfound⟩ := exists_sources_attic atticFilter [Path.at ["src"]]
  obtain ⟨hsorted, hmem, hlisted⟩ :=
    sources_are_selected wellFormed_attic (by decide +kernel) hfound
  refine ⟨found, hfound, hsorted, ?_, ?_, hlisted _ _ ⟨?_, ?_, rfl⟩ (by simp)⟩
  · have hlink := (mem_contribution wellFormed_attic).mp (by decide +kernel :
      Path.at ["src", "B.PHP"] ∈ contribution attic atticFilter (Path.at ["src"]))
    exact (hmem _).mpr ⟨_, List.mem_singleton_self _, hlink⟩
  · intro hfile
    obtain ⟨d, hd, hselected⟩ := (hmem _).mp hfile
    rw [List.mem_singleton.mp hd, ← mem_contribution wellFormed_attic] at hselected
    exact absurd hselected (by decide +kernel)
  · intro e
    simp [atticFilter, or_comm]
  · intro x
    simp [atticFilter, or_comm]

/-- Without any extension files with that of PHP are found. -/
theorem empty_extensions_find_php :
    ∃ found, (sources attic { extensions := [] } [Path.at ["src"]]).2 = .ok found ∧
      Path.at ["src", "A.php"] ∈ found ∧
      ¬ ∃ x ∈ ([] : List String),
        bareExtension x = bareExtension (Path.at ["src", "A.php"]).suffix := by
  obtain ⟨found, hfound⟩ := exists_sources_attic { extensions := [] } [Path.at ["src"]]
  refine ⟨found, hfound, ?_, by simp⟩
  have hmem := (sources_ok wellFormed_attic (by decide +kernel) hfound).2
  have hselected := (mem_contribution wellFormed_attic).mp (by decide +kernel :
    Path.at ["src", "A.php"] ∈ contribution attic { extensions := [] } (Path.at ["src"]))
  exact (hmem _).mpr ⟨_, List.mem_singleton_self _, hselected⟩

end Scan

end PhpPages
