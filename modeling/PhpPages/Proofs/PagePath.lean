import PhpPages.Proofs.PageLinks
import PhpPages.Proofs.Resolution
import PhpPages.Proofs.Runs

namespace PhpPages

open Text

namespace Path

/-- Names with slashes between them are read as a relative path. -/
theorem ofText_names {names : List String} (hne : names ≠ []) (hn : ∀ n ∈ names, IsName n) :
    Path.ofText ("/".intercalate names) = ⟨.relative, names⟩ := by
  have hs : (("/".intercalate names).toList.takeWhile (· = '/')).length = 0 := by
    obtain ⟨n, names, rfl⟩ := List.exists_cons_of_ne_nil hne
    have hh := (hn n (by simp)).noSlash
    cases hc : n.toList with
    | nil => exact absurd hc (hn n (by simp)).ne_nil
    | cons c cs =>
      have hx : c ≠ '/' := fun e => hh (by simp [hc, e])
      cases names <;> simp [hc, hx]
  simp only [Path.ofText, hs, textSegments_intercalate hn]
  rfl

end Path

/-- A text of names with slashes between them. -/
def IsRelative (page : String) : Prop :=
  ∃ names, names ≠ [] ∧ (∀ n ∈ names, IsName n) ∧ page = "/".intercalate names

theorem IsRelative.ofText {page : String} (h : IsRelative page) :
    ∃ dirs name, (∀ n ∈ dirs ++ [name], IsName n) ∧
      Path.ofText page = ⟨.relative, dirs ++ [name]⟩ := by
  obtain ⟨names, hne, hn, rfl⟩ := h
  obtain ⟨dirs, name, rfl⟩ := exists_snoc hne
  exact ⟨dirs, name, hn, Path.ofText_names (by simp) hn⟩

/-- A relative path leads down from every directory. -/
theorem IsRelative.join {page : String} (h : IsRelative page) (o : Location) :
    ∃ dirs name, (∀ n ∈ dirs ++ [name], IsName n) ∧ (Path.ofText page).segments = dirs ++ [name] ∧
      (Path.at o).join (Path.ofText page) = Path.at (o ++ (dirs ++ [name])) := by
  obtain ⟨dirs, name, hn, hpath⟩ := h.ofText
  refine ⟨dirs, name, hn, by rw [hpath], ?_⟩
  rw [hpath]
  rfl

/-- Relative paths with the same names are the same. -/
theorem IsRelative.eq_of_segments {page page' : String} (h : IsRelative page)
    (h' : IsRelative page') (hs : (Path.ofText page).segments = (Path.ofText page').segments) :
    page = page' := by
  obtain ⟨ns, hne, hn, rfl⟩ := h
  obtain ⟨ms, hne', hm, rfl⟩ := h'
  rw [Path.ofText_names hne hn, Path.ofText_names hne' hm] at hs
  have hnm : ns = ms := hs
  rw [hnm]

namespace Scan

/-- The path of a source: names with slashes between them. The last need not be a name, for a
directory seen from itself is a single dot. -/
def IsSourcePath (path : String) : Prop :=
  ∃ dirs n, (∀ d ∈ dirs, IsName d) ∧ '/' ∉ n.toList ∧ '\x00' ∉ n.toList ∧
    path = "/".intercalate (dirs ++ [n])

theorem IsSourcePath.page {path : String} (h : IsSourcePath path) :
    IsRelative (Link.pageOf path) := by
  obtain ⟨dirs, n, hd, hs, hz, rfl⟩ := h
  have hslash : ∀ d ∈ dirs ++ [n], '/' ∉ d.toList :=
    forall_mem_snoc (fun d hm => (hd d hm).noSlash) hs
  exact ⟨dirs ++ [Slashed.stem n ++ Link.pageEnding], by simp,
    forall_mem_snoc hd (Link.isName_page hs hz), Link.pageOf_intercalate hslash⟩

/-- The text of names behind a list of names in front. -/
theorem isSourcePath_text {front names : List String} (hf : ∀ n ∈ front, IsName n)
    (hn : ∀ n ∈ names, IsName n) :
    IsSourcePath ("/".intercalate (front ++ [(⟨.relative, names⟩ : Path).text])) := by
  by_cases hne : names = []
  · rw [hne]
    exact ⟨front, ".", hf, by decide, by decide, rfl⟩
  · obtain ⟨ds, n, rfl⟩ := exists_snoc hne
    have hname := hn n (by simp)
    refine ⟨front ++ ds, n, fun d hd => ?_, hname.noSlash, hname.noNull, ?_⟩
    · rcases List.mem_append.mp hd with hd | hd
      · exact hf d hd
      · exact hn d (by simp [hd])
    · have ht : (⟨.relative, ds ++ [n]⟩ : Path).text = "/".intercalate (ds ++ [n]) := by
        simp [Path.text, Anchor.text]
      rw [ht, List.append_assoc]
      by_cases hfront : front = []
      · simp [hfront]
      · rw [String.intercalate_append_of_ne_nil hfront (by simp),
          String.intercalate_append_of_ne_nil hfront (by simp)]
        simp

theorem relativeTo?_at {l base : Location} {p : Path}
    (h : (Path.at l).relativeTo? (Path.at base) = some p) :
    p = ⟨.relative, l.drop base.length⟩ := by
  simp only [Path.relativeTo?] at h
  split at h
  · exact (Option.some.inj h).symm
  · cases h

/-- The label of a directory is made of names, unless the directory is the root of
the file system. -/
theorem directoryLabel_ok {fs : FileSystem} {base : Option Path} {directory : Location}
    {label : String} (hn : ∀ n ∈ directory, IsName n) (hne : directory ≠ [])
    (h : directoryLabel fs base directory = .ok label) : IsRelative label := by
  have hname : IsRelative (Path.at directory).name := by
    obtain ⟨ds, n, rfl⟩ := exists_snoc hne
    exact ⟨[n], by simp, by simpa using hn n (by simp), by simp [Path.name, Path.at]⟩
  unfold directoryLabel at h
  split at h
  · cases h
    exact hname
  · obtain ⟨top, _, h⟩ := bind_eq_ok.mp h
    split at h
    · rename_i relative hrel
      have hr := relativeTo?_at hrel
      cases h
      split
      · exact hname
      · rename_i hdot
        subst hr
        refine ⟨directory.drop top.length, ?_, fun n hm => hn n (List.mem_of_mem_drop hm), ?_⟩
        · intro hnil
          exact hdot (by simp [Path.text, hnil])
        · have hne' : ¬ (directory.drop top.length).isEmpty = true := by
            intro hnil
            exact hdot (by simp [Path.text, hnil])
          simp [Path.text, Anchor.text, hne']
    · cases h
      exact hname

/-- A source has a path of names below the directory that contains it. -/
theorem relativeAmong_ok {fs : FileSystem} (hw : fs.WellFormed) {base : Option Path}
    {several : Bool} {file : Path} {location : Location} {directories : List Path} {path : String}
    (hn : ∀ n ∈ location, IsName n) (hfile : IsName file.name)
    (hs : ∀ d ∈ directories, ∀ s ∈ d.segments, '/' ∉ s.toList)
    (htop : several = true → ∀ d ∈ directories, fs.resolveLenient d ≠ .ok [])
    (h : relativeAmong fs base several file location directories = .ok path) :
    IsSourcePath path := by
  induction directories with
  | nil =>
    cases h
    exact ⟨[], file.name, by simp, hfile.noSlash, hfile.noNull, by simp⟩
  | cons directory rest ih =>
    have ih := ih (fun d hd => hs d (by simp [hd])) fun hsev d hd => htop hsev d (by simp [hd])
    unfold relativeAmong at h
    obtain ⟨top, htopOk, h⟩ := bind_eq_ok.mp h
    split at h
    · exact ih h
    · rename_i relative hrel
      have hr := relativeTo?_at hrel
      subst hr
      have hdrop : ∀ n ∈ location.drop top.length, IsName n :=
        fun n hm => hn n (List.mem_of_mem_drop hm)
      cases several with
      | false =>
        cases h
        simpa using isSourcePath_text (by simp : ∀ n ∈ ([] : List String), IsName n) hdrop
      | true =>
        obtain ⟨label, hlabel, h⟩ := bind_eq_ok.mp h
        have hne : top ≠ [] := fun he => htop rfl directory (by simp) (he ▸ htopOk)
        have htopNames := FileSystem.resolve_names hw (hs directory (by simp)) htopOk
        obtain ⟨ls, hls, hlsn, rfl⟩ := directoryLabel_ok htopNames hne hlabel
        cases h
        have hpath := isSourcePath_text hlsn hdrop
        rw [String.intercalate_append_of_ne_nil hls (by simp)] at hpath
        simpa using hpath

/-- What stands below a location has names. -/
theorem mem_below {fs : FileSystem} (hw : fs.WellFormed) {location : Location} {names : List String}
    {e : Entry} (h : (names, e) ∈ fs.below location) : names ≠ [] ∧ ∀ n ∈ names, IsName n := by
  obtain ⟨⟨l, e'⟩, hm, hl⟩ := List.mem_filterMap.mp h
  split at hl
  · rename_i hc
    simp only [Option.some.injEq, Prod.mk.injEq] at hl
    obtain ⟨rfl, rfl⟩ := hl
    simp only [Bool.and_eq_true, decide_eq_true_eq] at hc
    have hne : l ≠ [] := by
      rintro rfl
      simp at hc
    obtain ⟨e'', he⟩ : ∃ e'', fs.entry? l = some e'' := by
      simp only [FileSystem.entry?, List.isEmpty_iff, hne, ↓reduceIte]
      cases hl : fs.entries.lookup l with
      | some e => exact ⟨e, rfl⟩
      | none =>
        have hnone := List.lookup_eq_none_iff.mp hl _ hm
        simp at hnone
    refine ⟨?_, fun n hn => hw.named he n (List.mem_of_mem_drop hn)⟩
    intro hnil
    have := List.drop_eq_nil_iff.mp hnil
    omega
  · cases hl

/-- A file that is found is named by a directory and names below it. -/
def FoundIn (directories : List Path) (file : Path) : Prop :=
  ∃ d ∈ directories, ∃ names, names ≠ [] ∧ (∀ n ∈ names, IsName n) ∧
    file = d.join ⟨.relative, names⟩

theorem collect_found {fs : FileSystem} (hw : fs.WellFormed) {f : Filter}
    {directories files : List Path} (h : (collect fs f directories).2 = .ok files) :
    ∀ file ∈ files, FoundIn directories file := by
  induction directories generalizing files with
  | nil =>
    cases h
    simp
  | cons d rest ih =>
    have hrest : ∀ file, FoundIn rest file → FoundIn (d :: rest) file := by
      rintro file ⟨d', hd', hn⟩
      exact ⟨d', by simp [hd'], hn⟩
    unfold collect at h
    split at h
    · rename_i location _
      split at h
      · cases hc : (collect fs f rest).2 with
        | error e => simp [hc, Except.map] at h
        | ok more =>
          simp only [hc, Except.map, Except.ok.injEq] at h
          subst h
          intro file hfile
          rcases List.mem_append.mp hfile with hfile | hfile
          · obtain ⟨⟨names, e⟩, hm, hf⟩ := List.mem_filterMap.mp hfile
            obtain ⟨hne, hn⟩ := mem_below hw hm
            dsimp only at hf
            split at hf
            · exact ⟨d, by simp, names, hne, hn, (Option.some.inj hf).symm⟩
            · cases hf
          · exact hrest file (ih hc file hfile)
      · cases h
    · intro file hfile
      exact hrest file (ih h file hfile)

theorem sources_found {fs : FileSystem} (hw : fs.WellFormed) {f : Filter}
    {directories files : List Path} (h : (sources fs f directories).2 = .ok files) :
    ∀ file ∈ files, FoundIn directories file := by
  simp only [sources] at h
  cases hc : (collect fs f directories).2 with
  | error e => simp [hc, Except.map] at h
  | ok all =>
    simp only [hc, Except.map, Except.ok.injEq] at h
    subst h
    intro file hfile
    exact collect_found hw hc file (by simpa using hfile)

end Scan

end PhpPages
