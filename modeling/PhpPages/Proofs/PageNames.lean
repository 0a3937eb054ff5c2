import PhpPages.Proofs.SourceOrder

/-!
The paths that tell the sources of several directories apart. Each is made of the label of the first
directory that contains the source, which is the path of that directory from the base, and the names
behind it. The base itself has its own name for a label, so that a source in it is mistaken for
another one if a subdirectory bears the same name, and the root of the file system has none, so that
the paths of its sources are absolute.
-/

namespace PhpPages

open Text

/-- The names of a relative path as it is written: a single dot if there are none. -/
def dotted (names : List String) : List String :=
  if names = [] then ["."] else names

theorem dotted_ne_nil (names : List String) : dotted names ≠ [] := by
  unfold dotted
  split
  · simp
  · assumption

theorem Path.text_dotted (names : List String) :
    (⟨.relative, names⟩ : Path).text = "/".intercalate (dotted names) := by
  unfold dotted
  split
  · rename_i hnil
    simp [Path.text, hnil]
  · rename_i hne
    exact Path.text_relative hne

namespace Scan

/-- Where the first directory of a list stands that contains a location. -/
def home? (fs : FileSystem) (directories : List Path) (l : Location) : Option Location :=
  (directories.filterMap fun d => (fs.resolveLenient d).toOption).find? fun top => top.isPrefixOf l

/-- The label of a directory below the base: the names that lead to it, or for the base itself
its own name. -/
def labelNames (base home : Location) : List String :=
  if home = base then [(Path.at base).name] else home.drop base.length

theorem labelNames_append (base names : Location) :
    labelNames base (base ++ names) = if names = [] then [(Path.at base).name] else names := by
  by_cases hnames : names = []
  · simp [labelNames, hnames]
  · simp [labelNames, hnames]

theorem labelNames_ne_nil (base names : Location) : labelNames base (base ++ names) ≠ [] := by
  rw [labelNames_append]
  split
  · simp
  · assumption

/-- The segments of the path of a source that was found in a directory. -/
def shownNames (base home l : Location) : List String :=
  labelNames base home ++ dotted (l.drop home.length)

/-- Several directories at or below the base. -/
structure Spread (fs : FileSystem) (root : Path) (base : Location) (directories : List Path) :
    Prop where
  several : 1 < directories.length
  noSlash : ∀ d ∈ directories, ∀ n ∈ d.segments, '/' ∉ n.toList
  resolved : fs.resolveLenient root = .ok base
  below : ∀ d ∈ directories, ∃ top, fs.resolveLenient d = .ok top ∧ base <+: top

/-- A file at a location that one of the directories contains. -/
structure SourceAt (fs : FileSystem) (directories : List Path) (file : Path) (l : Location) :
    Prop where
  noSlash : ∀ n ∈ file.segments, '/' ∉ n.toList
  resolved : fs.resolveLenient file = .ok l
  held : Holds fs directories l

section

variable {fs : FileSystem} {root : Path} {base : Location}

theorem directoryLabel_base (hroot : fs.resolveLenient root = .ok base) :
    directoryLabel fs (some root) base = .ok (Path.at base).name := by
  have hself := Path.relativeTo?_append base []
  rw [List.append_nil] at hself
  simp [directoryLabel, hroot, hself, Path.text, bind, Except.bind, pure, Except.pure]

theorem directoryLabel_eq (hroot : fs.resolveLenient root = .ok base) {names : Location}
    (hn : ∀ n ∈ names, IsName n) :
    directoryLabel fs (some root) (base ++ names) =
      .ok ("/".intercalate (labelNames base (base ++ names))) := by
  rw [labelNames_append]
  by_cases hnames : names = []
  · simp [hnames, directoryLabel_base hroot]
  · rw [directoryLabel_below hroot hnames hn, if_neg hnames]

/-- The path of a source consists of the label of the first directory that contains it and the
names behind. -/
theorem relativeAmong_home (hw : fs.WellFormed) (hroot : fs.resolveLenient root = .ok base)
    {directories : List Path} (hslash : ∀ d ∈ directories, ∀ n ∈ d.segments, '/' ∉ n.toList)
    (hbelow : ∀ d ∈ directories, ∃ top, fs.resolveLenient d = .ok top ∧ base <+: top)
    {l home : Location} (hhome : home? fs directories l = some home) (file : Path) :
    relativeAmong fs (some root) true file l directories =
      .ok ("/".intercalate (shownNames base home l)) := by
  induction directories with
  | nil => cases hhome
  | cons d rest ih =>
    obtain ⟨top, htop, names, rfl⟩ := hbelow d List.mem_cons_self
    have hstep : home? fs (d :: rest) l =
        if base ++ names <+: l then some (base ++ names) else home? fs rest l := by
      by_cases hin : base ++ names <+: l
      · simp [home?, htop, Except.toOption, hin]
      · simp [home?, htop, Except.toOption, hin]
    rw [hstep] at hhome
    by_cases hin : base ++ names <+: l
    · rw [if_pos hin] at hhome
      obtain rfl := Option.some.inj hhome
      obtain ⟨behind, rfl⟩ := hin
      have hnames : ∀ n ∈ names, IsName n := fun n hn =>
        FileSystem.resolve_names hw (hslash d List.mem_cons_self) htop n
          (List.mem_append_right base hn)
      simp only [relativeAmong, htop, bind, Except.bind, Path.relativeTo?_append, ↓reduceIte,
        directoryLabel_eq hroot hnames, Path.text_dotted, shownNames, List.drop_left,
        String.intercalate_append_of_ne_nil (labelNames_ne_nil base names) (dotted_ne_nil behind)]
      rfl
    · rw [if_neg hin] at hhome
      have hnone : (Path.at l).relativeTo? (Path.at (base ++ names)) = none := by
        simp [Path.relativeTo?, Path.at, hin]
      simp only [relativeAmong, htop, bind, Except.bind, hnone]
      exact ih (fun d hd => hslash d (List.mem_cons_of_mem _ hd))
        (fun d hd => hbelow d (List.mem_cons_of_mem _ hd)) hhome

/-- A location that a directory contains has a home, which is one of the directories. -/
theorem exists_home {directories : List Path}
    (hbelow : ∀ d ∈ directories, ∃ top, fs.resolveLenient d = .ok top ∧ base <+: top) {l : Location}
    (h : Holds fs directories l) :
    ∃ home, home? fs directories l = some home ∧ base <+: home ∧ home <+: l := by
  obtain ⟨d, hd, top, htop, hin⟩ := h
  cases hhome : home? fs directories l with
  | none =>
    have hmem : top ∈ directories.filterMap fun d => (fs.resolveLenient d).toOption :=
      List.mem_filterMap.mpr ⟨d, hd, by rw [htop, Except.toOption]⟩
    have hnone := List.find?_eq_none.mp hhome top hmem
    simp [hin] at hnone
  | some home =>
    have hin' : home <+: l := by simpa using List.find?_some hhome
    obtain ⟨d', hd', hhome'⟩ := List.mem_filterMap.mp (List.mem_of_find?_eq_some hhome)
    obtain ⟨top', htop', hbase⟩ := hbelow d' hd'
    rw [htop', Except.toOption] at hhome'
    exact ⟨home, rfl, Option.some.inj hhome' ▸ hbase, hin'⟩

end

/-- Two locations that are shown alike: the first belongs to the base itself, the other does not,
and it is where the first would be in a subdirectory with the name of the base. -/
structure Twins (base home l home' l' : Location) : Prop where
  inBase : home = base
  elsewhere : home' ≠ base
  place : l' = base ++ (Path.at base).name :: l.drop base.length
  listed : home = l ↔ home' = l'

/-- The dot that stands for no names is no name. -/
theorem append_dotted_inj {xs ys names names' : List String} (hn : ∀ n ∈ names, IsName n)
    (hn' : ∀ n ∈ names', IsName n) : xs ++ dotted names = ys ++ dotted names' ↔
      (names = [] ↔ names' = []) ∧ xs ++ names = ys ++ names' := by
  have hdot : ∀ (as bs : List String) {n : String}, IsName n → as ++ [n] ≠ bs ++ ["."] := by
    intro as bs n hname heq
    have hlast := (List.append_inj' heq rfl).2
    rw [(List.cons.inj hlast).1] at hname
    exact absurd hname (by decide)
  unfold dotted
  by_cases hnil : names = []
  · by_cases hnil' : names' = []
    · simp [hnil, hnil']
    · obtain ⟨as, n, rfl⟩ := exists_snoc hnil'
      have hne := (hdot (ys ++ as) xs (hn' n (by simp))).symm
      simpa [hnil] using hne
  · by_cases hnil' : names' = []
    · obtain ⟨as, n, rfl⟩ := exists_snoc hnil
      have hne := hdot (xs ++ as) ys (hn n (by simp))
      simpa [hnil'] using hne
    · simp [hnil, hnil']

/-- A source in the base and one in a directory below it are shown alike exactly if
they are twins. -/
theorem shownNames_twins {base names behind behind' : Location} (hne : names ≠ [])
    (hn : ∀ n ∈ behind, IsName n) (hn' : ∀ n ∈ behind', IsName n) :
    shownNames base base (base ++ behind) =
      shownNames base (base ++ names) (base ++ names ++ behind') ↔
      Twins base base (base ++ behind) (base ++ names) (base ++ names ++ behind') := by
  have hlabel : labelNames base base = [(Path.at base).name] := by simp [labelNames]
  rw [shownNames, shownNames, hlabel, labelNames_append, if_neg hne, List.drop_left, List.drop_left,
    append_dotted_inj hn hn']
  constructor
  · intro h
    refine ⟨rfl, by simpa using hne, ?_, ?_⟩
    · rw [List.drop_left, List.append_assoc, ← h.2, List.singleton_append]
    · simpa [eq_comm] using h.1
  · intro h
    refine ⟨by simpa [eq_comm] using h.listed, ?_⟩
    have hplace := h.place
    rw [List.drop_left, List.append_assoc] at hplace
    exact (List.append_cancel_left hplace).symm

/-- Sources in the base are told apart, and so are sources in directories below it. -/
theorem eq_of_shownNames {base names names' behind behind' : Location} (hn : ∀ n ∈ behind, IsName n)
    (hn' : ∀ n ∈ behind', IsName n) (hsame : names = [] ↔ names' = [])
    (h : shownNames base (base ++ names) (base ++ names ++ behind) =
      shownNames base (base ++ names') (base ++ names' ++ behind')) :
    base ++ names ++ behind = base ++ names' ++ behind' := by
  rw [shownNames, shownNames, List.drop_left, List.drop_left, append_dotted_inj hn hn',
    labelNames_append, labelNames_append] at h
  by_cases hnil : names = []
  · have hbehind : behind = behind' := by simpa [hnil, hsame.mp hnil] using h.2
    rw [hnil, hsame.mp hnil, hbehind]
  · have hnil' : names' ≠ [] := fun he => hnil (hsame.mpr he)
    rw [if_neg hnil, if_neg hnil'] at h
    rw [List.append_assoc, h.2, List.append_assoc]

/-- Different sources are shown alike exactly if they are twins. -/
theorem shownNames_eq_iff {base home l home' l' : Location} (hhome : base <+: home)
    (hl : home <+: l) (hhome' : base <+: home') (hl' : home' <+: l') (hn : ∀ n ∈ l, IsName n)
    (hn' : ∀ n ∈ l', IsName n) (hne : l ≠ l') :
    shownNames base home l = shownNames base home' l' ↔
      Twins base home l home' l' ∨ Twins base home' l' home l := by
  obtain ⟨names, rfl⟩ := hhome
  obtain ⟨behind, rfl⟩ := hl
  obtain ⟨names', rfl⟩ := hhome'
  obtain ⟨behind', rfl⟩ := hl'
  have hbehind : ∀ n ∈ behind, IsName n := fun n h => hn n (List.mem_append_right _ h)
  have hbehind' : ∀ n ∈ behind', IsName n := fun n h => hn' n (List.mem_append_right _ h)
  have hno :
      ∀ {names l home' l' : Location}, names ≠ [] → ¬ Twins base (base ++ names) l home' l' :=
    fun hnames h => hnames (by simpa using h.inBase)
  -- Labels below the base are told apart by themselves. Only the label of the base can be that of
  -- another directory.
  by_cases hnil : names = []
  · subst hnil
    by_cases hnil' : names' = []
    · subst hnil'
      constructor
      · intro h
        exact absurd (eq_of_shownNames hbehind hbehind' Iff.rfl h) hne
      · intro h
        cases h with
        | inl h => exact absurd (List.append_nil base) h.elsewhere
        | inr h => exact absurd (List.append_nil base) h.elsewhere
    · rw [or_iff_left (hno hnil'), List.append_nil]
      exact shownNames_twins hnil' hbehind hbehind'
  · rw [or_iff_right (hno hnil)]
    by_cases hnil' : names' = []
    · subst hnil'
      rw [eq_comm, List.append_nil]
      exact shownNames_twins hnil hbehind' hbehind
    · constructor
      · intro h
        exact absurd (eq_of_shownNames hbehind hbehind' (by simp [hnil, hnil']) h) hne
      · intro h
        exact absurd h (hno hnil')

/-- The segments are names, save for the dot of a directory seen from itself and the name that the
root of the file system does not have. -/
theorem mem_shownNames {base home l : Location} (hhome : base <+: home) (hl : home <+: l)
    (hn : ∀ n ∈ l, IsName n) {s : String} (hs : s ∈ shownNames base home l) :
    IsName s ∨ s = "." ∧ home = l ∨ s = "" ∧ home = [] := by
  obtain ⟨names, rfl⟩ := hhome
  obtain ⟨behind, rfl⟩ := hl
  rw [shownNames, labelNames_append, List.drop_left] at hs
  cases List.mem_append.mp hs with
  | inl hlabel =>
    split at hlabel
    · rename_i hnil
      rw [List.mem_singleton.mp hlabel]
      by_cases hbase : base = []
      · exact .inr (.inr ⟨by rw [hbase]; rfl, by simp [hbase, hnil]⟩)
      · obtain ⟨above, name, rfl⟩ := exists_snoc hbase
        left
        simpa [Path.name, Path.at] using hn name (by simp)
    · exact .inl (hn s (by simp [hlabel]))
  | inr hbehind =>
    unfold dotted at hbehind
    split at hbehind
    · rename_i hnil
      exact .inr (.inl ⟨List.mem_singleton.mp hbehind, by simp [hnil]⟩)
    · exact .inl (hn s (List.mem_append_right _ hbehind))

theorem pieces_shownNames {base home l : Location} (hhome : base <+: home) (hl : home <+: l)
    (hn : ∀ n ∈ l, IsName n) :
    pieces '/' ("/".intercalate (shownNames base home l)) = shownNames base home l := by
  apply pieces_intercalate
  · simp [shownNames, dotted_ne_nil]
  · intro s hs
    rcases mem_shownNames hhome hl hn hs with hname | ⟨rfl, _⟩ | ⟨rfl, _⟩
    · exact hname.noSlash
    · decide
    · decide

/-- A path text that leads down only: it does not start at the root, and each of its segments
is a step down. -/
def LeadsDown (path : String) : Prop :=
  Segments.startsAtRoot path = false ∧ ∀ s ∈ pieces '/' path, s ≠ "" ∧ s ≠ "." ∧ s ≠ ".."

/-- The path of a source leads down, unless the source belongs to the root of the file system, or it
is itself listed as a directory. -/
theorem leadsDown_iff {base home l : Location} (hhome : base <+: home) (hl : home <+: l)
    (hn : ∀ n ∈ l, IsName n) :
    LeadsDown ("/".intercalate (shownNames base home l)) ↔ home ≠ [] ∧ home ≠ l := by
  unfold LeadsDown
  rw [pieces_shownNames hhome hl hn]
  constructor
  · intro h
    constructor
    · intro hroot
      rw [hroot, List.prefix_nil] at hhome
      have hempty :
          "" ∈ shownNames base home l :=
        by simp [shownNames, labelNames, hhome, hroot, Path.at, Path.name]
      exact (h.2 "" hempty).1 rfl
    · intro hlisted
      have hdot : "." ∈ shownNames base home l := by simp [shownNames, dotted, hlisted]
      exact (h.2 "." hdot).2.1 rfl
  · intro h
    have hnames : ∀ s ∈ shownNames base home l, IsName s := by
      intro s hs
      rcases mem_shownNames hhome hl hn hs with hname | ⟨_, hlisted⟩ | ⟨_, hroot⟩
      · exact hname
      · exact absurd hlisted h.2
      · exact absurd hroot h.1
    constructor
    · have hhead := Path.head_intercalate (fun s hs => (hnames s hs).notDropped) fun s hs =>
        (hnames s hs).noSlash
      simpa [Segments.startsAtRoot] using hhead
    · intro s hs
      have hdropped := (hnames s hs).notDropped
      simp only [Segments.isDropped, Bool.or_eq_false_iff, beq_eq_false_iff_ne] at hdropped
      exact ⟨by simpa using hdropped.1, hdropped.2, (hnames s hs).notUp⟩

/-- What a source in one of several directories at or below the base is given for a path. -/
theorem relativeSource_home {fs : FileSystem} (hw : fs.WellFormed) {root file : Path}
    {base l : Location} {directories : List Path} (hs : Spread fs root base directories)
    (hf : SourceAt fs directories file l) :
    ∃ home, home? fs directories l = some home ∧ base <+: home ∧ home <+: l ∧
      relativeSource fs file directories (some root) =
        .ok ("/".intercalate (shownNames base home l)) := by
  obtain ⟨home, hhome, hbase, hl⟩ := exists_home hs.below hf.held
  refine ⟨home, hhome, hbase, hl, ?_⟩
  simp only [relativeSource, hf.resolved, bind, Except.bind, hs.several, decide_true]
  exact relativeAmong_home hw hs.resolved hs.noSlash hs.below hhome file

/-- With several directories at or below the base, different sources are given different paths,
unless they are twins, and each path leads down, unless its source belongs to the root of the file
system or is itself listed as a directory. -/
theorem relativeSource_tells_apart {fs : FileSystem} (hw : fs.WellFormed) {root file file' : Path}
    {base l l' : Location} {directories : List Path} (hs : Spread fs root base directories)
    (hf : SourceAt fs directories file l) (hf' : SourceAt fs directories file' l') (hne : l ≠ l') :
    ∃ home home' path path', home? fs directories l = some home ∧
      home? fs directories l' = some home' ∧
      relativeSource fs file directories (some root) = .ok path ∧
      relativeSource fs file' directories (some root) = .ok path' ∧
      (path = path' ↔ Twins base home l home' l' ∨ Twins base home' l' home l) ∧
      (LeadsDown path ↔ home ≠ [] ∧ home ≠ l) ∧ (LeadsDown path' ↔ home' ≠ [] ∧ home' ≠ l') := by
  have hn := FileSystem.resolve_names hw hf.noSlash hf.resolved
  have hn' := FileSystem.resolve_names hw hf'.noSlash hf'.resolved
  obtain ⟨home, hhome, hbase, hl, hpath⟩ := relativeSource_home hw hs hf
  obtain ⟨home', hhome', hbase', hl', hpath'⟩ := relativeSource_home hw hs hf'
  refine ⟨home, home', _, _, hhome, hhome', hpath, hpath', ?_, leadsDown_iff hbase hl hn,
    leadsDown_iff hbase' hl' hn'⟩
  rw [← shownNames_eq_iff hbase hl hbase' hl' hn hn' hne]
  constructor
  · intro heq
    rw [← pieces_shownNames hbase hl hn, heq, pieces_shownNames hbase' hl' hn']
  · intro heq
    rw [heq]

theorem spread_of_check {fs : FileSystem} {root : Path} {base : Location} {directories : List Path}
    (h : (decide (1 < directories.length) &&
      (directories.all fun d => d.segments.all fun n => !n.toList.contains '/') &&
      decide ((fs.resolveLenient root).toOption = some base) &&
      directories.all fun d => (fs.resolveLenient d).toOption.any base.isPrefixOf) = true) :
    Spread fs root base directories := by
  simp only [Bool.and_eq_true, decide_eq_true_eq, List.all_eq_true] at h
  obtain ⟨⟨⟨hseveral, hslash⟩, hroot⟩, hbelow⟩ := h
  refine ⟨hseveral, fun d hd n hn => by simpa using hslash d hd n hn, ok_of_toOption hroot,
    fun d hd => ?_⟩
  obtain ⟨top, htop, hbase⟩ := (Option.any_eq_true ..).mp (hbelow d hd)
  exact ⟨top, ok_of_toOption htop, List.isPrefixOf_iff_prefix.mp hbase⟩

theorem sourceAt_of_check {fs : FileSystem} {directories : List Path} {file : Path} {l : Location}
    (h : ((file.segments.all fun n => !n.toList.contains '/') &&
      decide ((fs.resolveLenient file).toOption = some l) &&
      directories.any fun d => (fs.resolveLenient d).toOption.any (·.isPrefixOf l)) = true) :
    SourceAt fs directories file l := by
  simp only [Bool.and_eq_true, decide_eq_true_eq, List.all_eq_true, List.any_eq_true] at h
  obtain ⟨⟨hslash, hfile⟩, d, hd, hheld⟩ := h
  obtain ⟨top, htop, hin⟩ := (Option.any_eq_true ..).mp hheld
  exact ⟨fun n hn => by simpa using hslash n hn, ok_of_toOption hfile,
    d, hd, top, ok_of_toOption htop, List.isPrefixOf_iff_prefix.mp hin⟩

/-- A project with a subdirectory of its own name, and files of one name in both. -/
def namesake : FileSystem where
  entries :=
    [(["p"], .directory), (["p", "A.php"], .file "<?php class A {}".toUTF8),
      (["p", "p"], .directory), (["p", "p", "A.php"], .file "<?php class A {}".toUTF8)]

theorem wellFormed_namesake : namesake.WellFormed :=
  FileSystem.wellFormed_of_check (by decide +kernel)

/-- If the project is listed first, both files belong to it and are told apart. -/
theorem relativeSource_tells_apart_namesake :
    ∃ path path', relativeSource namesake (Path.at ["p", "A.php"])
      [Path.at ["p"], Path.at ["p", "p"]] (some (Path.at ["p"])) = .ok path ∧
      relativeSource namesake (Path.at ["p", "p", "A.php"]) [Path.at ["p"], Path.at ["p", "p"]]
        (some (Path.at ["p"])) = .ok path' ∧ path ≠ path' ∧ LeadsDown path ∧ LeadsDown path' := by
  have hs : Spread namesake (Path.at ["p"]) ["p"] [Path.at ["p"], Path.at ["p", "p"]] :=
    spread_of_check (by decide +kernel)
  have hf : SourceAt namesake [Path.at ["p"], Path.at ["p", "p"]] (Path.at ["p", "A.php"])
      ["p", "A.php"] :=
    sourceAt_of_check (by decide +kernel)
  have hf' : SourceAt namesake [Path.at ["p"], Path.at ["p", "p"]] (Path.at ["p", "p", "A.php"])
      ["p", "p", "A.php"] :=
    sourceAt_of_check (by decide +kernel)
  obtain ⟨home, home', path, path', hhome, hhome', hpath, hpath', heq, hdown, hdown'⟩ :=
    relativeSource_tells_apart wellFormed_namesake hs hf hf' (by decide)
  obtain rfl : home = ["p"] := Option.some.inj (hhome.symm.trans (by decide +kernel))
  obtain rfl : home' = ["p"] := Option.some.inj (hhome'.symm.trans (by decide +kernel))
  refine ⟨path, path', hpath, hpath', ?_, hdown.mpr (by decide), hdown'.mpr (by decide)⟩
  intro h
  cases heq.mp h with
  | inl htwins => exact htwins.elsewhere rfl
  | inr htwins => exact htwins.elsewhere rfl

/-- If the subdirectory is listed first, both files are given the same path, and a file that belongs
to the root of the file system is given an absolute one. -/
theorem namesakes_confused :
    (∃ directories, Spread namesake (Path.at ["p"]) ["p"] directories ∧
      SourceAt namesake directories (Path.at ["p", "A.php"]) ["p", "A.php"] ∧
      SourceAt namesake directories (Path.at ["p", "p", "A.php"]) ["p", "p", "A.php"] ∧
      relativeSource namesake (Path.at ["p", "A.php"]) directories (some (Path.at ["p"])) =
        relativeSource namesake (Path.at ["p", "p", "A.php"]) directories (some (Path.at ["p"]))) ∧
    ∃ directories, Spread namesake (Path.at []) [] directories ∧
      SourceAt namesake directories (Path.at ["p", "A.php"]) ["p", "A.php"] ∧
      relativeSource namesake (Path.at ["p", "A.php"]) directories (some (Path.at [])) =
        .ok "/p/A.php" := by
  constructor
  · refine ⟨[Path.at ["p", "p"], Path.at ["p"]], spread_of_check (by decide +kernel),
      sourceAt_of_check (by decide +kernel), sourceAt_of_check (by decide +kernel), ?_⟩
    have hpath : ∀ l ∈ [["p", "A.php"], ["p", "p", "A.php"]],
        (relativeSource namesake (Path.at l) [Path.at ["p", "p"], Path.at ["p"]]
          (some (Path.at ["p"]))).toOption = some "p/A.php" := by decide +kernel
    rw [ok_of_toOption (hpath _ (by simp)), ok_of_toOption (hpath _ (by simp))]
  · exact ⟨[Path.at [], Path.at ["p"]], spread_of_check (by decide +kernel),
      sourceAt_of_check (by decide +kernel), ok_of_toOption (by decide +kernel)⟩

end Scan

end PhpPages
