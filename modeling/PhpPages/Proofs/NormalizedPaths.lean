import PhpPages.Proofs.CanonicalPaths
import PhpPages.Proofs.Containment
import PhpPages.Proofs.LexicalCheck
import PhpPages.Proofs.SourceLinks

namespace PhpPages

open Text

namespace FileSystem

section

variable {fs : FileSystem} {enter : List Location → Reached → List String → Followed}

/-- Leniently, nothing but a null character stops a path. -/
theorem follow_failed {pending : List Location} {r : Reached} {ps : List String} {e : ResolveError}
    (hs : ∀ p ∈ ps, '/' ∉ p.toList)
    (henter : ∀ pending r ps e, (∀ p ∈ ps, '/' ∉ p.toList) → enter pending r ps = .failed e →
      e = .nullCharacter)
    (h : follow fs false enter pending r ps = .failed e) : e = .nullCharacter := by
  induction ps generalizing r with
  | nil => cases h
  | cons p ps ih =>
    have ih : ∀ {r}, follow fs false enter pending r ps = .failed e → e = .nullCharacter :=
      ih fun q hq => hs q (List.mem_cons_of_mem _ hq)
    cases piece_case (hs p (by simp)) with
    | stay hd =>
      rw [follow_stay hd] at h
      exact ih h
    | up hu =>
      rw [hu, follow_up] at h
      exact ih h
    | null hd hu hz =>
      rw [follow_null hd hu hz] at h
      cases h
      rfl
    | name hn =>
      rw [follow_named hn] at h
      split at h
      · exact ih h
      · split at h
        · cases h
        · split at h
          · exact ih h
          · cases h
          · rename_i hin
            cases h
            exact henter _ _ _ _ (fun q hq => (mem_pieces hq).1) hin
      · exact ih h

theorem followLinks_failed {depth : Nat} {pending : List Location} {r : Reached} {ps : List String}
    {e : ResolveError} (hs : ∀ p ∈ ps, '/' ∉ p.toList)
    (h : FileSystem.followLinks fs false depth pending r ps = .failed e) : e = .nullCharacter := by
  induction depth generalizing pending r ps e with
  | zero => exact follow_failed hs (fun _ _ _ _ _ h => by cases h) h
  | succ depth ih => exact follow_failed hs (fun _ _ _ _ hs h => ih hs h) h

end

/-- Whether a path runs into a loop of links when it is followed leniently. -/
def meetsLoop (fs : FileSystem) (p : Path) : Bool :=
  match fs.startOf p with
  | none => false
  | some start =>
    match fs.followLinks false fs.linkCount [] start p.segments with
    | .looped _ => true
    | _ => false

section

variable {fs : FileSystem} {p : Path}

/-- What leads somewhere is free of null characters. -/
theorem Leads.noNull {strict : Bool} {l m : Location} {ps : List String} {us : List Location}
    (h : Leads fs strict l ps m us) : ∀ s ∈ ps, '\x00' ∉ s.toList := by
  induction h with
  | done => simp
  | @stay _ _ piece _ _ dropped _ ih =>
    have hpiece : piece = "" ∨ piece = "." := by simpa [Segments.isDropped] using dropped
    refine List.forall_mem_cons.mpr ⟨?_, ih⟩
    rcases hpiece with rfl | rfl <;> decide
  | up _ ih => exact List.forall_mem_cons.mpr ⟨by decide, ih⟩
  | name named _ _ _ ih => exact List.forall_mem_cons.mpr ⟨named.noNull, ih⟩
  | link named _ _ _ _ ih => exact List.forall_mem_cons.mpr ⟨named.noNull, ih⟩

/-- Leniently, an absolute path that does not run into a loop denotes a location, or a null
character is in it. -/
theorem denotes_or_null (habs : p.isAbsolute = true) (hs : ∀ s ∈ p.segments, '/' ∉ s.toList)
    (hloop : fs.meetsLoop p = false) :
    (∃ l, fs.Denotes p l) ∨ fs.resolveLenient p = .error .nullCharacter := by
  have hstart : fs.startOf p = some Reached.root := startOf_absolute habs
  simp only [meetsLoop, hstart] at hloop
  cases hf : fs.followLinks false fs.linkCount [] Reached.root p.segments with
  | reached r =>
    obtain ⟨us, hl⟩ := followLinks_leads hs hf
    exact .inl ⟨r.location, Reached.root, us, hstart, hl⟩
  | looped raw => simp [hf] at hloop
  | failed e =>
    obtain rfl := followLinks_failed hs hf
    exact .inr (resolve_failed hstart hf)

/-- Leniently, an absolute path is refused for a null character or for a loop. -/
theorem resolveLenient_error {e : ResolveError} (habs : p.isAbsolute = true)
    (hs : ∀ s ∈ p.segments, '/' ∉ s.toList) (h : fs.resolveLenient p = .error e) :
    e = .nullCharacter ∨ ∃ shown, e = .loop shown := by
  have hstart : fs.startOf p = some Reached.root := startOf_absolute habs
  simp only [FileSystem.resolveLenient, resolve, hstart] at h
  split at h
  · cases h
  · rename_i hf
    cases h
    exact .inl (followLinks_failed hs hf)
  · split at h
    · cases h
      exact .inl rfl
    · split at h
      · cases h
        exact .inr ⟨_, rfl⟩
      · cases h

/-- Where absolute paths lead depends on their segments alone. -/
theorem resolve_absolute {q : Path} {strict : Bool} (hp : p.isAbsolute = true)
    (hq : q.isAbsolute = true) (h : p.segments = q.segments) :
    fs.resolve strict p = fs.resolve strict q := by
  simp only [resolve, startOf_absolute hp, startOf_absolute hq, h]

end

section

variable {fs : FileSystem} (enter : Location → List String → Found) {l : Location}
  {ps : List String}

/-- A lookup goes through directories to what stands behind them. -/
theorem walk_directories (hw : fs.WellFormed) (rest : List String)
    (h : fs.entry? (l ++ ps) = some .directory) :
    walk fs false enter l .directory (ps ++ rest) =
      walk fs false enter (l ++ ps) .directory rest := by
  induction ps generalizing l with
  | nil => simp
  | cons p ps ih =>
    have hname : IsName p := hw.named h p (by simp)
    have hsplit : l ++ p :: ps = l ++ [p] ++ ps := by simp
    rw [hsplit] at h ⊢
    have hdir : fs.entry? (l ++ [p]) = some .directory := by
      by_cases hps : ps = []
      · simpa [hps] using h
      · exact hw.directory h hps
    rw [List.cons_append, walk_named hname.notDropped hname.notUp, hdir]
    exact ih h

/-- A lookup behind a directory that is missing finds that it is. -/
theorem walk_missing {name : String} (hn : ∀ n ∈ ps, IsName n) (hl : fs.entry? l = some .directory)
    (hnone : fs.entry? (l ++ ps) = none)
    (hway : ∀ front, front <+: ps → fs.entry? (l ++ front) = none ∨
      fs.entry? (l ++ front) = some .directory) :
    walk fs false enter l .directory (ps ++ [name]) = .nowhere .missing := by
  induction ps generalizing l with
  | nil => simp [hl] at hnone
  | cons p ps ih =>
    have hname := hn p (by simp)
    rw [List.cons_append, walk_named hname.notDropped hname.notUp]
    rcases hway [p] (by simp) with hp | hp
    · simp [hp]
    · rw [hp]
      apply ih (fun n h => hn n (List.mem_cons_of_mem _ h)) hp (by simpa using hnone)
      intro front hfront
      simpa using hway (p :: front) (List.cons_prefix_cons.mpr ⟨rfl, hfront⟩)

end

section

variable {fs made : FileSystem} {l : Location}

theorem makeDirectory_vacant (hw : fs.WellFormed) {name : String} (hn : IsName name)
    (hl : fs.entry? l = some .directory) (hfree : fs.entry? (l ++ [name]) = none) :
    fs.makeDirectory (Path.at (l ++ [name])) = .ok (fs.insert (l ++ [name]) .directory) := by
  have hlookup : fs.lookup false (Path.at (l ++ [name])) = .free (l ++ [name]) := by
    rw [lookup_eq]
    refine (walk_directories _ (l := []) hw [name] hl).trans ?_
    rw [walk_named hn.notDropped hn.notUp, List.nil_append, hfree]
    rfl
  unfold makeDirectory
  rw [hlookup]

theorem makeDirectory_missing {name : String} (hn : ∀ n ∈ l, IsName n) (hnone : fs.entry? l = none)
    (hway : ∀ front, front <+: l → fs.entry? front = none ∨ fs.entry? front = some .directory) :
    fs.makeDirectory (Path.at (l ++ [name])) = .error .missing := by
  have hlookup : fs.lookup false (Path.at (l ++ [name])) = .nowhere .missing := by
    rw [lookup_eq]
    exact walk_missing _ (l := []) hn fs.entry?_nil hnone hway
  unfold makeDirectory
  rw [hlookup]

theorem makeDirectory_occupied (hw : fs.WellFormed) (hl : fs.entry? l = some .directory) :
    fs.makeDirectory (Path.at l) = .error .occupied := by
  have hplace := lookup_directory hw false hl
  unfold makeDirectory
  split
  · rename_i hfree
    simp [hfree, Found.place?] at hplace
  · rfl
  · rename_i hnowhere
    simp [hnowhere, Found.place?] at hplace

/-- The directories on the way to a location without links are made there and nowhere else. -/
theorem makeDirectories_at (hw : fs.WellFormed) (hn : ∀ n ∈ l, IsName n) (hf : fs.LinkFree l)
    (h : fs.makeDirectories (Path.at l) = .ok made) :
    made.WellFormed ∧ Grown fs made l ∧ made.entry? l = some .directory := by
  obtain ⟨hmade, m, hm, hgrown⟩ := makeDirectories_ok hw hn h
  have hclean : ∀ s ∈ (Path.at l).segments, '/' ∉ s.toList ∧ '\x00' ∉ s.toList :=
    fun s hs => ⟨(hn s hs).noSlash, (hn s hs).noNull⟩
  obtain ⟨hdenotes, hdir⟩ := lookup_denotes hmade hclean hm (by simp)
  have hfree : made.LinkFree l := fun k hk => (hgrown.extends.links k).trans (hf k hk)
  obtain rfl := hdenotes.unique (hfree.denotes hn)
  exact ⟨hmade, hgrown, hdir⟩

theorem exists_makeDirectoriesFrom (hw : fs.WellFormed) {rs : List String} (hn : ∀ n ∈ rs, IsName n)
    (hway : ∀ front, front <+: rs.reverse → fs.entry? front = none ∨
      fs.entry? front = some .directory) : ∃ made, makeDirectoriesFrom .root fs rs = .ok made := by
  induction rs with
  | nil =>
    have hroot : fs.isDirectory ⟨.root, []⟩ = true :=
      isDirectory_iff.mpr ⟨[], lookup_directory hw true fs.entry?_nil⟩
    exact ⟨fs, by simp [makeDirectoriesFrom, hroot]⟩
  | cons last above ih =>
    have hlast : IsName last := hn last (by simp)
    have habove : ∀ n ∈ above.reverse, IsName n :=
      fun n h => hn n (List.mem_cons_of_mem _ (List.mem_reverse.mp h))
    rw [List.reverse_cons] at hway
    have hfront : ∀ front, front <+: above.reverse →
        fs.entry? front = none ∨ fs.entry? front = some .directory :=
      fun front h => hway front (h.trans (List.prefix_append _ _))
    have hpath : (⟨.root, (last :: above).reverse⟩ : Path) = Path.at (above.reverse ++ [last]) := by
      rw [List.reverse_cons, Path.at]
    simp only [makeDirectoriesFrom, hpath]
    rcases hway _ (List.prefix_refl _) with hfree | hdir
    · rcases hfront _ (List.prefix_refl _) with hnone | hparent
      · -- The directory above is made first. The place in it is still free then, as nothing
        -- is made below it.
        rw [makeDirectory_missing habove hnone hfront]
        obtain ⟨changed, hchanged⟩ := ih (fun n h => hn n (List.mem_cons_of_mem _ h)) hfront
        have hmade : fs.makeDirectories (Path.at above.reverse) = .ok changed := by
          simpa [makeDirectories, Path.at] using hchanged
        have hlinks : fs.LinkFree above.reverse := by
          intro k hk
          rcases hfront k hk with he | he
          · simp [linkAt?, he]
          · exact linkAt?_directory he
        obtain ⟨hw', hgrown, hthere⟩ := makeDirectories_at hw habove hlinks hmade
        have hstill : changed.entry? (above.reverse ++ [last]) = none := by
          rcases hgrown.entries (above.reverse ++ [last]) with he | ⟨_, hfront, _⟩
          · rw [he, hfree]
          · have hlength := hfront.length_le
            rw [List.length_append, List.length_singleton] at hlength
            omega
        rw [hchanged]
        exact ⟨_, makeDirectory_vacant hw' hlast hthere hstill⟩
      · rw [makeDirectory_vacant hw hlast hparent hfree]
        exact ⟨_, rfl⟩
    · have hthere : fs.isDirectory (Path.at (above.reverse ++ [last])) = true :=
        isDirectory_iff.mpr ⟨_, lookup_directory hw true hdir⟩
      rw [makeDirectory_occupied hw hdir]
      exact ⟨fs, by simp [hthere]⟩

/-- The directories on the way to a location without links can be made exactly if no file
is in the way. -/
theorem exists_makeDirectories_iff (hw : fs.WellFormed) (hn : ∀ n ∈ l, IsName n)
    (hf : fs.LinkFree l) :
    (∃ made, fs.makeDirectories (Path.at l) = .ok made) ↔
      ∀ front content, front <+: l → fs.entry? front ≠ some (.file content) := by
  constructor
  · rintro ⟨made, hmade⟩ front content ⟨rest, rfl⟩ hfile
    obtain ⟨hw', hgrown, hdir⟩ := makeDirectories_at hw hn hf hmade
    have hkept := hgrown.kept front _ hfile
    by_cases hr : rest = []
    · simp [hr, hkept] at hdir
    · simp [hw'.directory hdir hr] at hkept
  · intro hway
    apply exists_makeDirectoriesFrom hw
    · exact fun n h => hn n (List.mem_reverse.mp h)
    · intro front hfront
      rw [List.reverse_reverse] at hfront
      cases he : fs.entry? front with
      | none => exact .inl rfl
      | some e =>
        cases e with
        | directory => exact .inr rfl
        | file content => exact absurd he (hway front content hfront)
        | link target =>
          have hlink := hf front hfront
          simp [linkAt?_eq_some.mpr he] at hlink

end

end FileSystem

namespace Segments

/-- A path is normalized to what it is cleaned to, unless nothing is left of it. -/
theorem clamped_of_normalize? {path text : String} (h : normalize? path = some text)
    (hdot : text ≠ ".") : clamped path = text := by
  rw [normalize?_eq] at h
  split at h
  · cases h
  · split at h
    · exact absurd (Option.some.inj h).symm hdot
    · exact Option.some.inj h

end Segments

theorem Boundary.normalize?_of_ok {path text : String} (h : Boundary.normalize path = .ok text) :
    Segments.normalize? path = some text := by
  unfold Boundary.normalize at h
  split at h
  · rename_i hnormal
    rw [hnormal, Except.ok.inj h]
  · cases h

namespace Link

open Segments (startsAtRoot slashed clamped)

section

variable {fs : FileSystem} {path : String}

/-- The two ways to clean a path agree on a path that cannot be found. From the root it is
normalized to what it is cleaned to with the links in that followed, or to just that if they run
into a loop. Otherwise it is cleaned alone, unless nothing is left of it. -/
theorem normalizers_agree (hw : fs.WellFormed) (hnull : '\x00' ∉ path.toList) {e : ResolveError}
    (hstrict : fs.resolveStrict (Path.ofText path) = .error e) :
    (startsAtRoot (slashed path) = true → ∃ text, Boundary.normalize path = .ok text ∧
      ((∃ l, fs.resolveLenient (Path.ofText text) = .ok l ∧
        normalizePath fs path = .ok (Path.at l).text) ∨
        ∃ shown, fs.resolveLenient (Path.ofText text) = .error (.loop shown) ∧
          normalizePath fs path = .ok text)) ∧
    (startsAtRoot (slashed path) = false → ∀ text, Boundary.normalize path = .ok text → text ≠ "." →
      normalizePath fs path = .ok text) := by
  have hnormal :
      startsAtRoot (slashed path) = true → Boundary.normalize path = .ok (clamped path) := by
    intro hroot
    rw [Segments.clamped_root hroot]
    exact Boundary.normalize_eq_ok (Segments.normalize?_slashed_root hroot)
  have hcase := normalizePath_case fs path
  generalize normalizePath fs path = result at hcase ⊢
  cases hcase with
  | found l strict => simp [hstrict] at strict
  | null strict => exact absurd strict (FileSystem.resolve_ne_null hw (Path.ofText_segments hnull))
  | relative atRoot =>
    refine ⟨fun hroot => by simp [atRoot] at hroot, fun _ text htext hdot => ?_⟩
    rw [Segments.clamped_of_normalize? (Boundary.normalize?_of_ok htext) hdot]
  | followed l atRoot lenient =>
    exact ⟨fun hroot => ⟨_, hnormal hroot, .inl ⟨l, lenient, rfl⟩⟩,
      fun hroot => by simp [atRoot] at hroot⟩
  | nullBehind atRoot lenient =>
    have hclean := Path.ofText_segments (not_mem_clamped atRoot hnull)
    exact absurd lenient (FileSystem.resolve_ne_null hw hclean)
  | unfollowed e atRoot other lenient =>
    have habs : (Path.ofText (clamped path)).isAbsolute = true := by
      rw [Path.isAbsolute_ofText, Segments.startsAtRoot_clamped, atRoot]
    obtain ⟨shown, rfl⟩ :=
      (FileSystem.resolveLenient_error habs Path.ofText_noSlash lenient).resolve_left other
    exact ⟨fun hroot => ⟨_, hnormal hroot, .inr ⟨shown, lenient, rfl⟩⟩,
      fun hroot => by simp [atRoot] at hroot⟩

end

/-- A directory with a link to one that is missing, and a link that leads to itself. -/
def strayed : FileSystem where
  entries := [(["p"], .directory), (["p", "out"], .link "docs"), (["p", "loop"], .link "loop")]

theorem normalizers_agree_strayed :
    strayed.WellFormed ∧
    (∃ e, strayed.resolveStrict (Path.ofText "\\p/out/x/../y") = .error e) ∧
    (∃ text, Boundary.normalize "\\p/out/x/../y" = .ok text ∧
      ((∃ l, strayed.resolveLenient (Path.ofText text) = .ok l ∧
          normalizePath strayed "\\p/out/x/../y" = .ok (Path.at l).text) ∨
        ∃ shown, strayed.resolveLenient (Path.ofText text) = .error (.loop shown) ∧
          normalizePath strayed "\\p/out/x/../y" = .ok text)) ∧
    (∃ e, strayed.resolveStrict (Path.ofText "p/./loop\\x") = .error e) ∧
    normalizePath strayed "p/./loop\\x" = .ok "p/loop/x" := by
  have hw : strayed.WellFormed := FileSystem.wellFormed_of_check (by decide +kernel)
  obtain ⟨e, he⟩ : ∃ e, strayed.resolveStrict (Path.ofText "\\p/out/x/../y") = .error e :=
    error_of_toOption (by decide +kernel)
  obtain ⟨e', he'⟩ : ∃ e, strayed.resolveStrict (Path.ofText "p/./loop\\x") = .error e :=
    error_of_toOption (by decide +kernel)
  have hnormal : Boundary.normalize "p/./loop\\x" = .ok "p/loop/x" :=
    ok_of_toOption (by decide +kernel)
  exact ⟨hw, ⟨e, he⟩, (normalizers_agree hw (by decide) he).1 (by decide +kernel), ⟨e', he'⟩,
    (normalizers_agree hw (by decide) he').2 (by decide +kernel) _ hnormal (by decide)⟩

section

variable {fs : FileSystem} {path : String} (hroot : startsAtRoot path = true) (hpath : Forward path)
include hroot hpath

/-- A path that goes forward is followed like its clean text. -/
theorem resolveLenient_clamped :
    fs.resolveLenient (Path.ofText (clamped path)) = fs.resolveLenient (Path.ofText path) := by
  have hkept : ∀ s ∈ Path.textSegments path, Segments.isDropped s = false ∧ s ≠ ".." :=
    fun s hs => ⟨(Path.mem_textSegments hs).1, (hpath.segments s hs).1⟩
  have hclamped : clamped path = (Path.at (Path.textSegments path)).text := by
    rw [clamped_eq hroot, Segments.slashed_of_not_mem hpath.2, ← Path.collapse_textSegments,
      Segments.collapse, Segments.collapseFrom_names hkept]
    rfl
  apply FileSystem.resolve_absolute
  · rw [Path.isAbsolute_ofText, hclamped, Path.startsAtRoot_at]
  · rw [Path.isAbsolute_ofText, hroot]
  · rw [hclamped]
    exact Path.textSegments_text (fun s hs => (hkept s hs).1) fun s hs =>
      (Path.mem_textSegments hs).2.1

/-- A path that goes forward is normalized to what it comes to when it is followed leniently,
whether or not it exists. -/
theorem normalizePath_eq (hw : fs.WellFormed)
    (h : (∃ l, fs.Denotes (Path.ofText path) l) ∨
      fs.resolveLenient (Path.ofText path) = .error .nullCharacter) :
    normalizePath fs path = (fs.resolveLenient (Path.ofText path)).map
      (fun l => (Path.at l).text) := by
  have hsame :
      fs.resolveLenient (Path.ofText (clamped path)) = fs.resolveLenient (Path.ofText path) :=
    resolveLenient_clamped hroot hpath
  have hcase := normalizePath_case fs path
  generalize normalizePath fs path = result at hcase ⊢
  cases hcase with
  | found l strict =>
    have hl := (FileSystem.resolveStrict_denotes hw Path.ofText_noSlash strict).1
    rw [hl.resolveLenient]
    rfl
  | null strict =>
    rcases h with ⟨_, _, _, _, hlead⟩ | h
    · -- What leads somewhere holds no null character that it could be refused for.
      have hclean : ∀ s ∈ (Path.ofText path).segments, '/' ∉ s.toList ∧ '\x00' ∉ s.toList :=
        fun s hs => ⟨Path.ofText_noSlash s hs, hlead.noNull s hs⟩
      exact absurd strict (FileSystem.resolve_ne_null hw hclean)
    · rw [h]
      rfl
  | relative atRoot => simp [Segments.startsAtRoot_slashed hroot] at atRoot
  | followed l _ lenient =>
    rw [← hsame, lenient]
    rfl
  | nullBehind _ lenient =>
    rw [← hsame, lenient]
    rfl
  | unfollowed e _ other lenient =>
    rw [hsame] at lenient
    rcases h with ⟨l, hl⟩ | h
    · cases lenient.symm.trans hl.resolveLenient
    · exact absurd (Except.error.inj (lenient.symm.trans h)) other

theorem normalizePath_of_denotes (hw : fs.WellFormed) {l : Location}
    (h : fs.Denotes (Path.ofText path) l) : normalizePath fs path = .ok (Path.at l).text := by
  rw [normalizePath_eq hroot hpath hw (.inl ⟨l, h⟩), h.resolveLenient]
  rfl

/-- The location that a path from the root denotes holds no links and is made of plain names. -/
theorem plain_of_denotes (hb : fs.NoBackslash) {l : Location}
    (h : fs.Denotes (Path.ofText path) l) : fs.LinkFree l ∧ ∀ n ∈ l, IsPlain n := by
  obtain ⟨start, us, hstart, hlead⟩ := h
  have habs : (Path.ofText path).isAbsolute = true := by rw [Path.isAbsolute_ofText, hroot]
  obtain rfl : Reached.root = start :=
    Option.some.inj ((FileSystem.startOf_absolute habs).symm.trans hstart)
  have hback := hlead.noBackslash hb (fun s hs => (hpath.segments s hs).2) (by simp [Reached.root])
  exact ⟨hlead.linkFree fs.linkFree_nil,
    fun n hn => ⟨hlead.names (by simp [Reached.root]) n hn, hback n hn⟩⟩

end

/-- The text of plain names goes forward. -/
theorem forward_at {l : Location} (hl : ∀ n ∈ l, IsPlain n) : Forward (Path.at l).text := by
  refine ⟨?_, Path.not_mem_text_at (by decide) fun n hn => (hl n hn).noBackslash⟩
  rw [Path.pieces_text_at fun n hn => (hl n hn).noSlash]
  split
  · decide
  · intro h
    rcases List.mem_cons.mp h with h | h
    · exact absurd h (by decide)
    · exact (hl ".." h).notUp rfl

/-- A path that goes forward and runs into no loop is normalized to what it comes to when it is
followed, which is its own normal form. It stays so when the directories that are missing there are
made, as they can be unless a file is in the way. -/
theorem normalizePath_ignores_existence {fs : FileSystem} (hw : fs.WellFormed) (hb : fs.NoBackslash)
    {path : String} (hroot : startsAtRoot path = true) (hpath : Forward path)
    (hloop : fs.meetsLoop (Path.ofText path) = false) :
    normalizePath fs path = (fs.resolveLenient (Path.ofText path)).map (fun l => (Path.at l).text) ∧
    ('\x00' ∉ path.toList → ∃ l, fs.resolveLenient (Path.ofText path) = .ok l ∧
      normalizePath fs (Path.at l).text = .ok (Path.at l).text ∧
      ((∃ made, fs.makeDirectories (Path.at l) = .ok made) ↔
        ∀ front content, front <+: l → fs.entry? front ≠ some (.file content)) ∧
      ∀ made, fs.makeDirectories (Path.at l) = .ok made →
        made.entry? l = some .directory ∧ normalizePath made path = .ok (Path.at l).text) := by
  have habs : (Path.ofText path).isAbsolute = true := by rw [Path.isAbsolute_ofText, hroot]
  have hends := FileSystem.denotes_or_null habs Path.ofText_noSlash hloop
  refine ⟨normalizePath_eq hroot hpath hw hends, fun hz => ?_⟩
  obtain ⟨l, hl⟩ := hends.resolve_right (FileSystem.resolve_ne_null hw (Path.ofText_segments hz))
  obtain ⟨hfree, hplain⟩ := plain_of_denotes hroot hpath hb hl
  have hnames : ∀ n ∈ l, IsName n := fun n hn => (hplain n hn).toIsName
  refine ⟨l, hl.resolveLenient, ?_, FileSystem.exists_makeDirectories_iff hw hnames hfree, ?_⟩
  · have hself : fs.Denotes (Path.ofText (Path.at l).text) l := by
      rw [Path.ofText_at hnames]
      exact hfree.denotes hnames
    exact normalizePath_of_denotes (Path.startsAtRoot_at l) (forward_at hplain) hw hself
  · intro made hmade
    obtain ⟨hw', hgrown, hdir⟩ := FileSystem.makeDirectories_at hw hnames hfree hmade
    exact ⟨hdir, normalizePath_of_denotes hroot hpath hw' (hl.extend hgrown.extends)⟩

/-- A linked directory with a link in it that leads out again, to a directory that is missing. -/
def winding : FileSystem where
  entries := [(["p"], .directory), (["p", "real"], .directory), (["p", "s"], .link "real"),
    (["p", "real", "k"], .link "../gone")]

theorem normalizePath_ignores_existence_winding :
    winding.WellFormed ∧ winding.NoBackslash ∧ Forward "/p/s/.//k/x" ∧
    winding.meetsLoop (Path.ofText "/p/s/.//k/x") = false ∧
    winding.entry? ["p", "gone"] = none ∧
    normalizePath winding "/p/s/.//k/x" = .ok "/p/gone/x" ∧
    normalizePath winding "/p/gone/x" = .ok "/p/gone/x" ∧
    ∃ made, winding.makeDirectories (Path.at ["p", "gone", "x"]) = .ok made ∧
      made.entry? ["p", "gone", "x"] = some .directory ∧
      normalizePath made "/p/s/.//k/x" = .ok "/p/gone/x" := by
  have hw : winding.WellFormed := FileSystem.wellFormed_of_check (by decide +kernel)
  have hb : winding.NoBackslash := FileSystem.noBackslash_of_check (by decide +kernel)
  have hpath : Forward "/p/s/.//k/x" := by decide +kernel
  have hloop : winding.meetsLoop (Path.ofText "/p/s/.//k/x") = false := by decide +kernel
  have hlenient : winding.resolveLenient (Path.ofText "/p/s/.//k/x") = .ok ["p", "gone", "x"] :=
    ok_of_toOption (by decide +kernel)
  obtain ⟨hnormal, hrest⟩ := normalizePath_ignores_existence hw hb (by decide +kernel) hpath hloop
  obtain ⟨l, hl, hagain, _, hmade⟩ := hrest (by decide)
  obtain rfl := Except.ok.inj (hl.symm.trans hlenient)
  obtain ⟨made, h, _⟩ : ∃ made, winding.makeDirectories (Path.at ["p", "gone", "x"]) = .ok made ∧
      made.isDirectory (Path.ofText "/p/s/k") = true := exists_of_toOption (by decide +kernel)
  rw [hlenient] at hnormal
  exact ⟨hw, hb, hpath, hloop, rfl, hnormal, hagain, made, h, hmade made h⟩

end Link

end PhpPages
