import PhpPages.Proofs.Forward

namespace PhpPages

open Text

namespace Segments

/-- A path on a drive: a letter, a colon and a slash of either kind. -/
def OnDrive (path : String) : Prop :=
  ∃ drive c rest, path.toList = drive :: ':' :: c :: rest ∧ drive.isAlpha = true ∧
    (c = '\\' ∨ c = '/')

/-- Without backslashes and drives, an absolute path starts with a slash. -/
theorem startsAtRoot_of_isAbsolute {path : String} (h : isAbsolute path = true)
    (hb : '\\' ∉ path.toList) (hd : ¬ OnDrive path) : startsAtRoot path = true := by
  unfold isAbsolute at h
  split at h
  · rename_i rest hpath
    simp [startsAtRoot, hpath]
  · rename_i rest hpath
    exact absurd (by simp [hpath]) hb
  · rename_i drive c rest _ hpath
    simp only [Bool.and_eq_true, Bool.or_eq_true, decide_eq_true_eq] at h
    exact absurd ⟨drive, c, rest, hpath, h⟩ hd
  · cases h

theorem collapse_collapse_append (ps qs : List String) :
    collapse (collapse ps ++ qs) = collapse (ps ++ qs) := by
  have hfront : collapse (collapse ps) = collapse ps :=
    collapseFrom_names fun _ hs => (mem_collapse hs).2
  unfold collapse at hfront ⊢
  rw [collapseFrom_append, hfront, ← collapseFrom_append]

theorem climbs_append {depth : Nat} {ps qs : List String} (h : climbs depth (ps ++ qs) = false) :
    climbs depth ps = false := by
  induction ps generalizing depth with
  | nil => rfl
  | cons p ps ih =>
    simp only [List.cons_append, climbs] at h ⊢
    split
    · rename_i hd
      rw [if_pos hd] at h
      exact ih h
    · rename_i hd
      rw [if_neg hd] at h
      split
      · rename_i hu
        rw [if_pos hu] at h
        cases depth with
        | zero => cases h
        | succ depth => exact ih h
      · rename_i hu
        rw [if_neg hu] at h
        exact ih h

/-- A walk that does not climb beyond its start keeps everything in front of it. -/
theorem prefix_collapseFrom (base passed : List String) {ps : List String}
    (h : climbs passed.length ps = false) : base.reverse <+: collapseFrom (passed ++ base) ps := by
  induction ps generalizing passed with
  | nil =>
    rw [collapseFrom, List.reverse_append]
    exact List.prefix_append _ _
  | cons p ps ih =>
    simp only [climbs] at h
    simp only [collapseFrom]
    split
    · rename_i hd
      rw [if_pos hd] at h
      exact ih passed h
    · rename_i hd
      rw [if_neg hd] at h
      split
      · rename_i hu
        rw [if_pos hu] at h
        cases passed with
        | nil => cases h
        | cons s passed => exact ih passed h
      · rename_i hu
        rw [if_neg hu] at h
        exact ih (p :: passed) h

/-- Behind names, a path that does not climb ends below them. -/
theorem prefix_collapse {base : List String} (hbase : ∀ n ∈ base, IsName n) {ps : List String}
    (h : climbs 0 ps = false) : base <+: collapse (base ++ ps) := by
  have hstays := prefix_collapseFrom base.reverse [] h
  have hfront : collapseFrom [] base = base := collapse_names hbase
  rw [List.nil_append, List.reverse_reverse] at hstays
  rwa [collapse, collapseFrom_append, hfront]

end Segments

namespace Path

theorem isAbsolute_ofText (s : String) : (ofText s).isAbsolute = Segments.startsAtRoot s := by
  unfold ofText isAbsolute Segments.startsAtRoot
  cases hs : s.toList with
  | nil => rfl
  | cons c cs =>
    by_cases hc : c = '/'
    · simp only [hc, decide_true, List.takeWhile_cons_of_pos, List.length_cons, Nat.succ_ne_zero,
        ↓reduceIte, List.head?_cons]
      split <;> rfl
    · simp [hc]

end Path

namespace FileSystem

theorem linkAt?_of_links {fs : FileSystem} (h : fs.links = []) (l : Location) :
    fs.linkAt? l = none := by
  cases hl : fs.linkAt? l with
  | none => rfl
  | some target =>
    have hm := mem_links hl
    rw [h] at hm
    cases hm

/-- Without links, pieces lead to what is left of them. -/
theorem leads_collapseFrom {fs : FileSystem} (hlinks : ∀ l, fs.linkAt? l = none) {l : Location}
    {ps : List String} (hs : ∀ p ∈ ps, '/' ∉ p.toList ∧ '\x00' ∉ p.toList) :
    Leads fs false l ps (Segments.collapseFrom l.reverse ps) [] := by
  induction ps generalizing l with
  | nil =>
    rw [Segments.collapseFrom, List.reverse_reverse]
    exact .done l
  | cons p ps ih =>
    have hrest : ∀ p ∈ ps, '/' ∉ p.toList ∧ '\x00' ∉ p.toList :=
      fun q hq => hs q (List.mem_cons_of_mem _ hq)
    rw [Segments.collapseFrom]
    split
    · rename_i hd
      exact .stay hd (ih hrest)
    · rename_i hd
      split
      · rename_i hu
        subst hu
        rw [List.tail_reverse]
        exact .up (ih hrest)
      · rename_i hu
        obtain ⟨hslash, hnull⟩ := hs p (by simp)
        have hname : IsName p := ⟨by simpa using hd, hu, hslash, hnull⟩
        have hnext := ih (l := l ++ [p]) hrest
        rw [List.reverse_append, List.reverse_singleton, List.singleton_append] at hnext
        exact .name hname (hlinks _) (by simp) hnext

theorem denotes_collapse {fs : FileSystem} (hlinks : ∀ l, fs.linkAt? l = none) {p : Path}
    (habs : p.isAbsolute = true) (hs : ∀ s ∈ p.segments, '/' ∉ s.toList ∧ '\x00' ∉ s.toList) :
    fs.Denotes p (Segments.collapse p.segments) :=
  ⟨Reached.root, [], startOf_absolute habs, leads_collapseFrom hlinks hs⟩

/-- Where no part of a path names a file, what cannot be followed is missing. -/
theorem follow_missing {fs : FileSystem} (hw : fs.WellFormed) (hlinks : ∀ l, fs.linkAt? l = none)
    {enter : List Location → Reached → List String → Followed}
    (enter' : Location → List String → Found) {pending : List Location} {r : Reached}
    {ps : List String} {e : ResolveError} (hs : ∀ p ∈ ps, '/' ∉ p.toList ∧ '\x00' ∉ p.toList)
    (hdir : fs.entry? r.location = some .directory)
    (hfile : ∀ n < ps.length, ∀ m content,
      walk fs true enter' r.location .directory (ps.take n) ≠ .entry m (.file content))
    (h : follow fs true enter pending r ps = .failed e) : ∃ shown, e = .missing shown := by
  induction ps generalizing r with
  | nil => simp [follow] at h
  | cons p ps ih =>
    have hrest : ∀ p ∈ ps, '/' ∉ p.toList ∧ '\x00' ∉ p.toList :=
      fun q hq => hs q (List.mem_cons_of_mem _ hq)
    -- What is known of the parts of the path is known of the parts behind its first piece.
    have hnext : ∀ n < ps.length, ∀ m content,
        walk fs true enter' r.location .directory (p :: ps.take n) ≠ .entry m (.file content) :=
      fun n hn => hfile (n + 1) (Nat.succ_lt_succ hn)
    obtain ⟨hslash, hnull⟩ := hs p (by simp)
    cases piece_case hslash with
    | stay hd =>
      rw [follow_stay hd] at h
      simp only [walk_stay hd] at hnext
      exact ih hrest hdir hnext h
    | up hu =>
      subst hu
      rw [follow_up] at h
      simp only [walk_up] at hnext
      exact ih (r := r.up) hrest (hw.dropLast hdir) hnext h
    | null _ _ hz => exact absurd hz hnull
    | name hname =>
      rw [follow_named hname] at h
      simp only [walk_named hname.notDropped hname.notUp] at hnext
      cases hentry : fs.entry? (r.location ++ [p]) with
      | none =>
        simp only [status, hentry, not_isBlocked hw hdir, Bool.false_eq_true, ↓reduceIte, obstacle,
          Followed.failed.injEq] at h
        exact ⟨_, h.symm⟩
      | some entry =>
        simp only [status, hentry] at h hnext
        cases entry with
        | directory => exact ih (r := r.down p) hrest hentry hnext h
        | link target =>
          have hlink := linkAt?_eq_some.mpr hentry
          rw [hlinks] at hlink
          cases hlink
        | file content =>
          -- Behind a file there is nothing left to follow.
          cases ps with
          | nil => simp [follow] at h
          | cons q ps =>
            exact absurd (by simp [walk]) (hnext 0 (by simp) (r.location ++ [p]) content)

theorem resolveStrict_missing {fs : FileSystem} (hw : fs.WellFormed)
    (hlinks : ∀ l, fs.linkAt? l = none) {p : Path} {e : ResolveError} (habs : p.isAbsolute = true)
    (hs : ∀ s ∈ p.segments, '/' ∉ s.toList ∧ '\x00' ∉ s.toList)
    (hfile : ∀ n < p.segments.length, fs.isFile ⟨p.anchor, p.segments.take n⟩ = false)
    (h : fs.resolveStrict p = .error e) : ∃ shown, e = .missing shown := by
  have hstart : fs.startOf p = some Reached.root := startOf_absolute habs
  obtain ⟨enter, henter⟩ := followLinks_eq fs true fs.linkCount
  simp only [FileSystem.resolveStrict, resolve, hstart] at h
  split at h
  · cases h
  · rename_i e' hfailed
    obtain rfl := Except.error.inj h
    rw [henter] at hfailed
    have hwalks :
        ∃ enter', walkLinks fs true linkLimit = fun l ps => walk fs true enter' l .directory ps :=
      ⟨_, rfl⟩
    obtain ⟨enter', hwalks⟩ := hwalks
    refine follow_missing hw hlinks enter' hs fs.entry?_nil ?_ hfailed
    intro n hn m content hwalk
    have hfront : fs.startOf ⟨p.anchor, p.segments.take n⟩ = some Reached.root := hstart
    have hfound : fs.lookup true ⟨p.anchor, p.segments.take n⟩ = .entry m (.file content) := by
      rw [lookup_eq, hfront, hwalks]
      exact hwalk
    have hn := hfile n hn
    simp [isFile, hfound] at hn
  · rename_i qs hloop
    exact absurd hloop (followLinks_strict fs.pending_nil fun s hm => (hs s hm).1)

end FileSystem

namespace Boundary

/-- The names that are left of a text when its dots are taken out. -/
def undotted (text : String) : Location :=
  Segments.collapse (Path.ofText text).segments

theorem collapse_take_length (text : String) :
    Segments.collapse ((Path.ofText text).segments.take (Path.ofText text).segments.length) =
      undotted text := by
  rw [List.take_length, undotted]

theorem normalize?_undotted {text : String} (hroot : Segments.startsAtRoot text = true)
    (hb : '\\' ∉ text.toList) : Segments.normalize? text = some (Path.at (undotted text)).text := by
  rw [Segments.normalize?_root hroot, Segments.slashed_of_not_mem hb, ← Path.collapse_textSegments]
  rfl

theorem normalize_undotted {text : String} (hroot : Segments.startsAtRoot text = true)
    (hb : '\\' ∉ text.toList) : normalize text = .ok (Path.at (undotted text)).text := by
  unfold normalize
  rw [normalize?_undotted hroot hb]

/-- A text from the root that is judged by its segments alone: there are no links, and no part of
the path names a file. -/
structure Unlinked (fs : FileSystem) (text : String) : Prop where
  wellFormed : fs.WellFormed
  links : ∀ l, fs.linkAt? l = none
  atRoot : Segments.startsAtRoot text = true
  noBackslash : '\\' ∉ text.toList
  noNull : '\x00' ∉ text.toList
  noFile : ∀ n < (Path.ofText text).segments.length,
    fs.isFile ⟨(Path.ofText text).anchor, (Path.ofText text).segments.take n⟩ = false

section

variable {fs : FileSystem} {text : String}

theorem Unlinked.segments (h : Unlinked fs text) :
    ∀ s ∈ (Path.ofText text).segments, '/' ∉ s.toList ∧ '\x00' ∉ s.toList :=
  Path.ofText_segments h.noNull

theorem Unlinked.plain (h : Unlinked fs text) (n : Nat) :
    ∀ s ∈ Segments.collapse ((Path.ofText text).segments.take n), IsPlain s := by
  intro s hs
  obtain ⟨hm, hd, hu⟩ := Segments.mem_collapse hs
  have hin := List.mem_of_mem_take hm
  obtain ⟨hslash, hz⟩ := h.segments s hin
  exact ⟨⟨hd, hu, hslash, hz⟩, fun hb => h.noBackslash ((Path.mem_textSegments hin).2.2 _ hb)⟩

theorem Unlinked.names (h : Unlinked fs text) : ∀ s ∈ undotted text, IsName s := by
  have hplain := h.plain (Path.ofText text).segments.length
  rw [collapse_take_length] at hplain
  exact fun s hs => (hplain s hs).toIsName

/-- What a part of the path is resolved to is what is left of it. -/
theorem Unlinked.found (h : Unlinked fs text) {n : Nat} {l : Location}
    (hl : fs.resolveStrict ⟨(Path.ofText text).anchor, (Path.ofText text).segments.take n⟩ =
      .ok l) :
    l = Segments.collapse ((Path.ofText text).segments.take n) := by
  have hs : ∀ s ∈ (Path.ofText text).segments.take n, '/' ∉ s.toList ∧ '\x00' ∉ s.toList :=
    fun s hm => h.segments s (List.mem_of_mem_take hm)
  have habs := (Path.isAbsolute_ofText text).trans h.atRoot
  have hdenotes := (FileSystem.resolveStrict_denotes h.wellFormed (fun s hm => (hs s hm).1) hl).1
  exact hdenotes.unique (FileSystem.denotes_collapse h.links habs hs)

/-- A part of the path that is not resolved is missing. -/
theorem Unlinked.absent (h : Unlinked fs text) {n : Nat} {e : ResolveError}
    (he : fs.resolveStrict ⟨(Path.ofText text).anchor, (Path.ofText text).segments.take n⟩ =
      .error e) : ∃ shown, e = .missing shown := by
  have habs :
      (Path.mk (Path.ofText text).anchor ((Path.ofText text).segments.take n)).isAbsolute = true :=
    (Path.isAbsolute_ofText text).trans h.atRoot
  refine FileSystem.resolveStrict_missing h.wellFormed h.links habs ?_ ?_ he
  · exact fun s hm => h.segments s (List.mem_of_mem_take hm)
  · intro k hk
    rw [List.length_take] at hk
    have hfront := h.noFile k (by omega)
    rwa [List.take_take, Nat.min_eq_left (by omega)]

/-- The path exists at what is left of it, or it is missing. -/
theorem Unlinked.resolved (h : Unlinked fs text) :
    fs.resolveStrict (Path.ofText text) = .ok (undotted text) ∨
      ∃ shown, fs.resolveStrict (Path.ofText text) = .error (.missing shown) := by
  have hall := List.take_length (l := (Path.ofText text).segments)
  cases hs : fs.resolveStrict (Path.ofText text) with
  | ok l =>
    left
    have hl := h.found (n := (Path.ofText text).segments.length) (by rw [hall]; exact hs)
    rw [hl, collapse_take_length]
  | error e =>
    right
    obtain ⟨shown, rfl⟩ :=
      h.absent (n := (Path.ofText text).segments.length) (by rw [hall]; exact hs)
    exact ⟨shown, rfl⟩

/-- Put behind what its front is resolved to, the rest of the path makes the same location
as the whole. -/
theorem Unlinked.rebuilt (h : Unlinked fs text) (n : Nat) :
    ∃ t, normalize (Path.at (Segments.collapse ((Path.ofText text).segments.take n) ++
        (Path.ofText text).segments.drop n)).text = .ok t ∧
      Path.ofText t = Path.at (undotted text) := by
  generalize hl : Segments.collapse ((Path.ofText text).segments.take n) ++
    (Path.ofText text).segments.drop n = l
  have hmem : ∀ s ∈ l, s ∈ (Path.ofText text).segments := by
    intro s hs
    rw [← hl] at hs
    rcases List.mem_append.mp hs with hs | hs
    · exact List.mem_of_mem_take (Segments.mem_collapse hs).1
    · exact List.mem_of_mem_drop hs
  have hread : Path.textSegments (Path.at l).text = l :=
    Path.textSegments_text (fun s hs => (Path.mem_textSegments (hmem s hs)).1) fun s hs =>
      (h.segments s (hmem s hs)).1
  have hback : '\\' ∉ (Path.at l).text.toList := by
    apply Path.not_mem_text_at (by decide)
    exact fun s hs hb => h.noBackslash ((Path.mem_textSegments (hmem s hs)).2.2 _ hb)
  have hwhole : undotted (Path.at l).text = undotted text := by
    have hcollapse : undotted (Path.at l).text = Segments.collapse l :=
      congrArg Segments.collapse hread
    rw [hcollapse, ← hl, Segments.collapse_collapse_append, List.take_append_drop, undotted]
  refine ⟨_, normalize_undotted (Path.startsAtRoot_at l) hback, ?_⟩
  rw [hwhole]
  exact Path.ofText_at h.names

end

section

variable {fs : FileSystem} {r : Request}

theorem Unlinked.admits (h : Unlinked fs r.candidate) (hr : ∀ n ∈ r.root, IsPlain n) (n : Nat) :
    r.admits (Path.at (Segments.collapse ((Path.ofText r.candidate).segments.take n))) = true ↔
      r.root <+: Segments.collapse ((Path.ofText r.candidate).segments.take n) :=
  Path.isWithin_at hr (h.plain n)

/-- The nearest ancestor that exists gives the location that is left of the whole path, as long as
the path stays below the root from there on. -/
theorem Unlinked.viaAncestor (h : Unlinked fs r.candidate) (hr : ∀ n ∈ r.root, IsPlain n)
    (normalized : Path) {m k : Nat} (hmk : m < k)
    (hk : k ≤ (Path.ofText r.candidate).segments.length)
    (hroot : fs.resolveStrict
      ⟨(Path.ofText r.candidate).anchor, (Path.ofText r.candidate).segments.take m⟩ = .ok r.root)
    (hstays : ∀ n, m ≤ n →
      r.root <+: Segments.collapse ((Path.ofText r.candidate).segments.take n)) :
    r.viaAncestor fs normalized ((List.range k).reverse.map fun n =>
        ⟨(Path.ofText r.candidate).anchor, (Path.ofText r.candidate).segments.take n⟩) =
      .ok (Path.at (undotted r.candidate)) := by
  induction k with
  | zero => omega
  | succ k ih =>
    rw [List.range_succ, List.reverse_append, List.reverse_singleton, List.singleton_append,
      List.map_cons, Request.viaAncestor]
    cases hs : fs.resolveStrict
        ⟨(Path.ofText r.candidate).anchor, (Path.ofText r.candidate).segments.take k⟩ with
    | error e =>
      obtain ⟨shown, rfl⟩ := h.absent hs
      -- The part that gives the root exists, so the walk has not come to it yet.
      have hne : m ≠ k := by
        rintro rfl
        rw [hroot] at hs
        cases hs
      exact ih (by omega) (by omega)
    | ok l =>
      obtain rfl := h.found hs
      obtain ⟨t, ht, hread⟩ := h.rebuilt k
      have hadmits := (h.admits hr k).mpr (hstays k (by omega))
      have hlen : ((Path.ofText r.candidate).segments.take k).length = k := by
        rw [List.length_take]
        omega
      simp only [hadmits, hlen, ht, hread, Bool.not_true, Bool.false_eq_true, ↓reduceIte, bind,
        Except.bind, pure, Except.pure]

/-- Of a missing path, the segments and what they denote are the same, so they are judged once. -/
theorem Unlinked.judgeMissing_eq (h : Unlinked fs r.candidate) :
    r.judgeMissing fs =
      if r.admits (Path.at (undotted r.candidate)) then
        r.viaAncestor fs (Path.at (undotted r.candidate))
          (Request.ancestorsOf (Path.ofText r.candidate))
      else .error (.createdOutside r.label r.path (Path.at (undotted r.candidate)) r.rootPath) := by
  have habs := (Path.isAbsolute_ofText r.candidate).trans h.atRoot
  have hlenient : fs.resolveLenient (Path.ofText r.candidate) = .ok (undotted r.candidate) :=
    (FileSystem.denotes_collapse h.links habs h.segments).resolveLenient
  unfold Request.judgeMissing
  simp only [normalize_undotted h.atRoot h.noBackslash, Path.ofText_at h.names, hlenient, bind,
    Except.bind, List.find?_cons, List.find?_nil]
  cases r.admits (Path.at (undotted r.candidate)) <;>
    simp only [Bool.not_true, Bool.not_false, Bool.false_eq_true, ↓reduceIte]

/-- A path that stays below the root behind the part that gives the root is accepted. -/
theorem Unlinked.judge_inside (h : Unlinked fs r.candidate) (hr : ∀ n ∈ r.root, IsPlain n) {m : Nat}
    (hroot : fs.resolveStrict
      ⟨(Path.ofText r.candidate).anchor, (Path.ofText r.candidate).segments.take m⟩ = .ok r.root)
    (hstays : ∀ n, m ≤ n →
      r.root <+: Segments.collapse ((Path.ofText r.candidate).segments.take n)) :
    r.judge fs = .ok (Path.at (undotted r.candidate)) := by
  have hadmits : r.admits (Path.at (undotted r.candidate)) = true := by
    have hall :=
      (h.admits hr (m + (Path.ofText r.candidate).segments.length)).mpr (hstays _ (by omega))
    rwa [List.take_of_length_le (by omega)] at hall
  unfold Request.judge
  rcases h.resolved with hs | ⟨shown, hs⟩
  · simp only [hs, bind, Except.bind, hadmits, ↓reduceIte]
  · -- The part that gives the root exists, so it is not the whole path.
    have hshort : m < (Path.ofText r.candidate).segments.length := by
      apply Nat.lt_of_not_le
      intro hlong
      rw [List.take_of_length_le hlong] at hroot
      rw [hroot] at hs
      cases hs
    have hvia :=
      h.viaAncestor hr (Path.at (undotted r.candidate)) hshort (Nat.le_refl _) hroot hstays
    have hmissing : r.judgeMissing fs = .ok (Path.at (undotted r.candidate)) := by
      rw [h.judgeMissing_eq, if_pos hadmits]
      exact hvia
    simp only [hs, bind, Except.bind, hmissing, hadmits, ↓reduceIte]

/-- A path that ends outside the root is refused. -/
theorem Unlinked.judge_outside (h : Unlinked fs r.candidate) (hr : ∀ n ∈ r.root, IsPlain n)
    (hout : ¬ r.root <+: undotted r.candidate) : ∃ problem, r.judge fs = .error problem := by
  have hadmits : r.admits (Path.at (undotted r.candidate)) = false := by
    have hall := h.admits hr (Path.ofText r.candidate).segments.length
    rw [collapse_take_length] at hall
    exact Bool.eq_false_iff.mpr fun hin => hout (hall.mp hin)
  unfold Request.judge
  rcases h.resolved with hs | ⟨shown, hs⟩
  · simp only [hs, bind, Except.bind, hadmits, Bool.false_eq_true, ↓reduceIte]
    exact ⟨_, rfl⟩
  · have hmissing := h.judgeMissing_eq
    rw [if_neg (by simp [hadmits])] at hmissing
    simp only [hs, bind, Except.bind, hmissing]
    exact ⟨_, rfl⟩

end

theorem check_eq {fs : FileSystem} {path root label : String} {location : Location}
    (hblank : (trim path).isEmpty = false) (hnull : '\x00' ∉ path.toList)
    (hroot : fs.resolveStrict (Path.ofText root) = .ok location) : check fs path root label =
      match Request.judge ⟨label, path, candidateFor location path, location⟩ fs with
      | .ok resolved => .ok resolved
      | .error problem => .error (.path problem) := by
  unfold check
  rw [hblank, if_neg (by decide), if_neg (by simpa using hnull)]
  cases hjudge : Request.judge ⟨label, path, candidateFor location path, location⟩ fs with
  | ok resolved => simp only [hroot, hjudge]
  | error problem => simp only [hroot, hjudge]

/-- What is looked up for a path without backslashes and drives starts at the root. -/
theorem startsAtRoot_candidateFor {location : Location} {path : String}
    (hl : ∀ n ∈ location, IsPlain n) (hb : '\\' ∉ path.toList) (hd : ¬ Segments.OnDrive path) :
    Segments.startsAtRoot (candidateFor location path) = true := by
  cases habs : Segments.isAbsolute path with
  | true =>
    rw [candidateFor, if_pos habs]
    exact Segments.startsAtRoot_of_isAbsolute habs hb hd
  | false =>
    rw [← Path.isAbsolute_ofText, ofText_candidateFor hl hb, meant_relative habs]
    rfl

/-- Without links the check is one of segments. A path that does not leave the root once it is in it
is returned without its dots, whether it exists or not; in particular a relative path that never
climbs above its start. A path that ends outside the root is refused. -/
theorem check_is_lexical {fs : FileSystem} (hw : fs.WellFormed) (hlinks : ∀ l, fs.linkAt? l = none)
    {path root : String} {location : Location} {candidate : Path} (label : String)
    (hroot : fs.resolveStrict (Path.ofText root) = .ok location)
    (hback : ∀ n ∈ location, '\\' ∉ n.toList) (hblank : (trim path).isEmpty = false)
    (hnull : '\x00' ∉ path.toList) (hb : '\\' ∉ path.toList) (hdrive : ¬ Segments.OnDrive path)
    (hcandidate : Path.ofText (candidateFor location path) = candidate)
    (hfile : ∀ n < candidate.segments.length,
      fs.isFile ⟨candidate.anchor, candidate.segments.take n⟩ = false) :
    ∃ names, (∀ n ∈ names, IsName n) ∧
      Segments.normalize? (candidateFor location path) = some (Path.at names).text ∧
      (∀ front rest, candidate.segments = front ++ rest →
        fs.resolveStrict ⟨candidate.anchor, front⟩ = .ok location →
        (∀ n, location <+: Segments.collapse (front ++ rest.take n)) →
        check fs path root label = .ok (Path.at names)) ∧
      (Segments.isAbsolute path = false → Segments.climbs 0 (pieces '/' path) = false →
        check fs path root label = .ok (Path.at names)) ∧
      (¬ location <+: names → ∃ problem, check fs path root label = .error (.path problem)) := by
  have hstands := (FileSystem.resolveStrict_denotes hw Path.ofText_noSlash hroot).2
  have hplain : ∀ n ∈ location, IsPlain n := fun n hn => ⟨hstands.names hw n hn, hback n hn⟩
  subst hcandidate
  have hu : Unlinked fs (candidateFor location path) :=
    { wellFormed := hw
      links := hlinks
      atRoot := startsAtRoot_candidateFor hplain hb hdrive
      noBackslash := not_mem_candidateFor (by decide) hback hb
      noNull := not_mem_candidateFor (by decide) (fun n hn => (hstands.names hw n hn).noNull) hnull
      noFile := hfile }
  have hinside : ∀ front rest, (Path.ofText (candidateFor location path)).segments = front ++ rest →
      fs.resolveStrict ⟨(Path.ofText (candidateFor location path)).anchor, front⟩ = .ok location →
      (∀ n, location <+: Segments.collapse (front ++ rest.take n)) → check fs path root label =
        .ok (Path.at (undotted (candidateFor location path))) := by
    intro front rest hsplit hfront hstays
    rw [check_eq hblank hnull hroot]
    have hbehind : ∀ n, front.length ≤ n →
        location <+: Segments.collapse
          ((Path.ofText (candidateFor location path)).segments.take n) := by
      intro n hn
      rw [hsplit, List.take_append, List.take_of_length_le hn]
      exact hstays _
    have hjudge := Unlinked.judge_inside (r := ⟨label, path, candidateFor location path, location⟩)
        (m := front.length)
      hu hplain (by simpa [hsplit] using hfront) hbehind
    rw [hjudge]
  refine ⟨_, hu.names, normalize?_undotted hu.atRoot hu.noBackslash, hinside, ?_, ?_⟩
  · intro hrelative hclimbs
    have hmeant := (ofText_candidateFor hplain hb).trans (meant_relative hrelative)
    refine hinside location (Path.textSegments path) (by rw [hmeant]) ?_ fun n => ?_
    · rw [hmeant]
      exact FileSystem.resolveStrict_at hw hstands
    · apply Segments.prefix_collapse (hstands.names hw)
      rw [← Path.climbs_textSegments, ← List.take_append_drop n (Path.textSegments path)] at hclimbs
      exact Segments.climbs_append hclimbs
  · intro hout
    rw [check_eq hblank hnull hroot]
    obtain ⟨problem, hproblem⟩ :=
      Unlinked.judge_outside (r := ⟨label, path, candidateFor location path, location⟩)
        hu hplain hout
    exact ⟨problem, by rw [hproblem]⟩

/-- A project with one directory and one file. -/
def sparse : FileSystem where
  entries := [(["p"], .directory), (["p", "q"], .directory), (["p", "f"], .file ByteArray.empty)]

theorem check_is_lexical_sparse :
    sparse.WellFormed ∧ (∀ l, sparse.linkAt? l = none) ∧
    sparse.resolveStrict (Path.ofText "/p") = .ok ["p"] ∧
    check sparse "new/..//q/./x" "/p" "Path" = .ok (Path.ofText "/p/q/x") ∧
    ∃ problem, check sparse "q/../../f" "/p" "Path" = .error (.path problem) := by
  have hw : sparse.WellFormed := FileSystem.wellFormed_of_check (by decide +kernel)
  have hlinks : ∀ l, sparse.linkAt? l = none := FileSystem.linkAt?_of_links (by decide +kernel)
  have hroot : sparse.resolveStrict (Path.ofText "/p") = .ok ["p"] :=
    ok_of_toOption (by decide +kernel)
  refine ⟨hw, hlinks, hroot, ?_, ?_⟩
  · have hcandidate : Path.ofText (candidateFor ["p"] "new/..//q/./x") =
        ⟨.root, ["p", "new", "..", "q", "x"]⟩ := by
      decide +kernel
    obtain ⟨names, hnames, hnormal, _, hrelative, _⟩ :=
      check_is_lexical hw hlinks "Path" hroot (by decide) (by decide +kernel) (by decide)
        (by decide) (by simp [Segments.OnDrive]) hcandidate (by decide +kernel)
    have htext : (Path.at names).text = "/p/q/x" :=
      Option.some.inj (hnormal.symm.trans (by decide +kernel))
    have hread : Path.at names = Path.ofText "/p/q/x" :=
      (Path.ofText_at hnames).symm.trans (congrArg Path.ofText htext)
    exact (hrelative (by decide) (by decide +kernel)).trans (congrArg Except.ok hread)
  · have hcandidate :
        Path.ofText (candidateFor ["p"] "q/../../f") = ⟨.root, ["p", "q", "..", "..", "f"]⟩ := by
      decide +kernel
    obtain ⟨names, hnames, hnormal, _, _, houtside⟩ :=
      check_is_lexical hw hlinks "Path" hroot (by decide) (by decide +kernel) (by decide)
        (by decide) (by simp [Segments.OnDrive]) hcandidate (by decide +kernel)
    have htext : (Path.at names).text = "/f" :=
      Option.some.inj (hnormal.symm.trans (by decide +kernel))
    have hread : Path.at names = Path.ofText "/f" :=
      (Path.ofText_at hnames).symm.trans (congrArg Path.ofText htext)
    obtain rfl : names = (Path.ofText "/f").segments := congrArg Path.segments hread
    exact houtside (by decide +kernel)

/-- A root with a backslash in its name, beside a directory that the name reads as when
backslashes are slashes. -/
def misread : FileSystem where
  entries :=
    [(["a\\b"], .directory), (["a\\b", "docs"], .directory), (["a"], .directory),
      (["a", "b"], .directory), (["a", "b", "d"], .directory)]

/-- Under such a root a path is returned as it is found and not as its text reads, and a path that
leaves the root is let through. -/
theorem backslash_root_misread :
    misread.WellFormed ∧ (∀ l, misread.linkAt? l = none) ∧
    misread.resolveStrict (Path.ofText "/a\\b") = .ok ["a\\b"] ∧
    (∀ path ∈ ["docs", "../a/b/d"], (trim path).isEmpty = false ∧ '\x00' ∉ path.toList ∧
      '\\' ∉ path.toList ∧ Segments.isAbsolute path = false ∧ ∀ n < 6,
        misread.isFile ⟨.root, (Path.ofText (candidateFor ["a\\b"] path)).segments.take n⟩ =
          false) ∧
    Segments.climbs 0 (pieces '/' "docs") = false ∧
    Segments.normalize? (candidateFor ["a\\b"] "docs") = some "/a/b/docs" ∧
    check misread "docs" "/a\\b" "Path" = .ok (Path.at ["a\\b", "docs"]) ∧
    Segments.normalize? (candidateFor ["a\\b"] "../a/b/d") = some "/a/a/b/d" ∧
    Segments.isWithin "/a/a/b/d" "/a\\b" = false ∧
    check misread "../a/b/d" "/a\\b" "Path" = .ok (Path.at ["a", "b", "d"]) :=
  ⟨FileSystem.wellFormed_of_check (by decide +kernel),
    FileSystem.linkAt?_of_links (by decide +kernel), ok_of_toOption (by decide +kernel),
    by decide +kernel, by decide +kernel, by decide +kernel, ok_of_toOption (by decide +kernel),
    by decide +kernel, by decide +kernel, ok_of_toOption (by decide +kernel)⟩

end Boundary

end PhpPages
