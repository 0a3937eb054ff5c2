import PhpPages.Proofs.Changes

namespace PhpPages

/-- The entry without what is in it, if it is a file. -/
def Entry.hollow : Entry → Entry
  | .file _ => .file .empty
  | other => other

/-- Entries that are the same, but for the contents of files, which are related. -/
inductive Entry.Like (R : ByteArray → ByteArray → Prop) : Entry → Entry → Prop where
  | directory : Like R .directory .directory
  | file {a b : ByteArray} (related : R a b) : Like R (.file a) (.file b)
  | link (target : String) : Like R (.link target) (.link target)

/-- Findings that are the same, but for the contents of files, which are related place by place. -/
inductive Found.Like (R : Location → ByteArray → ByteArray → Prop) : Found → Found → Prop where
  | entry (l : Location) {e e' : Entry} (like : e.Like (R l) e') : Like R (.entry l e) (.entry l e')
  | free (l : Location) : Like R (.free l) (.free l)
  | nowhere (fault : Fault) : Like R (.nowhere fault) (.nowhere fault)

namespace FileSystem

/-- The file system with all files emptied. -/
def hollow (fs : FileSystem) : FileSystem :=
  { fs with entries := fs.entries.map fun e => (e.1, e.2.hollow) }

/-- File systems that differ in the contents of files alone, which are related place by place. -/
structure Like (R : Location → ByteArray → ByteArray → Prop) (fs fs' : FileSystem) : Prop where
  hollow : fs.hollow = fs'.hollow
  contents : ∀ {l a b}, fs.entry? l = some (.file a) → fs'.entry? l = some (.file b) → R l a b

theorem entry?_hollow (fs : FileSystem) (l : Location) :
    entry? fs.hollow l = (fs.entry? l).map Entry.hollow := by
  have hmap : ∀ entries : List (Location × Entry),
      (entries.map fun e => (e.1, e.2.hollow)).lookup l = (entries.lookup l).map Entry.hollow := by
    intro entries
    induction entries with
    | nil => rfl
    | cons e entries ih =>
      obtain ⟨k, e⟩ := e
      cases hl : l == k with
      | true => simp [List.lookup_cons, hl]
      | false => simp [List.lookup_cons, hl, ih]
  by_cases hl : l = []
  · simp [hl, entry?, Entry.hollow]
  · simp [hl, entry?, hollow, hmap]

section

variable {R : Location → ByteArray → ByteArray → Prop} {fs fs' : FileSystem}

theorem Like.mono {S : Location → ByteArray → ByteArray → Prop} (h : fs.Like R fs')
    (hcontents : ∀ {l a b}, fs.entry? l = some (.file a) → fs'.entry? l = some (.file b) →
      R l a b → S l a b) : fs.Like S fs' :=
  ⟨h.hollow, fun ha hb => hcontents ha hb (h.contents ha hb)⟩

theorem Like.here (h : fs.Like R fs') : fs.here = fs'.here := by
  change fs.hollow.here = fs'.hollow.here
  rw [h.hollow]

theorem Like.mayDelete (h : fs.Like R fs') : fs.mayDelete = fs'.mayDelete := by
  change fs.hollow.mayDelete = fs'.hollow.mayDelete
  rw [h.hollow]

theorem Like.mayList (h : fs.Like R fs') : fs.mayList = fs'.mayList := by
  change fs.hollow.mayList = fs'.hollow.mayList
  rw [h.hollow]

/-- The entries at a location: both are missing, or they are alike. -/
theorem Like.entry (h : fs.Like R fs') (l : Location) :
    (fs.entry? l = none ∧ fs'.entry? l = none) ∨
      ∃ e e', fs.entry? l = some e ∧ fs'.entry? l = some e' ∧ e.Like (R l) e' := by
  have hentry : (fs.entry? l).map Entry.hollow = (fs'.entry? l).map Entry.hollow := by
    rw [← entry?_hollow, ← entry?_hollow, h.hollow]
  cases he : fs.entry? l with
  | none =>
    rw [he] at hentry
    left
    exact ⟨rfl, Option.map_eq_none_iff.mp hentry.symm⟩
  | some e =>
    rw [he] at hentry
    obtain ⟨e', he', heq⟩ := Option.map_eq_some_iff.mp hentry.symm
    right
    refine ⟨e, e', rfl, he', ?_⟩
    cases e with
    | directory =>
      cases e' with
      | directory => exact .directory
      | _ => cases heq
    | link target =>
      cases e' with
      | link target' =>
        cases heq
        exact .link target
      | _ => cases heq
    | file a =>
      cases e' with
      | file b => exact .file (h.contents he he')
      | _ => cases heq

theorem Like.linkCount (h : fs.Like R fs') : fs.linkCount = fs'.linkCount := by
  have hcount : ∀ gs : FileSystem, gs.hollow.linkCount = gs.linkCount := by
    intro gs
    simp only [FileSystem.linkCount, FileSystem.hollow, List.countP_map]
    apply List.countP_congr
    intro e _
    obtain ⟨l, e⟩ := e
    cases e <;> simp [Entry.hollow]
  rw [← hcount fs, h.hollow, hcount]

/-- The names below a location are the same. -/
theorem Like.below (h : fs.Like R fs') (l : Location) :
    (fs.below l).map Prod.fst = (fs'.below l).map Prod.fst := by
  have hnames :
      ∀ gs : FileSystem, (gs.hollow.below l).map Prod.fst = (gs.below l).map Prod.fst := by
    intro gs
    simp only [FileSystem.below, FileSystem.hollow, List.filterMap_map, List.map_filterMap]
    congr 1
    funext e
    simp only [Function.comp]
    split <;> rfl
  rw [← hnames fs, h.hollow, hnames]

/-- A walk from entries that are alike comes to findings that are alike. -/
theorem Like.walk (h : fs.Like R fs') {followLast : Bool}
    {enter enter' : Location → List String → Found}
    (henter : ∀ l pieces, (enter l pieces).Like R (enter' l pieces)) {l : Location} {e e' : Entry}
    (he : e.Like (R l) e') (pieces : List String) :
    (fs.walk followLast enter l e pieces).Like R (fs'.walk followLast enter' l e' pieces) := by
  induction pieces generalizing l e e' with
  | nil => exact .entry l he
  | cons piece rest ih =>
    cases he with
    | file related => exact .nowhere .notDirectory
    | link target => exact .nowhere .notDirectory
    | directory =>
      simp only [FileSystem.walk, ne_eq, not_true_eq_false, ↓reduceIte]
      split
      · exact ih .directory
      split
      · exact ih .directory
      rcases h.entry (l ++ [piece]) with ⟨hn, hn'⟩ | ⟨f, f', hf, hf', hlike⟩
      · rw [hn, hn']
        dsimp only
        split
        · exact .free _
        · exact .nowhere .missing
      · rw [hf, hf']
        cases hlike with
        | directory => exact ih .directory
        | file related => exact ih (.file related)
        | link target =>
          dsimp only
          split
          · exact .entry _ (.link target)
          · exact henter _ _

theorem Like.walkLinks (h : fs.Like R fs') (followLast : Bool) (n : Nat) (l : Location)
    (pieces : List String) :
    (fs.walkLinks followLast n l pieces).Like R (fs'.walkLinks followLast n l pieces) := by
  induction n generalizing l pieces with
  | zero => exact h.walk (fun _ _ => .nowhere _) .directory pieces
  | succ n ih => exact h.walk ih .directory pieces

/-- A path leads to findings that are alike. -/
theorem Like.lookup (h : fs.Like R fs') (followLast : Bool) (p : Path) :
    (fs.lookup followLast p).Like R (fs'.lookup followLast p) := by
  unfold FileSystem.lookup
  split
  · exact h.walkLinks followLast linkLimit [] p.segments
  · rw [h.here]
    split
    · exact h.walkLinks followLast linkLimit _ p.segments
    · exact .nowhere .missing

theorem Like.isDirectory (h : fs.Like R fs') (p : Path) : fs.isDirectory p = fs'.isDirectory p := by
  unfold FileSystem.isDirectory
  have hlookup := h.lookup true p
  generalize fs.lookup true p = found, fs'.lookup true p = found' at hlookup ⊢
  cases hlookup with
  | entry l like => cases like <;> rfl
  | free l => rfl
  | nowhere fault => rfl

theorem Like.isFile (h : fs.Like R fs') (p : Path) : fs.isFile p = fs'.isFile p := by
  unfold FileSystem.isFile
  have hlookup := h.lookup true p
  generalize fs.lookup true p = found, fs'.lookup true p = found' at hlookup ⊢
  cases hlookup with
  | entry l like => cases like <;> rfl
  | free l => rfl
  | nowhere fault => rfl

/-- Reading fails in the same way or gives contents that are related. -/
theorem Like.read (h : fs.Like R fs') (p : Path) :
    (∃ fault, fs.read p = .error fault ∧ fs'.read p = .error fault) ∨
      ∃ l a b, fs.read p = .ok a ∧ fs'.read p = .ok b ∧ R l a b := by
  unfold FileSystem.read
  have hlookup := h.lookup true p
  generalize fs.lookup true p = found, fs'.lookup true p = found' at hlookup ⊢
  cases hlookup with
  | entry l like =>
    cases like with
    | directory => exact .inl ⟨_, rfl, rfl⟩
    | file related => exact .inr ⟨l, _, _, rfl, rfl, related⟩
    | link target => exact .inl ⟨_, rfl, rfl⟩
  | free l => exact .inl ⟨_, rfl, rfl⟩
  | nowhere fault => exact .inl ⟨_, rfl, rfl⟩

theorem Like.isBlocked (h : fs.Like R fs') (l : Location) : fs.isBlocked l = fs'.isBlocked l := by
  unfold FileSystem.isBlocked
  congr 1
  funext n
  rcases h.entry (l.take n) with ⟨hn, hn'⟩ | ⟨e, e', he, he', like⟩
  · rw [hn, hn']
  · rw [he, he']
    cases like <;> rfl

theorem Like.loopError (h : fs.Like R fs') (r : Reached) : fs.loopError r = fs'.loopError r := by
  unfold FileSystem.loopError
  have hlookup := h.lookup true (Path.at r.location)
  generalize fs.lookup true (Path.at r.location) = found,
    fs'.lookup true (Path.at r.location) = found' at hlookup ⊢
  cases hlookup with
  | entry l like => rfl
  | free l => rfl
  | nowhere fault => rfl

/-- Following a path is the same in both. -/
theorem Like.follow (h : fs.Like R fs') (strict : Bool)
    (enter : List Location → Reached → List String → Followed) (pending : List Location)
    (r : Reached) (pieces : List String) :
    fs.follow strict enter pending r pieces = fs'.follow strict enter pending r pieces := by
  induction pieces generalizing r with
  | nil => rfl
  | cons piece rest ih =>
    simp only [FileSystem.follow, ih, FileSystem.status, h.isBlocked, h.loopError]
    rcases h.entry (r.down piece).location with ⟨hn, hn'⟩ | ⟨e, e', he, he', like⟩
    · rw [hn, hn']
    · rw [he, he']
      cases like <;> rfl

theorem Like.followLinks (h : fs.Like R fs') (strict : Bool) (depth : Nat) :
    fs.followLinks strict depth = fs'.followLinks strict depth := by
  induction depth with
  | zero =>
    funext pending r pieces
    exact h.follow strict _ pending r pieces
  | succ depth ih =>
    funext pending r pieces
    simp only [FileSystem.followLinks, ih]
    exact h.follow strict _ pending r pieces

/-- A path is resolved to the same location. -/
theorem Like.resolve (h : fs.Like R fs') (strict : Bool) (p : Path) :
    fs.resolve strict p = fs'.resolve strict p := by
  have hstart : fs.startOf p = fs'.startOf p := by
    simp only [FileSystem.startOf, h.here]
  simp only [FileSystem.resolve, hstart, h.followLinks, h.linkCount]
  split
  · rfl
  · split
    · rfl
    · rfl
    · rename_i pieces _
      split
      · rfl
      · have hlookup := h.lookup true (Path.at (Segments.collapse pieces))
        generalize fs.lookup true (Path.at (Segments.collapse pieces)) = found,
          fs'.lookup true (Path.at (Segments.collapse pieces)) = found' at hlookup ⊢
        cases hlookup with
        | entry l like => rfl
        | free l => rfl
        | nowhere fault => rfl

theorem hollow_insert (fs : FileSystem) (l : Location) (e : Entry) :
    (fs.insert l e).hollow = fs.hollow.insert l e.hollow := by
  simp only [FileSystem.hollow, FileSystem.insert, List.map_cons, List.filter_map]
  rfl

theorem hollow_erase (fs : FileSystem) (l : Location) :
    (fs.erase l).hollow = fs.hollow.erase l := by
  simp only [FileSystem.hollow, FileSystem.erase, List.filter_map]
  rfl

theorem hollow_clear (fs : FileSystem) (l : Location) :
    (fs.clear l).hollow = fs.hollow.clear l := by
  simp only [FileSystem.hollow, FileSystem.clear, List.filter_map]
  rfl

/-- The root of the file system stays what it is. -/
theorem entry?_insert_root (fs : FileSystem) (e : Entry) (x : Location) :
    entry? (fs.insert [] e) x = fs.entry? x := by
  by_cases hx : x = []
  · simp [hx, entry?]
  · have hfilter := lookup_filter (fun k => decide (k ≠ [])) fs.entries x
    have hne : (x == []) = false := by simpa using hx
    simp only [ne_eq, hx, not_false_eq_true, decide_true, ↓reduceIte] at hfilter
    simp only [FileSystem.insert, entry?, List.isEmpty_iff, hx, ↓reduceIte, List.lookup_cons, hne]
    exact hfilter

theorem Like.insert (h : fs.Like R fs') {l : Location} {e e' : Entry} (he : e.Like (R l) e') :
    (fs.insert l e).Like R (fs'.insert l e') := by
  constructor
  · rw [hollow_insert, hollow_insert, h.hollow]
    cases he <;> rfl
  · intro x a b ha hb
    by_cases hl : l = []
    · rw [hl, entry?_insert_root] at ha hb
      exact h.contents ha hb
    rw [entry?_insert _ hl] at ha hb
    by_cases hx : x = l
    · rw [if_pos hx] at ha hb
      cases ha
      cases hb
      cases he with
      | file related =>
        rw [hx]
        exact related
    · rw [if_neg hx] at ha hb
      exact h.contents ha hb

theorem Like.erase (h : fs.Like R fs') (l : Location) : (fs.erase l).Like R (fs'.erase l) := by
  constructor
  · rw [hollow_erase, hollow_erase, h.hollow]
  · intro x a b ha hb
    exact h.contents (entry?_erase_kept x _ ha) (entry?_erase_kept x _ hb)

theorem Like.clear (h : fs.Like R fs') (l : Location) : (fs.clear l).Like R (fs'.clear l) := by
  constructor
  · rw [hollow_clear, hollow_clear, h.hollow]
  · intro x a b ha hb
    exact h.contents (entry?_clear_kept x _ ha) (entry?_clear_kept x _ hb)

/-- A change fails in both file systems for the same reason, or leaves them alike. -/
inductive Changed (R : Location → ByteArray → ByteArray → Prop) :
    Except Fault FileSystem → Except Fault FileSystem → Prop where
  | ok {fs fs' : FileSystem} (like : fs.Like R fs') : Changed R (.ok fs) (.ok fs')
  | error (fault : Fault) : Changed R (.error fault) (.error fault)

theorem Like.makeDirectory (h : fs.Like R fs') (p : Path) :
    Changed R (fs.makeDirectory p) (fs'.makeDirectory p) := by
  unfold FileSystem.makeDirectory
  have hlookup := h.lookup false p
  generalize fs.lookup false p = found, fs'.lookup false p = found' at hlookup ⊢
  cases hlookup with
  | entry l like => exact .error _
  | free l => exact .ok (h.insert .directory)
  | nowhere fault => exact .error _

theorem Like.makeDirectoriesFrom (h : fs.Like R fs') (anchor : Anchor) (segments : List String) :
    Changed R (fs.makeDirectoriesFrom anchor segments)
      (fs'.makeDirectoriesFrom anchor segments) := by
  induction segments with
  | nil =>
    unfold FileSystem.makeDirectoriesFrom
    rw [h.isDirectory]
    split
    · exact .ok h
    · exact .error _
  | cons last above ih =>
    simp only [FileSystem.makeDirectoriesFrom]
    have hmake := h.makeDirectory ⟨anchor, (last :: above).reverse⟩
    generalize fs.makeDirectory ⟨anchor, (last :: above).reverse⟩ = made,
      fs'.makeDirectory ⟨anchor, (last :: above).reverse⟩ = made' at hmake ⊢
    cases hmake with
    | ok like => exact .ok like
    | error fault =>
      cases fault with
      | missing =>
        generalize fs.makeDirectoriesFrom anchor above = more,
          fs'.makeDirectoriesFrom anchor above = more' at ih ⊢
        cases ih with
        | ok like => exact like.makeDirectory _
        | error fault => exact .error _
      | _ =>
        simp only [h.isDirectory]
        split
        · exact .ok h
        · exact .error _

theorem Like.makeDirectories (h : fs.Like R fs') (p : Path) :
    Changed R (fs.makeDirectories p) (fs'.makeDirectories p) :=
  h.makeDirectoriesFrom p.anchor p.segments.reverse

theorem Like.clearDirectory (h : fs.Like R fs') (p : Path) :
    Changed R (fs.clearDirectory p) (fs'.clearDirectory p) := by
  unfold FileSystem.clearDirectory
  rw [h.mayDelete]
  split
  · exact .error _
  have hlookup := h.lookup false p
  generalize fs.lookup false p = found, fs'.lookup false p = found' at hlookup ⊢
  cases hlookup with
  | entry l like =>
    cases like with
    | directory => exact .ok (h.clear l)
    | file related => exact .error _
    | link target => exact .error _
  | free l => exact .error _
  | nowhere fault => exact .error _

theorem Like.removeDirectory (h : fs.Like R fs') (p : Path) :
    Changed R (fs.removeDirectory p) (fs'.removeDirectory p) := by
  have hempty : ∀ l, (fs.below l).isEmpty = (fs'.below l).isEmpty := by
    intro l
    rw [← List.isEmpty_map (f := Prod.fst), h.below, List.isEmpty_map]
  unfold FileSystem.removeDirectory
  have hlookup := h.lookup false p
  generalize fs.lookup false p = found, fs'.lookup false p = found' at hlookup ⊢
  cases hlookup with
  | entry l like =>
    cases like with
    | directory =>
      simp only [hempty]
      split
      · exact .ok (h.erase l)
      · exact .error _
    | file related => exact .error _
    | link target => exact .error _
  | free l => exact .error _
  | nowhere fault => exact .error _

/-- The same contents may be written anywhere. -/
theorem Like.write (h : fs.Like R fs') (hrefl : ∀ l a, R l a a) (p : Path) (content : ByteArray) :
    Changed R (fs.write p content) (fs'.write p content) := by
  unfold FileSystem.write
  have hlookup := h.lookup true p
  generalize fs.lookup true p = found, fs'.lookup true p = found' at hlookup ⊢
  cases hlookup with
  | entry l like =>
    cases like with
    | directory => exact .error _
    | file related => exact .ok (h.insert (.file (hrefl l content)))
    | link target => exact .error _
  | free l => exact .ok (h.insert (.file (hrefl l content)))
  | nowhere fault => exact .error _

end

end FileSystem

end PhpPages
