import PhpPages.Proofs.Resolution

namespace PhpPages

/-- Where a lookup came to, and what stands there. -/
def Found.place? : Found → Option (Location × Option Entry)
  | entry l e => some (l, some e)
  | free l => some (l, none)
  | nowhere _ => none

namespace FileSystem

open Text

/-- From a directory the pieces lead to a place through directories that exist and at most `n`
links. Nothing needs to stand at the place itself. A link at the end is followed only with
`followLast`. -/
inductive Arrives (fs : FileSystem) (followLast : Bool) :
    Nat → Location → List String → Location → Prop where
  | done (n : Nat) (l : Location) : Arrives fs followLast n l [] l
  | stay {n : Nat} {l m : Location} {piece : String} {ps : List String}
      (dropped : Segments.isDropped piece = true) (rest : Arrives fs followLast n l ps m) :
      Arrives fs followLast n l (piece :: ps) m
  | up {n : Nat} {l m : Location} {ps : List String}
      (rest : Arrives fs followLast n l.dropLast ps m) : Arrives fs followLast n l (".." :: ps) m
  | down {n : Nat} {l m : Location} {piece : String} {ps : List String}
      (kept : Segments.isDropped piece = false) (notUp : piece ≠ "..")
      (found : fs.entry? (l ++ [piece]) = some .directory)
      (rest : Arrives fs followLast n (l ++ [piece]) ps m) :
      Arrives fs followLast n l (piece :: ps) m
  | last {l : Location} {piece : String} (n : Nat) (kept : Segments.isDropped piece = false)
      (notUp : piece ≠ "..") (plain : fs.linkAt? (l ++ [piece]) = none) :
      Arrives fs followLast n l [piece] (l ++ [piece])
  | link {n : Nat} {l m : Location} {piece target : String} {ps : List String}
      (kept : Segments.isDropped piece = false) (notUp : piece ≠ "..")
      (found : fs.linkAt? (l ++ [piece]) = some target) (followed : followLast = true ∨ ps ≠ [])
      (rest : Arrives fs followLast n (targetStart l target) (pieces '/' target ++ ps) m) :
      Arrives fs followLast (n + 1) l (piece :: ps) m

theorem targetStart_directory {fs : FileSystem} {l : Location} (hl : fs.entry? l = some .directory)
    (target : String) : fs.entry? (targetStart l target) = some .directory := by
  rcases targetStart_eq l target with h | h <;> rw [h]
  · exact fs.entry?_nil
  · exact hl

section

variable {fs : FileSystem} {followLast : Bool} {enter : Location → List String → Found}
  {l : Location} {piece : String} {rest : List String}

theorem walk_stay (hd : Segments.isDropped piece = true) :
    walk fs followLast enter l .directory (piece :: rest) =
      walk fs followLast enter l .directory rest := by
  rw [walk, if_neg (by simp)]
  exact if_pos hd

theorem walk_up :
    walk fs followLast enter l .directory (".." :: rest) =
      walk fs followLast enter l.dropLast .directory rest := by
  rw [walk, if_neg (by simp), if_neg (by decide), if_pos rfl]

/-- The step to a name, by what stands there. -/
theorem walk_named (hd : Segments.isDropped piece = false) (hu : piece ≠ "..") :
    walk fs followLast enter l .directory (piece :: rest) =
      match fs.entry? (l ++ [piece]) with
      | none => if rest.isEmpty then .free (l ++ [piece]) else .nowhere .missing
      | some (.link target) =>
        if rest.isEmpty && !followLast then .entry (l ++ [piece]) (.link target)
        else enter (targetStart l target) (pieces '/' target ++ rest)
      | some other => walk fs followLast enter (l ++ [piece]) other rest := by
  have hd' : ¬ (piece.isEmpty || piece == ".") = true := by
    simp only [Segments.isDropped] at hd
    simp [hd]
  rw [walk, if_neg (by simp), if_neg hd']
  exact if_neg hu

/-- A walk that comes to a place arrives there. -/
theorem walk_arrives (hw : fs.WellFormed) {n : Nat} {m : Location} {o : Option Entry}
    (henter : ∀ l ps m o, fs.entry? l = some .directory → (enter l ps).place? = some (m, o) →
      (∀ t, o ≠ some (.link t)) → ∃ k, n = k + 1 ∧ Arrives fs followLast k l ps m ∧ fs.entry? m = o)
    {ps : List String} (hl : fs.entry? l = some .directory)
    (h : (walk fs followLast enter l .directory ps).place? = some (m, o))
    (ho : ∀ t, o ≠ some (.link t)) : Arrives fs followLast n l ps m ∧ fs.entry? m = o := by
  induction ps generalizing l with
  | nil =>
    simp only [walk, Found.place?, Option.some.injEq, Prod.mk.injEq] at h
    obtain ⟨rfl, rfl⟩ := h
    exact ⟨.done n l, hl⟩
  | cons piece ps ih =>
    by_cases hd : Segments.isDropped piece = true
    · rw [walk_stay hd] at h
      obtain ⟨ha, he⟩ := ih hl h
      exact ⟨.stay hd ha, he⟩
    have hd : Segments.isDropped piece = false := by simpa using hd
    by_cases hu : piece = ".."
    · subst hu
      rw [walk_up] at h
      have hup : fs.entry? l.dropLast = some .directory := hw.dropLast hl
      obtain ⟨ha, he⟩ := ih hup h
      exact ⟨.up ha, he⟩
    rw [walk_named hd hu] at h
    cases hn : fs.entry? (l ++ [piece]) with
    | none =>
      simp only [hn] at h
      split at h
      · rename_i hr
        simp only [Found.place?, Option.some.injEq, Prod.mk.injEq] at h
        obtain ⟨rfl, rfl⟩ := h
        rw [List.isEmpty_iff.mp hr]
        exact ⟨.last n hd hu (by simp [linkAt?, hn]), hn⟩
      · simp [Found.place?] at h
    | some e =>
      cases e with
      | directory =>
        simp only [hn] at h
        obtain ⟨ha, he⟩ := ih hn h
        exact ⟨.down hd hu hn ha, he⟩
      | file content =>
        simp only [hn] at h
        cases ps with
        | nil =>
          simp only [walk, Found.place?, Option.some.injEq, Prod.mk.injEq] at h
          obtain ⟨rfl, rfl⟩ := h
          exact ⟨.last n hd hu (linkAt?_of_entry hn (by simp)), hn⟩
        | cons => simp [walk, Found.place?] at h
      | link target =>
        simp only [hn] at h
        split at h
        · simp only [Found.place?, Option.some.injEq, Prod.mk.injEq] at h
          exact absurd h.2.symm (ho target)
        · rename_i hfollow
          obtain ⟨k, rfl, ha, he⟩ := henter _ _ _ _ (targetStart_directory hl target) h ho
          refine ⟨.link hd hu (linkAt?_eq_some.mpr hn) ?_ ha, he⟩
          cases followLast with
          | true => exact .inl rfl
          | false => exact .inr (by simpa using hfollow)

end

theorem walkLinks_arrives {fs : FileSystem} {followLast : Bool} (hw : fs.WellFormed) {n : Nat}
    {l m : Location} {o : Option Entry} {ps : List String} (hl : fs.entry? l = some .directory)
    (h : (walkLinks fs followLast n l ps).place? = some (m, o)) (ho : ∀ t, o ≠ some (.link t)) :
    Arrives fs followLast n l ps m ∧ fs.entry? m = o := by
  induction n generalizing l m o ps with
  | zero => exact walk_arrives hw (by simp [Found.place?]) hl h ho
  | succ n ih => exact walk_arrives hw (fun l ps m o hl h ho => ⟨n, rfl, ih hl h ho⟩) hl h ho

theorem Arrives.walkLinks {fs : FileSystem} {followLast : Bool} (hw : fs.WellFormed) {n : Nat}
    {l m : Location} {ps : List String} (h : Arrives fs followLast n l ps m)
    (hl : fs.entry? l = some .directory) :
    (FileSystem.walkLinks fs followLast n l ps).place? = some (m, fs.entry? m) := by
  have hstep : ∀ n, ∃ enter, FileSystem.walkLinks fs followLast n =
      fun l ps => walk fs followLast enter l .directory ps := by
    intro n
    cases n with
    | zero => exact ⟨_, rfl⟩
    | succ n => exact ⟨_, rfl⟩
  induction h with
  | done n l =>
    obtain ⟨enter, he⟩ := hstep n
    rw [he, hl]
    rfl
  | @stay n _ _ _ _ hd _ ih =>
    obtain ⟨enter, he⟩ := hstep n
    rw [← ih hl, he]
    simp only [walk_stay hd]
  | @up n _ _ _ _ ih =>
    obtain ⟨enter, he⟩ := hstep n
    rw [← ih (hw.dropLast hl), he]
    simp only [walk_up]
  | @down n _ _ _ _ hd hu found _ ih =>
    obtain ⟨enter, he⟩ := hstep n
    rw [← ih found, he]
    simp only [walk_named hd hu, found]
  | @last l piece n hd hu plain =>
    obtain ⟨enter, he⟩ := hstep n
    rw [he]
    simp only [walk_named hd hu]
    cases hn : fs.entry? (l ++ [piece]) with
    | none => rfl
    | some e =>
      cases e with
      | directory => rfl
      | file content => rfl
      | link target => simp [linkAt?_eq_some.mpr hn] at plain
  | @link n l m piece target ps hd hu found followed _ ih =>
    rw [← ih (targetStart_directory hl target)]
    change (walk fs followLast (FileSystem.walkLinks fs followLast n) l .directory
      (piece :: ps)).place? = _
    rw [walk_named hd hu, linkAt?_eq_some.mp found]
    have hfollow : (ps.isEmpty && !followLast) = false := by
      rcases followed with h | h <;> simp [h]
    simp only [hfollow, Bool.false_eq_true, ↓reduceIte]

/-- Arriving is being led there, strictly if something stands at the place. -/
theorem Arrives.leads {fs : FileSystem} {followLast strict : Bool} (hw : fs.WellFormed) {n : Nat}
    {l m : Location} {ps : List String} (h : Arrives fs followLast n l ps m)
    (hps : ∀ p ∈ ps, '/' ∉ p.toList ∧ '\x00' ∉ p.toList) (hm : strict = true → fs.Stands m) :
    ∃ us, Leads fs strict l ps m us := by
  induction h with
  | done n l => exact ⟨_, .done l⟩
  | stay hd _ ih =>
    obtain ⟨us, hl⟩ := ih (fun p hp => hps p (by simp [hp])) hm
    exact ⟨us, .stay hd hl⟩
  | up _ ih =>
    obtain ⟨us, hl⟩ := ih (fun p hp => hps p (by simp [hp])) hm
    exact ⟨us, .up hl⟩
  | @down _ _ _ piece _ hd hu found _ ih =>
    obtain ⟨us, hl⟩ := ih (fun p hp => hps p (by simp [hp])) hm
    obtain ⟨hs, hz⟩ := hps piece (by simp)
    exact ⟨us, .name ⟨hd, hu, hs, hz⟩ (linkAt?_directory found)
      (fun _ => stands_directory found) hl⟩
  | @last _ piece _ hd hu plain =>
    obtain ⟨hs, hz⟩ := hps piece (by simp)
    exact ⟨_, .name ⟨hd, hu, hs, hz⟩ plain hm (.done _)⟩
  | @link _ _ _ piece target ps hd hu found _ _ ih =>
    have hclean : ∀ p ∈ pieces '/' target ++ ps, '/' ∉ p.toList ∧ '\x00' ∉ p.toList := by
      intro p hp
      rcases List.mem_append.mp hp with hp | hp
      · obtain ⟨hs, hm⟩ := mem_pieces hp
        exact ⟨hs, fun h => hw.target (linkAt?_eq_some.mp found) (hm _ h)⟩
      · exact hps p (by simp [hp])
    -- A lookup walks the target and the rest in one go, a derivation takes the target by itself.
    obtain ⟨us, hl⟩ := ih hclean hm
    obtain ⟨k, vs, ws, hin, hrest, _⟩ := hl.split
    obtain ⟨hs, hz⟩ := hps piece (by simp)
    exact ⟨_, .link ⟨hd, hu, hs, hz⟩ found hin hrest⟩

theorem Arrives.followLast {fs : FileSystem} {n : Nat} {l m : Location} {ps : List String}
    (h : Arrives fs false n l ps m) : Arrives fs true n l ps m := by
  induction h with
  | done n l => exact .done n l
  | stay hd _ ih => exact .stay hd ih
  | up _ ih => exact .up ih
  | down hd hu found _ ih => exact .down hd hu found ih
  | last n hd hu plain => exact .last n hd hu plain
  | link hd hu found _ _ ih => exact .link hd hu found (.inl rfl) ih

/-- As long as directories and links stay, a path is not diverted, unless a link is
put at its end. -/
theorem Arrives.mono {fs fs' : FileSystem} {followLast : Bool} {n : Nat} {l m : Location}
    {ps : List String} (h : Arrives fs followLast n l ps m)
    (hsub : ∀ x e, (∀ content, e ≠ .file content) → fs.entry? x = some e → fs'.entry? x = some e)
    (hm : fs'.linkAt? m = none) : Arrives fs' followLast n l ps m := by
  induction h with
  | done n l => exact .done n l
  | stay hd _ ih => exact .stay hd (ih hm)
  | up _ ih => exact .up (ih hm)
  | down hd hu found _ ih => exact .down hd hu (hsub _ _ (by simp) found) (ih hm)
  | last n hd hu _ => exact .last n hd hu hm
  | link hd hu found hf _ ih =>
    exact .link hd hu (linkAt?_eq_some.mpr (hsub _ _ (by simp) (linkAt?_eq_some.mp found))) hf
      (ih hm)

/-- The front of a path leads to a directory, and the rest leads on from there. -/
theorem Arrives.split {fs : FileSystem} {followLast : Bool} {n : Nat} {l m : Location}
    {ps qs : List String} (hw : fs.WellFormed) (hl : fs.entry? l = some .directory) (hq : qs ≠ [])
    (h : Arrives fs followLast n l (ps ++ qs) m) :
    ∃ k n', Arrives fs true n l ps k ∧ fs.entry? k = some .directory ∧
      Arrives fs followLast n' k qs m := by
  generalize hrs : ps ++ qs = rs at h
  induction h generalizing ps with
  | done n l =>
    have := List.append_eq_nil_iff.mp hrs
    exact absurd this.2 hq
  | @stay n l m piece rs hd rest ih =>
    cases ps with
    | nil => exact ⟨l, n, .done n l, hl, by simpa [← hrs] using Arrives.stay hd rest⟩
    | cons p ps =>
      simp only [List.cons_append, List.cons.injEq] at hrs
      obtain ⟨k, n', ha, hk⟩ := ih hl hrs.2
      exact ⟨k, n', hrs.1 ▸ .stay hd ha, hk⟩
  | @up n l m rs rest ih =>
    cases ps with
    | nil => exact ⟨l, n, .done n l, hl, by simpa [← hrs] using Arrives.up rest⟩
    | cons p ps =>
      simp only [List.cons_append, List.cons.injEq] at hrs
      obtain ⟨k, n', ha, hk⟩ := ih (hw.dropLast hl) hrs.2
      exact ⟨k, n', hrs.1 ▸ .up ha, hk⟩
  | @down n l m piece rs hd hu found rest ih =>
    cases ps with
    | nil => exact ⟨l, n, .done n l, hl, by simpa [← hrs] using Arrives.down hd hu found rest⟩
    | cons p ps =>
      simp only [List.cons_append, List.cons.injEq] at hrs
      obtain ⟨k, n', ha, hk⟩ := ih found hrs.2
      exact ⟨k, n', hrs.1 ▸ .down hd hu found ha, hk⟩
  | @last l piece n hd hu plain =>
    cases ps with
    | nil => exact ⟨l, n, .done n l, hl, by simpa [← hrs] using Arrives.last n hd hu plain⟩
    | cons p ps =>
      simp only [List.cons_append, List.cons.injEq, List.append_eq_nil_iff] at hrs
      exact absurd hrs.2.2 hq
  | @link n l m piece target rs hd hu found followed rest ih =>
    cases ps with
    | nil =>
      exact ⟨l, n + 1, .done _ l, hl, by simpa [← hrs] using Arrives.link hd hu found followed rest⟩
    | cons p ps =>
      simp only [List.cons_append, List.cons.injEq] at hrs
      obtain ⟨k, n', ha, hk⟩ := ih (targetStart_directory hl target)
        (by rw [← hrs.2, List.append_assoc] : (pieces '/' target ++ ps) ++ qs = _)
      exact ⟨k, n', hrs.1 ▸ .link hd hu found (.inl rfl) ha, hk⟩

/-- A path whose last link is not followed ends in the directory that its parent leads to. -/
theorem Arrives.parent {fs : FileSystem} {n : Nat} {l m : Location} {ps : List String}
    {name : String} (hw : fs.WellFormed) (hl : fs.entry? l = some .directory) (hn : IsName name)
    (h : Arrives fs false n l (ps ++ [name]) m) :
    ∃ k, Arrives fs true n l ps k ∧ fs.entry? k = some .directory ∧ m = k ++ [name] := by
  obtain ⟨k, n', ha, hk, hlast⟩ := h.split hw hl (by simp)
  refine ⟨k, ha, hk, ?_⟩
  cases hlast with
  | stay hd => simp [hn.notDropped] at hd
  | up => exact absurd rfl hn.notUp
  | down _ _ _ rest => cases rest; rfl
  | last => rfl
  | link _ _ _ followed =>
    rcases followed with h | h
    · cases h
    · exact absurd rfl h

theorem lookup_eq (fs : FileSystem) (followLast : Bool) (p : Path) : fs.lookup followLast p =
    match fs.startOf p with
    | some start => fs.walkLinks followLast linkLimit start.location p.segments
    | none => .nowhere .missing := by
  unfold lookup startOf
  split
  · rfl
  · cases fs.here <;> rfl

theorem lookup_arrives {fs : FileSystem} (hw : fs.WellFormed) {followLast : Bool} {p : Path}
    {m : Location} {o : Option Entry} (h : (fs.lookup followLast p).place? = some (m, o))
    (ho : ∀ t, o ≠ some (.link t)) :
    ∃ start, fs.startOf p = some start ∧
      Arrives fs followLast linkLimit start.location p.segments m ∧ fs.entry? m = o := by
  rw [lookup_eq] at h
  cases hs : fs.startOf p with
  | none => simp [hs, Found.place?] at h
  | some start =>
    simp only [hs] at h
    exact ⟨start, rfl, walkLinks_arrives hw (startOf_directory hw hs) h ho⟩

theorem Arrives.lookup {fs : FileSystem} (hw : fs.WellFormed) {followLast : Bool} {p : Path}
    {m : Location} {start : Reached} (hs : fs.startOf p = some start)
    (h : Arrives fs followLast linkLimit start.location p.segments m) :
    (fs.lookup followLast p).place? = some (m, fs.entry? m) := by
  rw [lookup_eq, hs]
  exact h.walkLinks hw (startOf_directory hw hs)

/-- A lookup comes to the place that the path denotes. -/
theorem lookup_denotes {fs : FileSystem} (hw : fs.WellFormed) {followLast : Bool} {p : Path}
    {m : Location} {o : Option Entry} (hp : ∀ s ∈ p.segments, '/' ∉ s.toList ∧ '\x00' ∉ s.toList)
    (h : (fs.lookup followLast p).place? = some (m, o)) (ho : ∀ t, o ≠ some (.link t)) :
    fs.Denotes p m ∧ fs.entry? m = o := by
  obtain ⟨start, hs, ha, he⟩ := lookup_arrives hw h ho
  obtain ⟨us, hl⟩ : ∃ us, Leads fs false start.location p.segments m us := ha.leads hw hp (by simp)
  exact ⟨⟨start, us, hs, hl⟩, he⟩

end FileSystem

end PhpPages
