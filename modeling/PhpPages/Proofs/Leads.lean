import PhpPages.FileSystem.Resolve
import PhpPages.Proofs.WellFormed

/-!
Where a path leads when every link in it is followed, said without a bound: a finite derivation that
records the links it goes through. Following a path step by step finds exactly these derivations.
-/

namespace PhpPages.FileSystem

open Text

/-- From one location the pieces lead to another, through the links listed. Strictly, every name on
the way stands; otherwise what does not exist is passed as if it were a directory. -/
inductive Leads (fs : FileSystem) (strict : Bool) :
    Location → List String → Location → List Location → Prop where
  | done (l : Location) : Leads fs strict l [] l []
  | stay {l m : Location} {piece : String} {ps : List String} {us : List Location}
      (dropped : Segments.isDropped piece = true) (rest : Leads fs strict l ps m us) :
      Leads fs strict l (piece :: ps) m us
  | up {l m : Location} {ps : List String} {us : List Location}
      (rest : Leads fs strict l.dropLast ps m us) : Leads fs strict l (".." :: ps) m us
  | name {l m : Location} {piece : String} {ps : List String} {us : List Location}
      (named : IsName piece) (plain : fs.linkAt? (l ++ [piece]) = none)
      (stands : strict = true → fs.Stands (l ++ [piece]))
      (rest : Leads fs strict (l ++ [piece]) ps m us) : Leads fs strict l (piece :: ps) m us
  | link {l k m : Location} {piece target : String} {ps : List String} {us vs : List Location}
      (named : IsName piece) (found : fs.linkAt? (l ++ [piece]) = some target)
      (inner : Leads fs strict (targetStart l target) (pieces '/' target) k us)
      (rest : Leads fs strict k ps m vs) :
      Leads fs strict l (piece :: ps) m ((l ++ [piece]) :: (us ++ vs))

theorem isDropped_up : Segments.isDropped ".." = false := by decide

/-- A start and its pieces determine the end and the links on the way. -/
theorem Leads.unique {fs : FileSystem} {strict strict' : Bool} {l m m' : Location}
    {ps : List String} {us us' : List Location} (h : Leads fs strict l ps m us)
    (h' : Leads fs strict' l ps m' us') : m = m' ∧ us = us' := by
  induction h generalizing m' us' with
  | done l => cases h'; exact ⟨rfl, rfl⟩
  | stay hd _ ih =>
    cases h' with
    | stay _ rest => exact ih rest
    | up _ => simp [isDropped_up] at hd
    | name hn => simp [hn.notDropped] at hd
    | link hn => simp [hn.notDropped] at hd
  | up _ ih =>
    cases h' with
    | stay hd => simp [isDropped_up] at hd
    | up rest => exact ih rest
    | name hn => exact absurd rfl hn.notUp
    | link hn => exact absurd rfl hn.notUp
  | name hn he _ _ ih =>
    cases h' with
    | stay hd => simp [hn.notDropped] at hd
    | up _ => exact absurd rfl hn.notUp
    | name _ _ _ rest => exact ih rest
    | link _ he' => simp [he] at he'
  | link hn he _ _ ihi ihr =>
    cases h' with
    | stay hd => simp [hn.notDropped] at hd
    | up _ => exact absurd rfl hn.notUp
    | name _ he' => simp [he] at he'
    | link _ he' inner rest =>
      have ht := Option.some.inj (he.symm.trans he')
      subst ht
      obtain ⟨rfl, rfl⟩ := ihi inner
      obtain ⟨rfl, rfl⟩ := ihr rest
      exact ⟨rfl, rfl⟩

theorem Leads.append {fs : FileSystem} {strict : Bool} {l k m : Location} {ps qs : List String}
    {us vs : List Location} (h : Leads fs strict l ps k us) (h' : Leads fs strict k qs m vs) :
    Leads fs strict l (ps ++ qs) m (us ++ vs) := by
  induction h with
  | done l => exact h'
  | stay hd _ ih => exact .stay hd (ih h')
  | up _ ih => exact .up (ih h')
  | name hn he hs _ ih => exact .name hn he hs (ih h')
  | link hn he inner _ _ ih =>
    have hr := Leads.link hn he inner (ih h')
    simpa using hr

theorem Leads.split {fs : FileSystem} {strict : Bool} {l m : Location} {ps qs : List String}
    {ws : List Location} (h : Leads fs strict l (ps ++ qs) m ws) :
    ∃ k us vs, Leads fs strict l ps k us ∧ Leads fs strict k qs m vs ∧ ws = us ++ vs := by
  induction ps generalizing l ws with
  | nil => exact ⟨l, [], ws, .done l, h, rfl⟩
  | cons p ps ih =>
    cases h with
    | stay hd rest =>
      obtain ⟨k, us, vs, hp, hq, he⟩ := ih rest
      exact ⟨k, us, vs, .stay hd hp, hq, he⟩
    | up rest =>
      obtain ⟨k, us, vs, hp, hq, he⟩ := ih rest
      exact ⟨k, us, vs, .up hp, hq, he⟩
    | name hn hl hs rest =>
      obtain ⟨k, us, vs, hp, hq, he⟩ := ih rest
      exact ⟨k, us, vs, .name hn hl hs hp, hq, he⟩
    | link hn hl inner rest =>
      obtain ⟨k, us, vs, hp, hq, he⟩ := ih rest
      exact ⟨k, _, vs, .link hn hl inner hp, hq, by simp [he]⟩

/-- The links on the way are links, and each is left again on a shorter way. -/
theorem Leads.entered {fs : FileSystem} {strict : Bool} {l m : Location} {ps : List String}
    {us : List Location} (h : Leads fs strict l ps m us) {x : Location} (hx : x ∈ us) :
    ∃ target k ws, fs.linkAt? x = some target ∧
      Leads fs strict (targetStart x.dropLast target) (pieces '/' target) k ws ∧
      ws.length < us.length := by
  induction h with
  | done l => simp at hx
  | stay _ _ ih => exact ih hx
  | up _ ih => exact ih hx
  | name _ _ _ _ ih => exact ih hx
  | @link l k m piece target ps us vs hn he inner rest ihi ihr =>
    rcases List.mem_cons.mp hx with rfl | hx
    · refine ⟨target, k, us, he, by simpa using inner, ?_⟩
      simp only [List.length_cons, List.length_append]
      omega
    · rcases List.mem_append.mp hx with hx | hx
      · obtain ⟨t, j, ws, ht, hl, hlt⟩ := ihi hx
        refine ⟨t, j, ws, ht, hl, ?_⟩
        simp only [List.length_cons, List.length_append]
        omega
      · obtain ⟨t, j, ws, ht, hl, hlt⟩ := ihr hx
        refine ⟨t, j, ws, ht, hl, ?_⟩
        simp only [List.length_cons, List.length_append]
        omega

/-- A link is not entered again while its target is followed: the way from the target would be
shorter than itself. -/
theorem Leads.not_entered {fs : FileSystem} {strict : Bool} {x k : Location} {target : String}
    {us : List Location} (he : fs.linkAt? x = some target)
    (h : Leads fs strict (targetStart x.dropLast target) (pieces '/' target) k us) : x ∉ us := by
  intro hx
  obtain ⟨t, j, ws, ht, hl, hlt⟩ := h.entered hx
  have htt := Option.some.inj (he.symm.trans ht)
  subst htt
  obtain ⟨_, hw⟩ := h.unique hl
  rw [hw] at hlt
  omega

theorem targetStart_eq (l : Location) (target : String) :
    targetStart l target = [] ∨ targetStart l target = l := by
  unfold targetStart
  split
  · exact .inl rfl
  · exact .inr rfl

/-- What holds of a place holds of every place that a path from there leads to, if the root has it,
each directory above has it and each name that is entered. `Q` is what has to be known of the
pieces for that. -/
theorem Leads.preserves {fs : FileSystem} {strict : Bool} {P : Location → Prop} {Q : String → Prop}
    {l m : Location} {ps : List String} {us : List Location} (h : Leads fs strict l ps m us)
    (root : P []) (up : ∀ l, P l → P l.dropLast)
    (name : ∀ l piece, Q piece → IsName piece → fs.linkAt? (l ++ [piece]) = none →
      (strict = true → fs.Stands (l ++ [piece])) → P l → P (l ++ [piece]))
    (target : ∀ x target, fs.linkAt? x = some target → ∀ p ∈ pieces '/' target, Q p)
    (hps : ∀ p ∈ ps, Q p) (hl : P l) : P m := by
  induction h with
  | done => exact hl
  | stay _ _ ih => exact ih (fun p hp => hps p (List.mem_cons_of_mem _ hp)) hl
  | up _ ih => exact ih (fun p hp => hps p (List.mem_cons_of_mem _ hp)) (up _ hl)
  | name named plain stands _ ih =>
    apply ih fun p hp => hps p (List.mem_cons_of_mem _ hp)
    exact name _ _ (hps _ List.mem_cons_self) named plain stands hl
  | @link l _ _ _ t _ _ _ _ found _ _ ihi ihr =>
    apply ihr fun p hp => hps p (List.mem_cons_of_mem _ hp)
    apply ihi (target _ _ found)
    rcases targetStart_eq l t with h | h <;> rw [h]
    · exact root
    · exact hl

/-- A path from a place without links ends at one. -/
theorem Leads.linkFree {fs : FileSystem} {strict : Bool} {l m : Location} {ps : List String}
    {us : List Location} (h : Leads fs strict l ps m us) (hl : fs.LinkFree l) : fs.LinkFree m := by
  apply h.preserves (Q := fun _ => True) fs.linkFree_nil
  · exact fun l hl => hl.mono (List.dropLast_prefix l)
  · exact fun l piece _ _ plain _ hl => hl.snoc plain
  · simp
  · simp
  · exact hl

theorem Leads.names {fs : FileSystem} {strict : Bool} {l m : Location} {ps : List String}
    {us : List Location} (h : Leads fs strict l ps m us) (hl : ∀ n ∈ l, IsName n) :
    ∀ n ∈ m, IsName n := by
  apply h.preserves (P := fun l => ∀ n ∈ l, IsName n) (Q := fun _ => True) (by simp)
  · exact fun l hl n hn => hl n ((List.dropLast_prefix l).subset hn)
  · exact fun l piece _ named _ _ hl => forall_mem_snoc hl named
  · simp
  · simp
  · exact hl

/-- What stands at the end of a strict path that starts at something that stands. -/
theorem Leads.stands {fs : FileSystem} (hw : fs.WellFormed) {l m : Location} {ps : List String}
    {us : List Location} (h : Leads fs true l ps m us) (hl : fs.Stands l) : fs.Stands m := by
  apply h.preserves (Q := fun _ => True) (stands_directory fs.entry?_nil)
  · exact fun l hl => hl.mono hw (List.dropLast_prefix l)
  · exact fun l piece _ _ _ stands _ => stands rfl
  · simp
  · simp
  · exact hl

/-- A strict path leads to the same place when nothing has to stand. -/
theorem Leads.relax {fs : FileSystem} {l m : Location} {ps : List String} {us : List Location}
    (h : Leads fs true l ps m us) (strict : Bool) : Leads fs strict l ps m us := by
  induction h with
  | done l => exact .done l
  | stay hd _ ih => exact .stay hd ih
  | up _ ih => exact .up ih
  | name hn he hs _ ih => exact .name hn he (fun _ => hs rfl) ih
  | link hn he _ _ ihi ihr => exact .link hn he ihi ihr

/-- A path without links leads to where it is written. -/
theorem LinkFree.leads {fs : FileSystem} {strict : Bool} {l rest : Location}
    (h : fs.LinkFree (l ++ rest)) (hn : ∀ n ∈ rest, IsName n)
    (hs : strict = true → ∀ k, k <+: l ++ rest → fs.Stands k) :
    Leads fs strict l rest (l ++ rest) [] := by
  induction rest generalizing l with
  | nil => simpa using Leads.done l
  | cons n rest ih =>
    have he : l ++ n :: rest = l ++ [n] ++ rest := by simp
    rw [he] at h hs ⊢
    have hp : l ++ [n] <+: l ++ [n] ++ rest := List.prefix_append _ _
    exact .name (hn n (by simp)) (h _ hp) (fun hstrict => hs hstrict _ hp)
      (ih h (fun k hk => hn k (List.mem_cons_of_mem _ hk)) hs)

/-- The path to what stands is strict. -/
theorem Stands.leads {fs : FileSystem} (hw : fs.WellFormed) {l : Location} (h : fs.Stands l) :
    Leads fs true [] l l [] :=
  LinkFree.leads (l := []) (h.linkFree hw) (h.names hw) fun _ _ hk => h.mono hw hk

end PhpPages.FileSystem
