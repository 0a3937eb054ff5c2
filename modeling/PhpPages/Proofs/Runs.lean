import PhpPages.Site.Generate

namespace PhpPages

theorem ok_of_toOption {ε α : Type} {x : Except ε α} {a : α} (h : x.toOption = some a) :
    x = .ok a := by
  cases x with
  | error e => simp [Except.toOption] at h
  | ok b => simpa [Except.toOption] using h

theorem error_of_toOption {ε α : Type} {x : Except ε α} (h : x.toOption.isNone = true) :
    ∃ e, x = .error e := by
  cases x with
  | error e => exact ⟨e, rfl⟩
  | ok a => simp [Except.toOption] at h

theorem exists_of_toOption {ε α β : Type} {x : Except ε α} {f : α → β} {b : β}
    (h : x.toOption.map f = some b) : ∃ a, x = .ok a ∧ f a = b := by
  obtain ⟨a, ha, hf⟩ := Option.map_eq_some_iff.mp h
  exact ⟨a, ok_of_toOption ha, hf⟩

theorem bind_eq_ok {ε α β : Type} {x : Except ε α} {f : α → Except ε β} {b : β} :
    (x >>= f) = .ok b ↔ ∃ a, x = .ok a ∧ f a = .ok b := by
  cases x with
  | error e => simp [bind, Except.bind]
  | ok a => simp [bind, Except.bind]

theorem mapError_eq_ok {ε ε' α : Type} {x : Except ε α} {f : ε → ε'} {a : α} :
    x.mapError f = .ok a ↔ x = .ok a := by
  cases x with
  | error e =>
    constructor
    · intro h
      cases h
    · intro h
      cases h
  | ok b =>
    constructor
    · intro h
      cases h
      rfl
    · intro h
      cases h
      rfl

theorem mem_of_mapM_ok {ε α β : Type} {f : α → Except ε β} {l : List α} {r : List β}
    (h : l.mapM f = .ok r) : ∀ b ∈ r, ∃ a ∈ l, f a = .ok b := by
  induction l generalizing r with
  | nil =>
    simp only [List.mapM_nil, pure, Except.pure, Except.ok.injEq] at h
    simp [← h]
  | cons a l ih =>
    simp only [List.mapM_cons, bind_eq_ok, pure, Except.pure, Except.ok.injEq] at h
    obtain ⟨b, hb, bs, hbs, rfl⟩ := h
    intro c hc
    rcases List.mem_cons.mp hc with rfl | hc
    · exact ⟨a, by simp, hb⟩
    · obtain ⟨a', ha, hf⟩ := ih hbs c hc
      exact ⟨a', by simp [ha], hf⟩

namespace Site

/-- The step succeeds in one world and leaves another. -/
def Succeeds {α : Type} (x : Run α) (w : World) (a : α) (w' : World) : Prop :=
  x.run.run w = (.ok a, w')

theorem exists_succeeds {α β : Type} {x : Run α} {w : World} {f : World → β} {b : β}
    (h : (x.run.run w).1.isOk = true ∧ f (x.run.run w).2 = b) :
    ∃ a w', Succeeds x w a w' ∧ f w' = b := by
  unfold Succeeds
  rcases hx : x.run.run w with ⟨r, w'⟩
  rw [hx] at h
  obtain ⟨hok, hf⟩ := h
  cases r with
  | error e => cases hok
  | ok a => exact ⟨a, w', rfl, hf⟩

theorem succeeds_bind {α β : Type} {x : Run α} {f : α → Run β} {w w' : World} {b : β} :
    Succeeds (x >>= f) w b w' ↔ ∃ a w₁, Succeeds x w a w₁ ∧ Succeeds (f a) w₁ b w' := by
  unfold Succeeds
  simp only [ExceptT.run_bind, StateT.run_bind]
  rcases x.run.run w with ⟨r, w₁⟩
  cases r with
  | error e =>
    constructor
    · intro h
      cases h
    · rintro ⟨_, _, h, _⟩
      cases h
  | ok a =>
    constructor
    · intro h
      exact ⟨a, w₁, rfl, h⟩
    · rintro ⟨_, _, h, hf⟩
      cases h
      exact hf

theorem succeeds_pure {α : Type} {a b : α} {w w' : World} :
    Succeeds (pure a) w b w' ↔ a = b ∧ w = w' := by
  constructor
  · intro h
    cases h
    exact ⟨rfl, rfl⟩
  · rintro ⟨rfl, rfl⟩
    rfl

theorem not_succeeds_throw {α : Type} {e : Failure} {a : α} {w w' : World} :
    ¬ Succeeds (throw e) w a w' := by
  intro h
  cases h

theorem succeeds_modify {f : World → World} {w w' : World} {u : Unit} :
    Succeeds (modify f) w u w' ↔ f w = w' := by
  constructor
  · intro h
    cases h
    rfl
  · rintro rfl
    rfl

theorem succeeds_report {events : List Event} {w w' : World} {u : Unit} :
    Succeeds (report events) w u w' ↔ { w with log := w.log ++ events } = w' :=
  succeeds_modify

theorem succeeds_files {w w' : World} {fs : FileSystem} :
    Succeeds files w fs w' ↔ w.files = fs ∧ w = w' := by
  constructor
  · intro h
    cases h
    exact ⟨rfl, rfl⟩
  · rintro ⟨rfl, rfl⟩
    rfl

/-- Looking at the file system leaves the world as it is. -/
theorem succeeds_look {α : Type} {f : FileSystem → Except Failure α} {w w' : World} {a : α} :
    Succeeds (look f) w a w' ↔ f w.files = .ok a ∧ w = w' := by
  unfold look
  rw [succeeds_bind]
  constructor
  · rintro ⟨fs, w₁, hfiles, h⟩
    obtain ⟨rfl, rfl⟩ := succeeds_files.mp hfiles
    cases hf : f w.files with
    | error e =>
      rw [hf] at h
      exact absurd h not_succeeds_throw
    | ok b =>
      rw [hf] at h
      obtain ⟨rfl, rfl⟩ := succeeds_pure.mp h
      exact ⟨rfl, rfl⟩
  · rintro ⟨h, rfl⟩
    refine ⟨w.files, w, succeeds_files.mpr ⟨rfl, rfl⟩, ?_⟩
    rw [h]
    exact succeeds_pure.mpr ⟨rfl, rfl⟩

theorem succeeds_change {f : FileSystem → Except Fault FileSystem} {error : FileError}
    {w w' : World} {u : Unit} :
    Succeeds (change f error) w u w' ↔ ∃ fs, f w.files = .ok fs ∧ { w with files := fs } = w' := by
  unfold change
  rw [succeeds_bind]
  constructor
  · rintro ⟨fs, w₁, hfiles, h⟩
    obtain ⟨rfl, rfl⟩ := succeeds_files.mp hfiles
    cases hf : f w.files with
    | error e =>
      rw [hf] at h
      exact absurd h not_succeeds_throw
    | ok fs =>
      rw [hf] at h
      exact ⟨fs, rfl, succeeds_modify.mp h⟩
  · rintro ⟨fs, h, rfl⟩
    refine ⟨w.files, w, succeeds_files.mpr ⟨rfl, rfl⟩, ?_⟩
    rw [h]
    exact succeeds_modify.mpr rfl

end Site

end PhpPages
