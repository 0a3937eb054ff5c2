import PhpPages.Proofs.Guard

namespace PhpPages.Site

/-- What a failure is about: the settings, the paths that they name, the work on files, or a path
that cannot be resolved. -/
inductive Failure.Kind where
  | configuration
  | validation
  | work
  | resolution
  deriving DecidableEq

def Failure.kind : Failure → Failure.Kind
  | .settings _ => .configuration
  | .boundary (.rootMissing _) => .configuration
  | .boundary (.path _) => .validation
  | .outputIsRoot _ => .validation
  | .outputHoldsSource _ _ => .validation
  | .files _ => .work
  | .boundary .rootUnreadable => .resolution
  | .resolve _ => .resolution

/-- Settings or paths are at fault. -/
def Failure.IsRefusal (e : Failure) : Prop :=
  e.kind = .configuration ∨ e.kind = .validation

/-- The step fails in one world and leaves another. -/
def Fails {α : Type} (x : Run α) (w : World) (e : Failure) (w' : World) : Prop :=
  x.run.run w = (.error e, w')

theorem fails_bind {α β : Type} {x : Run α} {f : α → Run β} {w w' : World} {e : Failure} :
    Fails (x >>= f) w e w' ↔ Fails x w e w' ∨ ∃ a w₁, Succeeds x w a w₁ ∧ Fails (f a) w₁ e w' := by
  unfold Fails Succeeds
  simp only [ExceptT.run_bind, StateT.run_bind]
  rcases x.run.run w with ⟨r, w₁⟩
  cases r with
  | error e' =>
    constructor
    · intro h
      cases h
      exact .inl rfl
    · rintro (h | ⟨_, _, h, _⟩)
      · cases h
        rfl
      · cases h
  | ok a =>
    constructor
    · intro h
      exact .inr ⟨a, w₁, rfl, h⟩
    · rintro (h | ⟨_, _, h, hf⟩)
      · cases h
      · cases h
        exact hf

theorem not_fails_pure {α : Type} {a : α} {w w' : World} {e : Failure} :
    ¬ Fails (pure a) w e w' := by
  intro h
  cases h

theorem fails_throw {α : Type} {e e' : Failure} {w w' : World} :
    Fails (throw e : Run α) w e' w' ↔ e = e' ∧ w = w' := by
  constructor
  · intro h
    cases h
    exact ⟨rfl, rfl⟩
  · rintro ⟨rfl, rfl⟩
    rfl

theorem not_fails_modify {f : World → World} {w w' : World} {e : Failure} :
    ¬ Fails (modify f) w e w' := by
  intro h
  cases h

theorem not_fails_files {w w' : World} {e : Failure} : ¬ Fails files w e w' := by
  intro h
  cases h

theorem fails_look {α : Type} {f : FileSystem → Except Failure α} {w w' : World} {e : Failure} :
    Fails (look f) w e w' ↔ f w.files = .error e ∧ w = w' := by
  unfold look
  rw [fails_bind]
  constructor
  · intro h
    rcases h with h | ⟨_, _, hfiles, h⟩
    · exact absurd h not_fails_files
    · obtain ⟨rfl, rfl⟩ := succeeds_files.mp hfiles
      cases hf : f w.files with
      | error e' =>
        rw [hf] at h
        obtain ⟨rfl, rfl⟩ := fails_throw.mp h
        exact ⟨rfl, rfl⟩
      | ok a =>
        rw [hf] at h
        exact absurd h not_fails_pure
  · rintro ⟨h, rfl⟩
    refine .inr ⟨w.files, w, succeeds_files.mpr ⟨rfl, rfl⟩, ?_⟩
    rw [h]
    exact fails_throw.mpr ⟨rfl, rfl⟩

/-- The steps of a run once its places are settled: they look at files, change them and report, and
only that work fails. -/
inductive Works : {α : Type} → Run α → Prop where
  | pure {α : Type} (a : α) : Works (pure a)
  | throw {α : Type} {e : Failure} (late : ¬ e.IsRefusal) : Works (throw e : Run α)
  | files : Works files
  | report (events : List Event) : Works (report events)
  | look {α : Type} {f : FileSystem → Except Failure α}
      (late : ∀ fs e, f fs = .error e → ¬ e.IsRefusal) : Works (look f)
  | change (f : FileSystem → Except Fault FileSystem) (error : FileError) : Works (change f error)
  | bind {α β : Type} {x : Run α} {f : α → Run β} (first : Works x) (next : ∀ a, Works (f a)) :
      Works (x >>= f)

theorem fails_change {f : FileSystem → Except Fault FileSystem} {error : FileError} {w w' : World}
    {e : Failure} (h : Fails (change f error) w e w') : e = .files error := by
  unfold change at h
  rcases fails_bind.mp h with h | ⟨fs, _, _, h⟩
  · exact absurd h not_fails_files
  · split at h
    · exact absurd h not_fails_modify
    · exact (fails_throw.mp h).1.symm

theorem Works.not_refused {α : Type} {x : Run α} (h : Works x) {w w' : World} {e : Failure}
    (hf : Fails x w e w') : ¬ e.IsRefusal := by
  induction h generalizing w w' e with
  | pure a => exact absurd hf not_fails_pure
  | throw late =>
    obtain ⟨rfl, _⟩ := fails_throw.mp hf
    exact late
  | files => exact absurd hf not_fails_files
  | report events => exact absurd hf not_fails_modify
  | look late => exact late w.files e (fails_look.mp hf).1
  | change f error =>
    rw [fails_change hf]
    simp [Failure.IsRefusal, Failure.kind]
  | bind first next ihx ihf =>
    rcases fails_bind.mp hf with hf | ⟨a, w₁, _, hf⟩
    · exact ihx hf
    · exact ihf a hf

theorem resolving_error {α : Type} {r : Except ResolveError α} {e : Failure}
    (h : resolving r = .error e) : ¬ e.IsRefusal := by
  cases r with
  | ok a => cases h
  | error e' =>
    cases h
    simp [Failure.IsRefusal, Failure.kind]

theorem extractFile_error {fs : FileSystem} {audience : Audience} {file : Path} {e : Failure}
    (h : extractFile fs audience file = .error e) : ¬ e.IsRefusal := by
  unfold extractFile at h
  split at h
  · cases h
    simp [Failure.IsRefusal, Failure.kind]
  · split at h
    · cases h
      simp [Failure.IsRefusal, Failure.kind]
    · cases h

theorem bind_eq_error {ε α β : Type} {x : Except ε α} {f : α → Except ε β} {e : ε}
    (h : (x >>= f) = .error e) : x = .error e ∨ ∃ a, x = .ok a ∧ f a = .error e := by
  cases x with
  | error e' =>
    left
    cases h
    rfl
  | ok a =>
    right
    exact ⟨a, rfl, h⟩

theorem parseFile_error {fs : FileSystem} {audience : Audience} {sources : List Path}
    {base : Option Path} {file : Path} {e : Failure}
    (h : parseFile fs audience sources base file = .error e) : ¬ e.IsRefusal := by
  unfold parseFile at h
  rcases bind_eq_error h with h | ⟨relative, _, h⟩
  · exact resolving_error h
  rcases bind_eq_error h with h | ⟨location, _, h⟩
  · exact resolving_error h
  rcases bind_eq_error h with h | ⟨found, _, h⟩
  · exact extractFile_error h
  · cases h

theorem resetOutput_works (output : Path) : Works (resetOutput output) := by
  refine .bind .files fun fs => ?_
  have hmake : Works (change (·.makeDirectories output) (.create output)) := .change _ _
  split
  · exact .bind (.bind (.change _ _) fun _ => .change _ _) fun _ => hmake
  · exact hmake

theorem scanSources_works (plan : Plan) (sources : List Path) :
    Works (scanSources plan sources) := by
  refine .bind (.look fun _ _ h => resolving_error h) fun base => .bind .files fun fs => ?_
  dsimp only
  refine .bind (.report _) fun _ => ?_
  split
  · exact .pure _
  · exact .throw (by simp [Failure.IsRefusal, Failure.kind])

theorem parseFiles_works (plan : Plan) (sources found : List Path) :
    Works (parseFiles plan sources found) := by
  induction found with
  | nil => exact .pure _
  | cons file rest ih =>
    refine .bind (.look fun _ _ h => parseFile_error h) fun p => ?_
    exact .bind (.report _) fun _ => .bind ih fun _ => .pure _

theorem writeFile_works (file : Path) (text : String) : Works (writeFile file text) :=
  .bind (.change _ _) fun _ => .change _ _

theorem writePages_works (map : ClassMap) (output : Path) (files : List ParsedFile) :
    Works (writePages map output files) := by
  induction files with
  | nil => exact .pure _
  | cons f rest ih =>
    refine .bind ?_ fun _ => ih
    unfold writePage
    split
    · exact .pure _
    · refine .bind (.look fun _ _ h => resolving_error h) fun link => ?_
      exact .bind (.report _) fun _ => writeFile_works _ _

/-- Once the output directory is touched nothing is refused any more. -/
theorem writeTree_works (plan : Plan) (output : Path) (sources : List Path) (now : Moment) :
    Works (writeTree plan output sources now) := by
  refine .bind (resetOutput_works output) fun _ => ?_
  refine .bind (scanSources_works plan sources) fun found => .bind (.report _) fun _ => ?_
  refine .bind (parseFiles_works plan sources found) fun parsed => .bind (.report _) fun _ => ?_
  refine .bind (writePages_works _ output parsed) fun _ => .bind (.report _) fun _ => ?_
  exact .bind (writeFile_works _ _) fun _ => .pure _

/-- A run is refused exactly when its settings and paths are, and then nothing has changed. -/
theorem generate_refused_iff (s : Settings) (now : Moment) (w : World) {e : Failure}
    (he : e.IsRefusal) (w' : World) :
    Fails (generate s now) w e w' ↔ prepare w.files s = .error e ∧ w' = w := by
  unfold generate
  rw [fails_bind]
  constructor
  · rintro (h | ⟨⟨plan, output, sources⟩, w₁, _, h⟩)
    · obtain ⟨hprep, rfl⟩ := fails_look.mp h
      exact ⟨hprep, rfl⟩
    · exact absurd he ((writeTree_works plan output sources now).not_refused h)
  · rintro ⟨hprep, rfl⟩
    exact .inl (fails_look.mpr ⟨hprep, rfl⟩)

/-- A project whose sources lie in the directory that would be deleted. -/
def nested : World where
  files := { entries := [(["docs"], .directory), (["docs", "src"], .directory),
    (["docs", "src", "A.php"], .file "<?php class A {}".toUTF8)] }

def nestedSettings : Settings :=
  [(.text "output_path", .text "docs"), (.text "source_directories", Settings.texts ["docs/src"]),
    (.text "project_root", .text "/")]

theorem generate_refused_iff_nested :
    (Failure.outputHoldsSource (Path.at ["docs"]) (Path.at ["docs", "src"])).IsRefusal ∧
      Fails (generate nestedSettings ⟨2024, 1, 1, 0, 0, 0⟩) nested
        (.outputHoldsSource (Path.at ["docs"]) (Path.at ["docs", "src"])) nested :=
  have hrefusal :
      (Failure.outputHoldsSource (Path.at ["docs"]) (Path.at ["docs", "src"])).IsRefusal := .inr rfl
  ⟨hrefusal, (generate_refused_iff nestedSettings _ nested hrefusal nested).mpr
    ⟨rfl, rfl⟩⟩

end PhpPages.Site
