import PhpPages.Proofs.Text
import PhpPages.Site.Generate

namespace PhpPages

open Text
open Yaml (Value)

namespace Settings

/-- A text that does not consist of white space alone. -/
def IsFilled (t : String) : Prop :=
  ∃ c ∈ t.toList, isBlank c = false

/-- Settings in which every key that a run looks at has a value of its type. -/
structure WellTyped (s : Settings) : Prop where
  output : ∃ path, s.get? "output_path" = some (.text path) ∧ IsFilled path
  sources : ∃ directories, s.get? "source_directories" = some (texts directories) ∧
    directories ≠ [] ∧ ∀ d ∈ directories, IsFilled d
  lists : ∀ key ∈ ["excluded_directories", "file_extensions"], ∀ v, s.get? key = some v →
    ∃ l, v = texts l
  truths : ∀ key ∈ ["include_private_methods", "include_protected_methods", "skip_path_validation"],
    ∀ v, s.get? key = some v → ∃ b, v = .bool b
  title : ∀ v, s.get? "title" = some v → ∃ t, v = .text t
  root : ∀ v, s.get? "project_root" = some v → v = .null ∨ ∃ t, v = .text t

theorem isBlankText_eq_false_iff {t : String} : isBlankText t = false ↔ IsFilled t := by
  have hblank : isBlankText t = true ↔ trimChars t.toList = [] := by
    rw [isBlankText, trim, String.isEmpty_iff, ← String.toList_inj, String.toList_ofList]
    rfl
  rw [← Bool.not_eq_true, hblank, trimChars_eq_nil_iff]
  simp [IsFilled]

/-- Elements are in order exactly if they are texts, and where that counts none of them is blank. -/
theorem elementProblems_eq_nil {key : String} {filled : Bool} {index : Nat} {items : List Value} :
    elementProblems key filled index items = [] ↔
      ∃ l : List String, items = l.map .text ∧ (filled = true → ∀ t ∈ l, IsFilled t) := by
  fun_induction elementProblems key filled index items with
  | case1 => simp
  | case2 index t rest ih =>
    have hfirst : (if filled && isBlankText t then [Problem.elementBlank key index] else []) = [] ↔
        (filled = true → IsFilled t) := by
      rw [← isBlankText_eq_false_iff]
      cases filled <;> simp
    rw [List.append_eq_nil_iff, ih, hfirst]
    constructor
    · intro h
      obtain ⟨ht, l, hl, hall⟩ := h
      exact ⟨t :: l, by rw [hl, List.map_cons], fun hf => List.forall_mem_cons.mpr ⟨ht hf, hall hf⟩⟩
    · intro h
      obtain ⟨l, hl, hall⟩ := h
      cases l with
      | nil => cases hl
      | cons t' l =>
        cases hl
        exact ⟨fun hf => (List.forall_mem_cons.mp (hall hf)).1, l, rfl,
          fun hf => (List.forall_mem_cons.mp (hall hf)).2⟩
  | case3 index item rest hitem ih =>
    constructor
    · intro h
      cases h
    · intro h
      obtain ⟨l, hl, _⟩ := h
      cases l with
      | nil => cases hl
      | cons t l => exact absurd (List.cons.inj hl).1 (hitem t)

section

variable (s : Settings) (key : String)

theorem outputProblems_eq_nil : outputProblems s = [] ↔
    ∃ path, s.get? "output_path" = some (.text path) ∧ IsFilled path := by
  cases hget : s.get? "output_path" with
  | none => simp [outputProblems, hget]
  | some v => cases v <;> simp [outputProblems, hget, isBlankText_eq_false_iff]

theorem sourceProblems_eq_nil : sourceProblems s = [] ↔
    ∃ directories, s.get? "source_directories" = some (texts directories) ∧ directories ≠ [] ∧
      ∀ d ∈ directories, IsFilled d := by
  cases hget : s.get? "source_directories" with
  | none => simp [sourceProblems, hget]
  | some v =>
    cases v with
    | list items =>
      cases items with
      | nil => simp [sourceProblems, hget, texts]
      | cons item items =>
        simp only [sourceProblems, hget, elementProblems_eq_nil, texts, Option.some.injEq,
          Value.list.injEq, forall_const]
        refine exists_congr fun l => and_congr_right fun hl => ?_
        have hne : l ≠ [] := by
          intro hnil
          rw [hnil] at hl
          cases hl
        simp [hne]
    | _ => simp [sourceProblems, hget, texts]

theorem listProblems_eq_nil :
    listProblems s key = [] ↔ ∀ v, s.get? key = some v → ∃ l, v = texts l := by
  cases hget : s.get? key with
  | none => simp [listProblems, hget]
  | some v => cases v <;> simp [listProblems, hget, elementProblems_eq_nil, texts]

theorem truthProblems_eq_nil :
    truthProblems s key = [] ↔ ∀ v, s.get? key = some v → ∃ b, v = .bool b := by
  cases hget : s.get? key with
  | none => simp [truthProblems, hget]
  | some v => cases v <;> simp [truthProblems, hget]

theorem titleProblems_eq_nil :
    titleProblems s = [] ↔ ∀ v, s.get? "title" = some v → ∃ t, v = .text t := by
  cases hget : s.get? "title" with
  | none => simp [titleProblems, hget]
  | some v => cases v <;> simp [titleProblems, hget]

theorem rootProblems_eq_nil :
    rootProblems s = [] ↔ ∀ v, s.get? "project_root" = some v → v = .null ∨ ∃ t, v = .text t := by
  cases hget : s.get? "project_root" with
  | none => simp [rootProblems, hget]
  | some v => cases v <;> simp [rootProblems, hget]

/-- Nothing is wrong with settings exactly if every value has its type. -/
theorem problems_eq_nil : problems s = [] ↔ WellTyped s := by
  simp only [problems, List.append_eq_nil_iff, outputProblems_eq_nil, sourceProblems_eq_nil,
    listProblems_eq_nil, truthProblems_eq_nil, titleProblems_eq_nil, rootProblems_eq_nil]
  constructor
  · intro h
    obtain ⟨⟨⟨⟨⟨⟨⟨⟨houtput, hsources⟩, hexcluded⟩, hextensions⟩, hprivate⟩, hprotected⟩, hskip⟩,
        htitle⟩, hroot⟩ := h
    refine ⟨houtput, hsources, ?_, ?_, htitle, hroot⟩
    · simp only [List.mem_cons, List.not_mem_nil, or_false, forall_eq_or_imp, forall_eq]
      exact ⟨hexcluded, hextensions⟩
    · simp only [List.mem_cons, List.not_mem_nil, or_false, forall_eq_or_imp, forall_eq]
      exact ⟨hprivate, hprotected, hskip⟩
  · intro h
    obtain ⟨houtput, hsources, hlists, htruths, htitle, hroot⟩ := h
    simp only [List.mem_cons, List.not_mem_nil, or_false, forall_eq_or_imp,
      forall_eq] at hlists htruths
    obtain ⟨hexcluded, hextensions⟩ := hlists
    obtain ⟨hprivate, hprotected, hskip⟩ := htruths
    exact ⟨⟨⟨⟨⟨⟨⟨⟨houtput, hsources⟩, hexcluded⟩, hextensions⟩, hprivate⟩, hprotected⟩, hskip⟩,
      htitle⟩, hroot⟩

end

/-- What keeps a value from being used: it is not there, or it has another type. -/
inductive Misuse where
  | absent (key : String)
  | mistyped (key : String)

def asText? : Value → Option String
  | .text t => some t
  | _ => none

/-- A text, or null for none. -/
def asOptionalText? : Value → Option (Option String)
  | .null => some none
  | v => (asText? v).map some

def asTexts? : Value → Option (List String)
  | .list items => items.mapM asText?
  | _ => none

def asTruth? : Value → Option Bool
  | .bool b => some b
  | _ => none

/-- The value of a key at the type at which it is used. Without a fallback the key
has to be there. -/
def readAs {α : Type} (s : Settings) (key : String) (view : Value → Option α)
    (fallback : Option α) : Except Misuse α :=
  match s.get? key, fallback with
  | none, none => .error (.absent key)
  | none, some a => .ok a
  | some v, _ =>
    match view v with
    | some a => .ok a
    | none => .error (.mistyped key)

/-- What a run takes from settings, each value at its type. -/
structure Reading where
  root : Option String
  output : String
  sources : List String
  unchecked : Bool
  excluded : List String
  extensions : List String
  showPrivate : Bool
  showProtected : Bool
  title : Option String

/-- Reads settings value by value. -/
def read (s : Settings) : Except Misuse Reading := do
  let root ← s.readAs "project_root" asOptionalText? (some none)
  let output ← s.readAs "output_path" asText? none
  let sources ← s.readAs "source_directories" asTexts? none
  let unchecked ← s.readAs "skip_path_validation" asTruth? (some false)
  let excluded ← s.readAs "excluded_directories" asTexts? (some [])
  let extensions ← s.readAs "file_extensions" asTexts? (some [])
  let showPrivate ← s.readAs "include_private_methods" asTruth? (some false)
  let showProtected ← s.readAs "include_protected_methods" asTruth? (some false)
  let title ← s.readAs "title" asOptionalText? (some none)
  return {
    root, output, sources, unchecked, excluded, extensions, showPrivate, showProtected, title }

/-- What is taken from settings if anything that cannot be used counts as absent. -/
def reading (s : Settings) : Reading where
  root := s.text? "project_root"
  output := (s.text? "output_path").getD ""
  sources := s.textList "source_directories"
  unchecked := s.isOn "skip_path_validation"
  excluded := s.textList "excluded_directories"
  extensions := s.textList "file_extensions"
  showPrivate := s.isOn "include_private_methods"
  showProtected := s.isOn "include_protected_methods"
  title := s.text? "title"

section

variable {s : Settings} {key : String}

theorem asTexts?_texts (l : List String) : asTexts? (texts l) = some l := by
  have hitems : (l.map Value.text).mapM asText? = some l := by
    induction l with
    | nil => rfl
    | cons t l ih => simp [asText?, ih]
  exact hitems

theorem textList_texts {l : List String} (h : s.get? key = some (texts l)) :
    s.textList key = l := by
  simp only [textList, h, texts, List.filterMap_map]
  exact List.filterMap_some

theorem readAs_texts (h : ∀ v, s.get? key = some v → ∃ l, v = texts l) :
    s.readAs key asTexts? (some []) = .ok (s.textList key) := by
  cases hget : s.get? key with
  | none => simp [readAs, textList, hget]
  | some v =>
    obtain ⟨l, rfl⟩ := h v hget
    simp [readAs, hget, asTexts?_texts, textList_texts hget]

theorem readAs_truth (h : ∀ v, s.get? key = some v → ∃ b, v = .bool b) :
    s.readAs key asTruth? (some false) = .ok (s.isOn key) := by
  cases hget : s.get? key with
  | none => simp [readAs, isOn, hget]
  | some v =>
    obtain ⟨b, rfl⟩ := h v hget
    simp [readAs, isOn, hget, asTruth?]

theorem readAs_optionalText (h : ∀ v, s.get? key = some v → v = .null ∨ ∃ t, v = .text t) :
    s.readAs key asOptionalText? (some none) = .ok (s.text? key) := by
  cases hget : s.get? key with
  | none => simp [readAs, text?, hget]
  | some v =>
    obtain rfl | ⟨t, rfl⟩ := h v hget
    · simp [readAs, text?, hget, asOptionalText?]
    · simp [readAs, text?, hget, asOptionalText?, asText?]

end

/-- Nothing is misused in well-typed settings. -/
theorem WellTyped.read_eq {s : Settings} (h : s.WellTyped) : s.read = .ok s.reading := by
  obtain ⟨path, hpath, _⟩ := h.output
  obtain ⟨directories, hdirectories, _⟩ := h.sources
  have houtput : s.readAs "output_path" asText? none = .ok ((s.text? "output_path").getD "") := by
    simp [readAs, text?, hpath, asText?]
  have hsources :
      s.readAs "source_directories" asTexts? none = .ok (s.textList "source_directories") := by
    simp [readAs, hdirectories, asTexts?_texts, textList_texts hdirectories]
  have hexcluded := readAs_texts (h.lists "excluded_directories" (by simp))
  have hextensions := readAs_texts (h.lists "file_extensions" (by simp))
  have hprivate := readAs_truth (h.truths "include_private_methods" (by simp))
  have hprotected := readAs_truth (h.truths "include_protected_methods" (by simp))
  have hskip := readAs_truth (h.truths "skip_path_validation" (by simp))
  have htitle := readAs_optionalText fun v hv => .inr (h.title v hv)
  have hroot := readAs_optionalText h.root
  simp only [read, hroot, houtput, hsources, hskip, hexcluded, hextensions, hprivate,
    hprotected, htitle]
  rfl

-- A number is no truth value, although it could stand for one.
example :
    (defaults.put "skip_path_validation" (.int 1)).read =
      .error (.mistyped "skip_path_validation") :=
  rfl

end Settings

namespace Site

/-- The plan that a reading gives in a working directory. -/
def planFrom (r : Settings.Reading) (here : Option Location) : Plan where
  root := match filled? r.root with
    | some root => Path.ofText root
    | none => Path.at (here.getD [])
  output := trim r.output
  sources := r.sources.map trim
  excluded := r.excluded
  extensions := r.extensions
  audience := ⟨r.showPrivate, r.showProtected⟩
  title := (filled? r.title).getD defaultTitle
  unchecked := r.unchecked

/-- The places of a run for which everything was read. -/
def prepareFrom (fs : FileSystem) (r : Settings.Reading) :
    Except Failure (Plan × Path × List Path) := do
  if fs.here.isNone && (filled? r.root).isNone then throw (.resolve (.missing {}))
  let plan := planFrom r fs.here
  let (output, sources) ← places fs plan
  guardOutput fs plan output sources
  return (plan, output, sources)

/-- A run that knows nothing of its settings but what was read. -/
def generateFrom (r : Settings.Reading) (now : Moment) : Run Stats := do
  let (plan, output, sources) ← look fun fs => prepareFrom fs r
  writeTree plan output sources now

theorem prepare_eq_prepareFrom {s : Settings} (h : Settings.problems s = []) (fs : FileSystem) :
    prepare fs s = prepareFrom fs s.reading := by
  simp only [prepare, h, List.isEmpty_nil, Bool.not_true, Bool.false_eq_true, if_false]
  rfl

theorem generate_eq_generateFrom {s : Settings} (h : Settings.problems s = []) (now : Moment) :
    generate s now = generateFrom s.reading now := by
  simp only [generate, generateFrom, prepare_eq_prepareFrom h]

/-- The check accepts exactly the well-typed settings. From accepted settings every value can be
read at its type, and what was read determines the run. -/
theorem accepted_settings_are_typed (s : Settings) :
    (Settings.problems s = [] ↔ s.WellTyped) ∧
      (Settings.problems s = [] → ∃ r, s.read = .ok r ∧ ∀ now,
        generate s now = generateFrom r now) := by
  refine ⟨Settings.problems_eq_nil s, fun h => ⟨s.reading, ?_, generate_eq_generateFrom h⟩⟩
  exact ((Settings.problems_eq_nil s).mp h).read_eq

/-- The defaults with a root that is null are accepted and read as an absent root. -/
theorem accepted_settings_are_typed_nullRoot :
    Settings.problems (Settings.defaults.put "project_root" .null) = [] ∧
      ∃ r, (Settings.defaults.put "project_root" .null).read = .ok r ∧ r.root = none ∧
        r.sources = ["app"] ∧
        ∀ now, generate (Settings.defaults.put "project_root" .null) now = generateFrom r now := by
  have haccepted : Settings.problems (Settings.defaults.put "project_root" .null) = [] := rfl
  obtain ⟨r, hread, hrun⟩ :=
    (accepted_settings_are_typed (Settings.defaults.put "project_root" .null)).2 haccepted
  refine ⟨haccepted, r, hread, ?_, ?_, hrun⟩
  · cases hread
    rfl
  · cases hread
    rfl

end Site

end PhpPages
