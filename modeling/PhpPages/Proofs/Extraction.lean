import PhpPages.Extraction

namespace PhpPages

open Php

/-- A text without its leading separators. -/
def Bare (written rest : String) : Prop :=
  ∃ n, written.toList = List.replicate n '\\' ++ rest.toList ∧ rest.toList.head? ≠ some '\\'

theorem replicate_dropWhile (cs : List Char) :
    ∃ n, cs = List.replicate n '\\' ++ cs.dropWhile ['\\'].contains := by
  induction cs with
  | nil => exact ⟨0, rfl⟩
  | cons c cs ih =>
    by_cases hc : c = '\\'
    · obtain ⟨n, hn⟩ := ih
      refine ⟨n + 1, ?_⟩
      simp only [hc, List.replicate_succ, List.cons_append, List.contains_cons, beq_self_eq_true,
        Bool.true_or, List.dropWhile_cons_of_pos]
      rw [← hn]
    · exact ⟨0, by simp [hc]⟩

theorem bare_dropLeading (s : String) : Bare s (Text.dropLeading ['\\'] s) := by
  obtain ⟨n, hn⟩ := replicate_dropWhile s.toList
  refine ⟨n, by simpa [Text.dropLeading] using hn, ?_⟩
  intro hh
  have hd := List.head?_dropWhile_not ['\\'].contains s.toList
  simp only [Text.dropLeading, String.toList_ofList] at hh
  simp [hh] at hd

theorem Bare.unique {s t u : String} (ht : Bare s t) (hu : Bare s u) : t = u := by
  obtain ⟨m, hm, hmt⟩ := ht
  obtain ⟨n, hn, hnu⟩ := hu
  suffices h : ∀ (m n : Nat) (a b : List Char), a.head? ≠ some '\\' → b.head? ≠ some '\\' →
      List.replicate m '\\' ++ a = List.replicate n '\\' ++ b → a = b from
    String.ext (h m n _ _ hmt hnu (hm.symm.trans hn))
  intro m
  induction m with
  | zero =>
    intro n a b ha hb he
    cases n with
    | zero => simpa using he
    | succ n => simp [List.replicate_succ] at he; simp [he] at ha
  | succ m ih =>
    intro n a b ha hb he
    cases n with
    | zero => simp [List.replicate_succ] at he; simp [← he] at hb
    | succ n =>
      simp only [List.replicate_succ, List.cons_append, List.cons.injEq, true_and] at he
      exact ih n a b ha hb he

namespace Php

/-- The declared outlines among statements, in file order. -/
def outlinesOf (statements : List Statement) : List DeclarationOutline :=
  statements.filterMap fun
    | .declaration d => some d
    | _ => none

def namespacesOf (statements : List Statement) : List (Option String) :=
  statements.filterMap fun
    | .namespace name => some name
    | _ => none

/-- The pairs of all imports, in file order. -/
def importsOf (statements : List Statement) : List (String × String) :=
  statements.flatMap fun
    | .imports pairs => pairs
    | _ => []

/-- The name of the last namespace statement. There is none when its name is absent or empty. -/
def namespaceBehind (before : List Statement) : Option String :=
  match (namespacesOf before).getLast? with
  | some (some name) => if name = "" then none else some name
  | _ => none

/-- The target of the last import of an alias. -/
def targetBehind (before : List Statement) (short : String) : Option String :=
  ((importsOf before).filter fun pair => pair.1 = short).getLast?.map Prod.snd

/-- What a reference means behind statements. -/
inductive Means (before : List Statement) (reference : String) : String → Prop where
  | absolute {name : String} (front : reference.toList.head? = some '\\')
      (bare : Bare reference name) : Means before reference name
  | imported {target name : String} (front : reference.toList.head? ≠ some '\\')
      (last : targetBehind before reference = some target) (bare : Bare target name) :
      Means before reference name
  | qualified (front : reference.toList.head? ≠ some '\\')
      (unknown : targetBehind before reference = none) (inner : '\\' ∈ reference.toList) :
      Means before reference reference
  | member {space : String} (unknown : targetBehind before reference = none)
      (simple : '\\' ∉ reference.toList) (inside : namespaceBehind before = some space) :
      Means before reference (space ++ "\\" ++ reference)
  | top (unknown : targetBehind before reference = none) (simple : '\\' ∉ reference.toList)
      (outside : namespaceBehind before = none) : Means before reference reference

/-- A reference means one name. -/
theorem Means.unique {before : List Statement} {reference a b : String}
    (ha : Means before reference a) (hb : Means before reference b) : a = b := by
  have hfront : '\\' ∉ reference.toList → reference.toList.head? ≠ some '\\' :=
    fun hn hh => hn (List.mem_of_head? hh)
  cases ha with
  | absolute front bare =>
    cases hb with
    | absolute _ bare' => exact bare.unique bare'
    | imported front' | qualified front' => exact absurd front front'
    | member _ simple | top _ simple => exact absurd front (hfront simple)
  | imported front last bare =>
    cases hb with
    | absolute front' => exact absurd front' front
    | imported _ last' bare' =>
      rw [last] at last'
      cases last'
      exact bare.unique bare'
    | qualified _ unknown | member unknown | top unknown => simp [last] at unknown
  | qualified front unknown inner =>
    cases hb with
    | absolute front' => exact absurd front' front
    | imported _ last => simp [last] at unknown
    | qualified => rfl
    | member _ simple | top _ simple => exact absurd inner simple
  | member unknown simple inside =>
    cases hb with
    | absolute front => exact absurd front (hfront simple)
    | imported _ last => simp [last] at unknown
    | qualified _ _ inner => exact absurd inner simple
    | member _ _ inside' => rw [inside] at inside'; cases inside'; rfl
    | top _ _ outside => simp [inside] at outside
  | top unknown simple outside =>
    cases hb with
    | absolute front => exact absurd front (hfront simple)
    | imported _ last => simp [last] at unknown
    | qualified _ _ inner => exact absurd inner simple
    | member _ _ inside => simp [inside] at outside
    | top => rfl

end Php

namespace Scope

/-- The scope behind a statement. -/
def visit (scope : Scope) : Statement → Scope
  | .namespace name => scope.enter name
  | .imports pairs => pairs.foldl (fun s pair => s.define pair.1 pair.2) scope
  | .declaration _ => scope

theorem current_imports (pairs : List (String × String)) (scope : Scope) :
    (scope.visit (.imports pairs)).current = scope.current := by
  simp only [visit]
  induction pairs generalizing scope with
  | nil => rfl
  | cons pair pairs ih => exact ih _

theorem aliases_imports (pairs : List (String × String)) (scope : Scope) :
    (scope.visit (.imports pairs)).aliases =
      (pairs.map fun pair => (pair.1, Text.dropLeading ['\\'] pair.2)).reverse ++
      scope.aliases := by
  simp only [visit]
  induction pairs generalizing scope with
  | nil => rfl
  | cons pair pairs ih =>
    rw [List.foldl_cons, ih]
    simp [define]

theorem enter_current (scope : Scope) (name : Option String) :
    (scope.enter name).current = namespaceBehind [.namespace name] := by
  cases name with
  | none => rfl
  | some name =>
    by_cases hn : name = ""
    · simp [enter, namespaceBehind, namespacesOf, hn]
    · simp [enter, namespaceBehind, namespacesOf, hn]

/-- The namespace of the scope is that of the last namespace statement, the one it started in when
there is none. -/
theorem current_foldl (before : List Statement) (scope : Scope) :
    (before.foldl visit scope).current =
      if namespacesOf before = [] then scope.current else namespaceBehind before := by
  induction before generalizing scope with
  | nil => rfl
  | cons s before ih =>
    rw [List.foldl_cons, ih]
    cases s with
    | «namespace» name =>
      by_cases hn : namespacesOf before = []
      · have hc :
            namespaceBehind (.namespace name :: before) = namespaceBehind [.namespace name] := by
          simp only [namespacesOf] at hn
          simp [namespaceBehind, namespacesOf, hn]
        rw [if_pos hn, if_neg (by simp [namespacesOf]), hc]
        exact scope.enter_current name
      · have hc : namespaceBehind (.namespace name :: before) = namespaceBehind before := by
          simp only [namespaceBehind, namespacesOf, List.filterMap_cons] at hn ⊢
          rw [List.getLast?_cons, List.getLast?_eq_some_getLast hn]
          rfl
        rw [if_neg hn, if_neg (by simp [namespacesOf]), hc]
    | imports pairs => rw [current_imports]; rfl
    | declaration d => rfl

theorem current_behind (before : List Statement) :
    (before.foldl visit {}).current = namespaceBehind before := by
  rw [current_foldl]
  split
  · rename_i hn
    simp [namespaceBehind, hn]
  · rfl

theorem aliases_foldl (before : List Statement) (scope : Scope) :
    (before.foldl visit scope).aliases =
      ((importsOf before).map fun pair => (pair.1, Text.dropLeading ['\\'] pair.2)).reverse ++
        scope.aliases := by
  induction before generalizing scope with
  | nil => rfl
  | cons s before ih =>
    rw [List.foldl_cons, ih]
    cases s with
    | «namespace» name => rfl
    | imports pairs => rw [aliases_imports]; simp [importsOf]
    | declaration d => rfl

theorem lookup_aliases (pairs : List (String × String)) (short : String) :
    ((pairs.map fun pair => (pair.1, Text.dropLeading ['\\'] pair.2)).reverse).lookup short =
      (((pairs.filter fun pair => pair.1 = short).getLast?.map Prod.snd).map
        (Text.dropLeading ['\\'])) := by
  rw [← List.head?_reverse, ← List.filter_reverse, ← List.map_reverse]
  induction pairs.reverse with
  | nil => rfl
  | cons pair rest ih =>
    by_cases hp : pair.1 = short
    · simp [hp]
    · have hs : (short == pair.1) = false := by simp [Ne.symm hp]
      rw [List.map_cons, List.lookup_cons, hs, ih]
      simp [hp]

/-- The scope behind statements resolves each reference to what it means there. -/
theorem resolve_means (before : List Statement) (reference : String) :
    Means before reference ((before.foldl visit {}).resolve reference) := by
  have ha : (before.foldl visit {}).aliases.lookup reference =
      (targetBehind before reference).map (Text.dropLeading ['\\']) := by
    rw [aliases_foldl, List.append_nil]
    exact lookup_aliases _ _
  unfold resolve
  rw [ha, current_behind]
  split
  · exact .absolute ‹_› (bare_dropLeading reference)
  · rename_i hfront
    cases ht : targetBehind before reference with
    | some target => exact .imported hfront ht (bare_dropLeading target)
    | none =>
      by_cases hi : '\\' ∈ reference.toList
      · simpa [hi] using Means.qualified hfront ht hi
      · cases hs : namespaceBehind before with
        | some space => simpa [hi] using Means.member ht hi hs
        | none => simpa [hi] using Means.top ht hi hs

end Scope

/-- The methods that the modifiers let readers see. -/
def Audience.Shows (audience : Audience) (m : MethodOutline) : Prop :=
  ("private" ∈ m.modifiers → audience.includePrivate = true) ∧
    ("protected" ∈ m.modifiers → audience.includePrivate = true ∨ audience.includeProtected = true)

instance (audience : Audience) (m : MethodOutline) : Decidable (audience.Shows m) :=
  inferInstanceAs (Decidable (_ ∧ _))

theorem Audience.admits_iff (audience : Audience) (m : MethodOutline) :
    audience.admits (Method.ofOutline m).visibility = true ↔ audience.Shows m := by
  by_cases hp : "private" ∈ m.modifiers
  · simp only [Method.ofOutline, Visibility.ofModifiers, List.contains_iff_mem, hp, ↓reduceIte,
      admits, Shows]
    constructor
    · intro h
      exact ⟨fun _ => h, fun _ => .inl h⟩
    · intro h
      exact h.1 trivial
  · by_cases hq : "protected" ∈ m.modifiers
    · simp [Method.ofOutline, Visibility.ofModifiers, hp, hq, admits, Shows]
    · simp [Method.ofOutline, Visibility.ofModifiers, hp, hq, admits, Shows]

namespace Php

def methodsOf (members : List MemberOutline) : List MethodOutline :=
  members.filterMap fun
    | .method m => some m
    | .property _ => none

end Php

theorem filterMethods_eq (audience : Audience) (members : List MemberOutline) :
    audience.filterMethods (membersMethods members) =
      ((methodsOf members).filter fun m => audience.Shows m).map .ofOutline := by
  induction members with
  | nil => rfl
  | cons m members ih =>
    simp only [Audience.filterMethods, membersMethods, methodsOf] at ih ⊢
    cases m with
    | property p => simpa using ih
    | method m =>
      by_cases hs : audience.Shows m
      · have ha := (audience.admits_iff m).mpr hs
        simp [ha, hs, ih]
      · have ha : audience.admits (Method.ofOutline m).visibility ≠ true :=
          fun h => hs ((audience.admits_iff m).mp h)
        simp [ha, hs, ih]

theorem declarationsFrom_append (audience : Audience) (before rest : List Statement)
    (scope : Scope) :
    declarationsFrom audience scope (before ++ rest) =
      declarationsFrom audience scope before ++
      declarationsFrom audience (before.foldl Scope.visit scope) rest := by
  induction before generalizing scope with
  | nil => rfl
  | cons s before ih =>
    cases s with
    | «namespace» name => exact ih _
    | imports pairs => exact ih _
    | declaration d =>
      simp only [List.cons_append, declarationsFrom, ih, List.foldl_cons, Scope.visit]

theorem length_declarationsFrom (audience : Audience) (statements : List Statement)
    (scope : Scope) :
    (declarationsFrom audience scope statements).length = (outlinesOf statements).length := by
  induction statements generalizing scope with
  | nil => rfl
  | cons s statements ih =>
    cases s with
    | «namespace» name => exact ih _
    | imports pairs => exact ih _
    | declaration d => simpa [declarationsFrom, outlinesOf] using ih scope

end PhpPages
