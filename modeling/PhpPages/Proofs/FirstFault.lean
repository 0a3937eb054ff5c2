import PhpPages.Php.Walk

namespace PhpPages.Php

/-- Rows are counted from zero and lines from one. -/
theorem ParseError.message_malformed (row : Nat) :
    (malformed row).message = s!"syntax error near line {1 + row}" := by
  rw [Nat.add_comm]
  rfl

namespace Tree

mutual

/-- The nodes of a tree in source order: a node, then everything inside it, child by child. -/
def nodes : Tree → List Tree
  | ⟨kind, text, named, field, children, missing, row, flagged⟩ =>
    ⟨kind, text, named, field, children, missing, row, flagged⟩ :: nodesAmong children

def nodesAmong : List Tree → List Tree
  | [] => []
  | t :: rest => t.nodes ++ nodesAmong rest

end

mutual

/-- An error comes from somewhere: a node that reports one by itself, or a fault. -/
theorem hasError_iff :
    ∀ t : Tree, t.hasError = true ↔ ∃ n ∈ t.nodes, n.flagged = true ∨ n.isFault = true
  | ⟨kind, text, named, field, children, missing, row, flagged⟩ => by
    simp only [hasError, nodes, Bool.or_eq_true, anyHasError_iff children, isFault, List.mem_cons,
      exists_eq_or_imp, or_assoc]

theorem anyHasError_iff :
    ∀ ts : List Tree, anyHasError ts = true ↔
      ∃ n ∈ nodesAmong ts, n.flagged = true ∨ n.isFault = true
  | [] => by simp [anyHasError, nodesAmong]
  | t :: rest => by
    simp only [anyHasError, nodesAmong, Bool.or_eq_true, hasError_iff t, anyHasError_iff rest,
      List.mem_append, or_and_right, exists_or]

end

/-- Nothing is missed in a node that is not entered. -/
theorem find?_nodes_of_not_hasError {t : Tree} (h : t.hasError = false) :
    t.nodes.find? isFault = none := by
  apply List.find?_eq_none.mpr
  intro n hn hfault
  have herror : t.hasError = true := (hasError_iff t).mpr ⟨n, hn, .inr hfault⟩
  rw [h] at herror
  cases herror

mutual

/-- The search that leaves nodes out finds what the search through all nodes finds. -/
theorem firstFault_eq : ∀ t : Tree, t.firstFault = t.nodes.find? isFault
  | ⟨kind, text, named, field, children, missing, row, flagged⟩ => by
    rw [firstFault, nodes, List.find?_cons, firstFaultAmong_eq children]
    cases hfault : (kind == "ERROR" || missing) with
    | true => simp [isFault, hfault]
    | false => simp [isFault, hfault]

theorem firstFaultAmong_eq : ∀ ts : List Tree, firstFaultAmong ts = (nodesAmong ts).find? isFault
  | [] => by rw [firstFaultAmong, nodesAmong, List.find?_nil]
  | t :: rest => by
    rw [firstFaultAmong, nodesAmong, List.find?_append, firstFaultAmong_eq rest, firstFault_eq t]
    cases herror : t.hasError with
    -- An error need not come from a fault, so the search may come back out and go on with the rest.
    | true => exact Option.orElse_eq_or
    | false =>
      rw [find?_nodes_of_not_hasError herror]
      rfl

end

/-- A tree has an outline unless there is an error at its root. The error is placed at the first
node of the whole tree, in source order, that is a fault, and at the root if none is. -/
theorem outline_reports_first_fault (root : Tree) :
    root.firstFault = root.nodes.find? isFault ∧
    (root.firstFault = none ↔ ∀ n ∈ root.nodes, n.isFault = false) ∧
    ((∃ e, root.outline = .error e) ↔ root.hasError = true) ∧
    (root.hasError = true ↔ ∃ n ∈ root.nodes, n.flagged = true ∨ n.isFault = true) ∧
    ∀ e, root.outline = .error e →
      e.message = s!"syntax error near line {1 + ((root.nodes.find? isFault).getD root).row}" := by
  refine ⟨firstFault_eq root, ?_, ?_, hasError_iff root, ?_⟩
  · rw [firstFault_eq, List.find?_eq_none]
    simp only [Bool.not_eq_true]
  · cases herror : root.hasError with
    | true => simp only [outline, herror, ↓reduceIte, Except.error.injEq, exists_eq']
    | false =>
      simp only [outline, herror, Bool.false_eq_true, ↓reduceIte, reduceCtorEq, exists_false]
  · intro e he
    cases herror : root.hasError with
    | true =>
      simp only [outline, herror, ↓reduceIte, Except.error.injEq] at he
      rw [← he, ParseError.message_malformed, firstFault_eq]
    | false => simp only [outline, herror, Bool.false_eq_true, ↓reduceIte, reduceCtorEq] at he

/-- The first child reports an error without a fault, the second holds a missing node, the
third is a fault. -/
def threeErrors : Tree :=
  { kind := "program"
    children := [
      { kind := "echo_statement", row := 1, flagged := true,
        children := [{ kind := "integer", row := 1 }] },
      { kind := "expression_statement", row := 2,
        children := [{ kind := "integer", row := 2 },
          { kind := ";", named := false, missing := true, row := 3 }] },
      { kind := "ERROR", row := 4 }] }

theorem outline_reports_first_fault_threeErrors :
    threeErrors.outline = .error (.malformed 3) ∧ (ParseError.malformed 3).message =
    s!"syntax error near line {1 + ((threeErrors.nodes.find? isFault).getD threeErrors).row}" := by
  have houtline : threeErrors.outline = .error (.malformed 3) := rfl
  exact ⟨houtline, (outline_reports_first_fault threeErrors).2.2.2.2 _ houtline⟩

end Tree

end PhpPages.Php
