import Mathlib.Data.List.Forall2
import PhpPages.Php.Walk
import PhpPages.Proofs.Extraction
import PhpPages.Proofs.Text

namespace PhpPages.Php

open Text

/-- What a clause of an import says: a name, the alias it gives to it if any, and whether it is the
name of a class. -/
structure Clause where
  name : String
  short : Option String
  ofClass : Bool

namespace Clause

/-- The clause with its full name, which stands below the given namespace. -/
def below (above : String) (c : Clause) : Clause :=
  { c with name := above ++ "\\" ++ dropLeading ['\\'] c.name }

/-- Alias and name that a clause with a full name imports. The alias is the last segment if the
clause gives none. -/
def import? (c : Clause) : Option (String × String) :=
  if c.ofClass then
    let full := dropLeading ['\\'] c.name
    some (c.short.getD (lastPiece '\\' full), full)
  else none

end Clause

namespace Tree

/-- The node is the first one in a list with the property. -/
def First (p : Tree → Prop) (ts : List Tree) (t : Tree) : Prop :=
  ∃ before after, ts = before ++ t :: after ∧ p t ∧ ∀ c ∈ before, ¬ p c

def IsReference (t : Tree) : Prop :=
  t.named = true ∧ t.kind ∈ referenceKinds

def IsAliasing (t : Tree) : Prop :=
  t.named = true ∧ t.kind = "namespace_aliasing_clause"

/-- A child is one of the words `function` and `const`. -/
def HasWord (t : Tree) : Prop :=
  ∃ c ∈ t.children, c.kind = "function" ∨ c.kind = "const"

/-- The alias of a clause is the child in that place or, when there is none, what comes last in an
aliasing part. -/
inductive Renames (clause : Tree) : Option String → Prop where
  | field {short : Tree} (first : First (fun c => c.field = some "alias") clause.children short) :
      Renames clause (some short.source)
  | part {aliasing short : Tree} {others : List Tree}
      (empty : ∀ c ∈ clause.children, c.field ≠ some "alias")
      (first : First IsAliasing clause.children aliasing)
      (last : aliasing.namedChildren = others ++ [short]) : Renames clause (some short.source)
  | blank {aliasing : Tree} (empty : ∀ c ∈ clause.children, c.field ≠ some "alias")
      (first : First IsAliasing clause.children aliasing) (nothing : aliasing.namedChildren = []) :
      Renames clause none
  | nowhere (empty : ∀ c ∈ clause.children, c.field ≠ some "alias")
      (none : ∀ c ∈ clause.children, ¬ IsAliasing c) : Renames clause .none

/-- A node says what the clause says, in a declaration that may itself be one of functions
or constants. -/
structure Says (declaration t : Tree) (c : Clause) : Prop where
  name : ∃ node, First IsReference t.children node ∧ node.source = c.name
  short : Renames t c.short
  ofClass : c.ofClass = true ↔ ¬ declaration.HasWord ∧ ¬ t.HasWord

def isClause (t : Tree) : Bool :=
  t.kind == "namespace_use_clause" || t.kind == "namespace_use_group_clause"

/-- A declaration imports the names of its group, all of which stand below one namespace. -/
structure GroupUse (t : Tree) (above : String) (cs : List Clause) : Prop where
  kind : t.kind = "namespace_use_declaration"
  named : t.named = true
  name : ∃ node, t.namedChildren.filter (·.kind == "namespace_name") = [node] ∧ node.source = above
  group : ∃ node, t.namedChildren.filter (·.kind == "namespace_use_group") = [node] ∧
    List.Forall₂ (Says t) (node.namedChildren.filter isClause) cs

/-- A declaration imports a single name. -/
structure PlainUse (t : Tree) (c : Clause) : Prop where
  kind : t.kind = "namespace_use_declaration"
  named : t.named = true
  alone : ∀ node ∈ t.namedChildren, node.kind ≠ "namespace_name" ∧ node.kind ≠ "namespace_use_group"
  clause : ∃ node, t.namedChildren.filter isClause = [node] ∧ Says t node c

/-- A name below a namespace has no leading separator. -/
theorem dropLeading_below {above name : String} (hfront : above.toList.head? ≠ some '\\') :
    dropLeading ['\\'] (above ++ "\\" ++ dropLeading ['\\'] name) =
      if above.isEmpty then dropLeading ['\\'] name
      else above ++ "\\" ++ dropLeading ['\\'] name := by
  by_cases habove : above = ""
  · obtain ⟨_, _, hbare⟩ := bare_dropLeading name
    have hdrop : dropLeading ['\\'] ("" ++ "\\" ++ dropLeading ['\\'] name) =
        dropLeading ['\\'] (dropLeading ['\\'] name) := by
      simp [dropLeading]
    rw [habove, hdrop, dropLeading_of_head]
    · rfl
    · intro c hc hmem
      rw [List.mem_singleton.mp hmem] at hc
      exact hbare hc
  · obtain ⟨c, cs, hcs⟩ := List.exists_cons_of_ne_nil (mt String.toList_eq_nil_iff.mp habove)
    have hc : c ≠ '\\' := by simpa [hcs] using hfront
    rw [dropLeading_of_head (by simp [hcs, hc]), if_neg (by simpa using habove)]

/-- Searching with a test for the property finds the first node that has it. -/
theorem find?_eq_some_iff_first {p : Tree → Prop} {q : Tree → Bool} (hq : ∀ c, q c = true ↔ p c)
    {ts : List Tree} {t : Tree} : ts.find? q = some t ↔ First p ts t := by
  rw [List.find?_eq_some_iff_append]
  constructor
  · rintro ⟨ht, before, after, rfl, hbefore⟩
    exact ⟨before, after, rfl, (hq t).mp ht, fun c hc => by simpa [← hq] using hbefore c hc⟩
  · rintro ⟨before, after, rfl, ht, hbefore⟩
    exact ⟨(hq t).mpr ht, before, after, rfl, fun c hc => by simpa [← hq] using hbefore c hc⟩

/-- The first named child of some kind is the first child with both properties. -/
theorem find?_namedChildren (t : Tree) (q : Tree → Bool) :
    t.namedChildren.find? q = t.children.find? fun c => c.named && q c := by
  simp [namedChildren, List.find?_filter]

theorem importsNoClass_iff (t : Tree) : t.importsNoClass = true ↔ t.HasWord := by
  simp [importsNoClass, HasWord]

theorem isAliasing_iff (t : Tree) :
    (t.named && t.kind == "namespace_aliasing_clause") = true ↔ IsAliasing t := by
  simp [IsAliasing]

theorem Renames.clauseAlias?_eq {clause : Tree} {short : Option String} (h : Renames clause short) :
    clause.clauseAlias? = short := by
  have hempty : (∀ c ∈ clause.children, c.field ≠ some "alias") → clause.child? "alias" = none := by
    intro hall
    simpa [child?] using hall
  unfold clauseAlias?
  cases h with
  | field first =>
    have hfind : clause.child? "alias" = some _ := (find?_eq_some_iff_first (by simp)).mpr first
    rw [hfind]
  | part empty first last =>
    simp [hempty empty, find?_namedChildren, (find?_eq_some_iff_first isAliasing_iff).mpr first,
      last]
  | blank empty first nothing =>
    simp [hempty empty, find?_namedChildren, (find?_eq_some_iff_first isAliasing_iff).mpr first,
      nothing]
  | nowhere empty none =>
    have hnone :
        (clause.children.find? fun c => c.named && c.kind == "namespace_aliasing_clause") = .none :=
      List.find?_eq_none.mpr fun c hc => mt (isAliasing_iff c).mp (none c hc)
    simp [hempty empty, find?_namedChildren, hnone]

/-- Every clause has an alias or none. -/
theorem renames_clauseAlias? (clause : Tree) : Renames clause clause.clauseAlias? := by
  cases hfield : clause.child? "alias" with
  | some short =>
    have hshort : clause.clauseAlias? = some short.source := by simp [clauseAlias?, hfield]
    rw [hshort]
    exact .field ((find?_eq_some_iff_first (by simp)).mp hfield)
  | none =>
    have hempty : ∀ c ∈ clause.children, c.field ≠ some "alias" := by simpa [child?] using hfield
    cases hpart :
        clause.children.find? fun c => c.named && c.kind == "namespace_aliasing_clause" with
    | none =>
      have hnone : clause.clauseAlias? = none := by
        simp [clauseAlias?, hfield, find?_namedChildren, hpart]
      rw [hnone]
      refine .nowhere hempty fun c hc => ?_
      simpa [← isAliasing_iff] using List.find?_eq_none.mp hpart c hc
    | some aliasing =>
      have hfirst : First IsAliasing clause.children aliasing :=
        (find?_eq_some_iff_first isAliasing_iff).mp hpart
      have hlast : clause.clauseAlias? = aliasing.namedChildren.getLast?.map source := by
        cases hnodes : aliasing.namedChildren.getLast? with
        | none => simp [clauseAlias?, hfield, find?_namedChildren, hpart, hnodes]
        | some short => simp [clauseAlias?, hfield, find?_namedChildren, hpart, hnodes]
      rw [hlast]
      cases hnodes : aliasing.namedChildren.getLast? with
      | none => exact .blank hempty hfirst (List.getLast?_eq_none_iff.mp hnodes)
      | some short =>
        obtain ⟨others, hothers⟩ := List.getLast?_eq_some_iff.mp hnodes
        exact .part hempty hfirst hothers

/-- What a node says can be read off it. -/
theorem says_iff {declaration t : Tree} {c : Clause} :
    Says declaration t c ↔
      (t.namedChildren.find? fun node => referenceKinds.contains node.kind).map source =
        some c.name ∧
      t.clauseAlias? = c.short ∧
      c.ofClass = !(declaration.importsNoClass || t.importsNoClass) := by
  have href : ∀ node : Tree, (node.named && referenceKinds.contains node.kind) = true ↔
      IsReference node := by
    simp [IsReference]
  have hword : (c.ofClass = true ↔ ¬ declaration.HasWord ∧ ¬ t.HasWord) ↔
      c.ofClass = !(declaration.importsNoClass || t.importsNoClass) := by
    rw [← importsNoClass_iff, ← importsNoClass_iff]
    cases c.ofClass <;> cases declaration.importsNoClass <;> cases t.importsNoClass <;> decide
  rw [find?_namedChildren, ← hword]
  constructor
  · intro h
    obtain ⟨node, first, hsource⟩ := h.name
    refine ⟨?_, h.short.clauseAlias?_eq, h.ofClass⟩
    rw [(find?_eq_some_iff_first href).mpr first, Option.map_some, hsource]
  · intro h
    obtain ⟨node, hnode, hsource⟩ := Option.map_eq_some_iff.mp h.1
    exact ⟨⟨node, (find?_eq_some_iff_first href).mp hnode, hsource⟩,
      h.2.1 ▸ renames_clauseAlias? t, h.2.2⟩

/-- What a clause imports whose name stands below a namespace, unless the declaration
imports no classes. -/
theorem Says.clauseImport?_eq {declaration t : Tree} {c : Clause} {above : String}
    (h : Says declaration t c) (hclause : t.isClause = true) (hword : ¬ declaration.HasWord)
    (hfront : above.toList.head? ≠ some '\\') :
    clauseImport? above t = (c.below above).import? := by
  obtain ⟨hname, hshort, hof⟩ := says_iff.mp h
  obtain ⟨node, hnode, hsource⟩ := Option.map_eq_some_iff.mp hname
  have hkind :
      (t.kind == "namespace_use_clause" || t.kind == "namespace_use_group_clause") = true := hclause
  have hclass : t.importsNoClass = !c.ofClass := by
    rw [← importsNoClass_iff, Bool.not_eq_true] at hword
    simp [hof, hword]
  rw [clauseImport?, hkind, hclass, hnode]
  cases hc : c.ofClass with
  | false => simp [Clause.import?, Clause.below, hc]
  | true => simp [hsource, hshort, Clause.import?, Clause.below, hc, dropLeading_below hfront]

/-- The clauses of a declaration import what they say. -/
theorem filterMap_clauseImport? {declaration : Tree} {nodes : List Tree} {cs : List Clause}
    {above : String} (h : List.Forall₂ (Says declaration) (nodes.filter isClause) cs)
    (hword : ¬ declaration.HasWord) (hfront : above.toList.head? ≠ some '\\') :
    nodes.filterMap (clauseImport? above) = cs.filterMap fun c => (c.below above).import? := by
  induction nodes generalizing cs with
  | nil =>
    cases h
    rfl
  | cons node nodes ih =>
    cases hnode : node.isClause with
    | false =>
      have hnone : clauseImport? above node = none := by
        simp only [isClause] at hnode
        simp [clauseImport?, hnode]
      rw [List.filter_cons_of_neg (by simp [hnode])] at h
      rw [List.filterMap_cons_none hnone]
      exact ih h
    | true =>
      rw [List.filter_cons_of_pos hnode] at h
      cases h with
      | cons hfirst hrest =>
        rw [List.filterMap_cons, List.filterMap_cons,
          hfirst.clauseImport?_eq hnode hword hfront, ih hrest]

/-- In a declaration of functions or constants no clause is of a class. -/
theorem filterMap_import?_of_word {declaration : Tree} {nodes : List Tree} {cs : List Clause}
    {above : String} (h : List.Forall₂ (Says declaration) nodes cs) (hword : declaration.HasWord) :
    (cs.filterMap fun c => (c.below above).import?) = [] := by
  induction h with
  | nil => rfl
  | @cons _ c _ _ hfirst hrest ih =>
    have hof : ¬ c.ofClass = true := fun hc => (hfirst.ofClass.mp hc).1 hword
    rw [List.filterMap_cons_none, ih]
    simp [Clause.import?, Clause.below, hof]

theorem find?_reverse_of_filter {ts : List Tree} {q : Tree → Bool} {t : Tree}
    (h : ts.filter q = [t]) : ts.reverse.find? q = some t := by
  rw [← List.head?_filter, List.filter_reverse, h]
  rfl

/-- A declaration imports what its clauses say, with names below a namespace, if these are the nodes
that it reads. -/
theorem imports_eq_of_says {t : Tree} {nodes : List Tree} {cs : List Clause} {above : String}
    (hread : ¬ t.HasWord → t.imports = nodes.filterMap (clauseImport? above))
    (h : List.Forall₂ (Says t) (nodes.filter isClause) cs)
    (hfront : above.toList.head? ≠ some '\\') :
    t.imports = cs.filterMap fun c => (c.below above).import? := by
  by_cases hword : t.HasWord
  · rw [imports, if_pos ((importsNoClass_iff t).mpr hword), filterMap_import?_of_word h hword]
  · rw [hread hword, filterMap_clauseImport? h hword hfront]

theorem GroupUse.imports_eq {t : Tree} {above : String} {cs : List Clause} (h : GroupUse t above cs)
    (hfront : above.toList.head? ≠ some '\\') :
    t.imports = cs.filterMap fun c => (c.below above).import? := by
  obtain ⟨name, hname, hsource⟩ := h.name
  obtain ⟨group, hgroup, hclauses⟩ := h.group
  refine imports_eq_of_says (fun hword => ?_) hclauses hfront
  rw [imports, if_neg (by simpa [importsNoClass_iff] using hword), find?_reverse_of_filter hname,
    find?_reverse_of_filter hgroup]
  simp only [Option.map_some, Option.getD_some, hsource]

/-- A full name is one below no namespace. -/
theorem import?_below_empty (c : Clause) : (c.below "").import? = c.import? := by
  rw [Clause.import?, Clause.below, dropLeading_below (by simp)]
  rfl

theorem PlainUse.imports_eq {t : Tree} {c : Clause} (h : PlainUse t c) :
    t.imports = c.import?.toList := by
  obtain ⟨clause, hclause, hmeans⟩ := h.clause
  have hclauses : List.Forall₂ (Says t) (t.namedChildren.filter isClause) [c] := by
    rw [hclause]
    exact .cons hmeans .nil
  have hname : t.namedChildren.reverse.find? (·.kind == "namespace_name") = none := by
    refine List.find?_eq_none.mpr fun node hnode => ?_
    simpa using (h.alone node (List.mem_reverse.mp hnode)).1
  have hgroup : t.namedChildren.reverse.find? (·.kind == "namespace_use_group") = none := by
    refine List.find?_eq_none.mpr fun node hnode => ?_
    simpa using (h.alone node (List.mem_reverse.mp hnode)).2
  have himports : t.imports = [c].filterMap fun c => (c.below "").import? := by
    refine imports_eq_of_says (fun hword => ?_) hclauses (by simp)
    rw [imports, if_neg (by simpa [importsNoClass_iff] using hword), hname, hgroup]
    rfl
  rw [himports]
  cases hc : c.import? with
  | none => simp [import?_below_empty, hc]
  | some pair => simp [import?_below_empty, hc]

/-- Declarations that each import a single name import these names in their order. -/
theorem flatMap_imports_eq {ds : List Tree} {cs : List Clause} (h : List.Forall₂ PlainUse ds cs) :
    ds.flatMap imports = cs.filterMap Clause.import? := by
  rw [List.filterMap_eq_flatMap_toList]
  induction h with
  | nil => rfl
  | cons huse _ ih => rw [List.flatMap_cons, List.flatMap_cons, huse.imports_eq, ih]

/-- A declaration of imports changes the scope by its imports, whether or not it
makes a statement. -/
theorem foldl_visit_use {t : Tree} (hkind : t.kind = "namespace_use_declaration")
    (hnamed : t.named = true) (previous : Option Tree) (rest : List Tree) (scope : Scope) :
    (statementsAmong previous (t :: rest)).foldl Scope.visit scope =
      (statementsAmong (some t) rest).foldl Scope.visit (scope.visit (.imports t.imports)) := by
  have hstatements : statements previous t = (plainStatement? previous t).toList := by
    cases t
    cases hkind
    simp [statements]
  rw [statementsAmong, if_pos hnamed, List.foldl_append, hstatements, plainStatement?,
    if_pos (by simp [hkind])]
  by_cases hempty : t.imports = []
  · simp [hempty, Scope.visit]
  · simp [hempty]

theorem foldl_visit_uses {ds : List Tree} {cs : List Clause} (h : List.Forall₂ PlainUse ds cs)
    (previous : Option Tree) (scope : Scope) :
    (statementsAmong previous ds).foldl Scope.visit scope =
      scope.visit (.imports (ds.flatMap imports)) := by
  induction h generalizing previous scope with
  | nil => rfl
  | cons huse _ ih =>
    rw [foldl_visit_use huse.kind huse.named, ih, List.flatMap_cons]
    simp only [Scope.visit, List.foldl_append]

/-- A group imports, in their order, what its clauses import when each is written with its full name
in a declaration of its own, and a scope resolves every reference behind the group as it does behind
these declarations. -/
theorem group_imports_spelled_out {t : Tree} {above : String} {cs : List Clause} {ds : List Tree}
    (h : GroupUse t above cs) (hfront : above.toList.head? ≠ some '\\')
    (hds : List.Forall₂ PlainUse ds (cs.map (Clause.below above))) :
    t.imports = ds.flatMap imports ∧ (t.imports = cs.filterMap fun c => (c.below above).import?) ∧
      ∀ previous scope reference,
        ((statementsAmong previous [t]).foldl Scope.visit scope).resolve reference =
        ((statementsAmong previous ds).foldl Scope.visit scope).resolve reference := by
  have himports := h.imports_eq hfront
  have hsame : t.imports = ds.flatMap imports := by
    rw [himports, flatMap_imports_eq hds, List.filterMap_map]
    rfl
  refine ⟨hsame, himports, ?_⟩
  intro previous scope reference
  rw [foldl_visit_use h.kind h.named, foldl_visit_uses hds, hsame]
  rfl

/-- A function, a class and a class with an alias below `P`. -/
def sampleClauses : List Clause :=
  [⟨"f", none, false⟩, ⟨"X", none, true⟩, ⟨"Y\\Z", some "W", true⟩]

def sampleAlias : List Tree :=
  [{ kind := "as", named := false }, { kind := "name", text := some "W", field := some "alias" }]

def sampleGroup : Tree :=
  { kind := "namespace_use_declaration"
    children :=
      [{ kind := "use", named := false }, { kind := "namespace_name", text := some "P" },
        { kind := "namespace_use_group"
          children :=
            [{ kind := "namespace_use_clause"
               children :=
                 [{ kind := "function", named := false }, { kind := "name", text := some "f" }] },
              { kind := "comment", text := some "/* classes */" },
              { kind := "namespace_use_clause",
                children := [{ kind := "name", text := some "X" }] },
              { kind := "namespace_use_clause"
                children := { kind := "qualified_name", text := some "Y\\Z" } :: sampleAlias }] }] }

/-- A declaration with the given words, and a clause with the name and the nodes behind it. -/
def samplePlain (words : List Tree) (name : String) (behind : List Tree) : Tree :=
  { kind := "namespace_use_declaration"
    children :=
      words ++ [{ kind := "namespace_use_clause"
                  children := { kind := "qualified_name", text := some name } :: behind }] }

def samplePlains : List Tree :=
  [samplePlain [{ kind := "function", named := false }] "P\\f" [], samplePlain [] "P\\X" [],
    samplePlain [] "P\\Y\\Z" sampleAlias]

theorem group_imports_spelled_out_sample :
    GroupUse sampleGroup "P" sampleClauses ∧
      List.Forall₂ PlainUse samplePlains (sampleClauses.map (Clause.below "P")) ∧
      sampleGroup.imports = [("X", "P\\X"), ("W", "P\\Y\\Z")] ∧
      samplePlains.flatMap imports = [("X", "P\\X"), ("W", "P\\Y\\Z")] := by
  have hgroup : GroupUse sampleGroup "P" sampleClauses := by
    refine ⟨rfl, rfl, ⟨_, rfl, rfl⟩, ⟨_, rfl, ?_⟩⟩
    exact .cons (says_iff.mpr (by decide))
      (.cons (says_iff.mpr (by decide)) (.cons (says_iff.mpr (by decide)) .nil))
  have hplains : List.Forall₂ PlainUse samplePlains (sampleClauses.map (Clause.below "P")) := by
    refine .cons ⟨rfl, rfl, by decide, ⟨_, rfl, ?_⟩⟩ (.cons ⟨rfl, rfl, by decide, ⟨_, rfl, ?_⟩⟩
      (.cons ⟨rfl, rfl, by decide, ⟨_, rfl, ?_⟩⟩ .nil))
    all_goals exact says_iff.mpr (by decide +kernel)
  obtain ⟨hsame, himports, _⟩ := group_imports_spelled_out hgroup (by decide) hplains
  have hvalue : sampleGroup.imports = [("X", "P\\X"), ("W", "P\\Y\\Z")] := by
    rw [himports]
    decide +kernel
  exact ⟨hgroup, hplains, hvalue, hsame ▸ hvalue⟩

end Tree

end PhpPages.Php
