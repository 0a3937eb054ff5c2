import PhpPages.Proofs.Extraction

namespace PhpPages

open Php

namespace Php

/-- The declaration names a class that is resolved. A class has one parent, an interface may
have several. -/
def DeclarationOutline.Refers (d : DeclarationOutline) (reference : String) : Prop :=
  (d.kind = .class ∧ d.extends.head? = some reference) ∨
    (d.kind = .interface ∧ reference ∈ d.extends) ∨ reference ∈ d.implements ∨ reference ∈ d.mixins

theorem targetBehind_append (before rest : List Statement) (short : String) :
    targetBehind (before ++ rest) short =
      (targetBehind rest short).or (targetBehind before short) := by
  have hpairs : importsOf (before ++ rest) = importsOf before ++ importsOf rest := by
    simp [importsOf]
  simp only [targetBehind, hpairs, List.filter_append, List.getLast?_append]
  cases ((importsOf rest).filter fun pair => pair.1 = short).getLast? with
  | none => rfl
  | some pair => rfl

theorem targetBehind_namespace (name : Option String) (rest : List Statement) (short : String) :
    targetBehind (.namespace name :: rest) short = targetBehind rest short :=
  rfl

theorem namespacesOf_append (statements rest : List Statement) :
    namespacesOf (statements ++ rest) = namespacesOf statements ++ namespacesOf rest := by
  simp [namespacesOf]

/-- What comes before a namespace statement has no say in the namespace. -/
theorem namespaceBehind_append (before : List Statement) (name : Option String)
    (rest : List Statement) :
    namespaceBehind (before ++ .namespace name :: rest) =
      namespaceBehind (.namespace name :: rest) := by
  have hlast : (namespacesOf (.namespace name :: rest)).getLast? ≠ none := by
    simp [namespacesOf]
  simp only [namespaceBehind, namespacesOf_append, List.getLast?_append]
  cases hl : (namespacesOf (.namespace name :: rest)).getLast? with
  | none => exact absurd hl hlast
  | some last => rfl

section

variable {before front : List Statement} {name : Option String} {reference full : String}

/-- A meaning behind the namespace statement alone stays one behind everything, unless the reference
falls back on an import from before. -/
theorem Means.behind (h : Means (.namespace name :: front) reference full)
    (hback : reference.toList.head? ≠ some '\\' → targetBehind front reference = none →
      targetBehind before reference = none) :
    Means (before ++ .namespace name :: front) reference full := by
  have htarget := targetBehind_append before (.namespace name :: front) reference
  rw [targetBehind_namespace] at htarget
  have hspace := namespaceBehind_append before name front
  have hfront : '\\' ∉ reference.toList → reference.toList.head? ≠ some '\\' :=
    fun hn hh => hn (List.mem_of_head? hh)
  cases h with
  | absolute front bare => exact .absolute front bare
  | imported front last bare =>
    rw [targetBehind_namespace] at last
    apply Means.imported front _ bare
    rw [htarget, last]
    rfl
  | qualified front unknown inner =>
    rw [targetBehind_namespace] at unknown
    apply Means.qualified front _ inner
    rw [htarget, unknown, hback front unknown]
    rfl
  | member unknown simple inside =>
    rw [targetBehind_namespace] at unknown
    apply Means.member _ simple (hspace.trans inside)
    rw [htarget, unknown, hback (hfront simple) unknown]
    rfl
  | top unknown simple outside =>
    rw [targetBehind_namespace] at unknown
    apply Means.top _ simple (hspace.trans outside)
    rw [htarget, unknown, hback (hfront simple) unknown]
    rfl

/-- A reference that is imported before the namespace statement and not behind it
means the target. -/
theorem means_imported_before {target : String} (hfront : reference.toList.head? ≠ some '\\')
    (hunknown : targetBehind front reference = none)
    (hlast : targetBehind before reference = some target) (hbare : Bare target full) :
    Means (before ++ .namespace name :: front) reference full := by
  apply Means.imported hfront _ hbare
  rw [targetBehind_append, targetBehind_namespace, hunknown, hlast]
  rfl

end

end Php

namespace Scope

/-- Behind a namespace statement the scope has the new namespace and all imports so far. -/
theorem enter_foldl (before : List Statement) (name : Option String) :
    (before.foldl visit {}).enter name =
      visit (({} : Scope).enter name) (.imports (importsOf before)) := by
  have haliases := aliases_foldl before {}
  have haliases' := aliases_imports (importsOf before) (({} : Scope).enter name)
  have hcurrent := current_imports (importsOf before) (({} : Scope).enter name)
  cases hs : visit (({} : Scope).enter name) (.imports (importsOf before)) with
  | mk current aliases =>
    rw [hs] at haliases' hcurrent
    simp only [enter] at hcurrent haliases' ⊢
    rw [haliases, haliases', hcurrent]

/-- The scope behind everything and the one behind the namespace statement alone resolve a reference
alike, unless it falls back on an import from before and means another name without it. -/
theorem resolve_behind_iff (before : List Statement) (name : Option String) (front : List Statement)
    (reference : String) :
    ((before ++ .namespace name :: front).foldl visit {}).resolve reference =
        ((.namespace name :: front).foldl visit {}).resolve reference ↔
      (reference.toList.head? ≠ some '\\' → targetBehind front reference = none →
        ∀ target full, targetBehind before reference = some target → Bare target full →
          Means (.namespace name :: front) reference full) := by
  have hall := resolve_means (before ++ .namespace name :: front) reference
  have halone := resolve_means (.namespace name :: front) reference
  constructor
  · intro heq hfront hunknown target full hlast hbare
    rw [heq] at hall
    have himported : Means (before ++ .namespace name :: front) reference full :=
      means_imported_before hfront hunknown hlast hbare
    rw [himported.unique hall]
    exact halone
  · intro h
    by_cases hback : reference.toList.head? ≠ some '\\' → targetBehind front reference = none →
        targetBehind before reference = none
    · exact hall.unique (halone.behind hback)
    · simp only [Classical.not_imp, ← ne_eq] at hback
      obtain ⟨hfront, hunknown, hlast⟩ := hback
      obtain ⟨target, htarget⟩ := Option.ne_none_iff_exists'.mp hlast
      have hbare := bare_dropLeading target
      have himported : Means (before ++ .namespace name :: front) reference _ :=
        means_imported_before hfront hunknown htarget hbare
      rw [hall.unique himported]
      exact (h hfront hunknown target _ htarget hbare).unique halone

end Scope

/-- Two scopes give the same declaration if they have the same namespace and resolve its
references alike. -/
theorem ofOutline_eq_iff (audience : Audience) (s t : Scope) (d : DeclarationOutline) :
    Declaration.ofOutline audience s d = .ofOutline audience t d ↔
      s.current = t.current ∧ ∀ reference, d.Refers reference →
        s.resolve reference = t.resolve reference := by
  constructor
  · intro h
    have hcontracts : d.extends.map s.resolve = d.extends.map t.resolve ∨ d.kind ≠ .interface := by
      by_cases hk : d.kind = .interface
      · have hc := congrArg Declaration.contracts h
        simp only [Declaration.ofOutline, hk, ↓reduceIte] at hc
        exact .inl (List.append_inj_left hc (by simp))
      · exact .inr hk
    have himplements : d.implements.map s.resolve = d.implements.map t.resolve :=
      List.append_inj_right' (congrArg Declaration.contracts h) (by simp)
    refine ⟨congrArg Declaration.namespace h, ?_⟩
    intro reference hr
    obtain ⟨hk, hhead⟩ | ⟨hk, hm⟩ | hm | hm := hr
    · have hsuper := congrArg Declaration.superType h
      simpa [Declaration.ofOutline, hk, hhead] using hsuper
    · exact List.map_inj_left.mp (hcontracts.resolve_right (not_not_intro hk)) reference hm
    · exact List.map_inj_left.mp himplements reference hm
    · exact List.map_inj_left.mp (congrArg Declaration.mixins h) reference hm
  · intro h
    obtain ⟨hcurrent, hresolve⟩ := h
    have himplements : d.implements.map s.resolve = d.implements.map t.resolve :=
      List.map_congr_left fun r hr => hresolve r (.inr (.inr (.inl hr)))
    have hmixins : d.mixins.map s.resolve = d.mixins.map t.resolve :=
      List.map_congr_left fun r hr => hresolve r (.inr (.inr (.inr hr)))
    simp only [Declaration.ofOutline, hcurrent, himplements, hmixins, Declaration.mk.injEq,
      true_and, and_true, List.append_cancel_right_eq]
    constructor
    · split
      · rename_i hk
        apply Option.map_congr
        intro r hr
        exact hresolve r (.inl ⟨hk, hr⟩)
      · rfl
    · split
      · rename_i hk
        apply List.map_congr_left
        intro r hr
        exact hresolve r (.inr (.inl ⟨hk, hr⟩))
      · rfl

/-- Two scopes give the same declarations if they do so at each outline. -/
theorem declarationsFrom_eq_iff (audience : Audience) (block : List Statement) (s t : Scope) :
    declarationsFrom audience s block = declarationsFrom audience t block ↔
      ∀ front d rest, block = front ++ .declaration d :: rest →
        Declaration.ofOutline audience (front.foldl Scope.visit s) d =
          .ofOutline audience (front.foldl Scope.visit t) d := by
  constructor
  · intro h front d rest hb
    rw [hb, declarationsFrom_append, declarationsFrom_append] at h
    have hl : (declarationsFrom audience s front).length =
        (declarationsFrom audience t front).length := by
      rw [length_declarationsFrom, length_declarationsFrom]
    exact (List.cons.inj (List.append_inj_right h hl)).1
  · intro h
    induction block generalizing s t with
    | nil => rfl
    | cons statement block ih =>
      have hrest : declarationsFrom audience (s.visit statement) block =
          declarationsFrom audience (t.visit statement) block := by
        apply ih
        intro front d rest hb
        exact h (statement :: front) d rest (by rw [hb]; rfl)
      cases statement with
      | «namespace» name => exact hrest
      | imports pairs => exact hrest
      | declaration d =>
        have hd := h [] d block rfl
        simp only [List.foldl_nil] at hd
        simp only [declarationsFrom, hd, List.cons.injEq, true_and]
        exact hrest

/-- No reference behind the namespace statement owes its meaning to an import before it: one that
falls back on such an import means the same without it. -/
def Independent (before : List Statement) (name : Option String) (block : List Statement) : Prop :=
  ∀ front d rest reference, block = front ++ .declaration d :: rest → d.Refers reference →
    reference.toList.head? ≠ some '\\' → targetBehind front reference = none →
    ∀ target full, targetBehind before reference = some target → Bare target full →
      Means (.namespace name :: front) reference full

/-- What is documented behind a namespace statement: of everything before it, the imports count and
nothing else, and they count exactly if some reference depends on them. -/
theorem imports_outlast_namespace (audience : Audience) (before : List Statement)
    (name : Option String) (block : List Statement) :
    (declarations audience (before ++ .namespace name :: block)).drop (outlinesOf before).length =
        declarations audience (.namespace name :: .imports (importsOf before) :: block) ∧
    ((declarations audience (before ++ .namespace name :: block)).drop (outlinesOf before).length =
        declarations audience (.namespace name :: block) ↔ Independent before name block) := by
  have hdrop :
      (declarations audience (before ++ .namespace name :: block)).drop (outlinesOf before).length =
      declarationsFrom audience ((before.foldl Scope.visit {}).enter name) block := by
    rw [declarations, declarationsFrom_append, ← length_declarationsFrom audience before {},
      List.drop_left]
    rfl
  constructor
  · rw [hdrop, Scope.enter_foldl]
    rfl
  · have hscope : ∀ front : List Statement,
      front.foldl Scope.visit ((before.foldl Scope.visit {}).enter name) =
        (before ++ .namespace name :: front).foldl Scope.visit {} := by
      intro front
      rw [List.foldl_append]
      rfl
    have hcurrent : ∀ front : List Statement,
        ((before ++ .namespace name :: front).foldl Scope.visit {}).current =
          ((.namespace name :: front).foldl Scope.visit {}).current := by
      intro front
      rw [Scope.current_behind, Scope.current_behind, namespaceBehind_append]
    rw [hdrop]
    refine (declarationsFrom_eq_iff audience block _ _).trans ?_
    constructor
    · intro h front d rest reference hb hr
      have hd := h front d rest hb
      rw [hscope] at hd
      exact (Scope.resolve_behind_iff before name front reference).mp
        (((ofOutline_eq_iff audience _ _ d).mp hd).2 reference hr)
    · intro h front d rest hb
      rw [hscope]
      apply (ofOutline_eq_iff audience _ _ d).mpr
      refine ⟨hcurrent front, ?_⟩
      intro reference hr
      exact (Scope.resolve_behind_iff before name front reference).mpr
        (h front d rest reference hb hr)

/-- A namespace with an import, and a class in another namespace whose parent has the name
of the alias. -/
def firstNamespace : List Statement :=
  [.namespace (some "First"), .imports [("A", "X\\A")]]

def secondBlock : List Statement :=
  [.declaration { kind := .class, name := "B", «extends» := ["A"] }]

/-- The class gets its parent by the import of the other namespace. -/
theorem import_crosses_namespace : namespacesOf secondBlock = [] ∧
    (declarations {} (firstNamespace ++ .namespace (some "Second") :: secondBlock)).drop
        (outlinesOf firstNamespace).length ≠
      declarations {} (.namespace (some "Second") :: secondBlock) := by
  decide +kernel

end PhpPages
