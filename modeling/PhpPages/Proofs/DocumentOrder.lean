import PhpPages.Php.Walk
import PhpPages.Proofs.Text

namespace PhpPages.Php

/-- Where a node stands in a tree: which child to take, from the root down. Positions are in
document order: what is inside a node comes behind the node and before the siblings behind it. -/
abbrev Position := List Nat

namespace Position

theorem lt_of_inside {p q : Position} {i : Nat} (h : p ++ [i] <+: q) : p < q := by
  obtain ⟨rest, rfl⟩ := h
  induction p with
  | nil => exact List.nil_lt_cons i rest
  | cons a p ih => exact List.cons_lt_cons_iff.mpr (.inr ⟨rfl, ih⟩)

/-- What stands inside a sibling comes before what stands inside a later one. -/
theorem lt_of_siblings {p q q' : Position} {i j : Nat} (hij : i < j) (h : p ++ [i] <+: q)
    (h' : p ++ [j] <+: q') : q < q' := by
  obtain ⟨rest, rfl⟩ := h
  obtain ⟨rest', rfl⟩ := h'
  rw [List.append_assoc, List.append_assoc]
  exact List.append_left_lt (List.cons_lt_cons_iff.mpr (.inl hij))

end Position

namespace Tree

/-- The last named node of a list. -/
def lastNamed? (ts : List Tree) : Option Tree :=
  (ts.filter (·.named)).getLast?

theorem lastNamed?_snoc (ts : List Tree) (t : Tree) :
    lastNamed? (ts ++ [t]) = if t.named then some t else lastNamed? ts := by
  cases ht : t.named with
  | true => simp [lastNamed?, ht]
  | false => simp [lastNamed?, ht]

/-- The body of a node: the first child in that place, behind the given siblings. -/
structure IsBody (t : Tree) (before : List Tree) (body : Tree) : Prop where
  child : ∃ after, t.children = before ++ body :: after
  field : body.field = some "body"
  first : ∀ c ∈ before, c.field ≠ some "body"

/-- From the children of the node at a position the walk comes to a node: to a named child,
or through the body of a named child that is a namespace. It knows the named node before the
one it comes to. -/
inductive Visits : Position → List Tree → Position → Option Tree → Tree → Prop where
  | child {p : Position} {before after : List Tree} {t : Tree} (named : t.named = true) :
      Visits p (before ++ t :: after) (p ++ [before.length]) (lastNamed? before) t
  | inside {p q : Position} {before after front : List Tree} {t body u : Tree}
      {previous : Option Tree} (named : t.named = true)
      (isNamespace : t.kind = "namespace_definition") (isBody : t.IsBody front body)
      (visits : Visits (p ++ [before.length, front.length]) body.children q previous u) :
      Visits p (before ++ t :: after) q previous u

/-- The name that a namespace is given. A global one has none. -/
def namespaceName? (t : Tree) : Option String :=
  let name := t.childSource "name"
  if name.isEmpty then none else some name

/-- The statement that a node makes, given the named node before it. -/
inductive Makes (previous : Option Tree) (t : Tree) : Statement → Prop where
  | «namespace» (kind : t.kind = "namespace_definition") :
      Makes previous t (.namespace t.namespaceName?)
  | imports (kind : t.kind = "namespace_use_declaration") (some : t.imports ≠ []) :
      Makes previous t (.imports t.imports)
  | «class» (kind : t.kind = "class_declaration") :
      Makes previous t (.declaration (t.declaration .class (docText previous)))
  | interface (kind : t.kind = "interface_declaration") :
      Makes previous t (.declaration (t.declaration .interface (docText previous)))
  | mixin (kind : t.kind = "trait_declaration") :
      Makes previous t (.declaration (t.declaration .mixin (docText previous)))

theorem makes_namespace_iff {previous : Option Tree} {t : Tree} {s : Statement}
    (h : t.kind = "namespace_definition") :
    Makes previous t s ↔ s = .namespace t.namespaceName? := by
  constructor
  · intro hs
    cases hs with
    | «namespace» => rfl
    | imports kind => simp [h] at kind
    | «class» kind => simp [h] at kind
    | interface kind => simp [h] at kind
    | mixin kind => simp [h] at kind
  · intro hs
    rw [hs]
    exact .namespace h

theorem makes_plain_iff {previous : Option Tree} {t : Tree} {s : Statement}
    (h : t.kind ≠ "namespace_definition") :
    Makes previous t s ↔ t.plainStatement? previous = some s := by
  constructor
  · intro hs
    cases hs with
    | «namespace» kind => exact absurd kind h
    | imports kind hsome => simp [plainStatement?, kind, hsome]
    | «class» kind => simp [plainStatement?, declarationKind?, kind]
    | interface kind => simp [plainStatement?, declarationKind?, kind]
    | mixin kind => simp [plainStatement?, declarationKind?, kind]
  · intro hs
    unfold plainStatement? at hs
    split at hs
    · rename_i kind
      split at hs
      · cases hs
      · rename_i hsome
        cases hs
        exact .imports (by simpa using kind) (by simpa using hsome)
    · obtain ⟨kind, hkind, rfl⟩ := Option.map_eq_some_iff.mp hs
      unfold declarationKind? at hkind
      split at hkind
      · rename_i isClass
        cases hkind
        exact .class (by simpa using isClass)
      · split at hkind
        · rename_i isInterface
          cases hkind
          exact .interface (by simpa using isInterface)
        · split at hkind
          · rename_i isMixin
            cases hkind
            exact .mixin (by simpa using isMixin)
          · cases hkind

mutual

/-- The statements of a node at a position, each with the position of the node that makes it. -/
def placed (p : Position) (previous : Option Tree) : Tree → List (Position × Statement)
  | ⟨kind, text, named, field, children, missing, row, flagged⟩ =>
    let t : Tree := ⟨kind, text, named, field, children, missing, row, flagged⟩
    if kind == "namespace_definition" then
      (p, .namespace t.namespaceName?) :: placedInBody p 0 children
    else ((plainStatement? previous t).map fun s => (p, s)).toList

/-- The same for the first node in the field `body` among children, the first of which has the
given number. -/
def placedInBody (p : Position) (i : Nat) : List Tree → List (Position × Statement)
  | [] => []
  | ⟨_, _, _, field, children, _, _, _⟩ :: rest =>
    if field == some "body" then placedAmong (p ++ [i]) 0 none children
    else placedInBody p (i + 1) rest

/-- The same for the named nodes among children, the first of which has the given number. -/
def placedAmong (p : Position) (i : Nat) (previous : Option Tree) :
    List Tree → List (Position × Statement)
  | [] => []
  | t :: rest =>
    if t.named then placed (p ++ [i]) previous t ++ placedAmong p (i + 1) (some t) rest
    else placedAmong p (i + 1) previous rest

end

mutual

theorem map_placed (p : Position) (previous : Option Tree) :
    ∀ t : Tree, (placed p previous t).map (·.2) = statements previous t
  | ⟨kind, text, named, field, children, missing, row, flagged⟩ => by
    rw [placed, statements]
    split
    · rw [List.map_cons, map_placedInBody p 0 children]
      rfl
    · cases plainStatement? previous _ with
      | none => rfl
      | some s => rfl

theorem map_placedInBody (p : Position) (i : Nat) :
    ∀ ts : List Tree, (placedInBody p i ts).map (·.2) = bodyStatements ts
  | [] => by rw [placedInBody, bodyStatements, List.map_nil]
  | ⟨_, _, _, field, children, _, _, _⟩ :: rest => by
    rw [placedInBody, bodyStatements]
    split
    · exact map_placedAmong (p ++ [i]) 0 none children
    · exact map_placedInBody p (i + 1) rest

theorem map_placedAmong (p : Position) (i : Nat) (previous : Option Tree) :
    ∀ ts : List Tree, (placedAmong p i previous ts).map (·.2) = statementsAmong previous ts
  | [] => by rw [placedAmong, statementsAmong, List.map_nil]
  | t :: rest => by
    rw [placedAmong, statementsAmong]
    split
    · rw [List.map_append, map_placed (p ++ [i]) previous t,
        map_placedAmong p (i + 1) (some t) rest]
    · exact map_placedAmong p (i + 1) previous rest

end

theorem placed_eq (p : Position) (previous : Option Tree) (t : Tree) :
    placed p previous t =
      if t.kind = "namespace_definition" then
        (p, .namespace t.namespaceName?) :: placedInBody p 0 t.children
      else ((t.plainStatement? previous).map fun s => (p, s)).toList := by
  obtain ⟨kind, text, named, field, children, missing, row, flagged⟩ := t
  rw [placed]
  simp only [beq_iff_eq]

section

variable {p q : Position} {s : Statement}

theorem mem_placed {previous : Option Tree} {t : Tree} :
    (q, s) ∈ placed p previous t ↔
      q = p ∧ Makes previous t s ∨ t.kind = "namespace_definition" ∧
      (q, s) ∈ placedInBody p 0 t.children := by
  rw [placed_eq]
  by_cases hk : t.kind = "namespace_definition"
  · simp [hk, makes_namespace_iff hk]
  · rw [if_neg hk, makes_plain_iff hk]
    cases t.plainStatement? previous with
    | none => simp [hk]
    | some own => simp [hk, eq_comm]

theorem mem_placedInBody {i : Nat} {ts : List Tree} :
    (q, s) ∈ placedInBody p i ts ↔
      ∃ before body after, ts = before ++ body :: after ∧ body.field = some "body" ∧
        (∀ c ∈ before, c.field ≠ some "body") ∧
        (q, s) ∈ placedAmong (p ++ [i + before.length]) 0 none body.children := by
  induction ts generalizing i with
  | nil => simp [placedInBody]
  | cons t rest ih =>
    have hstep : placedInBody p i (t :: rest) =
        if t.field = some "body" then placedAmong (p ++ [i]) 0 none t.children
        else placedInBody p (i + 1) rest := by
      obtain ⟨kind, text, named, field, children, missing, row, flagged⟩ := t
      rw [placedInBody]
      simp only [beq_iff_eq]
    rw [hstep]
    by_cases hf : t.field = some "body"
    · rw [if_pos hf]
      constructor
      · intro h
        exact ⟨[], t, rest, rfl, hf, by simp, h⟩
      · intro h
        obtain ⟨before, body, after, hsplit, hbody, hfirst, h⟩ := h
        cases before with
        | nil =>
          cases hsplit
          exact h
        | cons c before =>
          cases hsplit
          exact absurd hf (hfirst t List.mem_cons_self)
    · rw [if_neg hf, ih]
      constructor
      · intro h
        obtain ⟨before, body, after, rfl, hbody, hfirst, h⟩ := h
        refine ⟨t :: before, body, after, rfl, hbody, List.forall_mem_cons.mpr ⟨hf, hfirst⟩, ?_⟩
        rwa [List.length_cons, Nat.add_comm before.length 1, ← Nat.add_assoc]
      · intro h
        obtain ⟨before, body, after, hsplit, hbody, hfirst, h⟩ := h
        cases before with
        | nil =>
          cases hsplit
          exact absurd hbody hf
        | cons c before =>
          cases hsplit
          refine ⟨before, body, after, rfl, hbody, fun c hc => hfirst c (List.mem_cons_of_mem t hc),
            ?_⟩
          rwa [List.length_cons, Nat.add_comm before.length 1, ← Nat.add_assoc] at h

/-- The nodes of a list behind others: each is numbered behind them, and knows the named
node before it. -/
theorem mem_placedAmong_behind (front : List Tree) {ts : List Tree} :
    (q, s) ∈ placedAmong p front.length (lastNamed? front) ts ↔
      ∃ before t after, ts = before ++ t :: after ∧ t.named = true ∧
        (q, s) ∈ placed (p ++ [(front ++ before).length]) (lastNamed? (front ++ before)) t := by
  induction ts generalizing front with
  | nil => simp [placedAmong]
  | cons t rest ih =>
    have hnext : placedAmong p (front.length + 1) (lastNamed? (front ++ [t])) rest =
        placedAmong p (front ++ [t]).length (lastNamed? (front ++ [t])) rest := by
      rw [List.length_append, List.length_singleton]
    have hstep : (q, s) ∈ placedAmong p front.length (lastNamed? front) (t :: rest) ↔
        t.named = true ∧ (q, s) ∈ placed (p ++ [front.length]) (lastNamed? front) t ∨
          (q, s) ∈ placedAmong p (front ++ [t]).length (lastNamed? (front ++ [t])) rest := by
      rw [placedAmong, ← hnext, lastNamed?_snoc]
      cases ht : t.named with
      | true => simp
      | false => simp
    rw [hstep, ih]
    constructor
    · intro h
      rcases h with ⟨hnamed, h⟩ | ⟨before, u, after, rfl, hnamed, h⟩
      · exact ⟨[], t, rest, rfl, hnamed, by simpa using h⟩
      · exact ⟨t :: before, u, after, rfl, hnamed, by simpa using h⟩
    · intro h
      obtain ⟨before, u, after, hsplit, hnamed, h⟩ := h
      cases before with
      | nil =>
        cases hsplit
        exact .inl ⟨hnamed, by simpa using h⟩
      | cons c before =>
        cases hsplit
        exact .inr ⟨before, u, after, rfl, hnamed, by simpa using h⟩

theorem mem_placedAmong {ts : List Tree} : (q, s) ∈ placedAmong p 0 none ts ↔
    ∃ before t after, ts = before ++ t :: after ∧ t.named = true ∧
      (q, s) ∈ placed (p ++ [before.length]) (lastNamed? before) t :=
  mem_placedAmong_behind []

end

/-- What the walk comes to from some nodes has its place in the list. -/
theorem Visits.placed {p q : Position} {ts : List Tree} {previous : Option Tree} {t : Tree}
    {s : Statement} (h : Visits p ts q previous t) (hs : Makes previous t s) :
    (q, s) ∈ placedAmong p 0 none ts := by
  induction h with
  | child named =>
    exact mem_placedAmong.mpr ⟨_, _, _, rfl, named, mem_placed.mpr (.inl ⟨rfl, hs⟩)⟩
  | @inside p q before after front t body u previous named isNamespace isBody _ ih =>
    obtain ⟨back, hchildren⟩ := isBody.child
    have hbody : (q, s) ∈ placedInBody (p ++ [before.length]) 0 t.children := by
      refine mem_placedInBody.mpr ⟨front, body, back, hchildren, isBody.field, isBody.first, ?_⟩
      simpa using ih hs
    exact mem_placedAmong.mpr
      ⟨before, t, after, rfl, named, mem_placed.mpr (.inr ⟨isNamespace, hbody⟩)⟩

theorem sizeOf_children (t : Tree) : sizeOf t.children < sizeOf t := by
  obtain ⟨kind, text, named, field, children, missing, row, flagged⟩ := t
  simp only [mk.sizeOf_spec]
  omega

/-- What is inside the body of a node of a list is smaller than the list. -/
theorem sizeOf_body {before after front back : List Tree} {t body : Tree}
    (h : t.children = front ++ body :: back) :
    sizeOf body.children < sizeOf (before ++ t :: after) := by
  have ht : sizeOf t < sizeOf (before ++ t :: after) := List.sizeOf_lt_of_mem (by simp)
  have hb : sizeOf body < sizeOf t.children := List.sizeOf_lt_of_mem (by simp [h])
  have := sizeOf_children t
  have := sizeOf_children body
  omega

/-- The list holds nothing but what the walk comes to. -/
theorem visits_of_placed {p q : Position} {ts : List Tree} {s : Statement}
    (h : (q, s) ∈ placedAmong p 0 none ts) :
    ∃ previous t, Visits p ts q previous t ∧ Makes previous t s := by
  obtain ⟨before, t, after, rfl, named, h⟩ := mem_placedAmong.mp h
  cases mem_placed.mp h with
  | inl hown =>
    obtain ⟨rfl, hs⟩ := hown
    exact ⟨lastNamed? before, t, .child named, hs⟩
  | inr hinside =>
    obtain ⟨isNamespace, hbody⟩ := hinside
    obtain ⟨front, body, back, hchildren, hfield, hfirst, hrest⟩ := mem_placedInBody.mp hbody
    -- The children of the body are not a part of `ts` that structural recursion sees, but
    -- they are smaller.
    have hsmaller : sizeOf body.children < sizeOf (before ++ t :: after) := sizeOf_body hchildren
    obtain ⟨previous, u, hu, hs⟩ :=
      visits_of_placed (p := p ++ [before.length, front.length]) (by simpa using hrest)
    exact ⟨previous, u, .inside named isNamespace ⟨⟨back, hchildren⟩, hfield, hfirst⟩ hu, hs⟩
termination_by sizeOf ts

theorem Visits.position {p q : Position} {ts : List Tree} {previous : Option Tree} {t : Tree}
    (h : Visits p ts q previous t) : ∃ i, p ++ [i] <+: q := by
  induction h with
  | child => exact ⟨_, List.prefix_refl _⟩
  | @inside p q before after front _ _ _ _ _ _ _ _ ih =>
    obtain ⟨i, hi⟩ := ih
    refine ⟨before.length, List.IsPrefix.trans ⟨[front.length, i], ?_⟩ hi⟩
    simp

/-- Behind a namespace come the nodes inside it only. -/
theorem inside_of_placedInBody {p q : Position} {i : Nat} {ts : List Tree} {s : Statement}
    (h : (q, s) ∈ placedInBody p i ts) : ∃ j, p ++ [j] <+: q := by
  obtain ⟨before, body, after, _, _, _, h⟩ := mem_placedInBody.mp h
  obtain ⟨_, _, hvisits, _⟩ := visits_of_placed h
  obtain ⟨k, hk⟩ := hvisits.position
  exact ⟨i + before.length, (List.prefix_append _ _).trans hk⟩

theorem inside_of_placed {p q : Position} {previous : Option Tree} {t : Tree} {s : Statement}
    (h : (q, s) ∈ placed p previous t) : p <+: q := by
  cases mem_placed.mp h with
  | inl hown => exact hown.1 ▸ List.prefix_refl _
  | inr hinside =>
    obtain ⟨j, hj⟩ := inside_of_placedInBody hinside.2
    exact (List.prefix_append _ _).trans hj

theorem inside_of_placedAmong {p q : Position} {i : Nat} {previous : Option Tree} {ts : List Tree}
    {s : Statement} (h : (q, s) ∈ placedAmong p i previous ts) : ∃ j, i ≤ j ∧ p ++ [j] <+: q := by
  induction ts generalizing i previous with
  | nil => simp [placedAmong] at h
  | cons t rest ih =>
    have hrest : ∀ {previous}, (q, s) ∈ placedAmong p (i + 1) previous rest →
        ∃ j, i ≤ j ∧ p ++ [j] <+: q := by
      intro previous h
      obtain ⟨j, hij, hj⟩ := ih h
      exact ⟨j, by omega, hj⟩
    rw [placedAmong] at h
    split at h
    · cases List.mem_append.mp h with
      | inl h => exact ⟨i, Nat.le_refl i, inside_of_placed h⟩
      | inr h => exact hrest h
    · exact hrest h

mutual

theorem placed_pairwise (p : Position) (previous : Option Tree) :
    ∀ t : Tree, (placed p previous t).Pairwise fun a b => a.1 < b.1
  | ⟨kind, text, named, field, children, missing, row, flagged⟩ => by
    rw [placed]
    split
    · refine List.pairwise_cons.mpr ⟨fun x hx => ?_, placedInBody_pairwise p 0 children⟩
      obtain ⟨i, hi⟩ := inside_of_placedInBody hx
      exact Position.lt_of_inside hi
    · cases plainStatement? previous _ with
      | none => exact List.Pairwise.nil
      | some s => exact List.pairwise_singleton _ _

theorem placedInBody_pairwise (p : Position) (i : Nat) :
    ∀ ts : List Tree, (placedInBody p i ts).Pairwise fun a b => a.1 < b.1
  | [] => by
    rw [placedInBody]
    exact List.Pairwise.nil
  | ⟨_, _, _, field, children, _, _, _⟩ :: rest => by
    rw [placedInBody]
    split
    · exact placedAmong_pairwise (p ++ [i]) 0 none children
    · exact placedInBody_pairwise p (i + 1) rest

theorem placedAmong_pairwise (p : Position) (i : Nat) (previous : Option Tree) :
    ∀ ts : List Tree, (placedAmong p i previous ts).Pairwise fun a b => a.1 < b.1
  | [] => by
    rw [placedAmong]
    exact List.Pairwise.nil
  | t :: rest => by
    rw [placedAmong]
    split
    · refine List.pairwise_append.mpr
        ⟨placed_pairwise (p ++ [i]) previous t, placedAmong_pairwise p (i + 1) (some t) rest, ?_⟩
      intro a ha b hb
      obtain ⟨j, hij, hj⟩ := inside_of_placedAmong hb
      exact Position.lt_of_siblings hij (inside_of_placed ha) hj
    · exact placedAmong_pairwise p (i + 1) previous rest

end

section

variable {α : Type} {p : Position}

end

end Tree

end PhpPages.Php
