import PhpPages.Php.Walk
import PhpPages.Proofs.TypeText

namespace PhpPages.Php.Tree

/-- The second list has the nodes of the first, with related nodes for the named ones, and
comments in between. -/
inductive Interspersed (R : Tree → Tree → Prop) : List Tree → List Tree → Prop where
  | nil : Interspersed R [] []
  | comment {c : Tree} {ts us : List Tree} (kind : c.kind = "comment") (named : c.named = true)
      (rest : Interspersed R ts us) : Interspersed R ts (c :: us)
  | mark {m : Tree} {ts us : List Tree} (anonymous : m.named = false)
      (rest : Interspersed R ts us) : Interspersed R (m :: ts) (m :: us)
  | part {t u : Tree} {ts us : List Tree} (named : t.named = true) (named' : u.named = true)
      (related : R t u) (rest : Interspersed R ts us) : Interspersed R (t :: ts) (u :: us)

/-- The second tree is the type that the first one is, with comments put among the children of its
composite nodes, any number of them at any place. -/
inductive Commented : Tree → Tree → Prop where
  | name {t u : Tree} (simple : t.kind ∈ ["named_type", "primitive_type", "bottom_type"])
      (kind : u.kind = t.kind) (text : u.text = t.text) : Commented t u
  | composite {t u : Tree}
      (outer : t.kind ∈ ["optional_type", "union_type", "intersection_type"])
      (kind : u.kind = t.kind) (inner : Interspersed Commented t.children u.children) :
      Commented t u

/-- A type reads a node: itself, or what a child reads that is one of its parts. -/
inductive Reads : Tree → Tree → Prop where
  | self (t : Tree) : Reads t t
  | member {t c d : Tree} (kind : t.kind = "union_type" ∨ t.kind = "intersection_type")
      (child : c ∈ t.namedChildren) (inner : Reads c d) : Reads t d
  | first {t c d : Tree} (kind : t.kind = "optional_type") (child : t.namedChildren.head? = some c)
      (inner : Reads c d) : Reads t d

/-- No comment is among the nodes that the type reads. -/
def ReadsNoComment (t : Tree) : Prop :=
  ∀ d, Reads t d → d.kind ≠ "comment"

theorem typeExpr_of_name {t : Tree} (h : t.kind ∈ ["named_type", "primitive_type", "bottom_type"]) :
    t.typeExpr = .named t.source := by
  cases t with
  | mk kind text named field children missing row flagged =>
    simp only [List.mem_cons, List.not_mem_nil, or_false] at h
    obtain rfl | rfl | rfl := h <;> simp [typeExpr, namedTypeKinds, source]

theorem typeExpr_of_optional {t : Tree} (h : t.kind = "optional_type") :
    t.typeExpr = .nullable ((typeParts t.children).take 1) := by
  cases t
  cases h
  simp [typeExpr, namedTypeKinds]

theorem typeExpr_of_union {t : Tree} (h : t.kind = "union_type") :
    t.typeExpr = .union (typeParts t.children) := by
  cases t
  cases h
  simp [typeExpr, namedTypeKinds]

theorem typeExpr_of_intersection {t : Tree} (h : t.kind = "intersection_type") :
    t.typeExpr = .intersection (typeParts t.children) := by
  cases t
  cases h
  simp [typeExpr, namedTypeKinds]

theorem typeExpr_of_comment {t : Tree} (h : t.kind = "comment") :
    t.typeExpr = .other "comment" := by
  cases t
  cases h
  simp [typeExpr, namedTypeKinds]

theorem readsNoComment_of_name {t : Tree}
    (h : t.kind ∈ ["named_type", "primitive_type", "bottom_type"]) : t.ReadsNoComment := by
  simp only [List.mem_cons, List.not_mem_nil, or_false] at h
  intro d hd
  cases hd with
  | self => grind
  | member kind => grind
  | first kind => grind

theorem readsNoComment_of_members {t : Tree}
    (h : t.kind = "union_type" ∨ t.kind = "intersection_type") :
    t.ReadsNoComment ↔ ∀ c ∈ t.namedChildren, c.ReadsNoComment := by
  constructor
  · intro ht c hc d hd
    exact ht d (.member h hc hd)
  · intro hall d hd
    cases hd with
    | self => grind
    | member _ child inner => exact hall _ child d inner
    | first kind => grind

theorem readsNoComment_of_optional {t : Tree} (h : t.kind = "optional_type") :
    t.ReadsNoComment ↔ ∀ c ∈ t.namedChildren.head?, c.ReadsNoComment := by
  constructor
  · intro ht c hc d hd
    exact ht d (.first h hc hd)
  · intro hall d hd
    cases hd with
    | self => grind
    | member kind => grind
    | first _ child inner => exact hall _ child d inner

theorem not_readsNoComment {t : Tree} (h : t.kind = "comment") : ¬ t.ReadsNoComment :=
  fun ht => ht t (.self t) h

/-- What a comment is read as is none of the types. -/
theorem Commented.typeExpr_ne {t u : Tree} (h : Commented t u) : t.typeExpr ≠ .other "comment" := by
  cases h with
  | name simple => simp [typeExpr_of_name simple]
  | composite outer =>
    simp only [List.mem_cons, List.not_mem_nil, or_false] at outer
    obtain h | h | h := outer
    · simp [typeExpr_of_optional h]
    · simp [typeExpr_of_union h]
    · simp [typeExpr_of_intersection h]

section

variable {ts us : List Tree}

theorem Interspersed.length_le {R : Tree → Tree → Prop} (h : Interspersed R ts us) :
    (typeParts ts).length ≤ (typeParts us).length := by
  induction h with
  | nil => exact Nat.le_refl _
  | comment kind named rest ih =>
    simp only [typeParts, named, ↓reduceIte, List.length_cons]
    omega
  | mark anonymous rest ih => simpa [typeParts, anonymous] using ih
  | part named named' related rest ih => simpa [typeParts, named, named'] using ih

/-- No part of a type without comments is what a comment is read as. -/
theorem Interspersed.not_mem_typeParts (h : Interspersed Commented ts us) :
    some (.other "comment") ∉ typeParts ts := by
  induction h with
  | nil => simp [typeParts]
  | comment kind named rest ih => exact ih
  | mark anonymous rest ih => simpa [typeParts, anonymous] using ih
  | part named named' type rest ih => simpa [typeParts, named, ih] using type.typeExpr_ne.symm

/-- All parts are the same exactly if there is no comment among the nodes and none is read
in one of them. -/
theorem Interspersed.typeParts_eq_iff (h : Interspersed Commented ts us)
    (hparts : ∀ t, ∀ u ∈ us, Commented t u → (u.typeExpr = t.typeExpr ↔ u.ReadsNoComment)) :
    typeParts us = typeParts ts ↔ ∀ c ∈ us.filter (·.named), c.ReadsNoComment := by
  induction h with
  | nil => simp
  | comment kind named rest _ =>
    constructor
    · intro heq
      have hmore := rest.length_le
      have hlength := congrArg List.length heq
      simp only [typeParts, named, ↓reduceIte, List.length_cons] at hlength
      omega
    · intro hall
      exact absurd (hall _ (by simp [named])) (not_readsNoComment kind)
  | mark anonymous rest ih =>
    simpa [typeParts, anonymous] using ih fun t u hu => hparts t u (by simp [hu])
  | part named named' type rest ih =>
    have hfirst := hparts _ _ (by simp) type
    have hrest := ih fun t u hu => hparts t u (by simp [hu])
    simp only [typeParts, named, named', ↓reduceIte, List.cons.injEq, Option.some.injEq,
      List.filter_cons, List.forall_mem_cons, hfirst, hrest]

/-- The first part is the same exactly if no comment comes before it and none is read in it. -/
theorem Interspersed.take_eq_iff (h : Interspersed Commented ts us)
    (hparts : ∀ t, ∀ u ∈ us, Commented t u → (u.typeExpr = t.typeExpr ↔ u.ReadsNoComment)) :
    (typeParts us).take 1 = (typeParts ts).take 1 ↔
      ∀ c ∈ (us.filter (·.named)).head?, c.ReadsNoComment := by
  induction h with
  | nil => simp
  | @comment c ts us kind named rest _ =>
    constructor
    · intro heq
      have hmem : some (.other "comment") ∈ (typeParts ts).take 1 := by
        rw [← heq]
        simp [typeParts, named, typeExpr_of_comment kind]
      exact absurd (List.mem_of_mem_take hmem) rest.not_mem_typeParts
    · intro hall
      exact absurd (hall _ (by simp [named])) (not_readsNoComment kind)
  | mark anonymous rest ih =>
    simpa [typeParts, anonymous] using ih fun t u hu => hparts t u (by simp [hu])
  | part named named' type rest _ =>
    have hfirst := hparts _ _ (by simp) type
    simp [typeParts, named, named', hfirst]

end

theorem sizeOf_lt_of_mem_children {c t : Tree} (h : c ∈ t.children) : sizeOf c < sizeOf t := by
  have hlt := List.sizeOf_lt_of_mem h
  cases t
  simp only [mk.sizeOf_spec]
  simp only at hlt
  omega

/-- A commented type is the type itself exactly if it reads none of the comments. -/
theorem Commented.typeExpr_eq_iff {t u : Tree} (h : Commented t u) :
    u.typeExpr = t.typeExpr ↔ u.ReadsNoComment := by
  -- The statement for the children comes before the case split, where it is still plain that
  -- they are smaller.
  have hparts :
      ∀ t', ∀ u' ∈ u.children, Commented t' u' → (u'.typeExpr = t'.typeExpr ↔ u'.ReadsNoComment) :=
    fun t' u' hu' h' => h'.typeExpr_eq_iff
  cases h with
  | name simple kind text =>
    have hu : u.kind ∈ ["named_type", "primitive_type", "bottom_type"] := kind ▸ simple
    simp [typeExpr_of_name simple, typeExpr_of_name hu, readsNoComment_of_name hu, source, text]
  | composite outer kind inner =>
    simp only [List.mem_cons, List.not_mem_nil, or_false] at outer
    obtain ht | ht | ht := outer
    · have hu := kind.trans ht
      rw [typeExpr_of_optional ht, typeExpr_of_optional hu, readsNoComment_of_optional hu,
        TypeExpr.nullable.injEq]
      exact inner.take_eq_iff hparts
    · have hu := kind.trans ht
      rw [typeExpr_of_union ht, typeExpr_of_union hu, readsNoComment_of_members (.inl hu),
        TypeExpr.union.injEq]
      exact inner.typeParts_eq_iff hparts
    · have hu := kind.trans ht
      rw [typeExpr_of_intersection ht, typeExpr_of_intersection hu,
        readsNoComment_of_members (.inr hu), TypeExpr.intersection.injEq]
      exact inner.typeParts_eq_iff hparts
termination_by sizeOf u
decreasing_by exact sizeOf_lt_of_mem_children hu'

def isSign (c : Char) : Bool :=
  c == '?' || c == '|' || c == '&'

/-- The words of the text of a type, which stand between its signs. -/
def words (s : String) : List (List Char) :=
  s.toList.splitOnP isSign

/-- Each composite node of the type has a part, and each of its names is one word that stands for
a known type. -/
inductive Ordinary : Tree → Prop where
  | name {t : Tree} (simple : t.kind ∈ ["named_type", "primitive_type", "bottom_type"])
      (nonempty : t.source ≠ "") (known : t.source ≠ TypeExpr.unknown)
      (word : ∀ c ∈ t.source.toList, isSign c = false) : Ordinary t
  | composite {t : Tree} (outer : t.kind ∈ ["optional_type", "union_type", "intersection_type"])
      (nonempty : t.namedChildren ≠ []) (parts : ∀ c ∈ t.namedChildren, Ordinary c) : Ordinary t

theorem words_intercalate {sep : String} {sign : Char} (hsep : sep.toList = [sign])
    (hsign : isSign sign = true) (s : String) (ss : List String) :
    words (sep.intercalate (s :: ss)) = (s :: ss).flatMap words := by
  induction ss generalizing s with
  | nil => simp [words]
  | cons s' ss ih =>
    have hrest := ih s'
    simp only [words, String.toList_intercalate, hsep, List.map_cons] at hrest ⊢
    rw [List.intercalate_cons_cons, List.append_assoc, List.singleton_append,
      List.splitOnP_append_cons _ _ hsign, hrest]
    rfl

theorem typeParts_eq (t : Tree) :
    typeParts t.children = t.namedChildren.map fun c => some c.typeExpr := by
  rw [namedChildren]
  induction t.children with
  | nil => rfl
  | cons c cs ih => cases hc : c.named <;> simp [typeParts, hc, ih]

/-- The words of a union or an intersection are those of its parts. -/
theorem words_of_members {t : Tree} (h : t.kind = "union_type" ∨ t.kind = "intersection_type")
    (hne : t.namedChildren ≠ []) :
    words t.typeExpr.render = t.namedChildren.flatMap fun c => words c.typeExpr.render := by
  obtain ⟨c, cs, hcs⟩ := List.exists_cons_of_ne_nil hne
  have hparts := typeParts_eq t
  rw [hcs, List.map_cons] at hparts
  obtain h | h := h
  · rw [typeExpr_of_union h, hparts, hcs, TypeExpr.render_union (List.cons_ne_nil _ _),
      List.map_cons, words_intercalate rfl rfl]
    simp [TypeExpr.renderPart, List.flatMap_map]
  · rw [typeExpr_of_intersection h, hparts, hcs,
      TypeExpr.render_intersection (List.cons_ne_nil _ _), List.map_cons, words_intercalate rfl rfl]
    simp [TypeExpr.renderPart, List.flatMap_map]

/-- The words of an optional type are those of its first part, behind an empty one. -/
theorem words_of_optional {t c : Tree} (h : t.kind = "optional_type")
    (hc : t.namedChildren.head? = some c) :
    words t.typeExpr.render = [] :: words c.typeExpr.render := by
  obtain ⟨cs, hcs⟩ := List.head?_eq_some_iff.mp hc
  have hparts := typeParts_eq t
  rw [hcs, List.map_cons] at hparts
  rw [typeExpr_of_optional h, hparts, List.take_succ_cons, TypeExpr.render, TypeExpr.renderPart,
    words, words, String.toList_append]
  exact List.splitOnP_append_cons [] _ rfl

theorem Ordinary.not_mem_words {t : Tree} (h : t.Ordinary) :
    TypeExpr.unknown.toList ∉ words t.typeExpr.render := by
  induction h with
  | @name t simple nonempty known word =>
    have htext : t.typeExpr.render = t.source := by
      rw [typeExpr_of_name simple, TypeExpr.render]
      simp [nonempty]
    rw [htext, words, List.splitOnP_eq_singleton word, List.mem_singleton]
    exact fun heq => known (String.toList_inj.mp heq.symm)
  | @composite t outer nonempty parts ih =>
    simp only [List.mem_cons, List.not_mem_nil, or_false] at outer
    obtain h | h := outer
    · obtain ⟨c, cs, hcs⟩ := List.exists_cons_of_ne_nil nonempty
      rw [words_of_optional h (by rw [hcs, List.head?_cons]), List.mem_cons, not_or]
      exact ⟨by decide, ih c (by simp [hcs])⟩
    · rw [words_of_members h nonempty, List.mem_flatMap]
      rintro ⟨c, hc, hmem⟩
      exact ih c hc hmem

/-- A comment that is read shows in the text, as the word for an unknown type. -/
theorem Reads.mem_words {t d : Tree} (h : Reads t d) (hd : d.kind = "comment") :
    TypeExpr.unknown.toList ∈ words t.typeExpr.render := by
  induction h with
  | self t =>
    rw [typeExpr_of_comment hd, TypeExpr.render]
    decide
  | member kind child inner ih =>
    rw [words_of_members kind (List.ne_nil_of_mem child)]
    exact List.mem_flatMap_of_mem child (ih hd)
  | first kind child inner ih =>
    rw [words_of_optional kind child]
    exact List.mem_cons_of_mem _ (ih hd)

/-- Comments that a type does not read leave it and its text as they are. A comment that it reads
makes another type of it, and another text if the type is an ordinary one. -/
theorem unread_comments_keep_type {t u : Tree} (h : Commented t u) :
    (u.typeExpr = t.typeExpr ↔ u.ReadsNoComment) ∧
      (u.ReadsNoComment → u.typeExpr.render = t.typeExpr.render) ∧
      (t.Ordinary → u.typeExpr.render = t.typeExpr.render → u.ReadsNoComment) := by
  have hiff := h.typeExpr_eq_iff
  refine ⟨hiff, ?_, ?_⟩
  · intro hread
    rw [hiff.mpr hread]
  · -- The texts differ in a word: a comment that is read shows as one that an ordinary
    -- type does not have.
    intro hordinary heq d hd hcomment
    have hmem := hd.mem_words hcomment
    rw [heq] at hmem
    exact hordinary.not_mem_words hmem

/-- The type `A|?int`, with the given nodes put behind the bar and behind the name of the
optional type. -/
def sampleType (behindBar behindName : List Tree) : Tree :=
  { kind := "union_type"
    children :=
      [{ kind := "named_type", text := some "A" }, { kind := "|", named := false }] ++ behindBar ++
        [{ kind := "optional_type"
           children :=
             [{ kind := "?", named := false }, { kind := "primitive_type", text := some "int" }] ++
               behindName }] }

def sampleComment : Tree := { kind := "comment", text := some "/* at most */" }

theorem ordinary_sampleType : (sampleType [] []).Ordinary := by
  refine .composite (by decide) (by simp [sampleType, namedChildren]) ?_
  intro c hc
  simp only [sampleType, namedChildren, List.append_nil, List.cons_append, List.nil_append,
    List.filter_cons, Bool.false_eq_true, ↓reduceIte, List.filter_nil, List.mem_cons,
    List.not_mem_nil, or_false] at hc
  obtain rfl | rfl := hc
  · exact .name (by decide) (by decide) (by decide) (by simp [source, isSign])
  · refine .composite (by decide) (by simp [namedChildren]) ?_
    intro c hc
    simp only [namedChildren, List.filter_cons, Bool.false_eq_true, ↓reduceIte, List.filter_nil,
      List.mem_singleton] at hc
    subst hc
    exact .name (by decide) (by decide) (by decide) (by simp [source, isSign])

theorem unread_comments_keep_type_sample :
    Commented (sampleType [] []) (sampleType [] [sampleComment]) ∧ (sampleType [] []).Ordinary ∧
      (sampleType [] [sampleComment]).ReadsNoComment ∧
      (sampleType [] [sampleComment]).typeExpr.render = "A|?int" := by
  have hcommented : Commented (sampleType [] []) (sampleType [] [sampleComment]) := by
    refine .composite
      (by decide) rfl (.part rfl rfl (.name (by decide) rfl rfl)
        (.mark rfl (.part rfl rfl ?_ .nil)))
    exact .composite
      (by decide) rfl (.mark rfl (.part rfl rfl (.name (by decide) rfl rfl)
        (.comment rfl rfl .nil)))
  obtain ⟨_, htext, hshown⟩ := unread_comments_keep_type hcommented
  have hread := hshown ordinary_sampleType (by decide +kernel)
  refine ⟨hcommented, ordinary_sampleType, hread, (htext hread).trans ?_⟩
  decide +kernel

/-- A comment behind the bar of a union counts as one more part of it. -/
theorem comment_read_as_part :
    Commented (sampleType [] []) (sampleType [sampleComment] []) ∧
      (sampleType [] []).typeExpr.render = "A|?int" ∧
      (sampleType [sampleComment] []).typeExpr.render = "A|mixed|?int" := by
  refine ⟨?_, by decide +kernel, by decide +kernel⟩
  refine .composite
    (by decide) rfl (.part rfl rfl (.name (by decide) rfl rfl) (.mark rfl (.comment rfl rfl ?_)))
  refine .part rfl rfl ?_ .nil
  exact .composite (by decide) rfl (.mark rfl (.part rfl rfl (.name (by decide) rfl rfl) .nil))

end PhpPages.Php.Tree
