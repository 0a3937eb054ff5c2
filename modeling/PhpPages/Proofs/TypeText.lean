import PhpPages.Proofs.Text
import PhpPages.TypeExpr

namespace PhpPages.TypeExpr

open Text

mutual

/-- Of a union and an intersection the first part is enough to see it. -/
theorem render_ne_empty : ∀ t : TypeExpr, t.render ≠ ""
  | named name => by
    rw [render]
    split
    · simp [unknown]
    · rename_i hname
      simpa using hname
  | nullable [] => by simp [render, unknown]
  | nullable (part :: _) => by simp [render]
  | union [] => by simp [render, unknown]
  | union (part :: parts) => by
    rw [render]
    exact intercalate_cons_ne_empty "|" (renderPart_ne_empty part) _
  | intersection [] => by simp [render, unknown]
  | intersection (part :: parts) => by
    rw [render]
    exact intercalate_cons_ne_empty "&" (renderPart_ne_empty part) _
  | other kind => by simp [render, unknown]

theorem renderPart_ne_empty : ∀ part : Option TypeExpr, renderPart part ≠ ""
  | none => by simp [renderPart, unknown]
  | some t => by
    rw [renderPart]
    exact render_ne_empty t

end

theorem renderParts_eq (parts : List (Option TypeExpr)) :
    renderParts parts = parts.map renderPart := by
  induction parts with
  | nil => rw [renderParts, List.map_nil]
  | cons part parts ih => rw [renderParts, List.map_cons, ih]

theorem render_union {parts : List (Option TypeExpr)} (h : parts ≠ []) :
    (union parts).render = "|".intercalate (parts.map renderPart) := by
  obtain ⟨part, rest, rfl⟩ := List.exists_cons_of_ne_nil h
  rw [render, renderParts_eq, List.map_cons]

theorem render_intersection {parts : List (Option TypeExpr)} (h : parts ≠ []) :
    (intersection parts).render = "&".intercalate (parts.map renderPart) := by
  obtain ⟨part, rest, rfl⟩ := List.exists_cons_of_ne_nil h
  rw [render, renderParts_eq, List.map_cons]

/-- A name that holds none of the signs of a type. -/
structure IsTypeName (s : String) : Prop where
  filled : s ≠ ""
  noQuestion : '?' ∉ s.toList
  noBar : '|' ∉ s.toList
  noAmpersand : '&' ∉ s.toList

/-- Names as the parts of a type. -/
def nameParts (names : List String) : List (Option TypeExpr) :=
  names.map fun name => some (.named name)

/-- The types that are written without parentheses. -/
inductive Unbracketed : TypeExpr → Prop where
  | name {name : String} (isName : IsTypeName name) : Unbracketed (.named name)
  | nullable {name : String} (isName : IsTypeName name) : Unbracketed (.nullable (nameParts [name]))
  | union {names : List String} (several : 2 ≤ names.length)
      (areNames : ∀ n ∈ names, IsTypeName n) : Unbracketed (.union (nameParts names))
  | intersection {names : List String} (several : 2 ≤ names.length)
      (areNames : ∀ n ∈ names, IsTypeName n) : Unbracketed (.intersection (nameParts names))

/-- Reads a type that is written without parentheses. -/
def ofText (s : String) : TypeExpr :=
  if '|' ∈ s.toList then .union (nameParts (pieces '|' s))
  else if '&' ∈ s.toList then .intersection (nameParts (pieces '&' s))
  else
    match s.toList with
    | '?' :: name => .nullable (nameParts [String.ofList name])
    | _ => .named s

theorem IsTypeName.render_eq {name : String} (h : IsTypeName name) :
    (named name).render = name := by
  simp [render, h.filled]

theorem map_renderPart {names : List String} (h : ∀ n ∈ names, IsTypeName n) :
    (nameParts names).map renderPart = names := by
  rw [nameParts, List.map_map]
  conv => rhs; rw [← List.map_id names]
  apply List.map_congr_left
  intro n hn
  rw [Function.comp_apply, renderPart, (h n hn).render_eq, id]

/-- A type without parentheses is read back from its text. -/
theorem ofText_render {t : TypeExpr} (h : Unbracketed t) : ofText t.render = t := by
  cases h with
  | @name name isName =>
    rw [isName.render_eq, ofText, if_neg isName.noBar, if_neg isName.noAmpersand]
    split
    · rename_i rest hname
      exact absurd (by simp [hname]) isName.noQuestion
    · rfl
  | @nullable name isName =>
    have htext : (nullable (nameParts [name])).render = "?" ++ name := by
      rw [nameParts, List.map_cons, render, renderPart, isName.render_eq]
    have hchars : ("?" ++ name).toList = '?' :: name.toList := by simp
    rw [htext, ofText, hchars, if_neg (by simpa using isName.noBar),
      if_neg (by simpa using isName.noAmpersand)]
    simp
  | @union names several areNames =>
    have hsome : names ≠ [] := List.ne_nil_of_length_pos (by omega)
    have hparts : nameParts names ≠ [] := by simpa [nameParts] using hsome
    rw [render_union hparts, map_renderPart areNames, ofText,
      if_pos (mem_intercalate_separator rfl several),
      pieces_intercalate_separator rfl hsome fun n hn => (areNames n hn).noBar]
  | @intersection names several areNames =>
    have hsome : names ≠ [] := List.ne_nil_of_length_pos (by omega)
    have hparts : nameParts names ≠ [] := by simpa [nameParts] using hsome
    -- A bar is looked for first, so that none may stand in the names.
    have hbar : '|' ∉ ("&".intercalate names).toList :=
      not_mem_intercalate_separator (by simp) fun n hn => (areNames n hn).noBar
    rw [render_intersection hparts, map_renderPart areNames, ofText, if_neg hbar,
      if_pos (mem_intercalate_separator rfl several),
      pieces_intercalate_separator rfl hsome fun n hn => (areNames n hn).noAmpersand]

/-- A type has a text exactly if there is a type, the text is never empty, and no two types that are
written without parentheses have the same text. -/
theorem render_is_unambiguous :
    (∀ t : Option TypeExpr, (render? t = none ↔ t = none) ∧ ∀ text, render? t = some text →
      text ≠ "") ∧
    ∀ t u : TypeExpr, Unbracketed t → Unbracketed u →
      render? (some t) = render? (some u) → t = u := by
  refine ⟨fun t => ⟨by simp [render?], ?_⟩, ?_⟩
  · intro text htext
    obtain ⟨type, _, rfl⟩ := Option.map_eq_some_iff.mp htext
    exact render_ne_empty type
  · intro t u ht hu heq
    have htext : t.render = u.render := Option.some.inj heq
    rw [← ofText_render ht, ← ofText_render hu, htext]

theorem render_is_unambiguous_members :
    ∃ t u : TypeExpr, t = .intersection (nameParts ["Iterator", "A\\B"]) ∧
      u = ofText "Iterator&A\\B" ∧
      Unbracketed t ∧ Unbracketed u ∧ render? (some t) = render? (some u) ∧ t = u := by
  have hnames : ∀ n ∈ ["Iterator", "A\\B"], IsTypeName n := by
    intro n hn
    simp only [List.mem_cons, List.not_mem_nil, or_false] at hn
    obtain rfl | rfl := hn
    · exact ⟨by simp, by simp, by simp, by simp⟩
    · exact ⟨by simp, by simp, by simp, by simp⟩
  have ht : Unbracketed (.intersection (nameParts ["Iterator", "A\\B"])) :=
    .intersection (by simp) hnames
  have hu : Unbracketed (ofText "Iterator&A\\B") := ht
  exact ⟨_, _, rfl, rfl, ht, hu, rfl, render_is_unambiguous.2 _ _ ht hu rfl⟩

end PhpPages.TypeExpr
