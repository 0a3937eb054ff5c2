namespace PhpPages

/-- A type as it is written in a declaration. A part may be unknown, and a form that is none of the
usual ones is kept by its kind only. -/
inductive TypeExpr where
  | named (name : String)
  | nullable (parts : List (Option TypeExpr))
  | union (parts : List (Option TypeExpr))
  | intersection (parts : List (Option TypeExpr))
  | other (kind : String)

namespace TypeExpr

/-- The type of a value about which nothing is known. -/
def unknown : String := "mixed"

mutual

/-- The text of a type: `?T`, `A|B`, `A&B` or a name. -/
def render : TypeExpr → String
  | named name => if name.isEmpty then unknown else name
  | nullable [] => unknown
  | nullable (part :: _) => "?" ++ renderPart part
  | union [] => unknown
  | union (part :: parts) => "|".intercalate (renderPart part :: renderParts parts)
  | intersection [] => unknown
  | intersection (part :: parts) => "&".intercalate (renderPart part :: renderParts parts)
  | other _ => unknown

def renderPart : Option TypeExpr → String
  | none => unknown
  | some t => t.render

def renderParts : List (Option TypeExpr) → List String
  | [] => []
  | part :: parts => renderPart part :: renderParts parts

end

/-- The text of a type that may be absent. -/
def render? (t : Option TypeExpr) : Option String :=
  t.map render

end TypeExpr

end PhpPages
