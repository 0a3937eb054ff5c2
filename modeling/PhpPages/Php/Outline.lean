import PhpPages.TypeExpr

namespace PhpPages

/-- What a class-like declaration is. A trait is a mixin; any other word is kept. -/
inductive Kind where
  | «class»
  | interface
  | mixin
  | other (word : String)
  deriving DecidableEq

namespace Php

structure ParameterOutline where
  name : String
  type : Option TypeExpr := none
  default : Option String := none
  byRef : Bool := false
  variadic : Bool := false

structure MethodOutline where
  name : String
  modifiers : List String := []
  parameters : List ParameterOutline := []
  returnType : Option TypeExpr := none
  doc : Option String := none

/-- A property statement. It may declare several names, each with its own default. -/
structure PropertyOutline where
  elements : List (String × Option String)
  modifiers : List String := []
  type : Option TypeExpr := none
  doc : Option String := none

inductive MemberOutline where
  | method (m : MethodOutline)
  | property (p : PropertyOutline)

structure DeclarationOutline where
  kind : Kind
  name : String
  doc : Option String := none
  «extends» : List String := []
  implements : List String := []
  mixins : List String := []
  members : List MemberOutline := []

/-- A statement of a file that matters to its outline. An import gives pairs of alias
and full name. -/
inductive Statement where
  | «namespace» (name : Option String)
  | imports (pairs : List (String × String))
  | declaration (d : DeclarationOutline)

end Php

end PhpPages
