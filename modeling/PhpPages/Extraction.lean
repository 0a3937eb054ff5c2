import PhpPages.Declaration
import PhpPages.Scope

namespace PhpPages

open Php

/-- Which methods are documented besides the public ones. -/
structure Audience where
  includePrivate : Bool := false
  includeProtected : Bool := false
  deriving DecidableEq

/-- Protected methods are shown with either flag, private ones only with their own. -/
def Audience.admits (a : Audience) : Visibility → Bool
  | .public => true
  | .protected => a.includePrivate || a.includeProtected
  | .private => a.includePrivate
  | .other _ => false

def Audience.filterMethods (a : Audience) (methods : List Method) : List Method :=
  methods.filter fun m => a.admits m.visibility

def Parameter.ofOutline (p : ParameterOutline) : Parameter where
  name := p.name
  type := TypeExpr.render? p.type
  default := p.default
  byRef := p.byRef
  variadic := p.variadic

def Method.ofOutline (m : MethodOutline) : Method where
  name := m.name
  visibility := .ofModifiers m.modifiers
  isStatic := m.modifiers.contains "static"
  isAbstract := m.modifiers.contains "abstract"
  isFinal := m.modifiers.contains "final"
  parameters := m.parameters.map .ofOutline
  returnType := TypeExpr.render? m.returnType
  doc := m.doc

/-- One property for each name that the statement declares. Properties are never filtered. -/
def Property.ofOutline (p : PropertyOutline) : List Property :=
  p.elements.map fun element =>
    { name := element.1
      visibility := .ofModifiers p.modifiers
      isStatic := p.modifiers.contains "static"
      type := TypeExpr.render? p.type
      default := element.2
      doc := p.doc }

def membersMethods (members : List MemberOutline) : List Method :=
  members.filterMap fun
    | .method m => some (.ofOutline m)
    | .property _ => none

def membersProperties (members : List MemberOutline) : List Property :=
  members.flatMap fun
    | .method _ => []
    | .property p => Property.ofOutline p

/-- A declaration with its references resolved. What an interface extends are contracts too. -/
def Declaration.ofOutline (audience : Audience) (scope : Scope) (d : DeclarationOutline) :
    Declaration where
  name := d.name
  kind := d.kind
  «namespace» := scope.current
  doc := d.doc
  superType := if d.kind = .class then d.extends.head?.map scope.resolve else none
  contracts := (if d.kind = .interface then d.extends.map scope.resolve else []) ++
    d.implements.map scope.resolve
  mixins := d.mixins.map scope.resolve
  methods := audience.filterMethods (membersMethods d.members)
  properties := membersProperties d.members

/-- The declarations among statements visited in a scope. -/
def declarationsFrom (audience : Audience) (scope : Scope) : List Statement → List Declaration
  | [] => []
  | .namespace name :: rest => declarationsFrom audience (scope.enter name) rest
  | .imports pairs :: rest =>
    declarationsFrom audience (pairs.foldl (fun s pair => s.define pair.1 pair.2) scope) rest
  | .declaration d :: rest => .ofOutline audience scope d :: declarationsFrom audience scope rest

/-- The declarations of a file. -/
def declarations (audience : Audience) (statements : List Statement) : List Declaration :=
  declarationsFrom audience {} statements

end PhpPages
