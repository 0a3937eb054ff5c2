import PhpPages.Php.Outline
import PhpPages.Php.Tree
import PhpPages.Text.Blank
import PhpPages.Text.Lower
import PhpPages.Text.Pieces

namespace PhpPages.Php

open Text

/-- Why a source has no outline. -/
inductive ParseError where
  | notUtf8
  | malformed (row : Nat)
  deriving DecidableEq

def ParseError.message : ParseError → String
  | notUtf8 => "source is not valid UTF-8"
  | malformed row => s!"syntax error near line {row + 1}"

namespace Tree

/-- The kinds of node that are a class reference. -/
def referenceKinds : List String := ["name", "qualified_name", "namespace_name"]

/-- Class references among the named children, as written. -/
def references (t : Tree) : List String :=
  (t.namedChildren.filter fun c => referenceKinds.contains c.kind).map source

/-- Each node of a list with the node before it. -/
def withPrevious : Option Tree → List Tree → List (Option Tree × Tree)
  | _, [] => []
  | previous, t :: rest => (previous, t) :: withPrevious (some t) rest

/-- The text of a node that documents its successor: a comment that starts with `/**`. -/
def docText (previous : Option Tree) : Option String := do
  let comment ← previous
  if comment.kind == "comment" && comment.source.startsWith "/**" then some comment.source else none

/-- Imports of functions and constants are no class imports. -/
def importsNoClass (t : Tree) : Bool :=
  t.children.any fun c => c.kind == "function" || c.kind == "const"

/-- The alias that a clause gives by itself, if any. -/
def clauseAlias? (clause : Tree) : Option String :=
  match clause.child? "alias" with
  | some short => some short.source
  | none => do
    let aliasing ← clause.namedChildren.find? (·.kind == "namespace_aliasing_clause")
    let short ← aliasing.namedChildren.getLast?
    some short.source

/-- Alias and full name of one clause of an import below the given namespace, `none` if it
imports no class. -/
def clauseImport? (above : String) (clause : Tree) : Option (String × String) :=
  if (clause.kind == "namespace_use_clause" || clause.kind == "namespace_use_group_clause") &&
      !clause.importsNoClass then do
    let target ← clause.namedChildren.find? fun c => referenceKinds.contains c.kind
    let name := dropLeading ['\\'] target.source
    let full := if above.isEmpty then name else above ++ "\\" ++ name
    some (clause.clauseAlias?.getD (lastPiece '\\' full), full)
  else none

/-- The class imports of a use declaration, plain or grouped. -/
def imports (t : Tree) : List (String × String) :=
  if t.importsNoClass then []
  else
    let above := ((t.namedChildren.reverse.find? (·.kind == "namespace_name")).map source).getD ""
    let clauses := match t.namedChildren.reverse.find? (·.kind == "namespace_use_group") with
      | some group => group.namedChildren
      | none => t.namedChildren
    clauses.filterMap (clauseImport? above)

/-- The kinds of node that are a type by their text. -/
def namedTypeKinds : List String :=
  ["named_type", "primitive_type", "bottom_type", "name", "qualified_name"]

mutual

/-- The type expression that a node stands for. -/
def typeExpr : Tree → TypeExpr
  | ⟨kind, text, _, _, children, _, _, _⟩ =>
    if namedTypeKinds.contains kind then .named (text.getD "")
    else if kind == "optional_type" then .nullable ((typeParts children).take 1)
    else if kind == "union_type" then .union (typeParts children)
    else if kind == "intersection_type" then .intersection (typeParts children)
    else .other kind

/-- The types that the named nodes of a list stand for. -/
def typeParts : List Tree → List (Option TypeExpr)
  | [] => []
  | t :: rest => if t.named then some t.typeExpr :: typeParts rest else typeParts rest

end

/-- Takes equal quotes off both ends of a text. -/
def unquote (cs : List Char) : List Char :=
  match cs with
  | [] => []
  | first :: rest =>
    match rest.getLast? with
    | none => cs
    | some last => if first == last && (first == '\'' || first == '"') then rest.dropLast else cs

/-- Short text for a default value: scalars as written, strings in single quotes, arrays as `[]`. -/
def literal (t : Tree) : String :=
  if t.kind == "string" || t.kind == "encapsed_string" then
    "'" ++ String.ofList (unquote (t.source.toList.dropWhile ['b', 'B'].contains)) ++ "'"
  else if ["integer", "float", "boolean", "null", "name", "qualified_name"].contains t.kind then
    t.source
  else if t.kind == "array_creation_expression" then "[]"
  else "unknown"

def modifierKinds : List String :=
  ["visibility_modifier", "static_modifier", "abstract_modifier", "final_modifier",
    "readonly_modifier", "var_modifier"]

/-- The word of a modifier, without the operation it may be limited to. -/
def modifierWord (t : Tree) : String :=
  lower (trim (((pieces '(' t.source).head?).getD ""))

def modifiers (t : Tree) : List String :=
  (t.children.filter fun c => modifierKinds.contains c.kind).map modifierWord

def parameterKinds : List String :=
  ["simple_parameter", "variadic_parameter", "property_promotion_parameter"]

def parameter (t : Tree) : ParameterOutline where
  name := dropLeading ['&', '$', ' ', '\t'] (t.childSource "name")
  type := (t.child? "type").map typeExpr
  default := (t.child? "default_value").map literal
  byRef := (t.children.any fun c => c.kind == "reference_modifier" || c.kind == "&") ||
    (match t.child? "name" with
      | some (node : Tree) => node.kind == "by_ref"
      | none => false)
  variadic := t.kind == "variadic_parameter"

def method (doc : Option String) (t : Tree) : MethodOutline where
  name := t.childSource "name"
  modifiers := t.modifiers
  parameters := match t.child? "parameters" with
    | some list => (list.namedChildren.filter fun c => parameterKinds.contains c.kind).map parameter
    | none => []
  returnType := (t.child? "return_type").map typeExpr
  doc := doc

/-- Name and default of one element of a property statement. -/
def propertyElement (t : Tree) : String × Option String :=
  let name := match t.child? "name" with
    | some name => name.source
    | none => ((t.namedChildren.find? fun c => c.kind == "variable_name").map source).getD ""
  let default : Option Tree := match t.child? "default_value" with
    | some value => some value
    | none => do
      let initializer ← t.namedChildren.find? fun c => c.kind == "property_initializer"
      initializer.namedChildren.head?
  (dropLeading ['$'] name, default.map literal)

def property (doc : Option String) (t : Tree) : PropertyOutline where
  elements := (t.namedChildren.filter (·.kind == "property_element")).map propertyElement
  modifiers := t.modifiers
  type := (t.child? "type").map typeExpr
  doc := doc

/-- The member that a node in the body of a declaration stands for, given the node before it. -/
def member? (entry : Option Tree × Tree) : Option MemberOutline :=
  if entry.2.kind == "method_declaration" then some (.method (entry.2.method (docText entry.1)))
  else if entry.2.kind == "property_declaration" then
    some (.property (entry.2.property (docText entry.1)))
  else none

def declarationKind? (kind : String) : Option Kind :=
  if kind == "class_declaration" then some .class
  else if kind == "interface_declaration" then some .interface
  else if kind == "trait_declaration" then some .mixin
  else none

def declaration (kind : Kind) (doc : Option String) (t : Tree) : DeclarationOutline :=
  let body : List Tree := ((t.child? "body").map namedChildren).getD []
  { kind := kind
    name := t.childSource "name"
    doc := doc
    «extends» := ((t.namedChildren.reverse.find? (·.kind == "base_clause")).map references).getD []
    implements :=
      ((t.namedChildren.reverse.find? (·.kind == "class_interface_clause")).map references).getD []
    mixins := (body.filter (·.kind == "use_declaration")).flatMap references
    members := (withPrevious none body).filterMap member? }

/-- The statement of a node that has no statements inside it. -/
def plainStatement? (previous : Option Tree) (t : Tree) : Option Statement :=
  if t.kind == "namespace_use_declaration" then
    if t.imports.isEmpty then none else some (.imports t.imports)
  else (declarationKind? t.kind).map fun kind =>
    .declaration (t.declaration kind (docText previous))

mutual

/-- The statements of a node: its own, and those of its body if it is a namespace. -/
def statements (previous : Option Tree) : Tree → List Statement
  | ⟨kind, text, named, field, children, missing, row, flagged⟩ =>
    let t : Tree := ⟨kind, text, named, field, children, missing, row, flagged⟩
    if kind == "namespace_definition" then
      let name := t.childSource "name"
      .namespace (if name.isEmpty then none else some name) :: bodyStatements children
    else (plainStatement? previous t).toList

/-- The statements of the first node in the field `body`. -/
def bodyStatements : List Tree → List Statement
  | [] => []
  | ⟨_, _, _, field, children, _, _, _⟩ :: rest =>
    if field == some "body" then statementsAmong none children else bodyStatements rest

/-- The statements of the named nodes of a list, given the named node before it. -/
def statementsAmong (previous : Option Tree) : List Tree → List Statement
  | [] => []
  | t :: rest =>
    if t.named then statements previous t ++ statementsAmong (some t) rest
    else statementsAmong previous rest

end

/-- The outline of a file, or where its first error stands. -/
def outline (root : Tree) : Except ParseError (List Statement) :=
  if root.hasError then .error (.malformed (root.firstFault.getD root).row)
  else .ok (statementsAmong none root.children)

end Tree

end PhpPages.Php
