import PhpPages.Php.Reader

namespace PhpPages.Php

/-- The parts of the grammar that contain one another. -/
inductive Rule where
  /-- an expression that has a value -/
  | expression
  /-- an expression, or a pattern of variables that an array is taken apart into -/
  | target
  | statement
  | block
  | members
  | parameters

namespace Grammar

open Reader

def backslash : Reader := punct "\\"

/-- Names with separators between them. -/
def namespaceName : Reader :=
  node "namespace_name" (name.andThen (many (backslash.andThen name)))

/-- The kind of a name by its parts. -/
def referenceKind (parts : List Tree) : String :=
  if parts.any fun t => t.kind == "namespace" then "relative_name" else "qualified_name"

/-- A class, function or constant name: simple, qualified, or relative to the current namespace. -/
def reference : Reader :=
  let tail := many1 (backslash.andThen name)
  byWord fun
    | some "namespace" => nodeBy referenceKind ((keyword "namespace").andThen tail)
    | _ => choice [
      nodeBy referenceKind (backslash.andThen (name.andThen (many (backslash.andThen name)))),
      nodeBy referenceKind (name.andThen tail),
      name]

def primitiveTypes : List String :=
  ["int", "string", "bool", "float", "array", "callable", "iterable", "object", "mixed", "null",
    "true", "false", "void"]

/-- The kind of a type that is a single name. -/
def namedTypeKind (parts : List Tree) : String :=
  match parts.getLast? with
  | some t =>
    if t.kind != "name" then "named_type"
    else if primitiveTypes.contains t.source then "primitive_type"
    else if t.source == "never" then "bottom_type"
    else "named_type"
  | none => "named_type"

def namedType : Reader :=
  nodeBy namedTypeKind reference

/-- A type without alternatives. -/
def simpleType : Reader :=
  byMark fun
    | some "?" => node "optional_type" ((punct "?").andThen namedType)
    | _ => namedType

/-- An ampersand that joins two types, not one that marks a reference. -/
def joiningAmpersand : Reader :=
  (punct "&").andThen (ahead simpleType)

def intersectionType : Reader :=
  node "intersection_type" (simpleType.andThen (many (joiningAmpersand.andThen simpleType)))

/-- An alternative of a union: a simple type or an intersection in parentheses. -/
def alternative : Reader :=
  byMark fun
    | some "(" => seq [punct "(", intersectionType, punct ")"]
    | _ => simpleType

/-- Wraps alternatives, intersected types, or nothing, by the marks between the types. -/
def composedKind (parts : List Tree) : String :=
  if parts.any fun t => t.kind == "(" then "disjunctive_normal_form_type"
  else if parts.any fun t => t.kind == "|" then "union_type"
  else "intersection_type"

/-- Any type. -/
def type : Reader :=
  orElse
    (nodeBy composedKind (choice [
      seq [alternative, many1 ((punct "|").andThen alternative)],
      seq [simpleType, many1 (joiningAmpersand.andThen simpleType)],
      seq [ahead (punct "("), alternative]]))
    simpleType

/-- A variable by its name. -/
def variableName : Reader :=
  node "variable_name" ((punct "$").andThen name)

end Grammar

end PhpPages.Php
