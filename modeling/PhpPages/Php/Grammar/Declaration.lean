import PhpPages.Php.Grammar.Expression

namespace PhpPages.Php.Grammar

open Reader

def constElement (g : Rule → Reader) : Reader :=
  node "const_element" (seq [name, punct "=", g .expression])

/-- Constants, with or without a type before the first. -/
def constants (g : Rule → Reader) : Reader :=
  seq [
    keyword "const",
    choice [ahead (seq [name, punct "="]), field "type" type],
    list1 (constElement g),
    semicolon]

/-- Name, parameters and result of a function. -/
def functionHeader (g : Rule → Reader) : Reader :=
  seq [keyword "function", opt referenceMark, field "name" name, field "parameters" (g .parameters),
    opt returnType]

def propertyElement (g : Rule → Reader) : Reader :=
  node "property_element" (seq [field "name" variableName, opt (defaultValue g)])

/-- A clause that settles which trait a method is taken from, or gives it another name
or visibility. -/
def traitClause : Reader :=
  let subject := choice [seq [reference, punct "::", name], name]
  seq [
    subject,
    byWord fun
      | some "insteadof" =>
        seq [keyword "insteadof", such (fun found => found.any fun t => t.kind == "name") reference]
      | some "as" => seq [keyword "as", choice [seq [visibility, opt name], name]]
      | _ => stop,
    semicolon]

/-- The traits that a class uses. -/
def traitUse : Reader :=
  node "use_declaration" (seq [
    keyword "use",
    list1 reference,
    byMark fun
      | some "\x7b" => node "use_list" (seq [punct "\x7b", many traitClause, punct "\x7d"])
      | _ => semicolon])

def hasModifier (found : List Tree) : Bool :=
  found.any fun t => t.kind.endsWith "_modifier"

/-- A member behind its attributes and modifiers. The word that follows decides what it is. -/
def memberBody (g : Rule → Reader) (found : List Tree) : Reader :=
  byWord fun
    | some "function" => seq [
        functionHeader g,
        byMark fun
          | some "\x7b" => field "body" (g .block)
          | _ => semicolon]
    | some "const" => constants g
    | _ =>
      if hasModifier found then
        seq [
          optionalType,
          list1 (propertyElement g),
          byMark fun
            | some "\x7b" => hooks g
            | _ => semicolon]
      else stop

/-- The kind of a member by its parts. -/
def memberKind (parts : List Tree) : String :=
  if parts.any fun t => t.kind == "function" then "method_declaration"
  else if parts.any fun t => t.kind == "const" then "const_declaration"
  else "property_declaration"

def member (g : Rule → Reader) : Reader :=
  byWord fun
    | some "use" => traitUse
    | _ => nodeBy memberKind (continueWith (seq [opt (attributes g), many modifier]) (memberBody g))

/-- The body of a class, an interface or a trait. -/
def members (g : Rule → Reader) : Reader :=
  node "declaration_list" (seq [punct "\x7b", many (member g), punct "\x7d"])

def enumCase (g : Rule → Reader) : Reader :=
  node "enum_case" (seq [
    opt (attributes g), keyword "case", field "name" name,
    opt (seq [punct "=", field "value" (g .expression)]), semicolon])

def enumMembers (g : Rule → Reader) : Reader :=
  node "enum_declaration_list"
    (seq [punct "\x7b", many (orElse (enumCase g) (member g)), punct "\x7d"])

def classDeclaration (g : Rule → Reader) : Reader :=
  node "class_declaration" (seq [
    opt (attributes g), many modifier, keyword "class", field "name" name, opt baseClause,
    opt interfaceClause, field "body" (g .members)])

def interfaceDeclaration (g : Rule → Reader) : Reader :=
  node "interface_declaration" (seq [
    opt (attributes g), keyword "interface", field "name" name, opt baseClause,
    field "body" (g .members)])

def traitDeclaration (g : Rule → Reader) : Reader :=
  node "trait_declaration"
    (seq [opt (attributes g), keyword "trait", field "name" name, field "body" (g .members)])

def enumDeclaration (g : Rule → Reader) : Reader :=
  node "enum_declaration" (seq [
    opt (attributes g), keyword "enum", field "name" name, opt (seq [punct ":", type]),
    opt interfaceClause, field "body" (enumMembers g)])

def functionDefinition (g : Rule → Reader) : Reader :=
  node "function_definition" (seq [opt (attributes g), functionHeader g, field "body" (g .block)])

def constDeclaration (g : Rule → Reader) : Reader :=
  node "const_declaration" (seq [opt (attributes g), many modifier, constants g])

/-- A namespace up to the next one, or with a body of its own. -/
def namespaceDefinition (g : Rule → Reader) : Reader :=
  node "namespace_definition" (seq [
    keyword "namespace",
    choice [
      seq [field "name" namespaceName, semicolon],
      seq [opt (field "name" namespaceName), field "body" (g .block)]]])

/-- The word that makes an import one of functions or of constants. -/
def importKind : Reader :=
  byWord fun
    | some "function" => field "type" (keyword "function")
    | some "const" => field "type" (keyword "const")
    | _ => stop

def importClause : Reader :=
  node "namespace_use_clause" (seq [reference, opt (seq [keyword "as", field "alias" name])])

/-- A clause in a group, where each may be of its own kind. -/
def groupClause : Reader :=
  node "namespace_use_clause" (seq [
    opt importKind, reference, opt (seq [keyword "as", field "alias" name])])

def importGroup : Reader :=
  seq [
    opt backslash, namespaceName, backslash,
    field "body" (node "namespace_use_group" (seq [punct "\x7b", list1 groupClause, punct "\x7d"]))]

def importDeclaration : Reader :=
  node "namespace_use_declaration" (seq [
    keyword "use",
    opt importKind,
    choice [importGroup, list1 importClause],
    semicolon])

end PhpPages.Php.Grammar
