import PhpPages.Php.Grammar.Text

namespace PhpPages.Php.Grammar

open Reader

def parenthesized (g : Rule → Reader) : Reader :=
  node "parenthesized_expression" (seq [punct "(", g .expression, punct ")"])

/-- The name of an argument and the colon behind it. -/
def argumentName : Reader :=
  seq [field "name" name, punct ":"]

/-- The value of an argument. The keyword `static` may stand for one. -/
def argumentValue (g : Rule → Reader) : Reader :=
  byWord fun
    | some "static" => orElse (g .expression) name
    | _ => g .expression

def argument (g : Rule → Reader) : Reader :=
  node "argument" (byMark fun
    | some "..." => (punct "...").andThen (opt (g .expression))
    | some "&" => (punct "&").andThen (g .expression)
    | _ => fun c =>
      if succeeds argumentName c then (argumentName.andThen (argumentValue g)) c
      else argumentValue g c)

/-- The arguments of a call. -/
def arguments (g : Rule → Reader) : Reader :=
  node "arguments" (seq [punct "(", list (argument g), punct ")"])

def oneAttribute (g : Rule → Reader) : Reader :=
  node "attribute" (seq [reference, opt (field "parameters" (arguments g))])

/-- Groups of attributes. -/
def attributes (g : Rule → Reader) : Reader :=
  field "attributes" (node "attribute_list" (many1 (node "attribute_group"
    (seq [punct "#[", list1 (oneAttribute g), opt comma, punct "]"]))))

def referenceMark : Reader :=
  field "reference_modifier" (node "reference_modifier" (punct "&"))

/-- A visibility, possibly of one operation only. -/
def visibility : Reader :=
  byWord fun
    | some "public" => visibilityOf "public"
    | some "protected" => visibilityOf "protected"
    | some "private" => visibilityOf "private"
    | _ => stop
where
  visibilityOf (word : String) : Reader :=
    node "visibility_modifier" (seq [keyword word, opt (seq [punct "(", keyword "set", punct ")"])])

def modifierWords : List (String × String) :=
  [("static", "static_modifier"), ("abstract", "abstract_modifier"), ("final", "final_modifier"),
    ("readonly", "readonly_modifier"), ("var", "var_modifier")]

/-- A word that changes what a member or a class is. -/
def modifier : Reader :=
  orElse visibility (byWord fun
    | some word =>
      match modifierWords.lookup word with
      | some kind => node kind (keyword word)
      | none => stop
    | none => stop)

def returnType : Reader :=
  seq [punct ":", field "return_type" type]

def defaultValue (g : Rule → Reader) : Reader :=
  seq [punct "=", field "default_value" (g .expression)]

/-- A type, unless the name, a reference mark or an ellipsis follows at once. -/
def optionalType : Reader :=
  byMark fun
    | some "$" => nothing
    | some "&" => nothing
    | some "..." => nothing
    | some "&=" => stop
    | _ => field "type" type

/-- The body of a hook: an expression, a block, or nothing. -/
def hookBody (g : Rule → Reader) : Reader :=
  byMark fun
    | some "=>" => seq [punct "=>", field "body" (g .expression), semicolon]
    | some "\x7b" => field "body" (g .block)
    | _ => semicolon

/-- A hook of a property. -/
def hook (g : Rule → Reader) : Reader :=
  node "property_hook" (seq [
    opt (attributes g),
    opt (field "final" (node "final_modifier" (keyword "final"))),
    opt referenceMark,
    name,
    opt (field "parameters" (g .parameters)),
    hookBody g])

/-- The hooks of a property. -/
def hooks (g : Rule → Reader) : Reader :=
  node "property_hook_list" (seq [punct "\x7b", many (hook g), punct "\x7d"])

def readonlyMark : Reader :=
  field "readonly" (node "readonly_modifier" (keyword "readonly"))

/-- The modifiers by which a parameter also declares a property: a visibility, with or
without `readonly`. -/
def promotion : Reader :=
  choice [
    seq [many1 (field "visibility" visibility), opt readonlyMark],
    seq [readonlyMark, many1 (field "visibility" visibility)],
    byWord fun
      | some "readonly" => stop
      | _ => nothing]

def parameterKind (parts : List Tree) : String :=
  if parts.any fun t => t.kind == "visibility_modifier" then "property_promotion_parameter"
  else if parts.any fun t => t.kind == "..." then "variadic_parameter"
  else "simple_parameter"

/-- A variadic parameter has no default and is not promoted, and only a promoted one has hooks. -/
def isParameter (parts : List Tree) : Bool :=
  let has (kind : String) := parts.any fun t => t.kind == kind
  !(has "..." && (has "=" || has "visibility_modifier")) &&
    (has "visibility_modifier" || !has "property_hook_list")

def parameter (g : Rule → Reader) : Reader :=
  nodeBy parameterKind (such isParameter (seq [
    opt (attributes g),
    promotion,
    optionalType,
    opt referenceMark,
    opt (punct "..."),
    field "name" variableName,
    opt (defaultValue g),
    opt (hooks g)]))

/-- The parameters of a function. -/
def parameters (g : Rule → Reader) : Reader :=
  node "formal_parameters" (seq [punct "(", list (parameter g), punct ")"])

end PhpPages.Php.Grammar
