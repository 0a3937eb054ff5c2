import PhpPages.Declaration
import PhpPages.Docblock
import PhpPages.Markdown

namespace PhpPages.Page

/-- Where a page gets its links: the label and the link of its source, and a link for each class. -/
structure Links where
  sourceLabel : String
  sourceLink : String
  classLink : String → String

def kindLabel : Kind → String
  | .class => "Class"
  | .interface => "Interface"
  | .mixin => "Trait"
  | .other word => word

/-- Lines of one paragraph: two blanks at the end of a line keep it apart from the next. -/
def paragraph (lines : List String) : String :=
  "  \n".intercalate lines

def header (links : Links) (d : Declaration) : String :=
  paragraph
    (["**Source:** [" ++ links.sourceLabel ++ "](" ++ links.sourceLink ++ ")",
      "**Type:** " ++ kindLabel d.kind] ++
      match filled? d.namespace with
      | some name => ["**Namespace:** " ++ Markdown.code name]
      | none => [])

/-- A labelled line of class links, none when there are no classes. -/
def relation (links : Links) (label : String) (classes : List String) : List String :=
  if classes.isEmpty then []
  else ["**" ++ label ++ ":** " ++ ", ".intercalate (classes.map links.classLink)]

def relations (links : Links) (d : Declaration) : List String :=
  relation links "Extends" (filled? d.superType).toList ++
    relation links (if d.kind = .interface then "Extends" else "Implements") d.contracts ++
    relation links "Uses Traits" d.mixins

/-- The type of a variable as it is shown. -/
def shownType (type : Option String) : String :=
  Markdown.code ((filled? type).getD "mixed")

def shownDefault (default : Option String) : String :=
  Markdown.code (default.getD "-")

def propertyRow (p : Property) : List String :=
  [Markdown.code ("$" ++ p.name),
    Markdown.code ((if p.isStatic then "static " else "") ++ p.visibility.word),
    shownType p.type,
    shownDefault p.default,
    Docblock.prose p.doc]

def propertiesTable (properties : List Property) : String :=
  Markdown.table ["Name", "Visibility", "Type", "Default", "Description"]
    (properties.map propertyRow)

/-- The modifiers of a method, each followed by a blank. -/
def modifierText (m : Method) : String :=
  (if m.isAbstract then "abstract " else "") ++ (if m.isFinal then "final " else "") ++
    (if m.isStatic then "static " else "")

def parameterText (p : Parameter) : String :=
  (match filled? p.type with
    | some type => type ++ " "
    | none => "") ++
  (if p.byRef then "&" else "") ++ (if p.variadic then "..." else "") ++ "$" ++ p.name ++
  (match p.default with
    | some default => " = " ++ default
    | none => "")

/-- The signature of a method on one line. -/
def signature (m : Method) : String :=
  m.visibility.word ++ " " ++ modifierText m ++ m.name ++ "(" ++
    ", ".intercalate (m.parameters.map parameterText) ++ ")" ++
  (match filled? m.returnType with
    | some type => ": " ++ type
    | none => "")

def parameterRow (doc : Option String) (p : Parameter) : List String :=
  [Markdown.code ((if p.variadic then "..." else "") ++ "$" ++ p.name),
    shownType p.type,
    shownDefault p.default,
    Docblock.paramDescription doc p.name]

def parametersPart (m : Method) : List String :=
  if m.parameters.isEmpty then []
  else
    ["**Parameters:**", "",
      Markdown.table ["Name", "Type", "Default", "Description"]
        (m.parameters.map (parameterRow m.doc)), ""]

def returnsPart (m : Method) : List String :=
  match filled? m.returnType with
  | none => []
  | some type =>
    let description := Docblock.returnDescription m.doc
    ["**Returns:**", Markdown.code type ++
      (if description.isEmpty then "" else ": " ++ description), ""]

/-- A description with an empty line after it, nothing when it is empty. -/
def descriptionPart (doc : Option String) : List String :=
  let description := Docblock.prose doc
  if description.isEmpty then [] else [description, ""]

def methodPart (m : Method) : List String :=
  ["### " ++ modifierText m ++ m.name ++ "()", "", Markdown.codeBlock "php" (signature m), ""] ++
    descriptionPart m.doc ++ parametersPart m ++ returnsPart m ++ ["---", ""]

/-- Lines put together, with exactly one line feed at the end. -/
def finish (lines : List String) : String :=
  Text.trimEnd ("\n".intercalate lines) ++ "\n"

/-- The page of a declaration. -/
def ofDeclaration (links : Links) (d : Declaration) : String :=
  let related := relations links d
  let description := descriptionPart d.doc
  finish
    (["# " ++ d.name, "", header links d, ""] ++
      (if related.isEmpty then [] else [paragraph related, ""]) ++
      (if description.isEmpty then [] else "## Description" :: "" :: description) ++
      (if d.properties.isEmpty then []
        else ["## Properties", "", propertiesTable d.properties, ""]) ++
      (if d.methods.isEmpty then [] else "## Methods" :: "" :: d.methods.flatMap methodPart))

end PhpPages.Page
