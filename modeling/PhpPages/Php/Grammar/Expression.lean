import PhpPages.Php.Grammar.Callable

/-!
Expressions. The tree does not show how operators bind: a chain of operands is one node, and an
operand with what precedes and follows it is another. A single operand keeps its own kind, so that a
literal is seen as one.
-/

namespace PhpPages.Php.Grammar

open Reader

/-- Wraps what is found in a node unless it is a single node already. -/
def wrap (kind : String) (p : Reader) : Reader :=
  afterGap fun c =>
    match p c with
    | .error row => .error row
    | .ok ([t], later) => .ok ([t], later)
    | .ok (found, later) =>
      .ok ([{
        kind := kind, text := some (String.ofList (c.upTo later)), children := found,
        row := c.row }], later)

/-- Kinds of node that a value can be assigned to. -/
def variableKinds : List String :=
  ["variable_name", "dynamic_variable_name", "subscript_expression", "member_access_expression",
    "scoped_property_access_expression", "function_call_expression"]

def isVariable (t : Tree) : Bool :=
  variableKinds.contains t.kind

mutual

/-- Whether an array can be taken apart into the node. -/
def isPattern : Tree → Bool
  | ⟨kind, _, _, _, children, _, _, _⟩ =>
    variableKinds.contains kind || kind == "by_ref" ||
      ((kind == "list_literal" || kind == "array_creation_expression") && arePatterns children)

/-- Whether the elements of an array pattern are patterns. -/
def arePatterns : List Tree → Bool
  | [] => true
  | ⟨kind, _, _, _, children, _, _, _⟩ :: rest =>
    (kind != "array_element_initializer" || lastIsPattern children) && arePatterns rest

/-- Whether the last node is a pattern: an element may have a key before it. -/
def lastIsPattern : List Tree → Bool
  | [] => false
  | [t] => isPattern t
  | _ :: t :: rest => lastIsPattern (t :: rest)

end

/-- A variable by name, by a computed name, or by the value of another variable. -/
def simpleVariable (g : Rule → Reader) : Reader :=
  orElse variableName
    (node "dynamic_variable_name" (seq [
      punct "$",
      many (punct "$"),
      choice [name, seq [punct "\x7b", g .expression, punct "\x7d"]]]))

/-- What may follow an arrow: a name, a variable, or an expression in braces. -/
def memberName (g : Rule → Reader) : Reader :=
  choice [name, simpleVariable g, seq [punct "\x7b", g .expression, punct "\x7d"]]

/-- Kind and rest of what follows an operand directly: an index, a member, a static
member, a call. -/
def extension (g : Rule → Reader) (calls : Bool) (c : Cursor) : Option (String × Reader) :=
  match nextMark c with
  | some "[" => some ("subscript_expression", seq [punct "[", opt (g .expression), punct "]"])
  | some "->" => some ("member_access_expression", seq [punct "->", memberName g])
  | some "?->" => some ("member_access_expression", seq [punct "?->", memberName g])
  | some "::" =>
    let property := seq [punct "::", simpleVariable g]
    if succeeds property c then some ("scoped_property_access_expression", property)
    else some ("class_constant_access_expression",
      seq [punct "::", choice [name, seq [punct "\x7b", g .expression, punct "\x7d"]]])
  | some "(" => if calls then some ("function_call_expression", arguments g) else none
  | _ => none

/-- Reads everything that follows an operand directly, at most `fuel` times. -/
def extend (g : Rule → Reader) (calls : Bool) (start : Cursor) :
    Nat → Tree → Cursor → Except Nat (Tree × Cursor)
  | 0, t, c => .ok (t, c)
  | fuel + 1, t, c =>
    match extension g calls c with
    | none => .ok (t, c)
    | some (kind, p) =>
      match p c with
      | .error row => .error row
      | .ok (found, later) =>
        let whole : Tree :=
          { kind := kind, text := some (String.ofList (start.upTo later)), children := t :: found,
            row := start.row }
        extend g calls start fuel whole later

/-- An operand with what follows it directly. Nothing follows the creation of an object
without arguments. -/
def extended (g : Rule → Reader) (calls : Bool) (p : Reader) : Reader :=
  afterGap fun c =>
    match p c with
    | .error row => .error row
    | .ok ([t], later) =>
      if t.kind == "new_expression" then .ok ([t], later) else
      match extend g calls c c.left t later with
      | .error row => .error row
      | .ok (whole, last) => .ok ([whole], last)
    | .ok result => .ok result

/-- A variable marked as a reference. -/
def byRef (g : Rule → Reader) : Reader :=
  node "by_ref"
    (seq [punct "&", such (fun found => found.any isVariable) (extended g true (simpleVariable g))])

/-- An element of an array: a value or a reference, with or without a key, or the elements of
another array. -/
def arrayElement (g : Rule → Reader) : Reader :=
  node "array_element_initializer" (byMark fun
    | some "..." => seq [punct "...", g .expression]
    | some "&" => byRef g
    | _ => seq [g .target, opt (seq [punct "=>", choice [byRef g, g .target]])])

/-- Elements with commas between them; any of them may be left out. -/
def sparseElements (g : Rule → Reader) : Reader :=
  seq [opt (arrayElement g), many (seq [comma, opt (arrayElement g)])]

/-- Whether a comma stands where an element is expected. A lone comma only closes the list. -/
def hasGap (parts : List Tree) : Bool :=
  match parts.map (·.kind) with
  | ["[", ",", "]"] => false
  | kinds =>
    (kinds.zip kinds.tail).any fun (before, here) => here == "," && (before == "," || before == "[")

/-- Whether an element is itself a pattern that is no value. -/
def holdsPattern (parts : List Tree) : Bool :=
  parts.any fun t =>
    t.kind == "array_element_initializer" && t.children.any fun u => u.kind == "list_literal"

/-- An array in brackets is a pattern if an element is left out, at any depth. -/
def bracketKind (parts : List Tree) : String :=
  if hasGap parts || holdsPattern parts then "list_literal" else "array_creation_expression"

def bracketArray (g : Rule → Reader) : Reader :=
  nodeBy bracketKind (seq [punct "[", sparseElements g, punct "]"])

def wordArray (g : Rule → Reader) : Reader :=
  node "array_creation_expression"
    (seq [keyword "array", punct "(", list (arrayElement g), punct ")"])

def listPattern (g : Rule → Reader) : Reader :=
  node "list_literal" (seq [keyword "list", punct "(", sparseElements g, punct ")"])

/-- Variables that a function takes from around it. -/
def captured (g : Rule → Reader) : Reader :=
  node "anonymous_function_use_clause"
    (seq [keyword "use", punct "(", list1 (choice [byRef g, variableName]), opt comma, punct ")"])

def staticMark : Reader :=
  field "static_modifier" (node "static_modifier" (keyword "static"))

def anonymousFunction (g : Rule → Reader) : Reader :=
  node "anonymous_function" (seq [
    opt (attributes g), opt staticMark, keyword "function", opt referenceMark,
    field "parameters" (g .parameters), opt (captured g), opt returnType,
    field "body" (g .block)])

def arrowFunction (g : Rule → Reader) : Reader :=
  node "arrow_function" (seq [
    opt (attributes g), opt staticMark, keyword "fn", opt referenceMark,
    field "parameters" (g .parameters), opt returnType, punct "=>",
    field "body" (g .expression)])

/-- The superclass of a class, or the interfaces that an interface extends. -/
def baseClause : Reader :=
  node "base_clause" (seq [keyword "extends", list1 reference])

def interfaceClause : Reader :=
  node "class_interface_clause" (seq [keyword "implements", list1 reference])

def anonymousClass (g : Rule → Reader) : Reader :=
  seq [opt (attributes g), many modifier, keyword "class", opt (arguments g), opt baseClause,
    opt interfaceClause, field "body" (g .members)]

/-- What an object is made of: a class name, or a value that holds one. -/
def classReference (g : Rule → Reader) : Reader :=
  byMark fun
    | some "$" => extended g false (simpleVariable g)
    | some "(" => parenthesized g
    | _ =>
      orElse
        (extended g false
          (node "scoped_property_access_expression"
            (seq [reference, punct "::", simpleVariable g])))
        reference

/-- Creation of an object. With arguments it can be used like any other operand. -/
def objectCreation (g : Rule → Reader) : Reader :=
  afterGap fun c =>
    match (node "object_creation_expression" (seq [keyword "new", anonymousClass g])) c with
    | .ok result => .ok result
    | .error _ =>
      (nodeBy
        (fun parts =>
          if parts.any fun t => t.kind == "arguments" then "object_creation_expression"
          else "new_expression")
        (seq [keyword "new", classReference g, opt (arguments g)])) c

/-- An arm of a match. -/
def matchArm (g : Rule → Reader) : Reader :=
  seq [
    byWord fun
      | some "default" => keyword "default"
      | _ => seq [list1 (g .expression), opt comma],
    punct "=>", g .expression]

def matchExpression (g : Rule → Reader) : Reader :=
  node "match_expression"
    (seq [keyword "match", parenthesized g, punct "\x7b", list1 (matchArm g), opt comma,
      punct "\x7d"])

/-- A scope named by a keyword; a static member has to follow. -/
def relativeScope (word : String) : Reader :=
  seq [node "relative_scope" (keyword word), ahead (punct "::")]

/-- What starts with the keyword `static`: a function, or a scope. -/
def staticValue (g : Rule → Reader) : Reader := fun c =>
  match (seq [keyword "static", choice [ahead (keyword "function"), ahead (keyword "fn")]]) c with
  | .ok _ => (choice [anonymousFunction g, arrowFunction g]) c
  | .error _ => (extended g true (relativeScope "static")) c

/-- Values that start with a word. -/
def wordValue (g : Rule → Reader) : Option String → Reader
  | some "new" => extended g true (objectCreation g)
  | some "function" => anonymousFunction g
  | some "fn" => arrowFunction g
  | some "static" => staticValue g
  | some "match" => matchExpression g
  | some "list" => listPattern g
  | some "array" => extended g true (wordArray g)
  | some "null" => token "null" true takeWord
  | some "true" => token "boolean" true takeWord
  | some "false" => token "boolean" true takeWord
  | _ => extended g true reference

/-- Whether a number starts here. -/
def startsNumber : List Char → Bool
  | '.' :: d :: _ => d.isDigit
  | d :: _ => d.isDigit
  | [] => false

def number : Reader :=
  orElse (token "float" true takeFloat) (token "integer" true takeInteger)

/-- Whether text in quotes starts here. -/
def startsText : List Char → Bool
  | '\'' :: _ => true
  | '"' :: _ => true
  | b :: q :: _ => (b == 'b' || b == 'B') && (q == '\'' || q == '"')
  | _ => false

/-- A value without operators. -/
def primary (g : Rule → Reader) : Reader :=
  afterGap fun c =>
    if startsText c.rest then extended g true (text g) c
    else if startsNumber c.rest then number c
    else if ['<', '<', '<'].isPrefixOf c.rest then extended g true (heredoc g) c
    else if c.rest.head? == some backtick then command g c
    else
      match nextMark c with
      | some "$" => extended g true (simpleVariable g) c
      | some "[" => extended g true (bracketArray g) c
      | some "(" => extended g true (parenthesized g) c
      | some "#[" => (choice [anonymousFunction g, arrowFunction g]) c
      | some "\\" => extended g true reference c
      | some _ => .error c.row
      | none => wordValue g (nextWord c) c

def castTypes : List String :=
  ["array", "binary", "bool", "boolean", "double", "int", "integer", "float", "object", "real",
    "string", "unset"]

/-- A type in parentheses that the operand behind it is converted to. -/
def cast : Reader :=
  seq [
    punct "(",
    such (fun found => found.any fun t => castTypes.contains (foldCase t.source.toList)) name,
    punct ")"]

def prefixWords : List String :=
  ["clone", "print", "throw", "include", "include_once", "require", "require_once"]

/-- An operator or a word that stands before its operand. -/
def prefixOperator : Reader :=
  choice [
    anyPunct ["!", "~", "+", "-", "@", "++", "--"],
    cast,
    byWord fun
      | some word => if prefixWords.contains word then keyword word else stop
      | none => stop]

def assignmentOperators : List String :=
  ["+=", "-=", "*=", "**=", "/=", ".=", "%=", "&=", "|=", "^=", "<<=", ">>=", "??="]

/-- What may follow a variable or a pattern: a step by one, or the value that is assigned. -/
def assignment (g : Rule → Reader) (found : List Tree) : Reader :=
  match found.getLast? with
  | none => nothing
  | some t =>
    if isVariable t then
      byMark fun
        | some "++" => punct "++"
        | some "--" => punct "--"
        | some "=" => seq [punct "=", opt (punct "&"), g .expression]
        | some mark =>
          if assignmentOperators.contains mark then seq [anyPunct [mark], g .expression]
          else nothing
        | none => nothing
    else if isPattern t then
      byMark fun
        | some "=" => seq [punct "=", opt (punct "&"), g .expression]
        | _ => nothing
    else nothing

/-- A value that a generator hands out, with or without a key. -/
def yieldExpression (g : Rule → Reader) : Reader :=
  node "yield_expression" (seq [
    keyword "yield",
    choice [
      seq [keyword "from", g .expression],
      seq [g .expression, opt (seq [punct "=>", g .expression])],
      nothing]])

/-- An operand with its operators. -/
def operand (g : Rule → Reader) : Reader :=
  wrap "unary_op_expression" (seq [
    many prefixOperator,
    byWord fun
      | some "yield" => yieldExpression g
      | _ => wrap "assignment_expression" (continueWith (primary g) (assignment g))])

def binaryMarks : List String :=
  ["||", "&&", "|", "^", "&", "==", "!=", "<>", "===", "!==", "<", ">", "<=", ">=", "<=>", "<<",
    ">>", "+", "-", ".", "*", "/", "%", "**", "??", "|>"]

def binaryWords : List String :=
  ["and", "or", "xor"]

/-- What stands between two operands. -/
def binaryOperator (g : Rule → Reader) : Reader :=
  choice [
    anyPunct binaryMarks,
    byWord fun
      | some word => if binaryWords.contains word then keyword word else stop
      | none => stop,
    seq [punct "?", opt (g .expression), punct ":"]]

/-- A class that a value is compared with. The keyword `static` may stand for one. -/
def comparedClass (g : Rule → Reader) : Reader :=
  byWord fun
    | some "static" => orElse (operand g) name
    | _ => operand g

/-- An operator with its second operand. -/
def link (g : Rule → Reader) : Reader :=
  byWord fun
    | some "instanceof" => seq [keyword "instanceof", comparedClass g]
    | _ => seq [binaryOperator g, operand g]

/-- A chain of operands. -/
def chain (g : Rule → Reader) : Reader :=
  wrap "binary_expression" (seq [operand g, many (link g)])

/-- An expression that has a value: a pattern alone has none. -/
def expression (g : Rule → Reader) : Reader :=
  such (fun found => !(found.any fun t => t.kind == "list_literal")) (chain g)

end PhpPages.Php.Grammar
