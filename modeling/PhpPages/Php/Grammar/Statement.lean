import PhpPages.Php.Grammar.Declaration

namespace PhpPages.Php.Grammar

open Reader

/-- Statements up to one of the words that end the block around them. -/
def statementsUntil (g : Rule → Reader) (ends : List String) : Reader :=
  many (byWord fun
    | some word => if ends.contains word then stop else g .statement
    | none => g .statement)

/-- A block in braces. -/
def block (g : Rule → Reader) : Reader :=
  node "compound_statement" (seq [punct "\x7b", many (g .statement), punct "\x7d"])

/-- A body in braces or a single statement, or statements between a colon and a closing word. -/
def bodyOr (g : Rule → Reader) (closing : String) : Reader :=
  byMark fun
    | some ":" => seq [punct ":", statementsUntil g [closing], keyword closing, semicolon]
    | _ => g .statement

def expressions (g : Rule → Reader) : Reader :=
  list1 (g .expression)

/-- The branches of a condition whose bodies are single statements. -/
def elseBranches (g : Rule → Reader) : Reader :=
  seq [
    many (seq [keyword "elseif", parenthesized g, g .statement]),
    opt (seq [keyword "else", g .statement])]

/-- The branches of a condition whose bodies start with a colon. -/
def colonBranches (g : Rule → Reader) : Reader :=
  let ends := ["elseif", "else", "endif"]
  seq [
    punct ":", statementsUntil g ends,
    many (seq [keyword "elseif", parenthesized g, punct ":", statementsUntil g ends]),
    opt (seq [keyword "else", punct ":", statementsUntil g ends]),
    keyword "endif", semicolon]

def ifStatement (g : Rule → Reader) : Reader :=
  node "if_statement" (seq [
    keyword "if", parenthesized g,
    byMark fun
      | some ":" => colonBranches g
      | _ => seq [g .statement, elseBranches g]])

def switchArms (g : Rule → Reader) (ends : List String) : Reader :=
  let body := statementsUntil g ("case" :: "default" :: ends)
  let colon := choice [punct ":", punct ";"]
  many (byWord fun
    | some "case" => seq [keyword "case", g .expression, colon, body]
    | some "default" => seq [keyword "default", colon, body]
    | _ => stop)

def switchStatement (g : Rule → Reader) : Reader :=
  node "switch_statement" (seq [
    keyword "switch", parenthesized g,
    byMark fun
      | some ":" => seq [punct ":", switchArms g ["endswitch"], keyword "endswitch", semicolon]
      | _ => seq [punct "\x7b", switchArms g [], punct "\x7d"]])

def whileStatement (g : Rule → Reader) : Reader :=
  node "while_statement" (seq [keyword "while", parenthesized g, bodyOr g "endwhile"])

def doStatement (g : Rule → Reader) : Reader :=
  node "do_statement"
    (seq [keyword "do", g .statement, keyword "while", parenthesized g, semicolon])

def forStatement (g : Rule → Reader) : Reader :=
  node "for_statement" (seq [
    keyword "for", punct "(", opt (expressions g), punct ";", opt (expressions g), punct ";",
    opt (expressions g), punct ")", bodyOr g "endfor"])

/-- What each element of a loop is put into. -/
def loopTarget (g : Rule → Reader) : Reader :=
  byMark fun
    | some "&" => byRef g
    | _ => g .target

def foreachStatement (g : Rule → Reader) : Reader :=
  node "foreach_statement" (seq [
    keyword "foreach", punct "(", g .expression, keyword "as", loopTarget g,
    opt (seq [punct "=>", loopTarget g]), punct ")", bodyOr g "endforeach"])

def catchClause (g : Rule → Reader) : Reader :=
  seq [
    keyword "catch", punct "(", reference, many (seq [punct "|", reference]), opt variableName,
    punct ")", g .block]

def tryStatement (g : Rule → Reader) : Reader :=
  node "try_statement" (seq [
    keyword "try", g .block,
    many1 (choice [catchClause g, seq [keyword "finally", g .block]])])

def literalValue (g : Rule → Reader) : Reader :=
  such (fun found => found.any fun t =>
    ["integer", "float", "string", "encapsed_string", "heredoc", "nowdoc", "boolean",
      "null"].contains t.kind) (g .expression)

def directive (g : Rule → Reader) : Reader :=
  seq [choice [keyword "ticks", keyword "encoding", keyword "strict_types"], punct "=",
    literalValue g]

def declareStatement (g : Rule → Reader) : Reader :=
  node "declare_statement" (seq [
    keyword "declare", punct "(", list1 (directive g), punct ")",
    choice [semicolon, bodyOr g "enddeclare"]])

def unsetStatement (g : Rule → Reader) : Reader :=
  node "unset_statement" (seq [
    keyword "unset", punct "(", list1 (such (fun found => found.any isVariable) (g .expression)),
    opt comma, punct ")", semicolon])

def globalDeclaration (g : Rule → Reader) : Reader :=
  node "global_declaration" (seq [keyword "global", list1 (simpleVariable g), semicolon])

def staticDeclaration (g : Rule → Reader) : Reader :=
  node "function_static_declaration" (seq [
    keyword "static",
    list1 (seq [variableName, opt (seq [punct "=", g .expression])]),
    semicolon])

def exitStatement (g : Rule → Reader) : Reader :=
  node "exit_statement" (seq [
    keyword "exit", opt (seq [punct "(", opt (g .expression), punct ")"]), semicolon])

/-- A keyword with an optional value behind it. -/
def valueStatement (g : Rule → Reader) (kind word : String) : Reader :=
  node kind (seq [keyword word, opt (g .expression), semicolon])

def expressionStatement (g : Rule → Reader) : Reader :=
  node "expression_statement" (seq [g .expression, semicolon])

def label : Reader :=
  node "named_label_statement" (seq [name, punct ":"])

/-- A statement behind attributes, or one that modifiers begin. -/
def declaredStatement (g : Rule → Reader) : Reader :=
  choice [
    classDeclaration g, interfaceDeclaration g, traitDeclaration g, enumDeclaration g,
    functionDefinition g, constDeclaration g, expressionStatement g]

/-- The statement that starts with the given word. -/
def wordStatement (g : Rule → Reader) (word : String) : Reader :=
  match word with
  | "if" => ifStatement g
  | "switch" => switchStatement g
  | "while" => whileStatement g
  | "do" => doStatement g
  | "for" => forStatement g
  | "foreach" => foreachStatement g
  | "goto" => node "goto_statement" (seq [keyword "goto", name, semicolon])
  | "continue" => valueStatement g "continue_statement" "continue"
  | "break" => valueStatement g "break_statement" "break"
  | "return" => valueStatement g "return_statement" "return"
  | "try" => tryStatement g
  | "declare" => declareStatement g
  | "echo" => node "echo_statement" (seq [keyword "echo", expressions g, semicolon])
  | "exit" => exitStatement g
  | "unset" => unsetStatement g
  | "const" => constDeclaration g
  | "function" => choice [functionDefinition g, expressionStatement g]
  | "abstract" => classDeclaration g
  | "final" => choice [classDeclaration g, constDeclaration g]
  | "readonly" => classDeclaration g
  | "class" => classDeclaration g
  | "interface" => interfaceDeclaration g
  | "trait" => traitDeclaration g
  | "enum" => enumDeclaration g
  | "namespace" => choice [namespaceDefinition g, expressionStatement g]
  | "use" => importDeclaration
  | "global" => globalDeclaration g
  | "static" => choice [staticDeclaration g, expressionStatement g]
  | _ => fun c => if succeeds label c then label c else expressionStatement g c

/-- Any statement. -/
def statement (g : Rule → Reader) : Reader :=
  afterGap fun c =>
    match nextMark c, nextWord c with
    | some ";", _ => node "empty_statement" (punct ";") c
    | some "\x7b", _ => block g c
    | some "#[", _ => declaredStatement g c
    | _, some word => wordStatement g word c
    | _, none => expressionStatement g c

end PhpPages.Php.Grammar
