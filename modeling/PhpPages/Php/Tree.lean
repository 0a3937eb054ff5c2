namespace PhpPages.Php

/-- A node of a syntax tree. Punctuation and keywords are not `named`. Errors are marked in the
tree: a node of kind `ERROR` covers text that fits nowhere, and a missing node stands where
something was expected. `flagged` is an error that the node reports by itself, without an error node
or a missing node below it. -/
structure Tree where
  kind : String
  text : Option String := some ""
  named : Bool := true
  field : Option String := none
  children : List Tree := []
  missing : Bool := false
  row : Nat := 0
  flagged : Bool := false

namespace Tree

/-- The source text of a node, empty when it has none. -/
def source (t : Tree) : String :=
  t.text.getD ""

/-- Whether the node itself is an error: unexpected text, or something missing. -/
def isFault (t : Tree) : Bool :=
  t.kind == "ERROR" || t.missing

mutual

/-- Whether there is an error at the node or anywhere below it. -/
def hasError : Tree → Bool
  | ⟨kind, _, _, _, children, missing, _, flagged⟩ =>
    flagged || kind == "ERROR" || missing || anyHasError children

def anyHasError : List Tree → Bool
  | [] => false
  | t :: rest => t.hasError || anyHasError rest

end

mutual

/-- The first fault of a tree in source order, looking only into children that have an error. -/
def firstFault : Tree → Option Tree
  | ⟨kind, text, named, field, children, missing, row, flagged⟩ =>
    if kind == "ERROR" || missing then
      some ⟨kind, text, named, field, children, missing, row, flagged⟩
    else firstFaultAmong children

def firstFaultAmong : List Tree → Option Tree
  | [] => none
  | t :: rest =>
    if t.hasError then t.firstFault.orElse fun _ => firstFaultAmong rest
    else firstFaultAmong rest

end

def namedChildren (t : Tree) : List Tree :=
  t.children.filter (·.named)

/-- The first child that stands in the given field. -/
def child? (t : Tree) (field : String) : Option Tree :=
  t.children.find? (·.field == some field)

/-- The source text of the child in a field, empty when there is no such child. -/
def childSource (t : Tree) (field : String) : String :=
  match t.child? field with
  | some child => child.source
  | none => ""

end Tree

end PhpPages.Php
