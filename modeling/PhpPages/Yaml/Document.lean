import PhpPages.Yaml.Node

/-!
The value of a document. Collections are built level by level, so that of several failures the one
nearest to the top counts, and among those on one level the first.
-/

namespace PhpPages.Yaml

/-- A value together with what failed while it was built, each failure with its level. -/
structure Built where
  value : Value
  failures : List (Nat × Failure) := []

namespace Built

def failed (level : Nat) (f : Failure) : Built :=
  ⟨.null, [(level, f)]⟩

def ofExcept (level : Nat) (r : Except Failure Value) : Built :=
  match r with
  | .ok v => ⟨v, []⟩
  | .error f => failed level f

/-- The value, or the failure that counts. -/
def outcome (b : Built) : Except Failure Value :=
  match b.failures with
  | [] => .ok b.value
  | first :: rest => .error (rest.foldl (fun best f => if f.1 < best.1 then f else best) first).2

end Built

def truth (text : String) : Except Failure Value :=
  let word := Text.lower text
  if ["yes", "true", "on"].contains word then .ok (.bool true)
  else if ["no", "false", "off"].contains word then .ok (.bool false)
  else .error .badTruth

def base64Value? (c : Char) : Option Nat :=
  if 'A' ≤ c && c ≤ 'Z' then some (c.toNat - 'A'.toNat)
  else if 'a' ≤ c && c ≤ 'z' then some (c.toNat - 'a'.toNat + 26)
  else if c.isDigit then some (c.toNat - '0'.toNat + 52)
  else if c == '+' then some 62
  else if c == '/' then some 63
  else none

/-- Decodes text in base 64. `place` is the place in a group of four, `carry` holds bits left over
and `padding` counts the signs that fill the group up; a full group ends the text then. Other
characters are skipped. -/
def base64 (place carry padding : Nat) : List Char → Except Failure (List UInt8)
  | [] => if place = 0 then .ok [] else .error .malformed
  | c :: rest =>
    if c == '=' then
      if place ≥ 2 then
        if place + padding + 1 ≥ 4 then .ok [] else base64 place carry (padding + 1) rest
      else base64 place carry padding rest
    else
      match base64Value? c with
      | none => base64 place carry padding rest
      | some v =>
        if place = 0 then base64 1 v 0 rest
        else do
          let bits := 64 * carry + v
          let drop := if place = 1 then 16 else if place = 2 then 4 else 1
          let bytes ← base64 ((place + 1) % 4) (bits % drop) 0 rest
          return UInt8.ofNat (bits / drop % 256) :: bytes

def binary (text : String) : Except Failure Value :=
  if text.toList.all (·.toNat < 128) then (base64 0 0 0 text.toList).map .bytes
  else .error .malformed

/-- The value of a scalar of the given kind. -/
def scalarValue (tag : Tag) (text : String) : Except Failure Value :=
  match tag with
  | .null => .ok .null
  | .bool => truth text
  | .int => (Number.readInt text).map .int
  | .float => (Number.readFloat text).map .float
  | .text => .ok (.text text)
  | .moment => (Moment.read text).map .moment
  | .bytes => binary text
  | _ => .error .malformed

/-- Whether nodes of a kind are collections, which are built one level further down. -/
def Tag.isCollection : Tag → Bool
  | .list | .mapping | .set | .pairs => true
  | _ => false

/-- Whether values of a kind are read from a text. -/
def Tag.isScalar : Tag → Bool
  | .null | .bool | .int | .float | .text | .moment | .bytes => true
  | _ => false

mutual

/-- The entries of a mapping with merged ones put in front. -/
def mergedPairs (pairs : List (Node × Node)) : Except Failure (List (Node × Node)) := do
  let (merged, own) ← splitMerged pairs
  return merged ++ own

/-- The entries that a mapping takes over from others, and its own. A key that is an equals
sign is a text. -/
def splitMerged : List (Node × Node) → Except Failure (List (Node × Node) × List (Node × Node))
  | [] => .ok ([], [])
  | (key, value) :: rest => do
    if key.tag = .merge then
      let taken ← match value with
        | .mapping _ pairs => mergedPairs pairs
        | .sequence _ items => mergedItems items
        | .scalar _ _ => throw .malformed
      let (merged, own) ← splitMerged rest
      return (taken ++ merged, own)
    else
      let key := match key with
        | .scalar .value text => .scalar .text text
        | _ => key
      let (merged, own) ← splitMerged rest
      return (merged, (key, value) :: own)

/-- The entries of several mappings, those of the last one first. -/
def mergedItems : List Node → Except Failure (List (Node × Node))
  | [] => .ok []
  | .mapping _ pairs :: rest => do
    let first ← mergedPairs pairs
    return (← mergedItems rest) ++ first
  | _ :: _ => throw .malformed

end

/-- The text that a mapping stands for where a scalar is wanted: the value of an equals sign. -/
def defaultText : Nat → Node → Option String
  | 0, _ => none
  | _ + 1, .scalar _ text => some text
  | _ + 1, .sequence _ _ => none
  | fuel + 1, .mapping _ pairs =>
    match pairs.find? fun p => p.1.tag = .value with
    | some p => defaultText fuel p.2
    | none => none

/-- The nesting up to which a text is looked for in mappings. -/
def defaultDepth : Nat := 64

mutual

/-- Builds the value of a node. Nodes nest no deeper than the fuel. -/
def build (fuel level : Nat) (node : Node) : Built :=
  match fuel with
  | 0 => .failed level .malformed
  | fuel + 1 =>
    match node with
    | .scalar tag text =>
      if tag.isCollection then .failed (level + 1) .malformed
      else .ofExcept level (scalarValue tag text)
    | .sequence tag items =>
      match tag with
      | .list =>
        let (values, failures) := buildItems fuel (level + 1) items
        ⟨.list values, failures⟩
      | .pairs =>
        let (values, failures) := buildSingles fuel (level + 1) items
        ⟨.list values, failures⟩
      | .mapping | .set => .failed (level + 1) .malformed
      | _ => .failed level .malformed
    | .mapping tag pairs =>
      match tag with
      | .mapping =>
        let (entries, failures) := buildMerged fuel (level + 1) pairs
        ⟨.mapping entries, failures⟩
      | .set =>
        let (entries, failures) := buildMerged fuel (level + 1) pairs
        ⟨.set (entries.map (·.1)), failures⟩
      | .list | .pairs => .failed (level + 1) .malformed
      | _ =>
        match tag.isScalar, defaultText defaultDepth (.mapping tag pairs) with
        | true, some text => .ofExcept level (scalarValue tag text)
        | _, _ => .failed level .malformed

def buildItems (fuel level : Nat) : List Node → List Value × List (Nat × Failure)
  | [] => ([], [])
  | item :: rest =>
    match fuel with
    | 0 => ([], [(level, .malformed)])
    | fuel + 1 =>
      let built := build fuel level item
      let (values, failures) := buildItems (fuel + 1) level rest
      (built.value :: values, built.failures ++ failures)

/-- Builds a list of pairs from mappings with one entry each. -/
def buildSingles (fuel level : Nat) : List Node → List Value × List (Nat × Failure)
  | [] => ([], [])
  | item :: rest =>
    match fuel, item with
    | fuel + 1, .mapping _ [(key, value)] =>
      let k := build fuel level key
      let v := build fuel level value
      let (values, failures) := buildSingles (fuel + 1) level rest
      (.list [k.value, v.value] :: values, k.failures ++ v.failures ++ failures)
    | _, _ => ([], [(level, .malformed)])

def buildMerged (fuel level : Nat) (pairs : List (Node × Node)) :
    List (Value × Value) × List (Nat × Failure) :=
  match fuel, mergedPairs pairs with
  | fuel + 1, .ok merged => buildPairs fuel level [] merged
  | _, _ => ([], [(level, .malformed)])

/-- Builds entries one after the other behind those built already. -/
def buildPairs (fuel level : Nat) (entries : List (Value × Value)) :
    List (Node × Node) → List (Value × Value) × List (Nat × Failure)
  | [] => (entries, [])
  | (key, value) :: rest =>
    match fuel with
    | 0 => (entries, [(level, .malformed)])
    | fuel + 1 =>
      let k := build fuel level key
      let v := build fuel level value
      let unfit := if k.value.isKey then [] else [(level, Failure.malformed)]
      let (all, failures) := buildPairs (fuel + 1) level (Value.put entries k.value v.value) rest
      (all, k.failures ++ unfit ++ v.failures ++ failures)

end

mutual

/-- How deep a node is nested. -/
def Node.depth : Node → Nat
  | .scalar _ _ => 1
  | .sequence _ items => Node.depthOfItems items + 1
  | .mapping _ pairs => Node.depthOfPairs pairs + 1

def Node.depthOfItems : List Node → Nat
  | [] => 0
  | item :: rest => max item.depth (Node.depthOfItems rest)

def Node.depthOfPairs : List (Node × Node) → Nat
  | [] => 0
  | (key, value) :: rest => max (max key.depth value.depth) (Node.depthOfPairs rest)

end

/-- The value of the only document of a text, null when there is none. -/
def parse (text : String) : Except Failure Value := do
  if !text.toList.all isAllowed then throw .malformed
  match ← Node.ofText text.toList with
  | none => return .null
  | some node => (build (4 * node.depth + 8) 0 node).outcome

end PhpPages.Yaml
