namespace PhpPages.Yaml

/-- A value. A date or a time is kept as its standard text. -/
inductive Value where
  | null
  | bool (b : Bool)
  | int (i : Int)
  | float (f : Float)
  | text (s : String)
  | moment (iso : String)
  | bytes (content : List UInt8)
  | list (items : List Value)
  | mapping (entries : List (Value × Value))
  | set (items : List Value)

namespace Value

instance : Inhabited Value := ⟨null⟩

/-- A number that a value is equal to when it is used as a key: a truth value counts
as one or zero. -/
def keyNumber? : Value → Option Float
  | bool b => some (if b then 1 else 0)
  | int i => some (Float.ofInt i)
  | float f => some f
  | _ => none

/-- Whether two values are the same key. -/
def sameKey : Value → Value → Bool
  | null, null => true
  | text s, text t => s == t
  | moment s, moment t => s == t
  | bytes s, bytes t => s == t
  | int i, int j => i == j
  | a, b =>
    match a.keyNumber?, b.keyNumber? with
    | some x, some y => x == y
    | _, _ => false

/-- Whether a value can be a key at all. -/
def isKey : Value → Bool
  | list _ | mapping _ | set _ => false
  | _ => true

/-- Sets the value of a key. A key that is there already keeps its place and its spelling. -/
def put (entries : List (Value × Value)) (key value : Value) : List (Value × Value) :=
  match entries with
  | [] => [(key, value)]
  | (k, v) :: rest => if k.sameKey key then (k, value) :: rest else (k, v) :: put rest key value

/-- The value of a key that is a text. -/
def get? (entries : List (Value × Value)) (key : String) : Option Value :=
  match entries with
  | [] => none
  | (k, v) :: rest => if k.sameKey (.text key) then some v else get? rest key

end Value

/-- Why a document has no value: it is not well formed, or a text that is marked as a number, a
truth value or a date is none. -/
inductive Failure where
  | malformed
  | badCharacter
  | hugeCharacter
  | badNumber
  | emptyNumber
  | badTruth
  | badMoment
  | badDate
  deriving DecidableEq

end PhpPages.Yaml
