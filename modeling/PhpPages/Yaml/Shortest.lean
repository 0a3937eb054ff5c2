namespace PhpPages.Yaml.Shortest

/-- A positive number as a fraction, with the fractions between which every number reads back as it.
The ends belong to the range when `closed`. -/
structure Range where
  low : Nat
  value : Nat
  high : Nat
  scale : Nat
  closed : Bool

/-- The range of the number with the given mantissa and power of two. Below a power of two the
neighbour is twice as near. -/
def rangeOf (mantissa : Nat) (power : Int) (narrow : Bool) : Range :=
  let shift := power - 2
  let factor := if shift < 0 then 1 else Nat.pow 2 shift.toNat
  { low := (4 * mantissa - if narrow then 1 else 2) * factor
    value := 4 * mantissa * factor
    high := (4 * mantissa + 2) * factor
    scale := if shift < 0 then Nat.pow 2 (-shift).toNat else 1
    closed := mantissa % 2 = 0 }

/-- The range of the positive number with the given bits. -/
def rangeOfBits (bits : Nat) : Range :=
  let fraction := bits % Nat.pow 2 52
  let exponent := bits / Nat.pow 2 52 % Nat.pow 2 11
  if exponent = 0 then rangeOf fraction (-1074) false
  else rangeOf (fraction + Nat.pow 2 52) (Int.ofNat exponent - 1075) (fraction = 0 && exponent > 1)

/-- How many factors of ten a fraction below one needs to reach one. -/
def lift (value scale : Nat) : Nat → Nat
  | 0 => 0
  | fuel + 1 => if value ≥ scale then 0 else lift (value * 10) scale fuel + 1

/-- The power of ten of the first digit. -/
def leadingPower (r : Range) : Int :=
  if r.value ≥ r.scale then ((Nat.toDigits 10 (r.value / r.scale)).length : Int) - 1
  else -(lift r.value r.scale 330 : Int)

/-- How far two numbers are apart. -/
def distance (a b : Nat) : Nat := (a - b) + (b - a)

/-- The digits of the nearest number on the grid of `10 ^ power` that reads back, if there is one.
Of two equally near the even one is taken. -/
def onGrid (r : Range) (power : Int) : Option Nat :=
  let up := if power < 0 then Nat.pow 10 (-power).toNat else 1
  let down := if power < 0 then 1 else Nat.pow 10 power.toNat
  let inside (d : Nat) : Bool :=
    let x := d * down * r.scale
    if r.closed then r.low * up ≤ x && x ≤ r.high * up else r.low * up < x && x < r.high * up
  let below := r.value * up / (r.scale * down)
  let far (d : Nat) : Nat := distance (d * down * r.scale) (r.value * up)
  match inside below && below > 0, inside (below + 1) with
  | true, true =>
    let first := far below < far (below + 1) || far below = far (below + 1) && below % 2 = 0
    some (if first then below else below + 1)
  | true, false => some below
  | false, true => some (below + 1)
  | false, false => none

/-- The fewest digits that read back and the power of ten of the last one. -/
def digits (r : Range) : Nat × Int :=
  let first := leadingPower r
  ((List.range 17).findSome? fun (n : Nat) =>
    (onGrid r (first - n)).map fun d => (d, first - n)).getD (0, 0)

/-- Digits with a point, when the power of ten of the first one is from -4 to 15, and with an
exponent of at least two digits otherwise. -/
def layout (d : Nat) (power : Int) : String :=
  let ds := (Nat.toDigits 10 d).reverse.dropWhile (· = '0') |>.reverse
  let dropped := (Nat.toDigits 10 d).length - ds.length
  let power := power + dropped
  let first := power + ds.length - 1
  if -4 ≤ first && first < 16 then
    if first < 0 then "0." ++ String.ofList (List.replicate (-first - 1).toNat '0' ++ ds)
    else
      let padded := ds ++ List.replicate (first + 1 - ds.length).toNat '0'
      let whole := padded.take (first.toNat + 1)
      let part := padded.drop (first.toNat + 1)
      String.ofList whole ++ "." ++ (if part.isEmpty then "0" else String.ofList part)
  else
    let exponent := toString first.natAbs
    String.ofList (ds.take 1) ++ (if ds.length > 1 then "." ++ String.ofList (ds.drop 1) else "") ++
      "e" ++ (if first < 0 then "-" else "+") ++ (if exponent.length < 2 then "0" else "") ++
      exponent

/-- The shortest text of a number. -/
def text (f : Float) : String :=
  if f.isNaN then "nan"
  else
    let bits := f.toBits.toNat
    let sign := if bits ≥ Nat.pow 2 63 then "-" else ""
    let magnitude := bits % Nat.pow 2 63
    sign ++
      if f.isInf then "inf"
      else if magnitude = 0 then "0.0"
      else
        let (d, power) := digits (rangeOfBits magnitude)
        layout d power

end PhpPages.Yaml.Shortest
