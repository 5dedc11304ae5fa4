/-!
# Shortest decimals

The decimal text of a binary floating-point number: the fewest digits that
still read back as the same number, the nearest such decimal if there are
several, and the larger one on an exact tie.  The digits are written
positionally, without exponent and without a fraction of zeros.

`shortest` is exact integer arithmetic on a significand and a power of two.
A grid is the set of multiples of one power of ten; the coarsest grid with a
point in the interval of reals that round to the number gives the digits.
-/

namespace RankedQuery.Decimal

/-- A positive real `significand * 2 ^ exponent`, with the reals around it that
round to it.  The gap below is half as wide at a power of two. -/
structure Binary where
  significand : Nat
  exponent : Int
  narrowBelow : Bool
  deriving DecidableEq, Repr

structure Scaled where
  digits : Nat
  exponent : Int
  deriving DecidableEq, Repr

namespace Binary

/-- The number, the ends of its interval and the grid unit `10 ^ k`, all
multiplied by one common factor that makes them whole. -/
structure OnGrid where
  value : Nat
  low : Nat
  high : Nat
  unit : Nat
  deriving DecidableEq, Repr

def onGrid (b : Binary) (k : Int) : OnGrid :=
  let quarter := b.exponent - 2
  let scale := Nat.pow 2 quarter.toNat * Nat.pow 10 (-k).toNat
  let below := if b.narrowBelow then 1 else 2
  { value := 4 * b.significand * scale
    low := (4 * b.significand - below) * scale
    high := (4 * b.significand + 2) * scale
    unit := Nat.pow 2 (-quarter).toNat * Nat.pow 10 k.toNat }

/-- Whether a multiple of the unit reads back as the number.  The ends of the
interval belong to it when the significand is even. -/
def readsBack (b : Binary) (g : OnGrid) (multiple : Nat) : Bool :=
  let point := multiple * g.unit
  if b.significand % 2 = 0 then g.low ≤ point && point ≤ g.high
  else g.low < point && point < g.high

def nearest? (b : Binary) (k : Int) : Option Nat :=
  let g := b.onGrid k
  let under := g.value / g.unit
  let above := under + 1
  match b.readsBack g under, b.readsBack g above with
  | true, true =>
      if above * g.unit - g.value ≤ g.value - under * g.unit then some above
      else some under
  | true, false => some under
  | false, true => some above
  | false, false => none

/-- Searches `steps` grids, coarsest first, from `10 ^ k` downwards. -/
def search (b : Binary) (k : Int) : Nat → Scaled
  | 0 => ⟨0, 0⟩
  | steps + 1 =>
      match b.nearest? k with
      | some digits => ⟨digits, k⟩
      | none => b.search (k - 1) steps

/-- Every finite double has its shortest decimal on a grid between `10 ^ 309`
and `10 ^ -330`. -/
def shortest (b : Binary) : Scaled := b.search 309 640

end Binary

/-! ## Positional text -/

def zeros (n : Nat) : String := String.ofList (List.replicate n '0')

def Scaled.text (d : Scaled) : String :=
  let digits := toString d.digits
  if 0 ≤ d.exponent then digits ++ zeros d.exponent.toNat
  else
    let places := (-d.exponent).toNat
    if digits.length ≤ places then
      "0." ++ zeros (places - digits.length) ++ digits
    else
      let whole := digits.length - places
      String.ofList (digits.toList.take whole) ++ "." ++
        String.ofList (digits.toList.drop whole)

def fractionEnd : Nat := Nat.pow 2 52

def signBit : Nat := Nat.pow 2 63

def ofMagnitudeBits (bits : Nat) : Binary :=
  let fraction := bits % fractionEnd
  let biased : Nat := bits / fractionEnd
  if biased = 0 then ⟨fraction, -1074, false⟩
  else ⟨fractionEnd + fraction, (biased : Int) - 1075, fraction = 0 && 1 < biased⟩

def text (x : Float) : String :=
  let bits := x.toBits.toNat
  let magnitude := bits % signBit
  let sign := if signBit ≤ bits then "-" else ""
  if 2047 * fractionEnd < magnitude then "NaN"
  else if magnitude = 2047 * fractionEnd then sign ++ "inf"
  else if magnitude = 0 then sign ++ "0"
  else sign ++ (ofMagnitudeBits magnitude).shortest.text

end RankedQuery.Decimal
