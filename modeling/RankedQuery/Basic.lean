/-!
# Documents, scores and directions

A document is known by a 32-bit id.  A ranked index gives it a signed 64-bit
score.  Clock readings are signed 64-bit milliseconds.  Arithmetic on scores,
times and positions stops at the ends of its range instead of wrapping;
`saturate` and `addSaturating` state where.
-/

namespace RankedQuery

abbrev DocId := UInt32

abbrev Score := Int64

/-- A clock reading or a span of time, in milliseconds. -/
abbrev Millis := Int64

inductive Direction where
  | asc
  | desc
  deriving DecidableEq, Repr, Inhabited

namespace Direction

def isDesc : Direction → Bool
  | asc => false
  | desc => true

/-- An ascending list in the order that the direction asks for. -/
def arrange (direction : Direction) (ascending : List α) : List α :=
  match direction with
  | asc => ascending
  | desc => ascending.reverse

end Direction

/-! ## Arithmetic that stops at the ends -/

def maxWord : Nat := 0xffffffffffffffff

def addSaturating (a b : Nat) : Nat := min (a + b) maxWord

/-- The signed 64-bit number nearest to an integer. -/
def saturate (n : Int) : Int64 :=
  if n < Int64.minValue.toInt then Int64.minValue
  else if Int64.maxValue.toInt < n then Int64.maxValue
  else Int64.ofInt n

theorem toInt_saturate (n : Int) :
    (saturate n).toInt = max Int64.minValue.toInt (min n Int64.maxValue.toInt) := by
  have least := Int64.toInt_minValue
  have greatest := Int64.toInt_maxValue
  unfold saturate
  split
  · omega
  · split
    · omega
    · rw [Int64.toInt_ofInt_of_le (by omega) (by omega)]
      omega

end RankedQuery
