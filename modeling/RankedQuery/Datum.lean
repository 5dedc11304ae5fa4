/-!
# Stored values

A `Datum` is a configuration or a statistic as a store keeps it: numbers,
texts, lists and named fields, in no particular file format.  Settings and
statistics are written to data and read back by field name.
-/

namespace RankedQuery

inductive Datum where
  | null
  | truth (value : Bool)
  | whole (value : Int)
  | real (value : Float)
  | text (value : String)
  | list (items : List Datum)
  | fields (items : List (String × Datum))
  deriving Repr, Inhabited

namespace Datum

/-- An unsigned 64-bit number; a number with a fraction or an exponent is none. -/
def word? : Datum → Option UInt64
  | whole n => if 0 ≤ n ∧ n < UInt64.size then some (UInt64.ofNat n.toNat) else none
  | _ => none

def id? : Datum → Option UInt32
  | whole n => if 0 ≤ n ∧ n < UInt32.size then some (UInt32.ofNat n.toNat) else none
  | _ => none

/-- Any number; whole ones are rounded to the nearest double. -/
def real? : Datum → Option Float
  | real x => some x
  | whole n => some (Float.ofInt n)
  | _ => none

def ofWord (n : UInt64) : Datum := whole n.toNat

/-- The values of the named fields in the order of the names.  Fields that are
not named are ignored; a list stands for all the fields in order. -/
def values? (names : List String) : Datum → Option (List Datum)
  | fields items => names.mapM fun name => items.lookup name
  | list items => if items.length = names.length then some items else none
  | _ => none

end Datum

end RankedQuery
