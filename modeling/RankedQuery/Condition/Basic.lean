import RankedQuery.Basic

/-!
# Conditions

A condition restricts documents by their score in a sort, by membership in an
index, or by membership in at least one of several indexes.  It names what it
speaks of; it is resolved against a catalog when it is bound.
-/

namespace RankedQuery

inductive ScoreTest where
  | equal (value : Score)
  | between (low high : Score)
  | lessThan (value : Score)
  | lessThanOrEqual (value : Score)
  | greaterThan (value : Score)
  | greaterThanOrEqual (value : Score)
  deriving DecidableEq, Repr

namespace ScoreTest

def holds : ScoreTest → Score → Bool
  | equal value, score => score = value
  | between low high, score => low ≤ score && score ≤ high
  | lessThan value, score => score < value
  | lessThanOrEqual value, score => score ≤ value
  | greaterThan value, score => value < score
  | greaterThanOrEqual value, score => value ≤ score

/-- The lowest and the highest score that pass, if any does. -/
def window? : ScoreTest → Option (Score × Score)
  | equal value => some (value, value)
  | between low high => if low ≤ high then some (low, high) else none
  | lessThan value =>
      if value = Int64.minValue then none else some (Int64.minValue, value - 1)
  | lessThanOrEqual value => some (Int64.minValue, value)
  | greaterThan value =>
      if value = Int64.maxValue then none else some (value + 1, Int64.maxValue)
  | greaterThanOrEqual value => some (value, Int64.maxValue)

def text : ScoreTest → String
  | equal value => "=" ++ toString value.toInt
  | between low high => "[" ++ toString low.toInt ++ ":" ++ toString high.toInt ++ "]"
  | lessThan value => "<" ++ toString value.toInt
  | lessThanOrEqual value => "<=" ++ toString value.toInt
  | greaterThan value => ">" ++ toString value.toInt
  | greaterThanOrEqual value => ">=" ++ toString value.toInt

end ScoreTest

inductive Condition where
  /-- The document's score in a sort passes a test. -/
  | ranked (sort : String) (test : ScoreTest)
  /-- The document is a member of an index. -/
  | set (index : String)
  /-- The document is a member of at least one of several indexes. -/
  | union (indexes : List String)
  deriving DecidableEq, Repr

namespace Condition

def key : Condition → String
  | ranked sort test => sort ++ test.text
  | set index => index
  | union indexes => "(" ++ "|".intercalate indexes ++ ")"

/-- How many names a condition takes of a query's allowance. -/
def references : Condition → Nat
  | ranked _ _ => 1
  | set _ => 1
  | union indexes => indexes.length

end Condition

end RankedQuery
