import RankedQuery.Basic
import RankedQuery.Decimal.Shortest

/-!
# Errors

An error is a cause.  Its kind and its text are functions of the cause, so that
every wording stands in one place.
-/

namespace RankedQuery

inductive ErrorKind where
  /-- A sort or index name that is not registered. -/
  | unknownReference
  /-- Ordered iteration asked of a condition that has no order. -/
  | illegalIteration
  | invalidInput
  | unsupported
  | internal
  deriving DecidableEq, Repr

def ErrorKind.name : ErrorKind → String
  | unknownReference => "UnknownReference"
  | illegalIteration => "IllegalIteration"
  | invalidInput => "InvalidInput"
  | unsupported => "Unsupported"
  | internal => "Internal"

inductive Error where
  | unknownReference (name : String)
  | illegalIteration (key : String)
  | limitNotPositive
  | defaultLimitAboveMaximum (defaultLimit maxLimit : UInt64)
  | indexAllowanceNotPositive
  | probabilityOutside (probability : Float)
  | sweepIntervalNotPositive
  | maxLevelNotPositive
  | queryWithoutSort
  | emptyUnion
  | tooManyIndexes (referenced : Nat) (allowed : UInt64)
  | emptyIndexName
  | staticScore (sort : String)
  | staticRemoval (sort : String)
  | staticMove (sort : String) (id : DocId)
  /-- Raised by a caller, with a kind and a text of its own. -/
  | raised (kind : ErrorKind) (text : String)
  deriving DecidableEq, Repr

namespace Error

def kind : Error → ErrorKind
  | unknownReference _ => .unknownReference
  | illegalIteration _ => .illegalIteration
  | limitNotPositive
  | defaultLimitAboveMaximum _ _
  | indexAllowanceNotPositive
  | probabilityOutside _
  | sweepIntervalNotPositive
  | maxLevelNotPositive
  | queryWithoutSort
  | emptyUnion
  | tooManyIndexes _ _
  | emptyIndexName => .invalidInput
  | staticScore _
  | staticRemoval _
  | staticMove _ _ => .unsupported
  | raised kind _ => kind

/-- The text without the kind.  Names stand in it verbatim. -/
def context : Error → String
  | unknownReference name => "unknown index or sort \"" ++ name ++ "\""
  | illegalIteration key => "condition " ++ key ++ " cannot be iterated"
  | limitNotPositive => "limits must be positive"
  | defaultLimitAboveMaximum defaultLimit maxLimit =>
      "default_limit " ++ toString defaultLimit.toNat ++
        " exceeds max_limit " ++ toString maxLimit.toNat
  | indexAllowanceNotPositive => "max_indexes_per_query must be positive"
  | probabilityOutside probability =>
      "skiplist_probability " ++ Decimal.text probability ++ " outside (0, 1)"
  | sweepIntervalNotPositive => "cache_sweep_interval_ms must be positive"
  | maxLevelNotPositive => "skiplist_max_level must be positive"
  | queryWithoutSort => "query has no sort"
  | emptyUnion => "union of no indexes"
  | tooManyIndexes referenced allowed =>
      "query references " ++ toString referenced ++ " indexes, at most " ++
        toString allowed.toNat ++ " allowed"
  | emptyIndexName => "empty index name"
  | staticScore sort => "static sort " ++ sort ++ " only supports append and prepend"
  | staticRemoval sort => "static sort " ++ sort ++ " does not support removal"
  | staticMove sort id =>
      "static sort " ++ sort ++ " cannot move existing id " ++ toString id.toNat
  | raised _ text => text

def message (error : Error) : String :=
  error.kind.name ++ ": " ++ error.context

end Error

end RankedQuery
