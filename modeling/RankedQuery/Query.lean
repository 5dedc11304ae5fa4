import RankedQuery.Condition.Basic
import RankedQuery.Config
import RankedQuery.Page

/-!
# Queries

A query asks for the documents of a sort that are members of all selected
indexes and satisfy all filters, one page at a time.  It refers to everything
by name.
-/

namespace RankedQuery

structure Query where
  sort : String := ""
  /-- The selected indexes, in the order of selection. -/
  indexes : List String := []
  /-- Ranked conditions and unions. -/
  filters : List Condition := []
  limit : Option UInt64 := none
  offset : UInt64 := 0
  direction : Direction := .asc
  includeTotal : Bool := false
  deriving DecidableEq, Repr, Inhabited

instance : Reusable Query where
  fresh := {}
  reset query := { query with
    sort := "", indexes := [], filters := [], limit := none, offset := 0,
    direction := .asc, includeTotal := false }

namespace Query

def whereIndex (q : Query) (name : String) : Query :=
  { q with indexes := q.indexes ++ [name] }

/-- Adds a condition; membership in one index is a selection. -/
def filter (q : Query) (condition : Condition) : Query :=
  match condition with
  | .set index => q.whereIndex index
  | condition => { q with filters := q.filters ++ [condition] }

/-- The number of names that the query refers to, repetitions included. -/
def references (q : Query) : Nat :=
  q.filters.foldl (fun referenced filter => referenced + filter.references) q.indexes.length

def fault? (q : Query) (config : Config) : Option Error :=
  if q.sort = "" then some .queryWithoutSort
  else if q.filters.any (· = .union []) then some .emptyUnion
  else if config.maxIndexesPerQuery.toNat < q.references then
    some (.tooManyIndexes q.references config.maxIndexesPerQuery)
  else if q.indexes.any (· = "") then some .emptyIndexName
  else none

def page (q : Query) (config : Config) : Page where
  offset := q.offset
  limit := min (q.limit.getD config.defaultLimit) config.maxLimit
  direction := q.direction
  includeTotal := q.includeTotal
  maxTotal := config.maxTotal

end Query

end RankedQuery
