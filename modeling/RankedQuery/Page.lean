import RankedQuery.Basic
import RankedQuery.Pool

/-!
# Pages and their results

A page asks for a stretch of the matches of a query; a result holds the
documents found, with what is known about the rest.
-/

namespace RankedQuery

structure Page where
  offset : UInt64
  limit : UInt64
  direction : Direction := .asc
  includeTotal : Bool := false
  /-- Totals are counted up to this. -/
  maxTotal : UInt64
  deriving DecidableEq, Repr

def Page.wanted (page : Page) : Nat :=
  addSaturating page.offset.toNat page.limit.toNat

structure ResultSet where
  ids : List DocId := []
  /-- The matches that the scan saw, those before the page included. -/
  found : Nat := 0
  /-- The number of matches, if it was asked for; a capped one reports the cap. -/
  total : Option Nat := none
  totalCapped : Bool := false
  hasMore : Bool := false
  deriving DecidableEq, Repr, Inhabited

namespace ResultSet

def extend (result : ResultSet) (ids : List DocId) : ResultSet :=
  { result with ids := result.ids ++ ids }

def report (result : ResultSet) (page : Page) (total : Nat) (capped : Bool) : ResultSet :=
  if page.includeTotal then { result with total := some total, totalCapped := capped }
  else result

end ResultSet

instance : Reusable ResultSet where
  fresh := {}
  reset result := { result with
    ids := [], found := 0, total := none, totalCapped := false, hasMore := false }

end RankedQuery
