import RankedQuery.Page
import RankedQuery.Plan
import RankedQuery.Sorting

/-!
# Scans

The three ways of filling a page.  A scan adds its documents to those that a
result already has; it says how many matches it found, whether more follow the
page, and the total if one was asked for.
-/

namespace RankedQuery

def acceptsAll (catalog : Catalog) (conditions : List BoundCondition) (id : DocId) : Bool :=
  conditions.all (·.accepts catalog id)

namespace Scan

def sort (ranking : Ranking) (page : Page) (result : ResultSet) : ResultSet :=
  let cursor := (ranking.cursor page.direction).offset page.offset.toNat
  let (ids, cursor) := cursor.take page.limit.toNat
  { result with
    ids := result.ids ++ ids
    hasMore := cursor.next.1.isSome
    found := min ranking.size (addSaturating page.wanted 1)
    total := if page.includeTotal then some ranking.size else result.total }

def precedes (a b : Nat × DocId) : Bool := a.1 < b.1 || (a.1 = b.1 && a.2 ≤ b.2)

/-- The listed documents that satisfy all conditions and are in the ranking, sorted
by their positions. -/
def survivors (catalog : Catalog) (ranking : Ranking) (conditions : List BoundCondition)
    (listed : List DocId) : List DocId :=
  let accepted := listed.filter (acceptsAll catalog conditions)
  let placed := accepted.filterMap fun id => (ranking.rank? id).map (·, id)
  (sortStable precedes placed).map (·.2)

/-- Lists the first condition and keeps what satisfies all of them.  A ranked
condition may list documents that no longer satisfy it. -/
def indexDriven (catalog : Catalog) (ranking : Ranking) (conditions : List BoundCondition)
    (page : Page) (result : ResultSet) : Except Error ResultSet :=
  match conditions with
  | [] => .ok (sort ranking page result)
  | driver :: _ => do
      let listed ← driver.list catalog .asc
      let ranked := page.direction.arrange (survivors catalog ranking conditions listed)
      let onPage := (ranked.drop page.offset.toNat).take page.limit.toNat
      let result := { result.extend onPage with
        found := ranked.length
        hasMore := page.wanted < ranked.length }
      return result.report page (min ranked.length page.maxTotal.toNat)
        (page.maxTotal.toNat < ranked.length)

structure Walk where
  ids : List DocId
  found : Nat
  stoppedEarly : Bool
  deriving DecidableEq, Repr

def isEnough (page : Page) (found : Nat) : Bool :=
  page.wanted < found && (!page.includeTotal || page.maxTotal.toNat ≤ found)

def walk (accept : DocId → Bool) (page : Page) : List DocId → (found room : Nat) → Walk
  | [], found, _ => ⟨[], found, false⟩
  | id :: ids, found, room =>
      if accept id then
        let taken := page.offset.toNat ≤ found && 0 < room
        let further :=
          if isEnough page (found + 1) then ⟨[], found + 1, true⟩
          else walk accept page ids (found + 1) (if taken then room - 1 else room)
        if taken then { further with ids := id :: further.ids } else further
      else walk accept page ids found room

/-- Walks the sort and filters by every condition, until the page is full, one
match more is seen and the total, if asked for, has reached its cap. -/
def sortDriven (catalog : Catalog) (ranking : Ranking) (conditions : List BoundCondition)
    (page : Page) (result : ResultSet) : ResultSet :=
  let walked := walk (acceptsAll catalog conditions) page
    (ranking.cursor page.direction).rest 0 (page.limit.toNat - result.ids.length)
  let result := { result.extend walked.ids with
    found := walked.found
    hasMore := page.wanted < walked.found }
  result.report page (min walked.found page.maxTotal.toNat)
    (page.maxTotal.toNat < walked.found ||
      (walked.stoppedEarly && page.maxTotal.toNat ≤ walked.found))

end Scan

def Plan.execute (plan : Plan) (catalog : Catalog) (ranking : Ranking)
    (conditions : List BoundCondition) (page : Page) (result : ResultSet) :
    Except Error ResultSet :=
  match plan with
  | .sort => .ok (Scan.sort ranking page result)
  | .indexDriven => Scan.indexDriven catalog ranking conditions page result
  | .sortDriven => .ok (Scan.sortDriven catalog ranking conditions page result)

end RankedQuery
