import RankedQuery.Catalog
import RankedQuery.Sorting

/-!
# Intersections

The cache keeps the intersection of several indexes as an index of its own.
An intersection is addressed by the names of its sources, sorted, without
repetition and joined by `&`.  Once its result is filled, single changes of a
source keep it current: a document joins when all other sources hold it, and
leaves when any source loses it.
-/

namespace RankedQuery

def canonicalNames (names : List String) : List String :=
  (Std.ExtTreeSet.ofList names).toList

def canonicalKey (names : List String) : String :=
  "&".intercalate (canonicalNames names)

structure Intersection where
  key : String
  /-- In ascending order of size when the intersection was made. -/
  sources : List Source
  result : Handle Index
  deriving DecidableEq, Repr, Inhabited

namespace Catalog

def sizeOf (c : Catalog) (source : Source) : Nat := (c.indexes.read source.index).size

def bySize (c : Catalog) (sources : List Source) : List Source :=
  sortStable (fun a b => c.sizeOf a ≤ c.sizeOf b) sources

def allHold (c : Catalog) (sources : List Source) (id : DocId) : Bool :=
  sources.all fun source => c.holds source.index id

/-- The documents that all the sources hold, none if there is no source. -/
def intersect (c : Catalog) (sources : List Source) : IdSet :=
  match c.bySize sources with
  | [] => ∅
  | smallest :: others =>
      (c.indexes.read smallest.index).members.filter (c.allHold others)

def addIntersection (c : Catalog) (key : String) (sources : List Source) :
    Intersection × Catalog :=
  let (result, catalog) := c.addIndex { name := key }
  ({ key, sources := c.bySize sources, result }, catalog)

/-- Takes over a change that the index `name` has already seen. -/
def follow (c : Catalog) (name : String) (id : DocId) (added : Bool)
    (item : Intersection) : Catalog :=
  if added then
    if c.allHold (item.sources.filter (·.name ≠ name)) id then
      c.updateIndex item.result (·.add id)
    else c
  else c.updateIndex item.result (·.remove id)

end Catalog

end RankedQuery
