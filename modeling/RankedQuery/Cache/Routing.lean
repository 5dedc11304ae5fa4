import RankedQuery.Cache.Intersection

/-!
# Routing of changes

Which intersections a change of an index concerns: one bucket per source name,
holding the intersections over it by key.  Intersections with equal keys are
still different; a later one takes the place of an earlier one, and taking the
earlier one out then leaves the later one where it is.
-/

namespace RankedQuery

abbrev Bucket := Std.ExtTreeMap String Intersection

structure Routing where
  buckets : Std.ExtTreeMap String Bucket := ∅
  deriving Inhabited

namespace Routing

def bucket? (r : Routing) (source : String) : Option Bucket := r.buckets[source]?

def items (r : Routing) (source : String) : List Intersection :=
  match r.bucket? source with
  | some bucket => bucket.values
  | none => []

def size (r : Routing) : Nat := r.buckets.size

def registerAt (r : Routing) (source : String) (item : Intersection) : Routing :=
  ⟨r.buckets.insert source (((r.bucket? source).getD ∅).insert item.key item)⟩

def register (r : Routing) (item : Intersection) : Routing :=
  item.sources.foldl (fun r source => r.registerAt source.name item) r

def unregisterAt (r : Routing) (source : String) (item : Intersection) : Routing :=
  match r.bucket? source with
  | none => r
  | some bucket =>
      let bucket := if bucket[item.key]? = some item then bucket.erase item.key else bucket
      if bucket.isEmpty then ⟨r.buckets.erase source⟩ else ⟨r.buckets.insert source bucket⟩

/-- Takes an intersection out of the bucket of each of its sources, and drops
the buckets left empty. -/
def unregister (r : Routing) (item : Intersection) : Routing :=
  item.sources.foldl (fun r source => r.unregisterAt source.name item) r

end Routing

end RankedQuery
