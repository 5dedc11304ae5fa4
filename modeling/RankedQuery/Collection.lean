import RankedQuery.Cache.Basic

/-!
# Collections

A collection is a catalog together with the cache of intersections over it.
Every change of an index goes through the collection, which updates the index
first and then lets the cache follow.  A get answers from a built entry or
reports a miss; on a miss it sees to it that the intersection is entered and
its build requested.
-/

namespace RankedQuery

structure Collection where
  catalog : Catalog := {}
  cache : Cache
  deriving Inhabited

namespace Collection

def ofConfig (config : Config) : Collection where
  catalog := { levelLimit := config.levelLimit.toNat }
  cache := .ofConfig config

def onCache (c : Collection) (change : Cache → Cache) : Collection :=
  { c with cache := change c.cache }

def count (c : Collection) (change : Counters → Counters) : Collection :=
  c.onCache (·.count change)

/-! ## Building -/

/-- Builds a live intersection.  It is routed before its sources are looked at;
if one of them is retired the intersection is discarded again. -/
def build (c : Collection) (now : Millis) (item : Intersection) : Collection :=
  if c.cache.isLive item then
    let c := c.onCache fun cache => { cache with routing := cache.routing.register item }
    if item.sources.any fun source => (c.catalog.indexes.read source.index).retired then
      (c.onCache (·.discard item)).count fun n => { n with failed := n.failed + 1 }
    else
      let members := c.catalog.intersect item.sources
      let c := { c with catalog := c.catalog.updateIndex item.result (·.refill members) }
      let c := c.onCache fun cache => (cache.setStage item.key (.built now)).track item
      c.count fun n => { n with completed := n.completed + 1 }
  else c

/-- Requests the build of a waiting intersection, which no other request has
claimed. -/
def requestBuild (c : Collection) (now : Millis) (item : Intersection) : Collection :=
  let c := c.onCache (·.claim item.key)
  if c.cache.accepting then
    (c.count fun n => { n with enqueued := n.enqueued + 1 }).build now item
  else (c.onCache (·.release item.key)).count fun n => { n with dropped := n.dropped + 1 }

def enter (c : Collection) (now : Millis) (key : String) (sources : List Source) :
    Intersection × Collection :=
  let (item, catalog) := c.catalog.addIntersection key sources
  (item, { catalog, cache := c.cache.enter now item })

/-- Looks up the intersection of the named indexes.  A hit gives its index.
A miss gives nothing, and fails if a name cannot be resolved in `directory`. -/
def get (c : Collection) (now : Millis) (names : List String) (directory : Directory) :
    Except Error (Option (Handle Index)) × Collection :=
  let names := canonicalNames names
  let key := "&".intercalate names
  match c.cache.lookup[key]? with
  | some entry =>
      match entry.stage with
      | .built _ =>
          let c := c.onCache (·.setStage key (.built now))
          (.ok (some entry.item.result), c.count fun n => { n with hits := n.hits + 1 })
      | .waiting queued =>
          let c := c.count fun n => { n with misses := n.misses + 1 }
          (.ok none, if queued then c else c.requestBuild now entry.item)
  | none =>
      let c := c.count fun n => { n with misses := n.misses + 1 }
      match directory.resolve names with
      | .error error => (.error error, c)
      | .ok sources =>
          let (item, c) := c.enter now key sources
          (.ok none, c.requestBuild now item)

/-! ## Changing indexes -/

def changed (c : Collection) (name : String) (id : DocId) (added : Bool) : Collection :=
  let items := c.cache.routing.items name
  { c with catalog := items.foldl (·.follow name id added ·) c.catalog }

def addTo (c : Collection) (name : String) (index : Handle Index) (id : DocId) :
    Bool × Collection :=
  if c.catalog.holds index id then (false, c)
  else
    (true, { c with catalog := c.catalog.updateIndex index (·.add id) }.changed name id true)

/-- Takes a document out of an index value.  False when it was not there. -/
def removeFrom (c : Collection) (name : String) (index : Handle Index) (id : DocId) :
    Bool × Collection :=
  if c.catalog.holds index id then
    (true,
      { c with catalog := c.catalog.updateIndex index (·.remove id) }.changed name id false)
  else (false, c)

def add (c : Collection) (name : String) (id : DocId) : Except Error (Bool × Collection) := do
  let index ← c.catalog.findIndex name
  return c.addTo name index id

def remove (c : Collection) (name : String) (id : DocId) :
    Except Error (Bool × Collection) := do
  let index ← c.catalog.findIndex name
  return c.removeFrom name index id

def dropIndex (c : Collection) (name : String) : Except Error Collection :=
  match c.catalog.dropIndex name with
  | (none, _) => .error (.unknownReference name)
  | (some _, catalog) => .ok { c with catalog, cache := (c.cache.invalidate name).2 }

/-- Unregisters an index behind the cache's back: its entries stay. -/
def unregisterIndex (c : Collection) (name : String) : Option (Handle Index) × Collection :=
  let (index, catalog) := c.catalog.dropIndex name
  (index, { c with catalog })

def invalidate (c : Collection) (source : String) : Nat × Collection :=
  let (removed, cache) := c.cache.invalidate source
  (removed, { c with cache })

def sweep (c : Collection) (now : Millis) : Nat × Collection :=
  let (removed, cache) := c.cache.sweep now
  (removed, { c with cache })

def shutdown (c : Collection) : Collection := c.onCache (·.shutdown)

/-! ## Changing sorts -/

def createIndex (c : Collection) (name : String) : Handle Index × Collection :=
  let (index, catalog) := c.catalog.createIndex name
  (index, { c with catalog })

def createSort (c : Collection) (name : String) : Handle Ranking × Collection :=
  let (sort, catalog) := c.catalog.createSort name
  (sort, { c with catalog })

/-- Replaces the sort of this name by a static one.  Whoever holds the old one
keeps it. -/
def loadStaticSort (c : Collection) (name : String) (ids : List DocId) :
    Handle Ranking × Collection :=
  let (sort, catalog) := c.catalog.installSort (.static name ids)
  (sort, { c with catalog })

def putSort (c : Collection) (sort : Handle Ranking) (ranking : Ranking) : Collection :=
  { c with catalog := c.catalog.updateSort sort fun _ => ranking }

def setScore (c : Collection) (name : String) (id : DocId) (score : Score)
    (draws : Nat := Ranking.drawsOf id) : Except Error (Bool × Collection) := do
  let sort ← c.catalog.findSort name
  let (changed, ranking) ← (c.catalog.rankings.read sort).set id score draws
  return (changed, c.putSort sort ranking)

def removeScore (c : Collection) (name : String) (id : DocId) :
    Except Error (Bool × Collection) := do
  let sort ← c.catalog.findSort name
  let (changed, ranking) ← (c.catalog.rankings.read sort).remove id
  return (changed, c.putSort sort ranking)

def append? (c : Collection) (sort : Handle Ranking) (id : DocId) :
    Option (Except Error Collection) :=
  ((c.catalog.rankings.read sort).append? id).map fun appended => do
    return c.putSort sort (← appended)

def prepend? (c : Collection) (sort : Handle Ranking) (id : DocId) :
    Option (Except Error Collection) :=
  ((c.catalog.rankings.read sort).prepend? id).map fun prepended => do
    return c.putSort sort (← prepended)

def removeFromSort (c : Collection) (sort : Handle Ranking) (id : DocId) : Collection :=
  match (c.catalog.rankings.read sort).remove id with
  | .ok (_, ranking) => c.putSort sort ranking
  | .error _ => c

def removeDocument (c : Collection) (id : DocId) : Collection :=
  let c := c.catalog.directory.toList.foldl
    (fun c (name, index) => (c.removeFrom name index id).2) c
  c.catalog.sorts.values.foldl (fun c sort => c.removeFromSort sort id) c

end Collection

end RankedQuery
