import RankedQuery.Cache.Routing
import RankedQuery.Config
import RankedQuery.Stats

/-!
# The cache

The cache has three views of its intersections.  The lookup has every entry,
built or not, by key; the routing has the built ones by source; the recency
list has the built ones from the coldest to the warmest.  A use stamps an
entry but does not move it; it moves when a sweep finds the stamp fresh.

A request to build an entry claims it; a dropped one gives the claim back, so
that the entry waits to be asked for again.  A build follows its request at once:
no entry stays queued, and none is seen half built.
-/

namespace RankedQuery

inductive Stage where
  /-- Not built; a build of it may be queued. -/
  | waiting (queued : Bool)
  /-- Built, and used or built last at the given time. -/
  | built (promoted : Millis)
  deriving DecidableEq, Repr

structure Entry where
  item : Intersection
  created : Millis
  stage : Stage := .waiting false
  deriving DecidableEq, Repr

namespace Entry

def isBuilt (e : Entry) : Bool :=
  match e.stage with
  | .waiting _ => false
  | .built _ => true

def isQueued (e : Entry) : Bool :=
  match e.stage with
  | .waiting queued => queued
  | .built _ => false

/-- When the entry was used or built last, zero before its build. -/
def promoted (e : Entry) : Millis :=
  match e.stage with
  | .waiting _ => 0
  | .built promoted => promoted

def isStale (e : Entry) (cutoff : Millis) : Bool := e.isBuilt && e.promoted < cutoff

/-- Waiting since before `cutoff`, with no build queued. -/
def isAbandoned (e : Entry) (cutoff : Millis) : Bool :=
  !e.isBuilt && !e.isQueued && e.created < cutoff

end Entry

structure Counters where
  hits : Nat := 0
  misses : Nat := 0
  enqueued : Nat := 0
  dropped : Nat := 0
  completed : Nat := 0
  failed : Nat := 0
  evictions : Nat := 0
  deriving DecidableEq, Repr, Inhabited

structure Cache where
  staleness : Millis
  /-- The most entries that one sweep removes. -/
  sweepLimit : Nat
  /-- Whether requests to build are taken; without workers they are dropped. -/
  accepting : Bool
  lookup : Std.ExtTreeMap String Entry := ∅
  routing : Routing := {}
  recency : List Intersection := []
  counters : Counters := {}
  deriving Inhabited

namespace Cache

def ofConfig (config : Config) : Cache where
  staleness := config.staleness
  sweepLimit := config.cacheMaxEvictionsPerSweep.toNat
  accepting := config.cacheWorkers ≠ 0

/-! ## Single entries -/

/-- Whether an intersection is the one in the lookup under its key. -/
def isLive (c : Cache) (item : Intersection) : Bool :=
  c.lookup[item.key]?.any (·.item = item)

def enter (c : Cache) (now : Millis) (item : Intersection) : Cache :=
  { c with lookup := c.lookup.insert item.key { item, created := now } }

def setStage (c : Cache) (key : String) (stage : Stage) : Cache :=
  { c with lookup := c.lookup.modify key fun entry => { entry with stage } }

def claim (c : Cache) (key : String) : Cache := c.setStage key (.waiting true)

def release (c : Cache) (key : String) : Cache := c.setStage key (.waiting false)

def track (c : Cache) (item : Intersection) : Cache :=
  if c.isLive item then
    { c with recency := c.recency.filter (·.key ≠ item.key) ++ [item] }
  else c

/-- Takes an intersection out of the lookup and the routing. -/
def evict (c : Cache) (item : Intersection) : Cache :=
  { c with
    lookup := if c.isLive item then c.lookup.erase item.key else c.lookup
    routing := c.routing.unregister item }

/-- Takes an intersection out of all three views. -/
def discard (c : Cache) (item : Intersection) : Cache :=
  { c with recency := c.recency.filter (· ≠ item) }.evict item

def count (c : Cache) (change : Counters → Counters) : Cache :=
  { c with counters := change c.counters }

/-! ## Invalidation -/

def itemsWhere (c : Cache) (test : Entry → Bool) : List Intersection :=
  (c.lookup.values.filter test).map (·.item)

def discardAll (c : Cache) (items : List Intersection) : Cache :=
  items.foldl discard c

def invalidate (c : Cache) (source : String) : Nat × Cache :=
  let doomed := c.itemsWhere (·.item.sources.any (·.name = source))
  (doomed.length, c.discardAll doomed)

/-! ## Sweeping -/

/-- Goes through built entries from the cold end, evicting stale ones while
`room` lasts and moving fresh ones to the warm end.  `kept` are the fresh ones
seen so far.  Gives the number evicted. -/
def sweepBuilt (cutoff : Millis) :
    (cold kept : List Intersection) → (room : Nat) → Cache → Nat × Cache
  | [], kept, _, c => (0, { c with recency := kept })
  | item :: cold, kept, 0, c => (0, { c with recency := item :: cold ++ kept })
  | item :: cold, kept, room + 1, c =>
      match c.lookup[item.key]? with
      | none => sweepBuilt cutoff cold kept (room + 1) c
      | some entry =>
          if entry.item ≠ item then sweepBuilt cutoff cold kept (room + 1) c
          else if entry.promoted < cutoff then
            let (evicted, c) := sweepBuilt cutoff cold kept room (c.evict item)
            (evicted + 1, c)
          else sweepBuilt cutoff cold (kept ++ [item]) (room + 1) c

def sweepAbandoned (cutoff : Millis) (room : Nat) (c : Cache) : Nat × Cache :=
  let abandoned := (c.itemsWhere (·.isAbandoned cutoff)).take room
  (abandoned.length, c.discardAll abandoned)

def cutoff (c : Cache) (now : Millis) : Millis :=
  saturate (now.toInt - c.staleness.toInt)

/-- Removes stale entries, then abandoned ones, up to the limit of one sweep;
gives the number removed. -/
def sweep (c : Cache) (now : Millis) : Nat × Cache :=
  let cutoff := c.cutoff now
  let (stale, c) := sweepBuilt cutoff c.recency [] c.sweepLimit c
  let (abandoned, c) := sweepAbandoned cutoff (c.sweepLimit - stale) c
  let removed := stale + abandoned
  (removed, c.count fun n => { n with evictions := n.evictions + removed })

def shutdown (c : Cache) : Cache := { c with accepting := false }

def size (c : Cache) : Nat := c.lookup.size

def stats (c : Cache) : CacheStats where
  hitCount := .ofNat c.counters.hits
  missCount := .ofNat c.counters.misses
  buildsEnqueued := .ofNat c.counters.enqueued
  buildsDropped := .ofNat c.counters.dropped
  buildsCompleted := .ofNat c.counters.completed
  buildsFailed := .ofNat c.counters.failed
  evictions := .ofNat c.counters.evictions
  entries := .ofNat c.lookup.size
  lruLen := .ofNat c.recency.length

end Cache

end RankedQuery
