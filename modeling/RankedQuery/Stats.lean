import RankedQuery.Datum

/-!
# Statistics

Snapshots of the counters of a cache, a pool and an engine.
-/

namespace RankedQuery

structure CacheStats where
  hitCount : UInt64 := 0
  missCount : UInt64 := 0
  buildsEnqueued : UInt64 := 0
  buildsDropped : UInt64 := 0
  buildsCompleted : UInt64 := 0
  buildsFailed : UInt64 := 0
  evictions : UInt64 := 0
  /-- Entries of the lookup, built or not. -/
  entries : UInt64 := 0
  /-- Built entries tracked for eviction. -/
  lruLen : UInt64 := 0
  deriving DecidableEq, Repr, Inhabited

structure PoolStats where
  capacity : UInt64
  available : UInt64
  checkouts : UInt64
  /-- Checkouts served by a fresh value because the pool was empty. -/
  transient : UInt64
  deriving DecidableEq, Repr, Inhabited

structure EngineStats where
  indexCount : UInt64
  sortCount : UInt64
  cache : CacheStats
  queryPool : PoolStats
  resultPool : PoolStats
  deriving DecidableEq, Repr, Inhabited

namespace CacheStats

def hitRate (s : CacheStats) : Float :=
  let gets := s.hitCount + s.missCount
  if gets = 0 then 0 else s.hitCount.toFloat / gets.toFloat

/-! ## Stored form -/

def fieldNames : List String :=
  ["hit_count", "miss_count", "builds_enqueued", "builds_dropped",
    "builds_completed", "builds_failed", "evictions", "entries", "lru_len"]

def toFields (s : CacheStats) : List (String × Datum) :=
  fieldNames.zip
    ([s.hitCount, s.missCount, s.buildsEnqueued, s.buildsDropped,
      s.buildsCompleted, s.buildsFailed, s.evictions, s.entries,
      s.lruLen].map Datum.ofWord)

def toDatum (s : CacheStats) : Datum := .fields s.toFields

def report (s : CacheStats) : Datum :=
  .fields (s.toFields ++ [("hit_rate", .real s.hitRate)])

def ofDatum? (datum : Datum) : Option CacheStats := do
  match ← datum.values? fieldNames with
  | [hits, misses, enqueued, dropped, completed, failed, evictions, entries,
      lruLen] =>
      return {
        hitCount := ← hits.word?
        missCount := ← misses.word?
        buildsEnqueued := ← enqueued.word?
        buildsDropped := ← dropped.word?
        buildsCompleted := ← completed.word?
        buildsFailed := ← failed.word?
        evictions := ← evictions.word?
        entries := ← entries.word?
        lruLen := ← lruLen.word? }
  | _ => none

end CacheStats

namespace PoolStats

def fieldNames : List String :=
  ["capacity", "available", "checkouts", "transient"]

def toDatum (s : PoolStats) : Datum :=
  .fields (fieldNames.zip
    ([s.capacity, s.available, s.checkouts, s.transient].map Datum.ofWord))

def ofDatum? (datum : Datum) : Option PoolStats := do
  match ← datum.values? fieldNames with
  | [capacity, available, checkouts, transient] =>
      return {
        capacity := ← capacity.word?
        available := ← available.word?
        checkouts := ← checkouts.word?
        transient := ← transient.word? }
  | _ => none

end PoolStats

namespace EngineStats

def fieldNames : List String :=
  ["index_count", "sort_count", "cache", "query_pool", "result_pool"]

def toDatum (s : EngineStats) : Datum :=
  .fields (fieldNames.zip
    [.ofWord s.indexCount, .ofWord s.sortCount, s.cache.toDatum,
      s.queryPool.toDatum, s.resultPool.toDatum])

def report (s : EngineStats) : Datum :=
  .fields (fieldNames.zip
    [.ofWord s.indexCount, .ofWord s.sortCount, s.cache.report,
      s.queryPool.toDatum, s.resultPool.toDatum])

def ofDatum? (datum : Datum) : Option EngineStats := do
  match ← datum.values? fieldNames with
  | [indexCount, sortCount, cache, queryPool, resultPool] =>
      return {
        indexCount := ← indexCount.word?
        sortCount := ← sortCount.word?
        cache := ← CacheStats.ofDatum? cache
        queryPool := ← PoolStats.ofDatum? queryPool
        resultPool := ← PoolStats.ofDatum? resultPool }
  | _ => none

end EngineStats

end RankedQuery
