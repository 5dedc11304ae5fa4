import RankedQuery.Datum
import RankedQuery.Error

/-!
# Configuration

The settings of one engine, fixed when it is created.  `levelLimit` bounds the
heights in the skip lists of dynamic sorts; `levelProbability` is how likely each
further level is, and decides nothing else.
-/

namespace RankedQuery

structure Config where
  /-- The page size of a query that sets no limit. -/
  defaultLimit : UInt64 := 10
  /-- Requested limits are capped to this. -/
  maxLimit : UInt64 := 100
  /-- Totals are counted up to this. -/
  maxTotal : UInt64 := 1000
  /-- A scan is driven by its smallest condition when that condition's share of
  the sort is at most this. -/
  indexDrivenRatio : Float := 0.05
  /-- No larger condition ever drives a scan. -/
  indexDrivenCap : UInt64 := 5000
  maxIndexesPerQuery : UInt64 := 10
  queryPoolSize : UInt64 := 64
  resultPoolSize : UInt64 := 64
  cacheWorkers : UInt64 := 1
  cacheQueueSize : UInt64 := 1024
  cacheStalenessSecs : UInt64 := 300
  cacheSweepIntervalMs : UInt64 := 1000
  cacheMaxEvictionsPerSweep : UInt64 := 500
  levelLimit : UInt64 := 32
  levelProbability : Float := 0.5
  deriving DecidableEq, Repr, Inhabited

namespace Config

def fault? (c : Config) : Option Error :=
  if c.defaultLimit = 0 ∨ c.maxLimit = 0 then some .limitNotPositive
  else if c.maxLimit < c.defaultLimit then
    some (.defaultLimitAboveMaximum c.defaultLimit c.maxLimit)
  else if c.maxIndexesPerQuery = 0 then some .indexAllowanceNotPositive
  else if ¬ (0 < c.levelProbability ∧ c.levelProbability < 1) then
    some (.probabilityOutside c.levelProbability)
  else if c.cacheSweepIntervalMs = 0 then some .sweepIntervalNotPositive
  else if c.levelLimit = 0 then some .maxLevelNotPositive
  else none

def validate (c : Config) : Except Error Unit :=
  match c.fault? with
  | some error => .error error
  | none => .ok ()

/-- The idle time after which a cached entry is stale.  The seconds are read
as a signed number and the product stops at the ends of its range. -/
def staleness (c : Config) : Millis :=
  saturate (c.cacheStalenessSecs.toInt64.toInt * 1000)

/-! ## Stored form -/

def fieldNames : List String :=
  ["default_limit", "max_limit", "max_total", "index_driven_ratio",
    "index_driven_cap", "max_indexes_per_query", "query_pool_size",
    "result_pool_size", "cache_workers", "cache_queue_size",
    "cache_staleness_secs", "cache_sweep_interval_ms",
    "cache_max_evictions_per_sweep", "skiplist_max_level",
    "skiplist_probability"]

def toFields (c : Config) : List (String × Datum) :=
  fieldNames.zip
    [.ofWord c.defaultLimit, .ofWord c.maxLimit, .ofWord c.maxTotal,
      .real c.indexDrivenRatio, .ofWord c.indexDrivenCap,
      .ofWord c.maxIndexesPerQuery, .ofWord c.queryPoolSize,
      .ofWord c.resultPoolSize, .ofWord c.cacheWorkers,
      .ofWord c.cacheQueueSize, .ofWord c.cacheStalenessSecs,
      .ofWord c.cacheSweepIntervalMs, .ofWord c.cacheMaxEvictionsPerSweep,
      .ofWord c.levelLimit, .real c.levelProbability]

def toDatum (c : Config) : Datum := .fields c.toFields

/-- Every field is required and must have its type; validity is another matter. -/
def ofDatum? (datum : Datum) : Option Config := do
  match ← datum.values? fieldNames with
  | [defaultLimit, maxLimit, maxTotal, ratio, cap, perQuery, queryPool,
      resultPool, workers, queue, stalenessSecs, sweepInterval, perSweep,
      maxLevel, probability] =>
      return {
        defaultLimit := ← defaultLimit.word?
        maxLimit := ← maxLimit.word?
        maxTotal := ← maxTotal.word?
        indexDrivenRatio := ← ratio.real?
        indexDrivenCap := ← cap.word?
        maxIndexesPerQuery := ← perQuery.word?
        queryPoolSize := ← queryPool.word?
        resultPoolSize := ← resultPool.word?
        cacheWorkers := ← workers.word?
        cacheQueueSize := ← queue.word?
        cacheStalenessSecs := ← stalenessSecs.word?
        cacheSweepIntervalMs := ← sweepInterval.word?
        cacheMaxEvictionsPerSweep := ← perSweep.word?
        levelLimit := ← maxLevel.word?
        levelProbability := ← probability.real? }
  | _ => none

/-- The default settings with some fields replaced; the first replacement of a
name counts. -/
def ofOverrides? (overrides : List (String × Datum)) : Option Config :=
  ofDatum? (.fields (overrides ++ toFields {}))

end Config

end RankedQuery
