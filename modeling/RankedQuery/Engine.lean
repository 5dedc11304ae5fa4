import RankedQuery.Collection
import RankedQuery.Query
import RankedQuery.Scan

/-!
# The engine

The engine answers queries over one collection.  Queries and results come from
pools and go back to them, a query when it has been executed, whether it
failed or not, and a result when its holder closes it.
-/

namespace RankedQuery

/-! ## Preparing a query -/

structure Prepared where
  sort : Handle Ranking
  conditions : List BoundCondition
  plan : Plan
  deriving DecidableEq, Repr

namespace Collection

/-- Binds the selected indexes, given without repetition: one of them as it is,
several through the cache, and on a miss each by itself, smallest first. -/
def bindSelected (c : Collection) (now : Millis) (names : List String) :
    Except Error (List BoundCondition) × Collection :=
  let bindEach (c : Collection) : Except Error (List BoundCondition) := do
    let sources ← c.catalog.directory.resolve names
    return (c.catalog.bySize sources).map fun source => .ofIndex c.catalog source.index
  match names with
  | [] => (.ok [], c)
  | [_] => (bindEach c, c)
  | _ =>
      match c.get now names c.catalog.directory with
      | (.error error, c) => (.error error, c)
      | (.ok (some index), c) => (.ok [.ofIndex c.catalog index], c)
      | (.ok none, c) => (bindEach c, c)

/-- Resolves the names of a query, first the sort, then the selected indexes,
then the filters, and plans its scan. -/
def prepare (c : Collection) (config : Config) (now : Millis) (q : Query) :
    Except Error Prepared × Collection :=
  match c.catalog.findSort q.sort with
  | .error error => (.error error, c)
  | .ok sort =>
      match c.bindSelected now (canonicalNames q.indexes) with
      | (.error error, c) => (.error error, c)
      | (.ok selected, c) =>
          match Condition.bindAll c.catalog q.filters with
          | .error error => (.error error, c)
          | .ok filters =>
              let conditions := Planner.order (selected ++ filters)
              let length := (c.catalog.rankings.read sort).size
              (.ok { sort, conditions,
                     plan := config.planner.plan conditions (.ofNat length) }, c)

end Collection

/-! ## The engine -/

structure Engine where
  config : Config
  collection : Collection
  queries : Pool Query
  results : Pool ResultSet

namespace Engine

def create (config : Config) : Except Error Engine := do
  config.validate
  return {
    config
    collection := .ofConfig config
    queries := .ofCapacity config.queryPoolSize
    results := .ofCapacity config.resultPoolSize }

def openQuery (e : Engine) (sort : String) : Query × Engine :=
  let (query, queries) := e.queries.checkout
  ({ query with sort := query.sort ++ sort }, { e with queries })

def closeQuery (e : Engine) (query : Query) : Engine :=
  { e with queries := e.queries.release query }

def closeResult (e : Engine) (result : ResultSet) : Engine :=
  { e with results := e.results.release result }

/-- Fills a pooled result for a prepared query; a failed scan returns it. -/
def fill (e : Engine) (query : Query) (prepared : Prepared) :
    Except Error ResultSet × Engine :=
  let catalog := e.collection.catalog
  let (result, results) := e.results.checkout
  let e := { e with results }
  match prepared.plan.execute catalog (catalog.rankings.read prepared.sort)
      prepared.conditions (query.page e.config) result with
  | .ok result => (.ok result, e)
  | .error error => (.error error, e.closeResult result)

def execute (e : Engine) (now : Millis) (query : Query) : Except Error ResultSet × Engine :=
  match query.fault? e.config with
  | some error => (.error error, e.closeQuery query)
  | none =>
      match e.collection.prepare e.config now query with
      | (.error error, collection) =>
          (.error error, { e with collection }.closeQuery query)
      | (.ok prepared, collection) =>
          let (answer, e) := { e with collection }.fill query prepared
          (answer, e.closeQuery query)

def stats (e : Engine) : EngineStats where
  indexCount := .ofNat e.collection.catalog.directory.size
  sortCount := .ofNat e.collection.catalog.sorts.size
  cache := e.collection.cache.stats
  queryPool := e.queries.stats
  resultPool := e.results.stats

end Engine

end RankedQuery
