import RankedQuery.Proofs.Engine.Consistency

/-!
# Calls of the cache

Every access reaches the cache by at most one call, a get, an invalidation or a
sweep: whatever else it does leaves the entries and the counters of the cache
alone.  A call answers every request to build that it makes, so that none is queued
after it.
-/

namespace RankedQuery

/-- What reaches the cache. -/
inductive CacheCall where
  | get (now : Millis) (names : List String) (directory : Directory)
  | invalidate (source : String)
  | sweep (now : Millis)

namespace Engine

def cacheCall? (e : Engine) : Access → Option CacheCall
  | .call (.get now names directory) => some (.get now names directory)
  | .call (.execute now query) =>
      if e.consults query then
        some (.get now (canonicalNames query.indexes) e.collection.catalog.directory)
      else none
  | .call (.invalidate source) => some (.invalidate source)
  | .call (.dropIndex name) =>
      if (e.collection.catalog.index? name).isSome then some (.invalidate name) else none
  | .call (.sweep now) => some (.sweep now)
  | _ => none

end Engine

/-- The second collection has the cache that the call leaves behind; without a call
the cache is as it was, but may begin or cease to take requests. -/
def Collection.Meets (c c' : Collection) : Option CacheCall → Prop
  | some (.get now names directory) => c' = (c.get now names directory).2
  | some (.invalidate source) => c'.cache = (c.cache.invalidate source).2
  | some (.sweep now) => c'.cache = (c.cache.sweep now).2
  | none => c'.cache = { c.cache with accepting := c'.cache.accepting }

namespace Engine

theorem meets_execute (e : Engine) (now : Millis) (query : Query) :
    e.collection.Meets (e.execute now query).2.collection
      (e.cacheCall? (.call (.execute now query))) := by
  have collection := e.collection_execute_eq now query
  simp only [cacheCall?]
  split at collection
  next consults =>
    rw [if_pos consults]
    exact collection
  next idle =>
    rw [if_neg idle, collection]
    rfl

theorem meets_dropIndex (e : Engine) (name : String) :
    e.collection.Meets (e.after (.dropIndex name)).collection
      (e.cacheCall? (.call (.dropIndex name))) := by
  simp only [after, onCollection, Collection.dropIndex, Catalog.dropIndex, cacheCall?]
  cases e.collection.catalog.index? name with
  | none => rfl
  | some index => rfl

theorem meets_access (e : Engine) (a : Access) :
    e.collection.Meets (e.access a).collection (e.cacheCall? a) := by
  have unchanged : ∀ {c : Collection}, c.cache = e.collection.cache →
      e.collection.Meets c none := fun same => by
    rw [Collection.Meets, same]
  cases a with
  | call op =>
      cases op with
      | dropIndex name => exact e.meets_dropIndex name
      | add name id => exact unchanged (Collection.cache_add name id)
      | remove name id => exact unchanged (Collection.cache_remove name id)
      | setScore sort id score draws =>
          exact unchanged (Collection.cache_setScore sort id score draws)
      | removeScore sort id => exact unchanged (Collection.cache_removeScore sort id)
      | append sort id => exact unchanged (Collection.cache_append sort id)
      | prepend sort id => exact unchanged (Collection.cache_prepend sort id)
      | removeDocument id => exact unchanged (Collection.cache_removeDocument id)
      | execute now query => exact e.meets_execute now query
      | _ => exact rfl
  | _ => exact rfl

variable {e : Engine} {a : Access}

theorem knows_of_get (consistent : e.collection.Consistent)
    (resolves : ∀ now names directory, a = .call (.get now names directory) →
      ∀ source : Source, directory[source.name]? = some source.index →
        e.collection.catalog.Knows source)
    {now : Millis} {names : List String} {directory : Directory}
    (call : e.cacheCall? a = some (.get now names directory)) (source : Source)
    (registered : directory[source.name]? = some source.index) :
    e.collection.catalog.Knows source := by
  unfold cacheCall? at call
  split at call
  next =>
    cases call
    exact resolves now names directory rfl source registered
  next =>
    split at call
    next =>
      cases call
      exact consistent.catalog.known source registered
    next => cases call
  next => cases call
  next => split at call <;> cases call
  next => cases call
  next => cases call

theorem eq_sweep_of_call {now : Millis} (call : e.cacheCall? a = some (.sweep now)) :
    a = .call (.sweep now) := by
  unfold cacheCall? at call
  split at call
  next => cases call
  next => split at call <;> cases call
  next => cases call
  next => split at call <;> cases call
  next =>
    cases call
    rfl
  next => cases call

end Engine

/-! ## Queued builds -/

def Cache.Idle (c : Cache) : Prop :=
  ∀ (key : String) (entry : Entry), c.lookup[key]? = some entry → entry.isQueued = false

theorem Cache.Idle.of_sheds {c c' : Cache} (idle : c.Idle) (sheds : c.Sheds c') : c'.Idle :=
  fun key entry found => idle key entry (sheds.entries key entry found)

theorem Cache.Idle.built {c : Cache} (idle : c.Idle) (key : String) (now : Millis) :
    (c.setStage key (.built now)).Idle := by
  intro other entry' found
  rw [getElem?_setStage] at found
  split at found
  next =>
    obtain ⟨entry, -, rfl⟩ := Option.map_eq_some_iff.mp found
    rfl
  next => exact idle other entry' found

namespace Collection

variable {c : Collection}

theorem idle_requestBuild (idle : c.cache.Idle) {item : Intersection}
    (awaits : c.cache.Awaits item) (now : Millis) : (c.requestBuild now item).cache.Idle := by
  have step := afterRequest awaits now
  generalize c.requestBuild now item = c' at step ⊢
  cases step with
  | dropped _ _ lookup =>
      intro key entry found
      exact idle key entry (lookup ▸ found)
  | failed _ _ _ lookup =>
      intro key entry found
      rw [lookup] at found
      exact idle key entry ((c.cache.getElem?_evict item).mp found).1
  | completed _ _ lookup =>
      intro key entry found
      exact idle.built item.key now key entry (lookup ▸ found)

theorem idle_get (consistent : c.Consistent) (idle : c.cache.Idle) (now : Millis)
    (names : List String) (directory : Directory) :
    (c.get now names directory).2.cache.Idle := by
  have missed : c.missed.cache.Idle := idle
  have step := c.afterGet now names directory
  generalize (c.get now names directory).2 = c' at step ⊢
  cases step with
  | hit => exact idle.built _ now
  | queued => exact idle
  | waits found waiting =>
      exact idle_requestBuild missed
        (Cache.awaits_of_found found (consistent.cache.keyed _ _ found) waiting) now
  | unresolved => exact idle
  | enters =>
      refine idle_requestBuild ?_ (awaits_enter ..) now
      intro key entry found
      rw [getElem?_enter] at found
      split at found
      next =>
        cases found
        rfl
      next => exact missed key entry found

end Collection

theorem Engine.idle_access (e : Engine) (consistent : e.collection.Consistent)
    (idle : e.collection.cache.Idle) (a : Access) : (e.access a).collection.cache.Idle := by
  have meets := e.meets_access a
  cases called : e.cacheCall? a with
  | none =>
      rw [called] at meets
      rw [show (e.access a).collection.cache = _ from meets]
      exact idle
  | some call =>
      rw [called] at meets
      cases call with
      | get now names directory =>
          rw [show (e.access a).collection = _ from meets]
          exact Collection.idle_get consistent idle now names directory
      | invalidate source =>
          rw [show (e.access a).collection.cache = _ from meets]
          exact idle.of_sheds (Cache.sheds_discardAll _ _)
      | sweep now =>
          rw [show (e.access a).collection.cache = _ from meets]
          exact idle.of_sheds (Cache.sheds_sweep _ now)

theorem Run.Accessible.idle {config : Config} {r : Run} (accessible : r.Accessible config) :
    r.cache.Idle := by
  induction accessible with
  | start created =>
      rw [Engine.create_eq_ok created]
      intro key entry found
      simp [Run.cache, Run.ofEngine, Collection.ofConfig, Cache.ofConfig] at found
  | @step r a earlier _ ih => exact r.engine.idle_access earlier.consistent.collection ih a

end RankedQuery
