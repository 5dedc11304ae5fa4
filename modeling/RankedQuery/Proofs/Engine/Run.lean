import Mathlib.Logic.Basic
import RankedQuery.Engine
import RankedQuery.Proofs.Cache.Building

/-!
# Runs of an engine

A run is any sequence of operations from a new engine, during which the queue of
builds may be full at times.  The run remembers the directories that the engine
has had: a get may be asked to resolve names in any of them, or in a mixture.
The cache is coherent throughout every run, and what a hit gives is the
intersection of its sources for as long as the entry lasts.
-/

namespace RankedQuery

/-! ## Operations -/

inductive Operation where
  | createIndex (name : String)
  | dropIndex (name : String)
  | createSort (name : String)
  | loadStaticSort (name : String) (ids : List DocId)
  | add (name : String) (id : DocId)
  | remove (name : String) (id : DocId)
  | setScore (sort : String) (id : DocId) (score : Score) (draws : Nat := 0)
  | removeScore (sort : String) (id : DocId)
  | append (sort : Handle Ranking) (id : DocId)
  | prepend (sort : Handle Ranking) (id : DocId)
  | removeDocument (id : DocId)
  | get (now : Millis) (names : List String) (directory : Directory)
  | invalidate (source : String)
  | sweep (now : Millis)
  /-- The queue of builds fills up, so that requests are dropped, or drains. -/
  | takeBuilds (taking : Bool)
  | shutdown
  | openQuery (sort : String)
  | closeQuery (query : Query)
  | execute (now : Millis) (query : Query)
  | closeResult (result : ResultSet)

namespace Collection

def takeBuilds (c : Collection) (taking : Bool) : Collection :=
  c.onCache ({ · with accepting := taking })

def orKeep (c : Collection) : Except Error (Bool × Collection) → Collection
  | .ok (_, changed) => changed
  | .error _ => c

def orKeepSort (c : Collection) : Option (Except Error Collection) → Collection
  | some (.ok changed) => changed
  | _ => c

end Collection

namespace Engine

def onCollection (e : Engine) (change : Collection → Collection) : Engine :=
  { e with collection := change e.collection }

/-- The engine after an operation, whether the operation succeeds or fails. -/
def after (e : Engine) : Operation → Engine
  | .createIndex name => e.onCollection fun c => (c.createIndex name).2
  | .dropIndex name => e.onCollection fun c =>
      match c.dropIndex name with
      | .ok dropped => dropped
      | .error _ => c
  | .createSort name => e.onCollection fun c => (c.createSort name).2
  | .loadStaticSort name ids => e.onCollection fun c => (c.loadStaticSort name ids).2
  | .add name id => e.onCollection fun c => c.orKeep (c.add name id)
  | .remove name id => e.onCollection fun c => c.orKeep (c.remove name id)
  | .setScore sort id score draws =>
      e.onCollection fun c => c.orKeep (c.setScore sort id score draws)
  | .removeScore sort id => e.onCollection fun c => c.orKeep (c.removeScore sort id)
  | .append sort id => e.onCollection fun c => c.orKeepSort (c.append? sort id)
  | .prepend sort id => e.onCollection fun c => c.orKeepSort (c.prepend? sort id)
  | .removeDocument id => e.onCollection (·.removeDocument id)
  | .get now names directory => e.onCollection fun c => (c.get now names directory).2
  | .invalidate source => e.onCollection fun c => (c.invalidate source).2
  | .sweep now => e.onCollection fun c => (c.sweep now).2
  | .takeBuilds taking => e.onCollection (·.takeBuilds taking)
  | .shutdown => e.onCollection (·.shutdown)
  | .openQuery sort => (e.openQuery sort).2
  | .closeQuery query => e.closeQuery query
  | .execute now query => (e.execute now query).2
  | .closeResult result => e.closeResult result

end Engine

/-! ## Runs -/

/-- An engine with all the directories that it has had. -/
structure Run where
  engine : Engine
  directories : List Directory

namespace Run

def collection (r : Run) : Collection := r.engine.collection

def catalog (r : Run) : Catalog := r.engine.collection.catalog

def cache (r : Run) : Cache := r.engine.collection.cache

def ofEngine (e : Engine) : Run := ⟨e, [e.collection.catalog.directory]⟩

def after (r : Run) (op : Operation) : Run where
  engine := r.engine.after op
  directories := (r.engine.after op).collection.catalog.directory :: r.directories

/-- A get resolves names to indexes that are or once were registered under
them.  Nothing is asked of other operations. -/
def Allows (r : Run) : Operation → Prop
  | .get _ _ directory => ∀ (name : String) (index : Handle Index),
      directory[name]? = some index →
        ∃ earlier ∈ r.directories, earlier[name]? = some index
  | _ => True

inductive LeadsTo (r : Run) : Run → Prop
  | refl : LeadsTo r r
  | step {r' : Run} {op : Operation} :
      LeadsTo r r' → r'.Allows op → LeadsTo r (r'.after op)

theorem LeadsTo.foldl {r r' : Run} (leads : r.LeadsTo r') {ops : List Operation}
    (allowed : ∀ op ∈ ops, ∀ r : Run, r.Allows op) : r.LeadsTo (ops.foldl after r') := by
  induction ops generalizing r' with
  | nil => exact leads
  | cons op ops ih =>
      have once := leads.step (allowed op List.mem_cons_self r')
      exact ih once fun other inside => allowed other (List.mem_cons_of_mem _ inside)

def Reached (config : Config) (r : Run) : Prop :=
  ∃ e, Engine.create config = .ok e ∧ (ofEngine e).LeadsTo r

end Run

/-! ## Queries and the cache -/

namespace Collection

variable {c : Collection}

/-! A query does nothing to the collection but one get, if it selects several
indexes and comes so far. -/

theorem bindSelected_snd_eq (c : Collection) (now : Millis) (names : List String) :
    (c.bindSelected now names).2 =
      if 2 ≤ names.length then (c.get now names c.catalog.directory).2 else c := by
  match names with
  | [] => rfl
  | [_] => rfl
  | first :: second :: others =>
      rw [if_pos (by simp)]
      unfold bindSelected
      dsimp only
      split <;>
      next answered => rw [answered]

theorem bindSelected_snd (c : Collection) (now : Millis) (names : List String) :
    (c.bindSelected now names).2 = c ∨
      (c.bindSelected now names).2 = (c.get now names c.catalog.directory).2 := by
  rw [bindSelected_snd_eq]
  split
  · exact .inr rfl
  · exact .inl rfl

theorem prepare_snd_eq (c : Collection) (config : Config) (now : Millis) (query : Query) :
    (c.prepare config now query).2 =
      if (c.catalog.sort? query.sort).isSome then
        (c.bindSelected now (canonicalNames query.indexes)).2
      else c := by
  unfold prepare Catalog.findSort
  cases c.catalog.sort? query.sort with
  | none => rfl
  | some sort =>
      simp only [Option.isSome_some, if_true]
      split
      next answered => rw [answered]
      next answered =>
        rw [answered]
        split <;> rfl

/-! ## Changes that may fail -/

private theorem becomes_onIndex (coherent : c.Coherent) (name : String)
    {change : Handle Index → Bool × Collection}
    (becomes : ∀ index, c.catalog.directory[name]? = some index →
      c.Becomes (change index).2) :
    c.Becomes (c.orKeep (do return change (← c.catalog.findIndex name))) := by
  cases found : c.catalog.findIndex name with
  | error => exact .refl coherent
  | ok index => exact becomes index (Catalog.findIndex_eq_ok.mp found)

theorem becomes_add (coherent : c.Coherent) (name : String) (id : DocId) :
    c.Becomes (c.orKeep (c.add name id)) :=
  becomes_onIndex coherent name fun _ registered => becomes_addTo coherent registered id

theorem becomes_remove (coherent : c.Coherent) (name : String) (id : DocId) :
    c.Becomes (c.orKeep (c.remove name id)) :=
  becomes_onIndex coherent name fun _ registered => becomes_removeFrom coherent registered id

private theorem becomes_onSort (coherent : c.Coherent) (sort : String)
    (change : Ranking → Except Error (Bool × Ranking)) :
    c.Becomes (c.orKeep (do
      let handle ← c.catalog.findSort sort
      let changed ← change (c.catalog.rankings.read handle)
      return (changed.1, c.putSort handle changed.2))) := by
  cases c.catalog.findSort sort with
  | error => exact .refl coherent
  | ok handle =>
      cases changes : change (c.catalog.rankings.read handle) with
      | error =>
          simp only [bind, Except.bind, changes]
          exact .refl coherent
      | ok changed =>
          simp only [bind, Except.bind, changes]
          exact becomes_putSort coherent handle changed.2

theorem becomes_setScore (coherent : c.Coherent) (sort : String) (id : DocId)
    (score : Score) (draws : Nat) : c.Becomes (c.orKeep (c.setScore sort id score draws)) :=
  becomes_onSort coherent sort (·.set id score draws)

theorem becomes_removeScore (coherent : c.Coherent) (sort : String) (id : DocId) :
    c.Becomes (c.orKeep (c.removeScore sort id)) :=
  becomes_onSort coherent sort (·.remove id)

private theorem becomes_onStatic (coherent : c.Coherent) (sort : Handle Ranking)
    (attempt : Option (Except Error Ranking)) :
    c.Becomes (c.orKeepSort (attempt.map fun ranking => do
      return c.putSort sort (← ranking))) := by
  cases attempt with
  | none => exact .refl coherent
  | some changed =>
      cases changed with
      | error => exact .refl coherent
      | ok ranking => exact becomes_putSort coherent sort ranking

theorem becomes_append (coherent : c.Coherent) (sort : Handle Ranking) (id : DocId) :
    c.Becomes (c.orKeepSort (c.append? sort id)) :=
  becomes_onStatic coherent sort _

theorem becomes_prepend (coherent : c.Coherent) (sort : Handle Ranking) (id : DocId) :
    c.Becomes (c.orKeepSort (c.prepend? sort id)) :=
  becomes_onStatic coherent sort _

end Collection

/-! ## Every operation -/

namespace Engine

theorem create_eq_ok {config : Config} {e : Engine} (created : create config = .ok e) :
    e = {
      config
      collection := .ofConfig config
      queries := .ofCapacity config.queryPoolSize
      results := .ofCapacity config.resultPoolSize } := by
  simp only [create, bind, Except.bind, pure, Except.pure] at created
  cases valid : config.validate with
  | error => simp [valid] at created
  | ok =>
      simp only [valid, Except.ok.injEq] at created
      exact created.symm

theorem collection_fill (e : Engine) (query : Query) (prepared : Prepared) :
    (e.fill query prepared).2.collection = e.collection := by
  unfold fill
  dsimp only
  split <;> rfl

theorem after_dropIndex (e : Engine) (name : String) :
    (e.after (.dropIndex name)).collection = e.collection ∨
      e.collection.dropIndex name = .ok (e.after (.dropIndex name)).collection := by
  unfold after onCollection
  dsimp only
  split
  next drops => exact .inr drops
  next => exact .inl rfl

/-- A query gets as far as the cache if it is well formed, its sort is registered,
and it selects more than one index. -/
def consults (e : Engine) (query : Query) : Bool :=
  (query.fault? e.config).isNone && (e.collection.catalog.sort? query.sort).isSome &&
    2 ≤ (canonicalNames query.indexes).length

theorem collection_execute_eq (e : Engine) (now : Millis) (query : Query) :
    (e.execute now query).2.collection =
      if e.consults query then
        (e.collection.get now (canonicalNames query.indexes)
          e.collection.catalog.directory).2
      else e.collection := by
  unfold execute consults
  cases query.fault? e.config with
  | some error => rfl
  | none =>
      have prepared := e.collection.prepare_snd_eq e.config now query
      rw [Collection.bindSelected_snd_eq] at prepared
      simp only [Option.isNone_none, Bool.true_and, Bool.and_eq_true, decide_eq_true_eq,
        ite_and]
      split
      next answered =>
        rw [answered] at prepared
        exact prepared
      next ready collection answered =>
        rw [answered] at prepared
        dsimp only [closeQuery]
        rw [collection_fill]
        exact prepared

theorem collection_execute (e : Engine) (now : Millis) (query : Query) :
    (e.execute now query).2.collection = e.collection ∨
      (e.execute now query).2.collection = (e.collection.get now
        (canonicalNames query.indexes) e.collection.catalog.directory).2 := by
  rw [collection_execute_eq]
  split
  · exact .inr rfl
  · exact .inl rfl

theorem becomes_execute (e : Engine) (coherent : e.collection.Coherent) (now : Millis)
    (query : Query) : e.collection.Becomes (e.execute now query).2.collection := by
  rcases e.collection_execute now query with same | same
  · rw [same]
    exact .refl coherent
  · rw [same]
    exact Collection.becomes_get coherent now _ coherent.catalog.known

theorem becomes_after (e : Engine) (coherent : e.collection.Coherent) (op : Operation)
    (resolves : ∀ now names directory, op = .get now names directory →
      ∀ source : Source, directory[source.name]? = some source.index →
        e.collection.catalog.Knows source) :
    e.collection.Becomes (e.after op).collection := by
  cases op with
  | createIndex name => exact Collection.becomes_createIndex coherent name
  | dropIndex name =>
      rcases e.after_dropIndex name with same | drops
      · rw [same]
        exact .refl coherent
      · exact Collection.becomes_dropIndex coherent drops
  | createSort name => exact Collection.becomes_createSort coherent name
  | loadStaticSort name ids => exact Collection.becomes_loadStaticSort coherent name ids
  | add name id => exact Collection.becomes_add coherent name id
  | remove name id => exact Collection.becomes_remove coherent name id
  | setScore sort id score draws =>
      exact Collection.becomes_setScore coherent sort id score draws
  | removeScore sort id => exact Collection.becomes_removeScore coherent sort id
  | append sort id => exact Collection.becomes_append coherent sort id
  | prepend sort id => exact Collection.becomes_prepend coherent sort id
  | removeDocument id => exact Collection.becomes_removeDocument coherent id
  | get now names directory =>
      exact Collection.becomes_get coherent now names (resolves now names directory rfl)
  | invalidate source => exact Collection.becomes_invalidate coherent source
  | sweep now => exact Collection.becomes_sweep coherent now
  | takeBuilds taking =>
      exact Collection.becomes_sameViews coherent rfl fun _ _ => rfl
  | shutdown => exact Collection.becomes_shutdown coherent
  | openQuery sort => exact .refl coherent
  | closeQuery query => exact .refl coherent
  | execute now query => exact e.becomes_execute coherent now query
  | closeResult result => exact .refl coherent

end Engine

/-! ## Every run -/

namespace Run

structure Coherent (r : Run) : Prop where
  collection : r.collection.Coherent
  known : ∀ directory ∈ r.directories, ∀ source : Source,
    directory[source.name]? = some source.index → r.catalog.Knows source

theorem coherent_ofEngine {config : Config} {e : Engine}
    (created : Engine.create config = .ok e) : (ofEngine e).Coherent := by
  have start := Engine.create_eq_ok created
  subst start
  have coherent := Collection.coherent_ofConfig config
  refine ⟨coherent, fun directory listed => ?_⟩
  obtain rfl := List.mem_singleton.mp listed
  exact coherent.catalog.known

theorem becomes_after {r : Run} (coherent : r.Coherent) {op : Operation}
    (allowed : r.Allows op) : r.collection.Becomes (r.after op).collection := by
  refine r.engine.becomes_after coherent.collection op ?_
  rintro now names directory rfl source registered
  obtain ⟨earlier, listed, registered⟩ := allowed source.name source.index registered
  exact coherent.known earlier listed source registered

theorem coherent_after {r : Run} (coherent : r.Coherent) {op : Operation}
    (allowed : r.Allows op) : (r.after op).Coherent := by
  have becomes := becomes_after coherent allowed
  refine ⟨becomes.coherent, fun directory listed source registered => ?_⟩
  rcases List.mem_cons.mp listed with rfl | earlier
  · exact becomes.coherent.catalog.known source registered
  · exact becomes.catalog.knows source (coherent.known directory earlier source registered)

theorem becomes_of_leadsTo {r r' : Run} (coherent : r.Coherent) (leads : r.LeadsTo r') :
    r'.Coherent ∧ r.collection.Becomes r'.collection := by
  induction leads with
  | refl => exact ⟨coherent, .refl coherent.collection⟩
  | step _ allowed ih =>
      obtain ⟨before, becomes⟩ := ih
      exact ⟨coherent_after before allowed, becomes.trans (becomes_after before allowed)⟩

theorem Reached.coherent {config : Config} {r : Run} (reached : r.Reached config) :
    r.Coherent := by
  obtain ⟨e, created, leads⟩ := reached
  exact (becomes_of_leadsTo (coherent_ofEngine created) leads).1

/-- In every run, the sources of a built entry are registered under their names
and live, and its result holds what they all hold.  An index that a hit gives
stays the result of a built entry, and so the intersection of what its sources
then hold, for as long as the lookup has the intersection. -/
theorem cache_coherent {config : Config} {r : Run} (reached : r.Reached config) :
    (∀ (key : String) (entry : Entry), r.cache.lookup[key]? = some entry →
      entry.isBuilt = true → entry.item.Current r.catalog) ∧
    ∀ (now : Millis) (names : List String) (directory : Directory) (index : Handle Index),
      (r.collection.get now names directory).1 = .ok (some index) →
        ∃ item : Intersection, item.result = index ∧
          (∃ entry, r.cache.lookup[item.key]? = some entry ∧ entry.item = item) ∧
          ∀ r' : Run, r.LeadsTo r' → ∀ (key : String) (entry : Entry),
            r'.cache.lookup[key]? = some entry → entry.item = item →
              entry.isBuilt = true ∧ item.Current r'.catalog := by
  have coherent := reached.coherent
  refine ⟨coherent.collection.current, fun now names directory index hit => ?_⟩
  obtain ⟨entry, found, built, result⟩ := Collection.get_hit hit
  have keyed := coherent.collection.keyed _ entry found
  refine ⟨entry.item, result, ⟨entry, by rw [keyed]; exact found, rfl⟩, ?_⟩
  intro r' leads key later foundLater same
  obtain ⟨coherentLater, becomes⟩ := becomes_of_leadsTo coherent leads
  have builtLater : later.isBuilt = true := by
    rcases becomes.entries key later foundLater with ⟨earlier, foundEarlier, kept, stays⟩ | fresh
    · have one : earlier = entry := coherent.collection.item_eq foundEarlier found
        (by rw [kept, same])
      exact stays (one ▸ built)
    · rw [same] at fresh
      exact absurd (coherent.collection.sound _ entry found).hidden.has fresh
  refine ⟨builtLater, ?_⟩
  rw [← same]
  exact coherentLater.collection.current key later foundLater builtLater

private def pairQueried : List Operation :=
  [.createSort "s", .createIndex "a", .createIndex "b", .add "a" 1, .add "b" 1,
    .execute 0 { sort := "s", indexes := ["a", "b"] }]

theorem cache_coherent_of_pair :
    ∃ (r : Run) (entry : Entry), r.Reached {} ∧ r.cache.lookup["a&b"]? = some entry ∧
      entry.isBuilt = true ∧ entry.item.Current r.catalog := by
  obtain ⟨e, created, cached⟩ : ∃ e, Engine.create {} = .ok e ∧
      ((pairQueried.foldl after (ofEngine e)).cache.lookup["a&b"]?.any (·.isBuilt)) = true :=
    ⟨_, rfl, by decide +kernel⟩
  have reached : (pairQueried.foldl after (ofEngine e)).Reached {} :=
    ⟨e, created, LeadsTo.refl.foldl (by simp [pairQueried, Allows])⟩
  obtain ⟨entry, found, built⟩ := (Option.any_eq_true _ _).mp cached
  exact ⟨_, entry, reached, found, built, (cache_coherent reached).1 _ entry found built⟩

end Run

end RankedQuery
