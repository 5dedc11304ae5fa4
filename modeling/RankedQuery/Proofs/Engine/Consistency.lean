import RankedQuery.Proofs.Cache.Consistency
import RankedQuery.Proofs.Engine.Calls

/-!
# Consistency in every run

Besides operations of the engine there are direct ways to its registry, its
cache and the values of its indexes.  Indexes may be dropped behind the back of
the cache, and changes may be made without a report or reported without being
made.  What the cache holds may then be out of date, but its views agree, and a
report reaches the built intersections over an index and nothing else.
-/

namespace RankedQuery

/-! ## Access -/

inductive Access where
  | call (op : Operation)
  /-- Drops an index from the registry alone. -/
  | unregister (name : String)
  /-- Reports a change of an index to the cache. -/
  | report (name : String) (id : DocId) (added : Bool)
  | put (index : Handle Index) (id : DocId)
  | take (index : Handle Index) (id : DocId)

namespace Engine

def access (e : Engine) : Access → Engine
  | .call op => e.after op
  | .unregister name => e.onCollection fun c => (c.unregisterIndex name).2
  | .report name id added => e.onCollection (·.changed name id added)
  | .put index id => e.onCollection fun c =>
      { c with catalog := c.catalog.updateIndex index (·.add id) }
  | .take index id => e.onCollection fun c =>
      { c with catalog := c.catalog.updateIndex index (·.remove id) }

end Engine

namespace Run

def access (r : Run) (a : Access) : Run where
  engine := r.engine.access a
  directories := (r.engine.access a).collection.catalog.directory :: r.directories

/-- A get resolves names in directories that the engine has or has had. -/
def Permits (r : Run) : Access → Prop
  | .call op => r.Allows op
  | _ => True

/-- The run came about from a new engine by any access. -/
inductive Accessible (config : Config) : Run → Prop
  | start {e : Engine} : Engine.create config = .ok e → Accessible config (ofEngine e)
  | step {r : Run} {a : Access} :
      Accessible config r → r.Permits a → Accessible config (r.access a)

end Run

/-! ## Collections -/

namespace Collection

/-- The views of the cache agree, and the results of its entries are hidden and
distinct. -/
structure Consistent (c : Collection) : Prop where
  catalog : c.catalog.Sound
  cache : c.cache.Consistent
  sound : ∀ (key : String) (entry : Entry), c.cache.lookup[key]? = some entry →
    entry.item.Sound c.catalog
  alone : ∀ (key key' : String) (entry entry' : Entry),
    c.cache.lookup[key]? = some entry → c.cache.lookup[key']? = some entry' →
      entry.item.result = entry'.item.result → key = key'

theorem Consistent.item_eq {c : Collection} (consistent : c.Consistent) {key key' : String}
    {entry entry' : Entry} (found : c.cache.lookup[key]? = some entry)
    (found' : c.cache.lookup[key']? = some entry')
    (same : entry.item.result = entry'.item.result) : entry = entry' := by
  obtain rfl := consistent.alone key key' entry entry' found found' same
  exact Option.some.inj (found.symm.trans found')

/-- The second collection is consistent and may have come from the first. -/
structure Continues (c c' : Collection) : Prop where
  consistent : c'.Consistent
  catalog : c.catalog.Becomes c'.catalog

namespace Continues

variable {c c' c'' : Collection}

theorem refl (consistent : c.Consistent) : c.Continues c := ⟨consistent, .refl _⟩

theorem trans (first : c.Continues c') (second : c'.Continues c'') : c.Continues c'' :=
  ⟨second.consistent, first.catalog.trans second.catalog⟩

theorem of_items (consistent : c.Consistent) (becomes : c.catalog.Becomes c'.catalog)
    (cache : c'.cache.Consistent)
    (items : ∀ (key : String) (entry' : Entry), c'.cache.lookup[key]? = some entry' →
      ∃ entry, c.cache.lookup[key]? = some entry ∧ entry.item = entry'.item) :
    c.Continues c' where
  consistent := by
    refine ⟨becomes.sound consistent.catalog, cache, ?_, ?_⟩
    · intro key entry' found'
      obtain ⟨entry, found, same⟩ := items key entry' found'
      rw [← same]
      exact (consistent.sound key entry found).after becomes
    · intro keyA keyB entryA entryB foundA foundB shared
      obtain ⟨beforeA, heldA, sameA⟩ := items keyA entryA foundA
      obtain ⟨beforeB, heldB, sameB⟩ := items keyB entryB foundB
      rw [← sameA, ← sameB] at shared
      exact consistent.alone keyA keyB beforeA beforeB heldA heldB shared
  catalog := becomes

theorem of_catalog (consistent : c.Consistent) (becomes : c.catalog.Becomes c'.catalog)
    (cache : c'.cache = c.cache) : c.Continues c' :=
  of_items consistent becomes (cache ▸ consistent.cache) fun _ entry found =>
    ⟨entry, cache ▸ found, rfl⟩

theorem of_sheds (consistent : c.Consistent) (catalog : c'.catalog = c.catalog)
    (cache : c'.cache.Consistent) (sheds : c.cache.Sheds c'.cache) : c.Continues c' :=
  of_items consistent (catalog ▸ .refl _) cache fun key entry found =>
    ⟨entry, sheds.entries key entry found, rfl⟩

end Continues

variable {c : Collection} (consistent : c.Consistent)

include consistent

/-! ## Changes of indexes -/

theorem continues_updateIndex (index : Handle Index) (change : Index → Index)
    (name : ∀ value, (change value).name = value.name)
    (retired : ∀ value, (change value).retired = value.retired) :
    c.Continues { c with catalog := c.catalog.updateIndex index change } := by
  refine .of_catalog consistent ?_ rfl
  by_cases known : c.catalog.indexes.Has index
  · exact (Catalog.sameIndexes_updateIndex known name retired).becomes
  · have same : c.catalog.updateIndex index change = c.catalog := by
      rw [Catalog.updateIndex, Store.update_of_not_has known]
    rw [same]
    exact .refl _

theorem hides_items {name : String} {item : Intersection}
    (listed : item ∈ c.cache.routing.items name) : c.catalog.Hides item.result := by
  obtain ⟨-, entry, found, same, -⟩ := consistent.cache.mem_items.mp listed
  rw [← same]
  exact (consistent.sound _ entry found).hidden

theorem continues_changed (name : String) (id : DocId) (added : Bool) :
    c.Continues (c.changed name id added) :=
  .of_catalog consistent
    (Catalog.sameIndexes_followAll fun _ => hides_items consistent).becomes rfl

theorem continues_addTo (name : String) (index : Handle Index) (id : DocId) :
    c.Continues (c.addTo name index id).2 := by
  unfold addTo
  split
  next => exact .refl consistent
  next =>
    have updated := continues_updateIndex consistent index (·.add id) (fun _ => rfl)
      fun _ => rfl
    exact updated.trans (continues_changed updated.consistent name id true)

theorem continues_removeFrom (name : String) (index : Handle Index) (id : DocId) :
    c.Continues (c.removeFrom name index id).2 := by
  unfold removeFrom
  split
  next =>
    have updated := continues_updateIndex consistent index (·.remove id) (fun _ => rfl)
      fun _ => rfl
    exact updated.trans (continues_changed updated.consistent name id false)
  next => exact .refl consistent

theorem continues_add (name : String) (id : DocId) :
    c.Continues (c.orKeep (c.add name id)) := by
  unfold add
  cases c.catalog.findIndex name with
  | error => exact .refl consistent
  | ok index => exact continues_addTo consistent name index id

theorem continues_remove (name : String) (id : DocId) :
    c.Continues (c.orKeep (c.remove name id)) := by
  unfold remove
  cases c.catalog.findIndex name with
  | error => exact .refl consistent
  | ok index => exact continues_removeFrom consistent name index id

theorem continues_unregisterIndex (name : String) :
    c.Continues (c.unregisterIndex name).2 :=
  .of_catalog consistent (c.catalog.becomes_dropIndex name) rfl

theorem continues_createIndex (name : String) : c.Continues (c.createIndex name).2 :=
  .of_catalog consistent (c.catalog.becomes_createIndex name) rfl

/-! ## Changes of sorts -/

theorem continues_sameIndexes {c' : Collection} (indexes : c'.catalog.indexes = c.catalog.indexes)
    (directory : c'.catalog.directory = c.catalog.directory) (cache : c'.cache = c.cache) :
    c.Continues c' := by
  have same : c.catalog.SameIndexes c'.catalog := by
    constructor <;> simp [indexes, directory]
  exact .of_catalog consistent same.becomes cache

theorem continues_createSort (name : String) : c.Continues (c.createSort name).2 := by
  show c.Continues { c with catalog := (c.catalog.createSort name).2 }
  unfold Catalog.createSort
  split
  next => exact .refl consistent
  next => exact continues_sameIndexes consistent rfl rfl rfl

theorem continues_setScore (sort : String) (id : DocId) (score : Score) (draws : Nat) :
    c.Continues (c.orKeep (c.setScore sort id score draws)) := by
  unfold setScore
  cases c.catalog.findSort sort with
  | error => exact .refl consistent
  | ok handle =>
      simp only [bind, Except.bind]
      cases (c.catalog.rankings.read handle).set id score draws with
      | error => exact .refl consistent
      | ok => exact continues_sameIndexes consistent rfl rfl rfl

theorem continues_removeScore (sort : String) (id : DocId) :
    c.Continues (c.orKeep (c.removeScore sort id)) := by
  unfold removeScore
  cases c.catalog.findSort sort with
  | error => exact .refl consistent
  | ok handle =>
      simp only [bind, Except.bind]
      cases (c.catalog.rankings.read handle).remove id with
      | error => exact .refl consistent
      | ok => exact continues_sameIndexes consistent rfl rfl rfl

private theorem continues_onStatic (sort : Handle Ranking)
    (attempt : Option (Except Error Ranking)) :
    c.Continues (c.orKeepSort (attempt.map fun ranking => do
      return c.putSort sort (← ranking))) := by
  cases attempt with
  | none => exact .refl consistent
  | some changed =>
      cases changed with
      | error => exact .refl consistent
      | ok => exact continues_sameIndexes consistent rfl rfl rfl

theorem continues_removeFromSort (sort : Handle Ranking) (id : DocId) :
    c.Continues (c.removeFromSort sort id) := by
  unfold removeFromSort
  split
  next => exact continues_sameIndexes consistent rfl rfl rfl
  next => exact .refl consistent

omit consistent in
private theorem continues_foldl {α : Type} {change : Collection → α → Collection}
    (each : ∀ c : Collection, c.Consistent → ∀ a, c.Continues (change c a)) (list : List α)
    {c : Collection} (consistent : c.Consistent) : c.Continues (list.foldl change c) := by
  induction list generalizing c with
  | nil => exact .refl consistent
  | cons first list ih =>
      have once := each c consistent first
      exact once.trans (ih once.consistent)

theorem continues_removeDocument (id : DocId) : c.Continues (c.removeDocument id) := by
  have indexes := continues_foldl
    (fun c consistent (pair : String × Handle Index) =>
      continues_removeFrom (c := c) consistent pair.1 pair.2 id)
    c.catalog.directory.toList consistent
  exact indexes.trans (continues_foldl
    (fun c consistent sort => continues_removeFromSort (c := c) consistent sort id) _
    indexes.consistent)

/-! ## Changes of the cache -/

theorem continues_sameViews {c' : Collection} (catalog : c'.catalog = c.catalog)
    (lookup : c'.cache.lookup = c.cache.lookup) (routing : c'.cache.routing = c.cache.routing)
    (recency : c'.cache.recency = c.cache.recency) : c.Continues c' :=
  .of_items consistent (catalog ▸ .refl _)
    (consistent.cache.of_sameViews lookup routing recency)
    fun _ entry found => ⟨entry, lookup ▸ found, rfl⟩

theorem continues_count (change : Counters → Counters) : c.Continues (c.count change) :=
  continues_sameViews consistent rfl rfl rfl rfl

theorem continues_invalidate (source : String) : c.Continues (c.invalidate source).2 :=
  .of_sheds consistent rfl (Cache.consistent_discardAll consistent.cache _)
    (Cache.sheds_discardAll _ _)

theorem continues_sweep (now : Millis) : c.Continues (c.sweep now).2 :=
  .of_sheds consistent rfl (Cache.consistent_sweep consistent.cache now) (Cache.sheds_sweep _ now)

theorem continues_dropIndex {name : String} {c' : Collection}
    (drops : c.dropIndex name = .ok c') : c.Continues c' := by
  have invalidated := continues_invalidate consistent name
  have unregistered := continues_unregisterIndex invalidated.consistent name
  unfold dropIndex at drops
  split at drops
  next => cases drops
  next index catalog dropped =>
    cases drops
    have same : (c.catalog.dropIndex name).2 = catalog := by rw [dropped]
    rw [← same]
    exact invalidated.trans unregistered

/-! ## Gets -/

theorem continues_touch {key : String} {entry : Entry} (found : c.cache.lookup[key]? = some entry)
    (built : entry.isBuilt = true) (now : Millis) :
    c.Continues (c.onCache (·.setStage key (.built now))) :=
  .of_items consistent (.refl _)
    (Cache.consistent_touch consistent.cache found built now) fun _ _ => Cache.item_setStage

omit consistent in
/-- A build either fails, or fills the result and puts the intersection into all views. -/
theorem build_cases (c : Collection) (now : Millis) (item : Intersection) :
    c.build now item = c ∨
      (∃ change, c.build now item = (c.onCache fun cache =>
        { cache with routing := cache.routing.register item }.discard item).count change) ∨
      ∃ members change, c.build now item =
        ({ c with catalog := c.catalog.updateIndex item.result (·.refill members) }.onCache
          fun cache => ({ cache with routing := cache.routing.register item }.setStage item.key
            (.built now)).track item).count change := by
  unfold build
  split
  next =>
    dsimp only
    split
    next => exact .inr (.inl ⟨_, rfl⟩)
    next => exact .inr (.inr ⟨_, _, rfl⟩)
  next => exact .inl rfl

private theorem continues_build {key : String} {entry : Entry}
    (found : c.cache.lookup[key]? = some entry) (waiting : entry.isBuilt = false)
    (now : Millis) : c.Continues (c.build now entry.item) := by
  have keyed := consistent.cache.keyed key entry found
  rcases c.build_cases now entry.item with same | ⟨change, failed⟩ | ⟨members, change, built⟩
  · rw [same]
    exact .refl consistent
  · rw [failed]
    refine .of_items consistent (.refl _)
      ((Cache.consistent_failed consistent.cache found waiting).of_sameViews rfl rfl rfl) ?_
    intro other entry' found'
    exact ⟨entry', ((Cache.getElem?_discard _ _).mp found').1, rfl⟩
  · have same : c.catalog.SameIndexes
        (c.catalog.updateIndex entry.item.result (·.refill members)) :=
      Catalog.sameIndexes_updateIndex (consistent.sound key entry found).hidden.has
        (fun _ => rfl) fun _ => rfl
    rw [built, keyed]
    refine .of_items consistent same.becomes
      ((Cache.consistent_completed consistent.cache found waiting now).of_sameViews rfl rfl rfl) ?_
    intro other entry' found'
    simp only [count, onCache, Cache.count, Cache.lookup_track] at found'
    exact Cache.item_setStage found'

theorem continues_requestBuild {item : Intersection} (awaits : c.cache.Awaits item)
    (now : Millis) : c.Continues (c.requestBuild now item) := by
  cases accepts : c.cache.accepting with
  | true =>
      rw [requestBuild_of_accepts accepts awaits.isLive]
      obtain ⟨entry, found, rfl, stage⟩ := awaits
      have counted := continues_count consistent fun n => { n with enqueued := n.enqueued + 1 }
      exact counted.trans
        (continues_build counted.consistent found (Entry.isBuilt_of_waiting stage) now)
  | false =>
      rw [requestBuild_of_refuses accepts awaits]
      exact continues_count consistent _

theorem continues_enter {key : String} {sources : List Source}
    (absent : c.cache.lookup[key]? = none)
    (known : ∀ source ∈ sources, c.catalog.Knows source)
    (keyed : key = canonicalKey (sources.map (·.name))) (now : Millis) :
    c.Continues (c.enter now key sources).2 := by
  have becomes : c.catalog.Becomes (c.enter now key sources).2.catalog :=
    c.catalog.becomes_addIndex _
  have sound := sound_enter consistent.catalog now known keyed
  have fresh : ¬ c.catalog.indexes.Has (c.enter now key sources).1.result :=
    c.catalog.indexes.not_has_next
  have origin : ∀ {other : String} {entry : Entry},
      (c.enter now key sources).2.cache.lookup[other]? = some entry →
        key = other ∧ entry.item = (c.enter now key sources).1 ∨
          c.cache.lookup[other]? = some entry ∧ c.catalog.indexes.Has entry.item.result := by
    intro other entry found
    rw [getElem?_enter] at found
    split at found
    next here =>
      cases found
      exact .inl ⟨here, rfl⟩
    next => exact .inr ⟨found, (consistent.sound other entry found).hidden.has⟩
  refine ⟨⟨becomes.sound consistent.catalog, ?_, ?_, ?_⟩, becomes⟩
  · exact Cache.consistent_enter consistent.cache absent sound.key now
  · intro other entry found
    rcases origin found with ⟨-, same⟩ | ⟨old, -⟩
    · rw [same]
      exact sound
    · exact (consistent.sound other entry old).after becomes
  · intro keyA keyB entryA entryB foundA foundB shared
    rcases origin foundA with ⟨hereA, sameA⟩ | ⟨oldA, hasA⟩
    · rcases origin foundB with ⟨hereB, sameB⟩ | ⟨oldB, hasB⟩
      · exact hereA.symm.trans hereB
      · rw [sameA] at shared
        exact absurd (shared ▸ hasB) fresh
    · rcases origin foundB with ⟨hereB, sameB⟩ | ⟨oldB, hasB⟩
      · rw [sameB] at shared
        exact absurd (shared ▸ hasA) fresh
      · exact consistent.alone keyA keyB entryA entryB oldA oldB shared

theorem continues_enterResolved {names : List String} {sources : List Source}
    (absent : c.cache.lookup[canonicalKey names]? = none) {directory : Directory}
    (resolved : directory.resolve (canonicalNames names) = .ok sources)
    (known : ∀ source : Source, directory[source.name]? = some source.index →
      c.catalog.Knows source) (now : Millis) :
    c.Continues (c.enter now (canonicalKey names) sources).2 := by
  obtain ⟨sameNames, registered⟩ := Directory.resolve_eq_ok.mp resolved
  have keyed : canonicalKey names = canonicalKey (sources.map (·.name)) := by
    rw [sameNames]
    exact canonicalKey_congr fun name => mem_canonicalNames.symm
  exact continues_enter consistent absent
    (fun source inside => known source (registered source inside)) keyed now

theorem continues_get (now : Millis) (names : List String) {directory : Directory}
    (known : ∀ source : Source, directory[source.name]? = some source.index →
      c.catalog.Knows source) : c.Continues (c.get now names directory).2 := by
  have missed : c.Continues c.missed := continues_count consistent _
  have step := c.afterGet now names directory
  generalize (c.get now names directory).2 = c' at step ⊢
  cases step with
  | hit found built =>
      have touched := continues_touch consistent found built now
      exact touched.trans (continues_count touched.consistent _)
  | queued => exact missed
  | waits found waiting =>
      have awaits := Cache.awaits_of_found found (consistent.cache.keyed _ _ found) waiting
      exact missed.trans (continues_requestBuild missed.consistent awaits now)
  | unresolved => exact missed
  | enters absent resolved =>
      have entered := continues_enterResolved missed.consistent absent resolved known now
      have built := continues_requestBuild entered.consistent (awaits_enter ..) now
      exact (missed.trans entered).trans built

end Collection

/-! ## Reports -/

namespace Collection

variable {c : Collection} (consistent : c.Consistent)

include consistent

theorem holds_changed {item : Intersection} (built : c.cache.HasBuilt item) {name : String}
    (isOver : item.IsOver name) (id : DocId) (added : Bool) (other : DocId) :
    (c.changed name id added).catalog.holds item.result other =
      if other = id then
        added && (c.catalog.holds item.result id ||
          c.catalog.allHold (item.sources.filter (·.name ≠ name)) id)
      else c.catalog.holds item.result other := by
  have hidden : ∀ item ∈ c.cache.routing.items name, c.catalog.Hides item.result :=
    fun _ => hides_items consistent
  have listed := consistent.cache.mem_items.mpr ⟨isOver, built⟩
  obtain ⟨entry, found, rfl, -⟩ := built
  have alone : ∀ other ∈ c.cache.routing.items name,
      other.result = entry.item.result → other = entry.item := by
    intro other inside shared
    obtain ⟨-, entry', found', rfl, -⟩ := consistent.cache.mem_items.mp inside
    rw [consistent.item_eq found' found shared]
  by_cases here : other = id
  · subst here
    rw [if_pos rfl]
    exact Catalog.holds_followAll hidden listed (consistent.sound _ entry found).known alone
  · rw [if_neg here]
    exact Catalog.holds_followAll_of_ne hidden fun _ _ both => here both.2

theorem read_changed {name : String} {index : Handle Index}
    (apart : ∀ item, c.cache.HasBuilt item → item.IsOver name → item.result ≠ index)
    (id : DocId) (added : Bool) :
    (c.changed name id added).catalog.indexes.read index = c.catalog.indexes.read index := by
  refine Catalog.read_followAll_of_ne fun item listed => ?_
  obtain ⟨isOver, built⟩ := consistent.cache.mem_items.mp listed
  exact apart item built isOver

end Collection

/-! ## Runs -/

namespace Engine

theorem continues_after (e : Engine) (consistent : e.collection.Consistent) (op : Operation)
    (resolves : ∀ now names directory, op = .get now names directory →
      ∀ source : Source, directory[source.name]? = some source.index →
        e.collection.catalog.Knows source) :
    e.collection.Continues (e.after op).collection := by
  cases op with
  | createIndex name => exact Collection.continues_createIndex consistent name
  | dropIndex name =>
      rcases e.after_dropIndex name with same | drops
      · rw [same]
        exact .refl consistent
      · exact Collection.continues_dropIndex consistent drops
  | createSort name => exact Collection.continues_createSort consistent name
  | loadStaticSort name ids => exact Collection.continues_sameIndexes consistent rfl rfl rfl
  | add name id => exact Collection.continues_add consistent name id
  | remove name id => exact Collection.continues_remove consistent name id
  | setScore sort id score draws =>
      exact Collection.continues_setScore consistent sort id score draws
  | removeScore sort id => exact Collection.continues_removeScore consistent sort id
  | append sort id => exact Collection.continues_onStatic consistent sort _
  | prepend sort id => exact Collection.continues_onStatic consistent sort _
  | removeDocument id => exact Collection.continues_removeDocument consistent id
  | get now names directory =>
      exact Collection.continues_get consistent now names (resolves now names directory rfl)
  | invalidate source => exact Collection.continues_invalidate consistent source
  | sweep now => exact Collection.continues_sweep consistent now
  | takeBuilds taking => exact Collection.continues_sameViews consistent rfl rfl rfl rfl
  | shutdown => exact Collection.continues_sameViews consistent rfl rfl rfl rfl
  | openQuery sort => exact .refl consistent
  | closeQuery query => exact .refl consistent
  | execute now query =>
      rcases e.collection_execute now query with same | same
      · exact .of_catalog consistent (same ▸ .refl _) (congrArg Collection.cache same)
      · rw [show (e.after (.execute now query)).collection = _ from same]
        exact Collection.continues_get consistent now _ consistent.catalog.known
  | closeResult result => exact .refl consistent

theorem continues_access (e : Engine) (consistent : e.collection.Consistent) (a : Access)
    (resolves : ∀ now names directory, a = .call (.get now names directory) →
      ∀ source : Source, directory[source.name]? = some source.index →
        e.collection.catalog.Knows source) :
    e.collection.Continues (e.access a).collection := by
  cases a with
  | call op =>
      refine e.continues_after consistent op fun now names directory same => ?_
      exact resolves now names directory (congrArg Access.call same)
  | unregister name => exact Collection.continues_unregisterIndex consistent name
  | report name id added => exact Collection.continues_changed consistent name id added
  | put index id =>
      exact Collection.continues_updateIndex consistent index _ (fun _ => rfl) fun _ => rfl
  | take index id =>
      exact Collection.continues_updateIndex consistent index _ (fun _ => rfl) fun _ => rfl

end Engine

namespace Run

structure Consistent (r : Run) : Prop where
  collection : r.collection.Consistent
  known : ∀ directory ∈ r.directories, ∀ source : Source,
    directory[source.name]? = some source.index → r.catalog.Knows source

theorem Consistent.resolves {r : Run} (consistent : r.Consistent) {a : Access}
    (permitted : r.Permits a) (now : Millis) (names : List String) (directory : Directory)
    (get : a = .call (.get now names directory)) (source : Source)
    (registered : directory[source.name]? = some source.index) : r.catalog.Knows source := by
  subst get
  obtain ⟨earlier, listed, registered⟩ := permitted source.name source.index registered
  exact consistent.known earlier listed source registered

theorem continues_access {r : Run} (consistent : r.Consistent) {a : Access}
    (permitted : r.Permits a) : r.collection.Continues (r.access a).collection :=
  r.engine.continues_access consistent.collection a (consistent.resolves permitted)

theorem consistent_access {r : Run} (consistent : r.Consistent) {a : Access}
    (permitted : r.Permits a) : (r.access a).Consistent := by
  have continues := continues_access consistent permitted
  refine ⟨continues.consistent, fun directory listed source registered => ?_⟩
  rcases List.mem_cons.mp listed with rfl | earlier
  · exact continues.consistent.catalog.known source registered
  · exact continues.catalog.knows source (consistent.known directory earlier source registered)

theorem Accessible.consistent {config : Config} {r : Run} (accessible : r.Accessible config) :
    r.Consistent := by
  induction accessible with
  | start created =>
      have coherent := coherent_ofEngine created
      refine ⟨⟨coherent.collection.catalog, ?_, coherent.collection.sound,
        coherent.collection.alone⟩, coherent.known⟩
      rw [Engine.create_eq_ok created]
      exact Cache.consistent_empty _ rfl rfl rfl
  | step _ permitted ih => exact consistent_access ih permitted

theorem Accessible.foldl {config : Config} {r : Run} (accessible : r.Accessible config)
    {accesses : List Access} (permitted : ∀ a ∈ accesses, ∀ r : Run, r.Permits a) :
    (accesses.foldl access r).Accessible config := by
  induction accesses generalizing r with
  | nil => exact accessible
  | cons a accesses ih =>
      have once := accessible.step (permitted a List.mem_cons_self r)
      exact ih once fun other inside => permitted other (List.mem_cons_of_mem _ inside)

/-- In every run, entries stand under the canonical keys of their sources, and the
recency list and the routing have exactly the built ones, each once and in no
empty bucket.  So a report of a change reaches every built intersection over the
index, in the reported document, and nothing else. -/
theorem views_agree {config : Config} {r : Run} (accessible : r.Accessible config) :
    (∀ (key : String) (entry : Entry), r.cache.lookup[key]? = some entry →
      entry.item.key = key ∧ key = canonicalKey (entry.item.sources.map (·.name))) ∧
    (r.cache.recency.Nodup ∧ ∀ item, item ∈ r.cache.recency ↔ r.cache.HasBuilt item) ∧
    (∀ name, (r.cache.routing.items name).Nodup ∧
      ∀ item, item ∈ r.cache.routing.items name ↔
        item.IsOver name ∧ r.cache.HasBuilt item) ∧
    (∀ (name : String) (bucket : Bucket), r.cache.routing.bucket? name = some bucket →
      bucket.isEmpty = false) ∧
    r.cache.recency.length ≤ r.cache.size ∧
    ∀ (name : String) (id : DocId) (added : Bool),
      let reported := (r.access (.report name id added)).catalog
      (∀ item, r.cache.HasBuilt item → item.IsOver name → ∀ other,
        reported.holds item.result other =
          if other = id then
            added && (r.catalog.holds item.result id ||
              r.catalog.allHold (item.sources.filter (·.name ≠ name)) id)
          else r.catalog.holds item.result other) ∧
      ∀ index, (∀ item, r.cache.HasBuilt item → item.IsOver name → item.result ≠ index) →
        reported.indexes.read index = r.catalog.indexes.read index := by
  have consistent := accessible.consistent.collection
  have views := consistent.cache
  refine ⟨fun key entry found => ⟨views.keyed key entry found, views.canonical key entry found⟩,
    ⟨views.nodup, views.tracked⟩, fun name => ⟨views.nodup_items name, fun _ => views.mem_items⟩,
    views.filled, views.length_recency_le, fun name id added => ⟨?_, ?_⟩⟩
  · intro item built isOver other
    exact Collection.holds_changed consistent built isOver id added other
  · intro index apart
    exact Collection.read_changed consistent apart id added

private def pairUnregistered : List Access :=
  [.call (.createIndex "a"), .call (.createIndex "b"), .call (.createSort "s"),
    .call (.execute 0 { sort := "s", indexes := ["a", "b"] }), .unregister "b"]

theorem views_agree_of_unregistered :
    ∃ (r : Run) (item : Intersection), r.Accessible {} ∧ r.cache.HasBuilt item ∧
      item ∈ r.cache.recency ∧ item ∈ r.cache.routing.items "b" := by
  obtain ⟨e, created, cached⟩ : ∃ e, Engine.create {} = .ok e ∧
      ((pairUnregistered.foldl access (ofEngine e)).cache.lookup["a&b"]?.any fun entry =>
        entry.isBuilt ∧ entry.item.key = "a&b" ∧ entry.item.IsOver "b") = true :=
    ⟨_, rfl, by decide +kernel⟩
  have accessible : (pairUnregistered.foldl access (ofEngine e)).Accessible {} :=
    (Accessible.start created).foldl (by simp [pairUnregistered, Permits, Allows])
  obtain ⟨-, ⟨-, tracked⟩, routed, -⟩ := views_agree accessible
  obtain ⟨entry, found, passes⟩ := (Option.any_eq_true _ _).mp cached
  obtain ⟨built, keyed, isOver⟩ := of_decide_eq_true passes
  have held : (pairUnregistered.foldl access (ofEngine e)).cache.HasBuilt entry.item :=
    ⟨entry, keyed ▸ found, rfl, built⟩
  exact ⟨_, entry.item, accessible, held, (tracked _).mpr held,
    ((routed "b").2 _).mpr ⟨isOver, held⟩⟩

end Run

end RankedQuery
