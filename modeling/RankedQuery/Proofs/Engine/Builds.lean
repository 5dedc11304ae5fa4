import RankedQuery.Proofs.Cache.Counting
import RankedQuery.Proofs.Engine.Consistency

/-!
# What becomes of a build

The build of a live intersection completes if none of its sources is retired, and
fails otherwise.  A build that completes fills the result with what the sources
hold at that time, and it is the only thing that makes an entry a built one.
-/

namespace RankedQuery

theorem Catalog.contains_intersect_eq (c : Catalog) (sources : List Source) (id : DocId) :
    (c.intersect sources).contains id = (!sources.isEmpty && c.allHold sources id) := by
  cases sources with
  | nil => simp [intersect, bySize, sortStable]
  | cons first others => exact c.contains_intersect (List.cons_ne_nil _ _) id

theorem Cache.hasBuilt_congr {c c' : Cache} (lookup : c'.lookup = c.lookup)
    {item : Intersection} : c'.HasBuilt item ↔ c.HasBuilt item := by
  rw [HasBuilt, lookup, HasBuilt]

theorem Cache.count_track (c : Cache) (item : Intersection) (change : Counters → Counters) :
    (c.track item).count change = (c.count change).track item := by
  have live : (c.count change).isLive item = c.isLive item := rfl
  unfold track
  rw [live]
  split <;> rfl

namespace Collection

/-! ## The two ways of a build -/

def rollBack (c : Collection) (item : Intersection) : Collection :=
  c.onCache fun cache => { cache with routing := cache.routing.register item }.discard item

def complete (c : Collection) (now : Millis) (item : Intersection) : Collection :=
  { catalog := c.catalog.updateIndex item.result (·.refill (c.catalog.intersect item.sources))
    cache := ({ c.cache with routing := c.cache.routing.register item }.setStage item.key
      (.built now)).track item }

def AllLive (c : Collection) (item : Intersection) : Prop :=
  ∀ source ∈ item.sources, (c.catalog.indexes.read source.index).retired = false

theorem lookup_complete (c : Collection) (now : Millis) (item : Intersection) :
    (c.complete now item).cache.lookup = (c.cache.setStage item.key (.built now)).lookup :=
  Cache.lookup_track _ item

theorem counters_complete (c : Collection) (now : Millis) (item : Intersection) :
    (c.complete now item).cache.counters = c.cache.counters :=
  Cache.counters_track _ item

theorem holds_complete {c : Collection} {item : Intersection}
    (has : c.catalog.indexes.Has item.result) (now : Millis) (id : DocId) :
    (c.complete now item).catalog.holds item.result id =
      (!item.sources.isEmpty && c.catalog.allHold item.sources id) := by
  refine (Catalog.holds_updateIndex has _ _ id).trans ((if_pos rfl).trans ?_)
  exact c.catalog.contains_intersect_eq item.sources id

section Build

variable {c : Collection} {item : Intersection} (awaits : c.cache.Awaits item)
  (accepts : c.cache.accepting = true) (now : Millis)

include awaits accepts

theorem requestBuild_of_allLive (sources : c.AllLive item) :
    c.requestBuild now item = (c.complete now item).count fun n =>
      { n with enqueued := n.enqueued + 1, completed := n.completed + 1 } := by
  have unretired : ¬ (item.sources.any fun source =>
      (c.catalog.indexes.read source.index).retired) = true := by
    simpa [AllLive] using sources
  rw [requestBuild_of_accepts accepts awaits.isLive]
  refine (if_pos awaits.isLive).trans ((if_neg unretired).trans ?_)
  simp only [count, onCache, complete, Cache.count_track]
  rfl

theorem requestBuild_of_retired {source : Source} (inside : source ∈ item.sources)
    (retired : (c.catalog.indexes.read source.index).retired = true) :
    c.requestBuild now item = (c.rollBack item).count fun n =>
      { n with enqueued := n.enqueued + 1, failed := n.failed + 1 } := by
  have fails : (item.sources.any fun source =>
      (c.catalog.indexes.read source.index).retired) = true :=
    List.any_eq_true.mpr ⟨source, inside, retired⟩
  rw [requestBuild_of_accepts accepts awaits.isLive]
  exact (if_pos awaits.isLive).trans (if_pos fails)

end Build

/-! ## What a request builds -/

variable {c : Collection}

theorem not_allLive {item : Intersection} :
    ¬ c.AllLive item ↔
      ∃ source ∈ item.sources, (c.catalog.indexes.read source.index).retired = true := by
  simp [AllLive]

theorem holds_of_requestBuild (consistent : c.Consistent) {requested : Intersection}
    (awaits : c.cache.Awaits requested) {now : Millis} {item : Intersection}
    (unbuilt : ¬ c.cache.HasBuilt item)
    (built : (c.requestBuild now requested).cache.HasBuilt item) :
    item = requested ∧ ∀ id, (c.requestBuild now requested).catalog.holds item.result id =
      (!item.sources.isEmpty && c.catalog.allHold item.sources id) := by
  cases accepts : c.cache.accepting with
  | true =>
      by_cases sources : c.AllLive requested
      · rw [requestBuild_of_allLive awaits accepts now sources] at built ⊢
        obtain ⟨entry, found, rfl, -⟩ := awaits
        have same : item = entry.item := by
          refine (Or.resolve_right ?_ unbuilt)
          rw [← Cache.hasBuilt_setStage found rfl now]
          exact (Cache.hasBuilt_congr (c.lookup_complete now entry.item)).mp built
        subst same
        have has := (consistent.sound _ entry found).hidden.has
        exact ⟨rfl, holds_complete has now⟩
      · obtain ⟨source, inside, retired⟩ := not_allLive.mp sources
        rw [requestBuild_of_retired awaits accepts now inside retired] at built
        exact absurd ((Cache.hasBuilt_evict _ _).mp built).1 unbuilt
  | false =>
      rw [requestBuild_of_refuses accepts awaits] at built
      exact absurd built unbuilt

/-! ## What a get brings in -/

theorem item_get (consistent : c.Consistent) {now : Millis} {names : List String}
    {directory : Directory} {key : String} {entry' : Entry}
    (found' : (c.get now names directory).2.cache.lookup[key]? = some entry') :
    (∃ entry, c.cache.lookup[key]? = some entry ∧ entry.item = entry'.item) ∨
      ¬ c.catalog.indexes.Has entry'.item.result := by
  have step := c.afterGet now names directory
  generalize (c.get now names directory).2 = c' at step found'
  cases step with
  | hit => exact .inl (Cache.item_setStage found')
  | queued => exact .inl ⟨entry', found', rfl⟩
  | waits found waiting =>
      have awaits : c.missed.cache.Awaits _ :=
        Cache.awaits_of_found found (consistent.cache.keyed _ _ found) waiting
      obtain ⟨entry, found, same⟩ := item_requestBuild awaits found'
      exact .inl ⟨entry, found, same⟩
  | unresolved => exact .inl ⟨entry', found', rfl⟩
  | @enters sources =>
      have awaits := c.missed.awaits_enter now (canonicalKey names) sources
      obtain ⟨entry, found, same⟩ := item_requestBuild awaits found'
      rw [getElem?_enter] at found
      split at found
      next =>
        cases found
        rw [← same]
        exact .inr c.catalog.indexes.not_has_next
      next => exact .inl ⟨entry, found, same⟩

theorem holds_of_get (consistent : c.Consistent) {now : Millis} {names : List String}
    {directory : Directory}
    (known : ∀ source : Source, directory[source.name]? = some source.index →
      c.catalog.Knows source)
    {item : Intersection} (unbuilt : ¬ c.cache.HasBuilt item)
    (built : (c.get now names directory).2.cache.HasBuilt item) (id : DocId) :
    (c.get now names directory).2.catalog.holds item.result id =
      (!item.sources.isEmpty && c.catalog.allHold item.sources id) := by
  have missed : c.Continues c.missed := continues_count consistent _
  have step := c.afterGet now names directory
  generalize (c.get now names directory).2 = c' at step built ⊢
  cases step with
  | hit found hit =>
      have keyed := consistent.cache.keyed _ _ found
      rcases (Cache.hasBuilt_setStage found keyed now).mp built with rfl | before
      · exact absurd ⟨_, keyed ▸ found, rfl, hit⟩ unbuilt
      · exact absurd before unbuilt
  | queued => exact absurd built unbuilt
  | waits found waiting =>
      have awaits := Cache.awaits_of_found found (consistent.cache.keyed _ _ found) waiting
      exact (holds_of_requestBuild missed.consistent awaits unbuilt built).2 id
  | unresolved => exact absurd built unbuilt
  | @enters sources absent resolved =>
      have entered := continues_enterResolved missed.consistent absent resolved known now
      have awaits := c.missed.awaits_enter now (canonicalKey names) sources
      have waits : ¬ (c.missed.enter now (canonicalKey names) sources).2.cache.HasBuilt item := by
        rintro ⟨entry, held, rfl, isBuilt⟩
        rw [getElem?_enter] at held
        split at held
        next =>
          cases held
          cases isBuilt
        next => exact unbuilt ⟨entry, held, rfl, isBuilt⟩
      obtain ⟨rfl, holds⟩ := holds_of_requestBuild entered.consistent awaits waits built
      rw [holds]
      refine congrArg _ (Catalog.allHold_congr fun source inside => ?_)
      have perm := perm_sortStable (fun a b => c.catalog.sizeOf a ≤ c.catalog.sizeOf b) sources
      have registered := (Directory.resolve_eq_ok.mp resolved).2 source (perm.mem_iff.mp inside)
      exact c.catalog.holds_addIndex _ (known source registered).has id

end Collection

end RankedQuery
