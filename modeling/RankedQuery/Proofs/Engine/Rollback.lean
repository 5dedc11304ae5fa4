import RankedQuery.Proofs.Engine.Builds

/-!
# Gets that fail

A get fails at once if it cannot resolve a name.  Or it enters an intersection one
of whose sources turns out to be retired, and the build takes out again what it
entered and registered, among whatever other intersections have the same sources.
Either way nothing but counters tells of the get, and the same names can be asked
for again.
-/

namespace RankedQuery

/-! ## Taking back -/

theorem Routing.Filled.ext {r r' : Routing} (filled : r.Filled) (filled' : r'.Filled)
    (same : ∀ source key, r.lookup? source key = r'.lookup? source key) : r = r' := by
  have occupied : ∀ {r : Routing} {source : String} {bucket : Bucket}, r.Filled →
      r.bucket? source = some bucket → ∃ key, r.lookup? source key ≠ none := by
    intro r source bucket filled found
    by_contra none
    simp only [lookup?, found, Option.bind_some, not_exists, not_not] at none
    have empty : bucket = ∅ := Std.ExtTreeMap.ext_getElem? fun key => by simp [none key]
    have full := filled source bucket found
    simp [empty] at full
  have buckets : r.buckets = r'.buckets := by
    refine Std.ExtTreeMap.ext_getElem? fun source => ?_
    show r.bucket? source = r'.bucket? source
    cases found : r.bucket? source with
    | none =>
        cases found' : r'.bucket? source with
        | none => rfl
        | some bucket' =>
            obtain ⟨key, placed⟩ := occupied filled' found'
            rw [← same] at placed
            simp [lookup?, found] at placed
    | some bucket =>
        cases found' : r'.bucket? source with
        | none =>
            obtain ⟨key, placed⟩ := occupied filled found
            rw [same] at placed
            simp [lookup?, found'] at placed
        | some bucket' =>
            refine congrArg some (Std.ExtTreeMap.ext_getElem? fun key => ?_)
            have place := same source key
            simp only [lookup?, found, found', Option.bind_some] at place
            exact place
  cases r
  exact congrArg Routing.mk buckets

namespace Cache

variable {c : Cache}

theorem Consistent.unregister_register (consistent : c.Consistent) {item : Intersection}
    (absent : c.lookup[item.key]? = none) :
    (c.routing.register item).unregister item = c.routing := by
  -- Nothing is routed under a key without an entry.
  have unrouted : ∀ source, c.routing.lookup? source item.key = none := by
    intro source
    cases routed : c.routing.lookup? source item.key with
    | none => rfl
    | some other =>
        obtain ⟨-, here, entry, found, -⟩ := (consistent.routed source item.key other).mp routed
        rw [here, absent] at found
        cases found
  refine ((consistent.filled.register item).unregister item).ext consistent.filled
    fun source key => ?_
  rw [Routing.lookup?_unregister, Routing.lookup?_register]
  by_cases place : item.IsOver source ∧ item.key = key
  · obtain ⟨isOver, rfl⟩ := place
    simp [isOver, unrouted source]
  · rw [if_neg place, if_neg fun held => place ⟨held.1, held.2.1⟩]

theorem Consistent.discard_enter (consistent : c.Consistent) (item : Intersection)
    (absent : c.lookup[item.key]? = none) (now : Millis) :
    { c.enter now item with routing := c.routing.register item }.discard item = c := by
  have untracked : c.recency.filter (· ≠ item) = c.recency := by
    refine List.filter_eq_self.mpr fun other tracked => ?_
    obtain ⟨entry, found, -⟩ := (consistent.tracked other).mp tracked
    simpa using fun same : other = item => by simp [same, absent] at found
  have live : (c.enter now item).isLive item = true :=
    isLive_eq_true.mpr ⟨{ item, created := now }, Std.ExtTreeMap.getElem?_insert_self, rfl⟩
  have lookup : (c.lookup.insert item.key { item, created := now }).erase item.key = c.lookup := by
    refine Std.ExtTreeMap.ext_getElem? fun key => ?_
    by_cases here : item.key = key
    · subst here
      simp [absent]
    · simp [Std.ExtTreeMap.getElem?_erase, Std.ExtTreeMap.getElem?_insert, here]
  show { c with
    lookup := if (c.enter now item).isLive item = true then
      (c.lookup.insert item.key { item, created := now }).erase item.key else _
    routing := (c.routing.register item).unregister item
    recency := c.recency.filter (· ≠ item) } = c
  rw [untracked, consistent.unregister_register absent, if_pos live, lookup]

end Cache

/-! ## Gets -/

theorem Catalog.has_of_retired {c : Catalog} {index : Handle Index}
    (retired : (c.indexes.read index).retired = true) : c.indexes.Has index := by
  by_contra unknown
  rw [Store.read_of_not_has unknown] at retired
  exact Bool.false_ne_true retired

namespace Collection

variable {c : Collection} {now : Millis} {names : List String} {directory : Directory}

/-- The get enters an intersection that has a retired source and is built at once. -/
structure Dooms (c : Collection) (names : List String) (directory : Directory) : Prop where
  absent : c.cache.lookup[canonicalKey names]? = none
  accepts : c.cache.accepting = true
  retired : ∃ sources : List Source,
    directory.resolve (canonicalNames names) = .ok sources ∧
      ∃ source ∈ sources, (c.catalog.indexes.read source.index).retired = true

theorem get_of_absent (absent : c.cache.lookup[canonicalKey names]? = none) {sources : List Source}
    (resolved : directory.resolve (canonicalNames names) = .ok sources) :
    c.get now names directory = (.ok none,
      (c.missed.enter now (canonicalKey names) sources).2.requestBuild now
        (c.missed.enter now (canonicalKey names) sources).1) := by
  have absent : c.cache.lookup["&".intercalate (canonicalNames names)]? = none := absent
  simp only [get, absent, resolved]
  rfl

theorem get_of_error {error : Error} (fails : (c.get now names directory).1 = .error error) :
    c.cache.lookup[canonicalKey names]? = none ∧ (c.get now names directory).2 = c.missed := by
  unfold get at fails ⊢
  dsimp only at fails ⊢
  split at fails
  next => split at fails <;> cases fails
  next absent =>
    refine ⟨absent, ?_⟩
    split at fails
    next => rfl
    next => cases fails

theorem Dooms.get (dooms : c.Dooms names directory) (consistent : c.Consistent) (now : Millis) :
    c.get now names directory = (.ok none, {
      catalog := (c.catalog.addIndex { name := canonicalKey names }).2
      cache := c.cache.count fun n => { n with
        misses := n.misses + 1, enqueued := n.enqueued + 1, failed := n.failed + 1 } }) := by
  obtain ⟨sources, resolved, source, inside, retired⟩ := dooms.retired
  have known := Catalog.has_of_retired retired
  have perm := perm_sortStable (fun a b => c.catalog.sizeOf a ≤ c.catalog.sizeOf b) sources
  have missed : c.missed.cache.Consistent := consistent.cache.of_sameViews rfl rfl rfl
  have stillRetired : ((c.missed.enter now (canonicalKey names) sources).2.catalog.indexes.read
      source.index).retired = true := by
    rw [← retired]
    exact congrArg Index.retired (c.catalog.read_addIndex _ known)
  rw [get_of_absent dooms.absent resolved,
    requestBuild_of_retired (c.missed.awaits_enter now _ sources) dooms.accepts now
      (perm.mem_iff.mpr inside) stillRetired]
  have taken : (c.missed.enter now (canonicalKey names) sources).2.rollBack
      (c.missed.enter now (canonicalKey names) sources).1 =
        { catalog := (c.catalog.addIndex { name := canonicalKey names }).2
          cache := c.missed.cache } :=
    congrArg (Collection.mk _) (missed.discard_enter
      (c.missed.enter now (canonicalKey names) sources).1 dooms.absent now)
  rw [taken]
  rfl

structure EntersBuilt (c : Collection) (now : Millis) (key : String) (sources : List Source)
    (c' : Collection) : Prop where
  entry : ∃ entry, c'.cache.lookup[key]? = some entry ∧ entry.stage = .built now ∧
    entry.item.sources.Perm sources ∧ ¬ c.catalog.indexes.Has entry.item.result ∧
    ∀ id, c'.catalog.holds entry.item.result id =
      (!sources.isEmpty && c.catalog.allHold sources id)
  counters : c'.cache.counters = { c.cache.counters with
    misses := c.cache.counters.misses + 1
    enqueued := c.cache.counters.enqueued + 1
    completed := c.cache.counters.completed + 1 }

theorem entersBuilt_get (absent : c.cache.lookup[canonicalKey names]? = none)
    (accepts : c.cache.accepting = true) {sources : List Source}
    (resolved : directory.resolve (canonicalNames names) = .ok sources)
    (has : ∀ source ∈ sources, c.catalog.indexes.Has source.index)
    (live : ∀ source ∈ sources, (c.catalog.indexes.read source.index).retired = false)
    (now : Millis) :
    (c.get now names directory).1 = .ok none ∧
      c.EntersBuilt now (canonicalKey names) sources (c.get now names directory).2 := by
  let item := (c.missed.enter now (canonicalKey names) sources).1
  have perm : item.sources.Perm sources := perm_sortStable _ sources
  have known : ∀ source ∈ item.sources, c.catalog.indexes.Has source.index :=
    fun source inside => has source (perm.mem_iff.mp inside)
  have allLive : (c.missed.enter now (canonicalKey names) sources).2.AllLive item := by
    intro source inside
    rw [← live source (perm.mem_iff.mp inside)]
    exact congrArg Index.retired (c.catalog.read_addIndex _ (known source inside))
  rw [get_of_absent absent resolved, requestBuild_of_allLive
    (c.missed.awaits_enter now _ sources) accepts now allLive]
  refine ⟨rfl, ⟨{ item, created := now, stage := .built now }, ?_, rfl, perm,
    c.catalog.indexes.not_has_next, fun id => ?_⟩, ?_⟩
  · refine (congrArg (·[canonicalKey names]?) (lookup_complete _ now item)).trans ?_
    rw [Cache.getElem?_setStage, lookup_enter]
    exact if_pos rfl
  · refine (holds_complete (Catalog.has_next_addIndex c.catalog _) now id).trans ?_
    rw [perm.isEmpty_eq, ← Catalog.allHold_perm perm]
    refine congrArg _ (Catalog.allHold_congr fun source inside => ?_)
    exact c.catalog.holds_addIndex _ (known source inside) id
  · exact congrArg (fun n : Counters => { n with
      enqueued := n.enqueued + 1, completed := n.completed + 1 })
      (counters_complete (c.missed.enter now (canonicalKey names) sources).2 now item)

end Collection

/-! ## Every run -/

namespace Run

/-- In every run, and however names are resolved, a get that fails changes nothing but
the number of misses, and one that enters an intersection with a retired source changes
in addition two numbers of builds; the result that it made stays behind under no name.
If the names then resolve to live indexes, the next get builds a new entry from them. -/
theorem failed_get_leaves_no_trace {config : Config} {r : Run} (accessible : r.Accessible config)
    (now : Millis) (names : List String) (directory : Directory) :
    let r' := r.access (.call (.get now names directory))
    (∀ error, (r.collection.get now names directory).1 = .error error →
      r'.cache = r.cache.count (fun n => { n with misses := n.misses + 1 }) ∧
      r'.catalog = r.catalog) ∧
    (r.collection.Dooms names directory →
      (r.collection.get now names directory).1 = .ok none ∧
      r'.cache = r.cache.count (fun n => { n with
        misses := n.misses + 1, enqueued := n.enqueued + 1, failed := n.failed + 1 }) ∧
      r'.catalog = (r.catalog.addIndex { name := canonicalKey names }).2) ∧
    ((∃ error, (r.collection.get now names directory).1 = .error error) ∨
        r.collection.Dooms names directory →
      ∀ (now' : Millis) (directory' : Directory) (sources : List Source),
        directory'.resolve (canonicalNames names) = .ok sources →
        (∀ source ∈ sources, r'.catalog.indexes.Has source.index ∧
          (r'.catalog.indexes.read source.index).retired = false) →
        r'.cache.accepting = true →
        (r'.collection.get now' names directory').1 = .ok none ∧
        r'.collection.EntersBuilt now' (canonicalKey names) sources
          (r'.access (.call (.get now' names directory'))).collection) := by
  intro r'
  have consistent := accessible.consistent.collection
  have failing : ∀ error, (r.collection.get now names directory).1 = .error error →
      r'.collection = r.collection.missed := fun _ fails => (Collection.get_of_error fails).2
  have doomed : r.collection.Dooms names directory → r'.collection = {
      catalog := (r.catalog.addIndex { name := canonicalKey names }).2
      cache := r.cache.count fun n => { n with
        misses := n.misses + 1, enqueued := n.enqueued + 1, failed := n.failed + 1 } } :=
    fun dooms => congrArg Prod.snd (dooms.get consistent now)
  refine ⟨fun error fails => ?_, fun dooms => ⟨?_, ?_⟩, fun either => ?_⟩
  · have same := failing error fails
    exact ⟨congrArg (·.cache) same, congrArg (·.catalog) same⟩
  · rw [dooms.get consistent now]
  · have same := doomed dooms
    exact ⟨congrArg (·.cache) same, congrArg (·.catalog) same⟩
  · intro now' directory' sources resolved sound accepts
    have absent : r'.collection.cache.lookup[canonicalKey names]? = none := by
      rcases either with ⟨error, fails⟩ | dooms
      · rw [failing error fails]
        exact (Collection.get_of_error fails).1
      · rw [doomed dooms]
        exact dooms.absent
    exact Collection.entersBuilt_get absent accepts resolved (fun source inside =>
      (sound source inside).1) (fun source inside => (sound source inside).2) now'

/-! One index of a pair is dropped and created again, while an intersection over the
other is built. -/

private def neighbourBuilt : List Access :=
  [.call (.createIndex "a"), .call (.createIndex "b"), .call (.createIndex "c"),
    .call (.createSort "s"), .call (.execute 0 { sort := "s", indexes := ["a", "c"] }),
    .call (.dropIndex "b"), .call (.createIndex "b")]

private def beforeDrop : List Source := [⟨"a", ⟨0⟩⟩, ⟨"b", ⟨1⟩⟩]

private def sinceDrop : List Source := [⟨"a", ⟨0⟩⟩, ⟨"b", ⟨4⟩⟩]

private def toDirectory (sources : List Source) : Directory :=
  Std.ExtTreeMap.ofList (sources.map fun source => (source.name, source.index))

theorem failed_get_leaves_no_trace_of_pair :
    ∃ r : Run, r.Accessible {} ∧
      let r' := r.access (.call (.get 1 ["a", "b"] (toDirectory beforeDrop)))
      r'.cache = r.cache.count (fun n => { n with
        misses := n.misses + 1, enqueued := n.enqueued + 1, failed := n.failed + 1 }) ∧
      (r.cache.lookup["a&c"]?.any (·.isBuilt)) = true ∧
      r'.collection.EntersBuilt 2 "a&b" sinceDrop
        (r'.access (.call (.get 2 ["a", "b"] (toDirectory sinceDrop)))).collection := by
  obtain ⟨e, created, absent, accepts, retired, neighbour, sound⟩ :
      ∃ e, Engine.create {} = .ok e ∧
        let r := neighbourBuilt.foldl access (ofEngine e)
        let r' := r.access (.call (.get 1 ["a", "b"] (toDirectory beforeDrop)))
        r.cache.lookup[canonicalKey ["a", "b"]]? = none ∧ r.cache.accepting = true ∧
          (∃ source ∈ beforeDrop, (r.catalog.indexes.read source.index).retired = true) ∧
          (r.cache.lookup["a&c"]?.any (·.isBuilt)) = true ∧
          ∀ source ∈ sinceDrop, r'.catalog.indexes.Has source.index ∧
            (r'.catalog.indexes.read source.index).retired = false :=
    ⟨_, rfl, by decide +kernel⟩
  have accessible : (neighbourBuilt.foldl access (ofEngine e)).Accessible {} :=
    (Accessible.start created).foldl (by simp [neighbourBuilt, Permits, Allows])
  have dooms : (neighbourBuilt.foldl access (ofEngine e)).collection.Dooms ["a", "b"]
      (toDirectory beforeDrop) :=
    ⟨absent, accepts, beforeDrop, Directory.resolve_eq_ok.mpr (by decide +kernel), retired⟩
  obtain ⟨-, doomed, again⟩ :=
    failed_get_leaves_no_trace accessible 1 ["a", "b"] (toDirectory beforeDrop)
  obtain ⟨-, cache, -⟩ := doomed dooms
  have entered := again (.inr dooms) 2 (toDirectory sinceDrop) sinceDrop
    (Directory.resolve_eq_ok.mpr (by decide +kernel)) sound (by rw [cache]; exact accepts)
  exact ⟨_, accessible, cache, neighbour, entered.2⟩

end Run

end RankedQuery
