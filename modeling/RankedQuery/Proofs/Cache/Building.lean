import RankedQuery.Proofs.Cache.Coherence

/-!
# Entering and building intersections

A get enters an intersection of indexes that are or once were registered, and
its build either finds all of them live, and then registered, or discards it
again.  Either way the cache stays coherent.
-/

namespace RankedQuery

theorem Entry.isBuilt_of_waiting {e : Entry} {queued : Bool}
    (waiting : e.stage = .waiting queued) : e.isBuilt = false := by
  rw [isBuilt, waiting]

namespace Cache

theorem getElem?_setStage (c : Cache) (key : String) (stage : Stage) (other : String) :
    (c.setStage key stage).lookup[other]? =
      if key = other then c.lookup[other]?.map fun entry => { entry with stage }
      else c.lookup[other]? := by
  by_cases here : key = other
  · subst here
    simp [setStage]
  · simp [setStage, Std.ExtTreeMap.getElem?_modify, here]

theorem item_setStage {c : Cache} {key : String} {stage : Stage} {other : String} {entry' : Entry}
    (found : (c.setStage key stage).lookup[other]? = some entry') :
    ∃ entry, c.lookup[other]? = some entry ∧ entry.item = entry'.item := by
  rw [getElem?_setStage] at found
  split at found
  next =>
    obtain ⟨entry, before, rfl⟩ := Option.map_eq_some_iff.mp found
    exact ⟨entry, before, rfl⟩
  next => exact ⟨entry', found, rfl⟩

theorem setStage_setStage (c : Cache) (key : String) (first second : Stage) :
    (c.setStage key first).setStage key second = c.setStage key second := by
  refine congrArg (fun lookup => { c with lookup }) (Std.ExtTreeMap.ext_getElem? fun {other} => ?_)
  show ((c.setStage key first).setStage key second).lookup[other]? =
    (c.setStage key second).lookup[other]?
  rw [getElem?_setStage, getElem?_setStage, getElem?_setStage]
  split
  · rw [Option.map_map]
    rfl
  · rfl

theorem setStage_self {c : Cache} {key : String} {entry : Entry}
    (found : c.lookup[key]? = some entry) : c.setStage key entry.stage = c := by
  refine congrArg (fun lookup => { c with lookup }) (Std.ExtTreeMap.ext_getElem? fun {other} => ?_)
  show (c.setStage key entry.stage).lookup[other]? = c.lookup[other]?
  rw [getElem?_setStage]
  split
  next here => rw [← here, found, Option.map_some]
  next => rfl

theorem isLive_setStage (c : Cache) (key : String) (stage : Stage) (item : Intersection) :
    (c.setStage key stage).isLive item = c.isLive item := by
  unfold isLive
  rw [getElem?_setStage]
  split
  · cases c.lookup[item.key]? <;> rfl
  · rfl

theorem evict_setStage {c : Cache} {item : Intersection} (live : c.isLive item = true)
    (stage : Stage) : (c.setStage item.key stage).evict item = c.evict item := by
  unfold evict
  rw [isLive_setStage, if_pos live, if_pos live]
  refine congrArg (fun lookup => { c with lookup, routing := c.routing.unregister item })
    (Std.ExtTreeMap.ext_getElem? fun {other} => ?_)
  simp only [Std.ExtTreeMap.getElem?_erase, Std.LawfulEqCmp.compare_eq_iff_eq]
  split
  · rfl
  next apart => rw [getElem?_setStage, if_neg apart]

theorem lookup_track (c : Cache) (item : Intersection) :
    (c.track item).lookup = c.lookup := by
  unfold track
  split <;> rfl

theorem routing_track (c : Cache) (item : Intersection) :
    (c.track item).routing = c.routing := by
  unfold track
  split <;> rfl

@[simp] theorem counters_track (c : Cache) (item : Intersection) :
    (c.track item).counters = c.counters := by
  unfold track
  split <;> rfl

/-- The intersection is in the lookup, under its key, and waits with no build queued. -/
def Awaits (c : Cache) (item : Intersection) : Prop :=
  ∃ entry, c.lookup[item.key]? = some entry ∧ entry.item = item ∧ entry.stage = .waiting false

theorem awaits_of_found {c : Cache} {key : String} {entry : Entry}
    (found : c.lookup[key]? = some entry) (keyed : entry.item.key = key)
    (waiting : entry.stage = .waiting false) : c.Awaits entry.item :=
  ⟨entry, keyed ▸ found, rfl, waiting⟩

theorem Awaits.isLive {c : Cache} {item : Intersection} (awaits : c.Awaits item) :
    c.isLive item = true := by
  obtain ⟨entry, found, same, -⟩ := awaits
  exact isLive_eq_true.mpr ⟨entry, found, same⟩

end Cache

namespace Collection

variable {c : Collection}

/-! ## Built entries -/

private theorem becomes_built (coherent : c.Coherent) {key : String} {entry : Entry}
    (found : c.cache.lookup[key]? = some entry) (now : Millis) {catalog : Catalog}
    {routing : Routing} (becomes : c.catalog.Becomes catalog)
    (routed : ∀ source key' item, routing.lookup? source key' = some item ↔
      c.cache.routing.lookup? source key' = some item ∨
        (item.IsOver source ∧ key' = key ∧ item = entry.item))
    (current : ∀ (key' : String) (other : Entry), c.cache.lookup[key']? = some other →
      other.isBuilt = true ∨ other = entry → other.item.Current catalog) :
    c.Becomes { catalog, cache := { c.cache.setStage key (.built now) with routing } } := by
  have before : ∀ {key' : String} {entry' : Entry},
      (c.cache.setStage key (.built now)).lookup[key']? = some entry' →
        ∃ other, c.cache.lookup[key']? = some other ∧ other.item = entry'.item ∧
          (other.isBuilt = true → entry'.isBuilt = true) ∧
          (entry'.isBuilt = true → other.isBuilt = true ∨ other = entry) := by
    intro key' entry' found'
    rw [Cache.getElem?_setStage] at found'
    split at found'
    next here =>
      subst here
      rw [found, Option.map_some, Option.some.injEq] at found'
      subst found'
      exact ⟨entry, found, rfl, fun _ => rfl, fun _ => .inr rfl⟩
    next => exact ⟨entry', found', rfl, id, .inl⟩
  have after : ∀ {key' : String} {other : Entry}, c.cache.lookup[key']? = some other →
      other.isBuilt = true ∨ key' = key →
        ∃ entry', (c.cache.setStage key (.built now)).lookup[key']? = some entry' ∧
          entry'.item = other.item ∧ entry'.isBuilt = true := by
    intro key' other found' built
    rw [Cache.getElem?_setStage]
    by_cases here : key = key'
    · rw [if_pos here, found']
      exact ⟨_, rfl, rfl, rfl⟩
    · rw [if_neg here]
      exact ⟨other, found', rfl, built.resolve_right (Ne.symm here)⟩
  -- `before` pulls every clause back to the old lookup; only the routing needs `after`.
  refine ⟨⟨becomes.sound coherent.catalog, ?_, ?_, ?_, ?_, ?_⟩, becomes, ?_⟩
  · intro key' entry' found'
    obtain ⟨other, earlier, same, -, -⟩ := before found'
    rw [← same]
    exact coherent.keyed key' other earlier
  · intro key' entry' found'
    obtain ⟨other, earlier, same, -, -⟩ := before found'
    rw [← same]
    exact (coherent.sound key' other earlier).after becomes
  · intro keyA keyB entryA entryB foundA foundB shared
    obtain ⟨otherA, earlierA, sameA, -, -⟩ := before foundA
    obtain ⟨otherB, earlierB, sameB, -, -⟩ := before foundB
    rw [← sameA, ← sameB] at shared
    exact coherent.alone keyA keyB otherA otherB earlierA earlierB shared
  · intro source key' item
    rw [routed, coherent.routed]
    constructor
    · rintro (⟨isOver, other, earlier, rfl, built⟩ | ⟨isOver, rfl, rfl⟩)
      · exact ⟨isOver, after earlier (.inl built)⟩
      · exact ⟨isOver, after found (.inr rfl)⟩
    · rintro ⟨isOver, entry', found', rfl, built⟩
      obtain ⟨other, earlier, same, -, reason⟩ := before found'
      rcases reason built with built | rfl
      · exact .inl ⟨isOver, other, earlier, same, built⟩
      · refine .inr ⟨isOver, ?_, same.symm⟩
        exact (coherent.keyed key' _ earlier).symm.trans (coherent.keyed key _ found)
  · intro key' entry' found' built
    obtain ⟨other, earlier, same, -, reason⟩ := before found'
    rw [← same]
    exact current key' other earlier (reason built)
  · intro key' entry' found'
    obtain ⟨other, earlier, same, built, -⟩ := before found'
    exact .inl ⟨other, earlier, same, built⟩

theorem becomes_touch (coherent : c.Coherent) {key : String} {entry : Entry}
    (found : c.cache.lookup[key]? = some entry) (built : entry.isBuilt = true)
    (now : Millis) : c.Becomes (c.onCache (·.setStage key (.built now))) := by
  refine becomes_built coherent found now (.refl _) ?_ ?_
  · intro source key' item
    constructor
    · exact .inl
    · rintro (routed | ⟨isOver, rfl, rfl⟩)
      · exact routed
      · exact (coherent.routed source key' entry.item).mpr ⟨isOver, entry, found, rfl, built⟩
  · rintro key' other earlier (given | rfl)
    · exact coherent.current key' other earlier given
    · exact coherent.current key' _ earlier built

theorem becomes_track (coherent : c.Coherent) (item : Intersection) :
    c.Becomes (c.onCache (·.track item)) :=
  becomes_sameViews coherent (c.cache.lookup_track item) fun source key => by
    rw [c.cache.routing_track item]

/-! ## Builds -/

section Build

variable {key : String} {entry : Entry}

private theorem not_routed (coherent : c.Coherent) (found : c.cache.lookup[key]? = some entry)
    (waiting : entry.isBuilt = false) (source : String) :
    c.cache.routing.lookup? source key = none := by
  cases routed : c.cache.routing.lookup? source key with
  | none => rfl
  | some item =>
      obtain ⟨-, other, found', -, built⟩ := (coherent.routed source key item).mp routed
      rw [found, Option.some.injEq] at found'
      subst found'
      rw [waiting] at built
      cases built

private theorem becomes_failed (coherent : c.Coherent)
    (found : c.cache.lookup[key]? = some entry) (waiting : entry.isBuilt = false) :
    c.Becomes (c.onCache fun cache =>
      { cache with routing := cache.routing.register entry.item }.discard entry.item) := by
  have discarded := becomes_discard coherent entry.item
  refine discarded.trans (becomes_sameViews discarded.coherent rfl fun source key' => ?_)
  show ((c.cache.routing.register entry.item).unregister entry.item).lookup? source key' =
    (c.cache.routing.unregister entry.item).lookup? source key'
  rw [Routing.lookup?_unregister, Routing.lookup?_unregister, Routing.lookup?_register]
  by_cases place : entry.item.IsOver source ∧ entry.item.key = key'
  · obtain ⟨isOver, rfl⟩ := place
    have unrouted := not_routed coherent found waiting source
    rw [← coherent.keyed key entry found] at unrouted
    simp [isOver, unrouted]
  · simp [place]

private theorem current_refill (coherent : c.Coherent)
    (found : c.cache.lookup[key]? = some entry) (waiting : entry.isBuilt = false)
    (live : ∀ source ∈ entry.item.sources,
      (c.catalog.indexes.read source.index).retired = false) {key' : String} {other : Entry}
    (earlier : c.cache.lookup[key']? = some other)
    (reason : other.isBuilt = true ∨ other = entry) :
    other.item.Current (c.catalog.updateIndex entry.item.result
      (·.refill (c.catalog.intersect entry.item.sources))) := by
  have hidden := (coherent.sound key entry found).hidden
  have otherSound := coherent.sound key' other earlier
  have same : c.catalog.SameIndexes (c.catalog.updateIndex entry.item.result
      (·.refill (c.catalog.intersect entry.item.sources))) :=
    Catalog.sameIndexes_updateIndex hidden.has (fun _ => rfl) (fun _ => rfl)
  have holds := Catalog.holds_updateIndex hidden.has
    (·.refill (c.catalog.intersect entry.item.sources))
  have sources : ∀ source ∈ other.item.sources, ∀ id,
      (c.catalog.updateIndex entry.item.result
        (·.refill (c.catalog.intersect entry.item.sources))).holds source.index id =
          c.catalog.holds source.index id := by
    intro source inside id
    rw [holds, if_neg ((otherSound.known source inside).ne_hidden hidden)]
  rcases reason with built | rfl
  · have current := coherent.current key' other earlier built
    refine current.after ?_ ?_ (fun id => ?_) sources
    · rw [same.directory]
      exact current.registered
    · intro source inside
      rw [same.retired]
      exact current.live source inside
    · rw [holds, if_neg fun shared => ?_]
      rw [coherent.item_eq earlier found shared, waiting] at built
      cases built
  · -- The entry itself: live sources are registered, as known names retire with them.
    constructor
    · intro source inside
      rw [same.directory]
      refine (otherSound.known source inside).placed.resolve_right fun retired => ?_
      rw [live source inside] at retired
      cases retired
    · intro source inside
      rw [same.retired]
      exact live source inside
    · intro any id
      rw [holds, if_pos rfl, Catalog.allHold_congr fun source inside =>
        sources source inside id]
      exact c.catalog.contains_intersect any id

private theorem becomes_completed (coherent : c.Coherent)
    (found : c.cache.lookup[key]? = some entry) (waiting : entry.isBuilt = false)
    (live : ∀ source ∈ entry.item.sources,
      (c.catalog.indexes.read source.index).retired = false) (now : Millis) :
    c.Becomes {
      catalog := c.catalog.updateIndex entry.item.result
        (·.refill (c.catalog.intersect entry.item.sources))
      cache := { c.cache.setStage key (.built now) with
        routing := c.cache.routing.register entry.item } } := by
  have hidden := (coherent.sound key entry found).hidden
  have same : c.catalog.SameIndexes (c.catalog.updateIndex entry.item.result
      (·.refill (c.catalog.intersect entry.item.sources))) :=
    Catalog.sameIndexes_updateIndex hidden.has (fun _ => rfl) (fun _ => rfl)
  refine becomes_built coherent found now same.becomes ?_
    fun key' other => current_refill coherent found waiting live
  intro source key' item
  rw [Routing.lookup?_register, coherent.keyed key entry found]
  by_cases place : entry.item.IsOver source ∧ key = key'
  · obtain ⟨isOver, rfl⟩ := place
    rw [if_pos ⟨isOver, rfl⟩, not_routed coherent found waiting source, Option.some.injEq]
    constructor
    · rintro rfl
      exact .inr ⟨isOver, rfl, rfl⟩
    · rintro (routed | ⟨-, -, same⟩)
      · cases routed
      · exact same.symm
  · rw [if_neg place]
    refine ⟨.inl, fun routed => routed.resolve_right ?_⟩
    rintro ⟨isOver, rfl, rfl⟩
    exact place ⟨isOver, rfl⟩

theorem becomes_build (coherent : c.Coherent) (found : c.cache.lookup[key]? = some entry)
    (waiting : entry.isBuilt = false) (now : Millis) : c.Becomes (c.build now entry.item) := by
  unfold build
  split
  next =>
    dsimp only
    split
    next retired =>
      have failed := becomes_failed coherent found waiting
      exact failed.trans (becomes_count failed.coherent _)
    next live =>
      have live : ∀ source ∈ entry.item.sources,
          (c.catalog.indexes.read source.index).retired = false := by
        intro source inside
        have passes := List.any_eq_false.mp (Bool.eq_false_iff.mpr live) source inside
        exact Bool.eq_false_iff.mpr passes
      have completed := becomes_completed coherent found waiting live now
      rw [← coherent.keyed key entry found] at completed
      have tracked := becomes_track completed.coherent entry.item
      exact (completed.trans tracked).trans (becomes_count tracked.coherent _)
  next => exact .refl coherent

end Build

/-! ## Requests -/

section Request

variable {item : Intersection}

private theorem build_claim (live : c.cache.isLive item = true) (now : Millis) :
    (c.onCache (·.claim item.key)).build now item = c.build now item := by
  have claimed : (c.onCache (·.claim item.key)).cache.isLive item = true :=
    (c.cache.isLive_setStage item.key _ item).trans live
  unfold build
  rw [if_pos claimed, if_pos live]
  dsimp only [onCache]
  split
  · exact congrArg (fun cache => { c with cache }.count fun n => { n with failed := n.failed + 1 })
      (Cache.evict_setStage (c := { c.cache with
        routing := c.cache.routing.register item
        recency := c.cache.recency.filter (· ≠ item) }) live _)
  · generalize c.catalog.updateIndex item.result _ = catalog
    exact congrArg (fun cache => { catalog, cache := cache.track item : Collection }.count
        fun n => { n with completed := n.completed + 1 })
      ({ c.cache with routing := c.cache.routing.register item }.setStage_setStage item.key _ _)

theorem requestBuild_of_accepts (accepts : c.cache.accepting = true)
    (live : c.cache.isLive item = true) (now : Millis) :
    c.requestBuild now item =
      (c.count fun n => { n with enqueued := n.enqueued + 1 }).build now item :=
  (if_pos accepts).trans (build_claim (c := c.count fun n => { n with enqueued := n.enqueued + 1 })
    live now)

theorem requestBuild_of_refuses (refuses : c.cache.accepting = false)
    (awaits : c.cache.Awaits item) (now : Millis) :
    c.requestBuild now item = c.count fun n => { n with dropped := n.dropped + 1 } := by
  have released : (c.cache.claim item.key).release item.key = c.cache := by
    obtain ⟨entry, found, -, stage⟩ := awaits
    rw [Cache.claim, Cache.release, Cache.setStage_setStage, ← stage]
    exact Cache.setStage_self found
  refine (if_neg (by simp [onCache, Cache.claim, Cache.setStage, refuses])).trans ?_
  exact congrArg (fun cache => { c with cache }.count fun n => { n with dropped := n.dropped + 1 })
    released

/-- What a request to build an intersection leaves behind. -/
inductive AfterRequest (c : Collection) (now : Millis) (item : Intersection) :
    Collection → Prop
  | dropped {c' : Collection} (refuses : c.cache.accepting = false)
      (counters : c'.cache.counters =
        { c.cache.counters with dropped := c.cache.counters.dropped + 1 })
      (lookup : c'.cache.lookup = c.cache.lookup) : AfterRequest c now item c'
  | failed {c' : Collection} (accepts : c.cache.accepting = true)
      (retired : ∃ source ∈ item.sources,
        (c.catalog.indexes.read source.index).retired = true)
      (counters : c'.cache.counters =
        { c.cache.counters with
          enqueued := c.cache.counters.enqueued + 1
          failed := c.cache.counters.failed + 1 })
      (lookup : c'.cache.lookup = (c.cache.evict item).lookup) : AfterRequest c now item c'
  | completed {c' : Collection} (accepts : c.cache.accepting = true)
      (counters : c'.cache.counters =
        { c.cache.counters with
          enqueued := c.cache.counters.enqueued + 1
          completed := c.cache.counters.completed + 1 })
      (lookup : c'.cache.lookup = (c.cache.setStage item.key (.built now)).lookup) :
      AfterRequest c now item c'

theorem afterRequest (awaits : c.cache.Awaits item) (now : Millis) :
    c.AfterRequest now item (c.requestBuild now item) := by
  cases accepts : c.cache.accepting with
  | true =>
      rw [requestBuild_of_accepts accepts awaits.isLive]
      unfold build
      rw [if_pos (show (c.count _).cache.isLive item = true from awaits.isLive)]
      dsimp only
      split
      next retired => exact .failed accepts (List.any_eq_true.mp retired) rfl rfl
      next =>
        refine .completed accepts ?_ (Cache.lookup_track _ item)
        simp only [count, onCache, Cache.count, Cache.counters_track]
        rfl
  | false =>
      rw [requestBuild_of_refuses accepts awaits]
      exact .dropped accepts rfl rfl

theorem becomes_requestBuild (coherent : c.Coherent) (awaits : c.cache.Awaits item)
    (now : Millis) : c.Becomes (c.requestBuild now item) := by
  cases accepts : c.cache.accepting with
  | true =>
      rw [requestBuild_of_accepts accepts awaits.isLive]
      obtain ⟨entry, found, rfl, stage⟩ := awaits
      have counted := becomes_count coherent fun n => { n with enqueued := n.enqueued + 1 }
      exact counted.trans
        (becomes_build counted.coherent found (Entry.isBuilt_of_waiting stage) now)
  | false =>
      rw [requestBuild_of_refuses accepts awaits]
      exact becomes_count coherent _

end Request

/-! ## New intersections -/

section Enter

variable {key : String} {sources : List Source}

theorem getElem?_enter (c : Collection) (now : Millis) (key : String) (sources : List Source)
    (other : String) :
    (c.enter now key sources).2.cache.lookup[other]? =
      if key = other then some { item := (c.enter now key sources).1, created := now }
      else c.cache.lookup[other]? := by
  show (c.cache.lookup.insert key _)[other]? = _
  rw [Std.ExtTreeMap.getElem?_insert]
  simp only [Std.LawfulEqCmp.compare_eq_iff_eq]
  rfl

theorem sound_enter (sound : c.catalog.Sound) (now : Millis)
    (known : ∀ source ∈ sources, c.catalog.Knows source)
    (keyed : key = canonicalKey (sources.map (·.name))) :
    (c.enter now key sources).1.Sound (c.enter now key sources).2.catalog where
  known source inside := by
    have listed := (perm_sortStable _ sources).mem_iff.mp inside
    exact (c.catalog.becomes_addIndex _).knows source (known source listed)
  hidden := c.catalog.hides_next _ sound rfl
  key := by
    refine keyed.trans (canonicalKey_congr fun name => ?_)
    exact ((perm_sortStable _ sources).map _).mem_iff.symm

theorem becomes_enter (coherent : c.Coherent) (absent : c.cache.lookup[key]? = none)
    (known : ∀ source ∈ sources, c.catalog.Knows source)
    (keyed : key = canonicalKey (sources.map (·.name))) (now : Millis) :
    c.Becomes (c.enter now key sources).2 := by
  have becomes : c.catalog.Becomes (c.enter now key sources).2.catalog :=
    c.catalog.becomes_addIndex _
  have fresh : ¬ c.catalog.indexes.Has (c.enter now key sources).1.result :=
    c.catalog.indexes.not_has_next
  have origin : ∀ {other : String} {entry : Entry},
      (c.enter now key sources).2.cache.lookup[other]? = some entry →
        key = other ∧ entry = { item := (c.enter now key sources).1, created := now } ∨
          c.cache.lookup[other]? = some entry := by
    intro other entry found
    rw [getElem?_enter] at found
    split at found
    next here => exact .inl ⟨here, (Option.some.inj found).symm⟩
    next => exact .inr found
  have apart : ∀ {other : String} {entry : Entry}, c.cache.lookup[other]? = some entry →
      entry.item.result ≠ (c.enter now key sources).1.result := by
    intro other entry found shared
    apply fresh
    rw [← shared]
    exact (coherent.sound other entry found).hidden.has
  refine ⟨⟨becomes.sound coherent.catalog, ?_, ?_, ?_, ?_, ?_⟩, becomes, ?_⟩
  · intro other entry found
    rcases origin found with ⟨rfl, rfl⟩ | old
    · rfl
    · exact coherent.keyed other entry old
  · intro other entry found
    rcases origin found with ⟨rfl, rfl⟩ | old
    · exact sound_enter coherent.catalog now known keyed
    · exact (coherent.sound other entry old).after becomes
  · intro keyA keyB entryA entryB foundA foundB shared
    rcases origin foundA with ⟨rfl, rfl⟩ | oldA
    · rcases origin foundB with ⟨rfl, rfl⟩ | oldB
      · rfl
      · exact absurd shared.symm (apart oldB)
    · rcases origin foundB with ⟨rfl, rfl⟩ | oldB
      · exact absurd shared (apart oldA)
      · exact coherent.alone keyA keyB entryA entryB oldA oldB shared
  · intro source other item
    refine (coherent.routed source other item).trans (and_congr_right fun _ => ?_)
    constructor
    · rintro ⟨entry, found, same, built⟩
      refine ⟨entry, ?_, same, built⟩
      rw [getElem?_enter, if_neg]
      · exact found
      · rintro rfl
        simp [absent] at found
    · rintro ⟨entry, found, same, built⟩
      rcases origin found with ⟨rfl, rfl⟩ | old
      · cases built
      · exact ⟨entry, old, same, built⟩
  · intro other entry found built
    rcases origin found with ⟨rfl, rfl⟩ | old
    · cases built
    · have sound := coherent.sound other entry old
      have current := coherent.current other entry old built
      refine current.after current.registered ?_
        (c.catalog.holds_addIndex _ sound.hidden.has)
        fun source inside => c.catalog.holds_addIndex _ (sound.known source inside).has
      intro source inside
      rw [show (c.enter now key sources).2.catalog.indexes.read source.index = _ from
        c.catalog.read_addIndex _ (sound.known source inside).has]
      exact current.live source inside
  · intro other entry found
    rcases origin found with ⟨rfl, rfl⟩ | old
    · exact .inr fresh
    · exact .inl ⟨entry, old, rfl, id⟩

theorem becomes_enterResolved (coherent : c.Coherent) {names : List String}
    (absent : c.cache.lookup[canonicalKey names]? = none) {directory : Directory}
    (resolved : directory.resolve (canonicalNames names) = .ok sources)
    (known : ∀ source : Source, directory[source.name]? = some source.index →
      c.catalog.Knows source) (now : Millis) :
    c.Becomes (c.enter now (canonicalKey names) sources).2 := by
  obtain ⟨sameNames, registered⟩ := Directory.resolve_eq_ok.mp resolved
  refine becomes_enter coherent absent (fun source inside => known source
    (registered source inside)) ?_ now
  rw [sameNames]
  exact canonicalKey_congr fun name => mem_canonicalNames.symm

end Enter

/-! ## Gets -/

def missed (c : Collection) : Collection := c.count fun n => { n with misses := n.misses + 1 }

/-- What a get leaves behind. -/
inductive AfterGet (c : Collection) (now : Millis) (names : List String)
    (directory : Directory) : Collection → Prop
  | hit {entry : Entry} (found : c.cache.lookup[canonicalKey names]? = some entry)
      (built : entry.isBuilt = true) :
      AfterGet c now names directory
        ((c.onCache (·.setStage (canonicalKey names) (.built now))).count
          fun n => { n with hits := n.hits + 1 })
  | queued {entry : Entry} (found : c.cache.lookup[canonicalKey names]? = some entry)
      (queued : entry.stage = .waiting true) : AfterGet c now names directory c.missed
  | waits {entry : Entry} (found : c.cache.lookup[canonicalKey names]? = some entry)
      (waiting : entry.stage = .waiting false) :
      AfterGet c now names directory (c.missed.requestBuild now entry.item)
  | unresolved {error : Error} (absent : c.cache.lookup[canonicalKey names]? = none)
      (fails : directory.resolve (canonicalNames names) = .error error) :
      AfterGet c now names directory c.missed
  | enters {sources : List Source} (absent : c.cache.lookup[canonicalKey names]? = none)
      (resolved : directory.resolve (canonicalNames names) = .ok sources) :
      AfterGet c now names directory
        ((c.missed.enter now (canonicalKey names) sources).2.requestBuild now
          (c.missed.enter now (canonicalKey names) sources).1)

theorem afterGet (c : Collection) (now : Millis) (names : List String) (directory : Directory) :
    c.AfterGet now names directory (c.get now names directory).2 := by
  unfold get
  dsimp only
  split
  next entry found =>
    split
    next built => exact .hit found (by simp [Entry.isBuilt, built])
    next queued stage =>
      cases queued with
      | true => exact .queued found stage
      | false => exact .waits found stage
  next absent =>
    split
    next fails => exact .unresolved absent fails
    next resolved => exact .enters absent resolved

theorem lookup_enter (c : Collection) (now : Millis) (key : String) (sources : List Source) :
    (c.enter now key sources).2.cache.lookup[key]? =
      some { item := (c.enter now key sources).1, created := now } :=
  (c.getElem?_enter now key sources key).trans (if_pos rfl)

theorem awaits_enter (c : Collection) (now : Millis) (key : String) (sources : List Source) :
    (c.enter now key sources).2.cache.Awaits (c.enter now key sources).1 :=
  ⟨_, c.lookup_enter now key sources, rfl, rfl⟩

theorem becomes_get (coherent : c.Coherent) (now : Millis) (names : List String)
    {directory : Directory}
    (known : ∀ source : Source, directory[source.name]? = some source.index →
      c.catalog.Knows source) :
    c.Becomes (c.get now names directory).2 := by
  have missed : c.Becomes c.missed := becomes_count coherent _
  have step := c.afterGet now names directory
  generalize (c.get now names directory).2 = c' at step ⊢
  cases step with
  | hit found built =>
      have touched := becomes_touch coherent found built now
      exact touched.trans (becomes_count touched.coherent _)
  | queued => exact missed
  | waits found waiting =>
      have awaits := Cache.awaits_of_found found (coherent.keyed _ _ found) waiting
      exact missed.trans (becomes_requestBuild missed.coherent awaits now)
  | unresolved => exact missed
  | enters absent resolved =>
      have entered := becomes_enterResolved missed.coherent absent resolved known now
      have built := becomes_requestBuild entered.coherent (awaits_enter ..) now
      exact (missed.trans entered).trans built

theorem get_hit {now : Millis} {names : List String} {directory : Directory}
    {index : Handle Index} (hit : (c.get now names directory).1 = .ok (some index)) :
    ∃ entry, c.cache.lookup[canonicalKey names]? = some entry ∧ entry.isBuilt = true ∧
      entry.item.result = index := by
  unfold get at hit
  dsimp only at hit
  split at hit
  next entry found =>
    split at hit
    next built =>
      cases hit
      exact ⟨entry, found, by simp [Entry.isBuilt, built], rfl⟩
    next => cases hit
  next =>
    split at hit
    next => cases hit
    next => cases hit

end Collection

end RankedQuery
