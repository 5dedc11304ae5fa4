import RankedQuery.Proofs.Cache.Following
import RankedQuery.Proofs.Cache.Keys
import RankedQuery.Proofs.Cache.Removal

/-!
# Coherence of the cache

A coherent cache has, behind each built entry, an intersection of indexes that
are registered now, and the result of the entry holds what they all hold.  What
makes single changes reach every such result is that the routing has exactly the
built entries.  Every operation of a collection leads from a coherent collection
to a coherent one, and an entry that is built stays built while it is there.
-/

namespace RankedQuery

namespace Intersection

structure Sound (item : Intersection) (c : Catalog) : Prop where
  known : ∀ source ∈ item.sources, c.Knows source
  hidden : c.Hides item.result
  key : item.key = canonicalKey (item.sources.map (·.name))

/-- The sources are registered and not retired, and the result holds what they
all hold. -/
structure Current (item : Intersection) (c : Catalog) : Prop where
  registered : ∀ source ∈ item.sources, c.directory[source.name]? = some source.index
  live : ∀ source ∈ item.sources, (c.indexes.read source.index).retired = false
  members : item.sources ≠ [] →
    ∀ id, c.holds item.result id = c.allHold item.sources id

theorem Sound.after {item : Intersection} {c c' : Catalog} (sound : item.Sound c)
    (becomes : c.Becomes c') : item.Sound c' where
  known source inside := becomes.knows source (sound.known source inside)
  hidden := becomes.hides _ sound.hidden
  key := sound.key

theorem Current.after {item : Intersection} {c c' : Catalog} (current : item.Current c)
    (registered : ∀ source ∈ item.sources, c'.directory[source.name]? = some source.index)
    (live : ∀ source ∈ item.sources, (c'.indexes.read source.index).retired = false)
    (result : ∀ id, c'.holds item.result id = c.holds item.result id)
    (sources : ∀ source ∈ item.sources, ∀ id,
      c'.holds source.index id = c.holds source.index id) :
    item.Current c' where
  registered := registered
  live := live
  members any id := by
    rw [result, current.members any]
    exact (Catalog.allHold_congr fun source inside => sources source inside id).symm

end Intersection

namespace Collection

structure Coherent (c : Collection) : Prop where
  catalog : c.catalog.Sound
  keyed : ∀ (key : String) (entry : Entry), c.cache.lookup[key]? = some entry →
    entry.item.key = key
  sound : ∀ (key : String) (entry : Entry), c.cache.lookup[key]? = some entry →
    entry.item.Sound c.catalog
  /-- No two entries share a result. -/
  alone : ∀ (key key' : String) (entry entry' : Entry),
    c.cache.lookup[key]? = some entry → c.cache.lookup[key']? = some entry' →
      entry.item.result = entry'.item.result → key = key'
  /-- The routing has exactly the built entries. -/
  routed : ∀ (source key : String) (item : Intersection),
    c.cache.routing.lookup? source key = some item ↔
      item.IsOver source ∧ ∃ entry, c.cache.lookup[key]? = some entry ∧
        entry.item = item ∧ entry.isBuilt = true
  current : ∀ (key : String) (entry : Entry), c.cache.lookup[key]? = some entry →
    entry.isBuilt = true → entry.item.Current c.catalog

/-- The second collection is coherent and may have come from the first: its
entries were there before, and then they are still built if they were, or have
new results. -/
structure Becomes (c c' : Collection) : Prop where
  coherent : c'.Coherent
  catalog : c.catalog.Becomes c'.catalog
  entries : ∀ (key : String) (entry' : Entry), c'.cache.lookup[key]? = some entry' →
    (∃ entry, c.cache.lookup[key]? = some entry ∧ entry.item = entry'.item ∧
      (entry.isBuilt = true → entry'.isBuilt = true)) ∨
    ¬ c.catalog.indexes.Has entry'.item.result

namespace Becomes

variable {c c' c'' : Collection}

theorem refl (coherent : c.Coherent) : c.Becomes c :=
  ⟨coherent, .refl _, fun _ entry found => .inl ⟨entry, found, rfl, id⟩⟩

theorem trans (first : c.Becomes c') (second : c'.Becomes c'') : c.Becomes c'' where
  coherent := second.coherent
  catalog := first.catalog.trans second.catalog
  entries key entry'' found'' := by
    rcases second.entries key entry'' found'' with ⟨entry', found', same', built'⟩ | fresh
    · rcases first.entries key entry' found' with ⟨entry, found, same, built⟩ | fresh
      · exact .inl ⟨entry, found, same.trans same', fun given => built' (built given)⟩
      · rw [same'] at fresh
        exact .inr fresh
    · exact .inr fun given => fresh (first.catalog.has _ given)

end Becomes

/-! ## Changes of one side -/

section Sides

variable {c : Collection}

theorem becomes_catalog (coherent : c.Coherent) {catalog : Catalog}
    (becomes : c.catalog.Becomes catalog)
    (current : ∀ (key : String) (entry : Entry), c.cache.lookup[key]? = some entry →
      entry.isBuilt = true → entry.item.Current catalog) :
    c.Becomes { c with catalog } where
  coherent :=
    { catalog := becomes.sound coherent.catalog
      keyed := coherent.keyed
      sound key entry found := (coherent.sound key entry found).after becomes
      alone := coherent.alone
      routed := coherent.routed
      current }
  catalog := becomes
  entries _ entry found := .inl ⟨entry, found, rfl, id⟩

theorem becomes_sameViews (coherent : c.Coherent) {cache : Cache}
    (lookup : cache.lookup = c.cache.lookup)
    (routing : ∀ source key,
      cache.routing.lookup? source key = c.cache.routing.lookup? source key) :
    c.Becomes { c with cache } where
  coherent := by
    constructor
    · exact coherent.catalog
    · rw [lookup]
      exact coherent.keyed
    · rw [lookup]
      exact coherent.sound
    · rw [lookup]
      exact coherent.alone
    · intro source key item
      rw [lookup, routing]
      exact coherent.routed source key item
    · rw [lookup]
      exact coherent.current
  catalog := .refl _
  entries key entry found := by
    rw [lookup] at found
    exact .inl ⟨entry, found, rfl, id⟩

end Sides

/-! ## Removals -/

section Removals

variable {c : Collection}

theorem becomes_evict (coherent : c.Coherent) (item : Intersection) :
    c.Becomes (c.onCache (·.evict item)) where
  coherent := by
    have kept : ∀ {key : String} {entry : Entry},
        (c.cache.evict item).lookup[key]? = some entry → c.cache.lookup[key]? = some entry :=
      fun found => ((c.cache.getElem?_evict item).mp found).1
    refine ⟨coherent.catalog, fun key entry found => coherent.keyed key entry (kept found),
      fun key entry found => coherent.sound key entry (kept found),
      fun key key' entry entry' found found' =>
        coherent.alone key key' entry entry' (kept found) (kept found'), ?_,
      fun key entry found => coherent.current key entry (kept found)⟩
    intro source key other
    simp only [onCache, Cache.routing_evict, Routing.lookup?_unregister]
    constructor
    · intro routed
      split at routed
      next => cases routed
      next stays =>
        obtain ⟨isOver, entry, found, same, built⟩ :=
          (coherent.routed source key other).mp routed
        refine ⟨isOver, entry, (c.cache.getElem?_evict item).mpr ⟨found, ?_⟩, same, built⟩
        rintro ⟨here, evicted⟩
        obtain rfl : other = item := same.symm.trans evicted
        exact stays ⟨isOver, here, routed⟩
    · rintro ⟨isOver, entry, found, same, built⟩
      obtain ⟨found, stays⟩ := (c.cache.getElem?_evict item).mp found
      have routed := (coherent.routed source key other).mpr ⟨isOver, entry, found, same, built⟩
      rw [if_neg ?_]
      · exact routed
      · rintro ⟨-, here, evicted⟩
        rw [routed, Option.some.injEq] at evicted
        exact stays ⟨here, same.trans evicted⟩
  catalog := .refl _
  entries key entry found :=
    .inl ⟨entry, ((c.cache.getElem?_evict item).mp found).1, rfl, id⟩

theorem becomes_discard (coherent : c.Coherent) (item : Intersection) :
    c.Becomes (c.onCache (·.discard item)) := by
  have untracked : c.Becomes (c.onCache fun cache =>
      { cache with recency := cache.recency.filter (· ≠ item) }) :=
    becomes_sameViews coherent rfl fun _ _ => rfl
  exact untracked.trans (becomes_evict untracked.coherent item)

theorem becomes_discardAll (coherent : c.Coherent) (items : List Intersection) :
    c.Becomes (c.onCache (·.discardAll items)) := by
  induction items generalizing c with
  | nil => exact .refl coherent
  | cons first items ih =>
      have once := becomes_discard coherent first
      exact once.trans (ih once.coherent)

theorem becomes_invalidate (coherent : c.Coherent) (source : String) :
    c.Becomes (c.invalidate source).2 :=
  becomes_discardAll coherent _

theorem becomes_count (coherent : c.Coherent) (change : Counters → Counters) :
    c.Becomes (c.count change) :=
  becomes_sameViews coherent rfl fun _ _ => rfl

theorem becomes_shutdown (coherent : c.Coherent) : c.Becomes c.shutdown :=
  becomes_sameViews coherent rfl fun _ _ => rfl

theorem becomes_sweepBuilt (coherent : c.Coherent) (cutoff : Millis)
    (cold kept : List Intersection) (room : Nat) :
    c.Becomes (c.onCache fun cache => (cache.sweepBuilt cutoff cold kept room).2) := by
  induction cold generalizing kept room c with
  | nil => exact becomes_sameViews coherent rfl fun _ _ => rfl
  | cons item cold ih =>
      cases room with
      | zero => exact becomes_sameViews coherent rfl fun _ _ => rfl
      | succ room =>
          show c.Becomes
            { c with cache := (c.cache.sweepBuilt cutoff (item :: cold) kept (room + 1)).2 }
          unfold Cache.sweepBuilt
          split
          next => exact ih coherent kept (room + 1)
          next entry found =>
            split
            next => exact ih coherent kept (room + 1)
            next =>
              split
              next =>
                have once := becomes_evict coherent item
                exact once.trans (ih once.coherent kept room)
              next => exact ih coherent (kept ++ [item]) (room + 1)

theorem becomes_sweepAbandoned (coherent : c.Coherent) (cutoff : Millis) (room : Nat) :
    c.Becomes (c.onCache fun cache => (cache.sweepAbandoned cutoff room).2) :=
  becomes_discardAll coherent _

theorem becomes_sweep (coherent : c.Coherent) (now : Millis) :
    c.Becomes (c.sweep now).2 := by
  have stale := becomes_sweepBuilt coherent (c.cache.cutoff now) c.cache.recency []
    c.cache.sweepLimit
  unfold sweep Cache.sweep
  dsimp only
  simp only [onCache] at stale
  generalize c.cache.sweepBuilt (c.cache.cutoff now) c.cache.recency []
    c.cache.sweepLimit = swept at stale ⊢
  have abandoned := becomes_sweepAbandoned stale.coherent (c.cache.cutoff now)
    (swept.2.sweepLimit - swept.1)
  exact (stale.trans abandoned).trans (becomes_sameViews abandoned.coherent rfl fun _ _ => rfl)

end Removals

/-! ## Changes of members -/

section Members

variable {c : Collection} {name : String} {index : Handle Index} {id : DocId} {added : Bool}

theorem mem_items (coherent : c.Coherent) {item : Intersection} :
    item ∈ c.cache.routing.items name ↔
      item.IsOver name ∧ ∃ (key : String) (entry : Entry),
        c.cache.lookup[key]? = some entry ∧ entry.item = item ∧ entry.isBuilt = true := by
  rw [Routing.mem_items]
  constructor
  · rintro ⟨key, routed⟩
    obtain ⟨isOver, entry, found, same, built⟩ := (coherent.routed name key item).mp routed
    exact ⟨isOver, key, entry, found, same, built⟩
  · rintro ⟨isOver, key, entry, found, same, built⟩
    exact ⟨key, (coherent.routed name key item).mpr ⟨isOver, entry, found, same, built⟩⟩

theorem Coherent.item_eq (coherent : c.Coherent) {key key' : String} {entry entry' : Entry}
    (found : c.cache.lookup[key]? = some entry) (found' : c.cache.lookup[key']? = some entry')
    (same : entry.item.result = entry'.item.result) : entry = entry' := by
  obtain rfl := coherent.alone key key' entry entry' found found' same
  exact Option.some.inj (found.symm.trans found')

private theorem becomes_changed (coherent : c.Coherent) {catalog : Catalog}
    (registered : c.catalog.directory[name]? = some index)
    (same : c.catalog.SameIndexes catalog) (before : c.catalog.holds index id = !added)
    (after : ∀ other x, catalog.holds other x =
      if other = index ∧ x = id then added else c.catalog.holds other x) :
    c.Becomes ({ c with catalog }.changed name id added) := by
  have hidden : ∀ item ∈ c.cache.routing.items name, catalog.Hides item.result := by
    intro item listed
    obtain ⟨-, key, entry, found, rfl, -⟩ := (mem_items coherent).mp listed
    exact same.becomes.hides _ (coherent.sound key entry found).hidden
  have followed : catalog.SameIndexes ({ c with catalog }.changed name id added).catalog :=
    Catalog.sameIndexes_followAll hidden
  show c.Becomes { c with catalog := ({ c with catalog }.changed name id added).catalog }
  refine becomes_catalog coherent (same.trans followed).becomes ?_
  intro key entry found built
  have sound := coherent.sound key entry found
  have current := coherent.current key entry found built
  have listed : entry.item ∈ c.cache.routing.items name ↔ entry.item.IsOver name := by
    rw [mem_items coherent]
    exact ⟨And.left, fun isOver => ⟨isOver, key, entry, found, rfl, built⟩⟩
  -- Routed intersections are built entries, and these do not share results.
  have alone : ∀ other ∈ c.cache.routing.items name,
      other.result = entry.item.result → other = entry.item := by
    intro other inside shared
    obtain ⟨-, key', entry', found', rfl, -⟩ := (mem_items coherent).mp inside
    rw [coherent.item_eq found' found shared]
  have named : ∀ source ∈ entry.item.sources, source.name = name → source.index = index := by
    intro source inside here
    have placed := current.registered source inside
    rw [here, registered] at placed
    exact (Option.some.inj placed).symm
  constructor
  · intro source inside
    rw [(same.trans followed).directory]
    exact current.registered source inside
  · intro source inside
    rw [(same.trans followed).retired]
    exact current.live source inside
  · intro any
    exact Catalog.members_followAll (coherent.catalog.known ⟨name, index⟩ registered) same
      before after hidden sound.hidden sound.known named alone listed (current.members any)

theorem becomes_addTo (coherent : c.Coherent)
    (registered : c.catalog.directory[name]? = some index) (id : DocId) :
    c.Becomes (c.addTo name index id).2 := by
  have has := (coherent.catalog.known ⟨name, index⟩ registered).has
  unfold addTo
  split
  next => exact .refl coherent
  next absent =>
    refine becomes_changed coherent registered
      (Catalog.sameIndexes_updateIndex has (fun _ => rfl) (fun _ => rfl))
      (by simpa using absent) (Catalog.holds_add has id)

theorem becomes_removeFrom (coherent : c.Coherent)
    (registered : c.catalog.directory[name]? = some index) (id : DocId) :
    c.Becomes (c.removeFrom name index id).2 := by
  have has := (coherent.catalog.known ⟨name, index⟩ registered).has
  unfold removeFrom
  split
  next present =>
    refine becomes_changed coherent registered
      (Catalog.sameIndexes_updateIndex has (fun _ => rfl) (fun _ => rfl))
      (by simpa using present) (Catalog.holds_remove has id)
  next => exact .refl coherent

end Members

/-! ## Names and sorts -/

section Names

variable {c : Collection} (coherent : c.Coherent)

include coherent

theorem becomes_createIndex (name : String) : c.Becomes (c.createIndex name).2 := by
  show c.Becomes { c with catalog := (c.catalog.createIndex name).2 }
  refine becomes_catalog coherent (c.catalog.becomes_createIndex name) ?_
  intro key entry found built
  have sound := coherent.sound key entry found
  have current := coherent.current key entry found built
  refine current.after ?_ ?_ (c.catalog.holds_createIndex name sound.hidden.has)
    fun source inside => c.catalog.holds_createIndex name (sound.known source inside).has
  · intro source inside
    exact c.catalog.registered_createIndex name (current.registered source inside)
  · intro source inside
    rw [c.catalog.read_createIndex name (sound.known source inside).has]
    exact current.live source inside

private theorem becomes_dropName {name : String}
    (unused : ∀ (key : String) (entry : Entry), c.cache.lookup[key]? = some entry →
      ¬ entry.item.IsOver name) :
    c.Becomes { c with catalog := (c.catalog.dropIndex name).2 } := by
  refine becomes_catalog coherent (c.catalog.becomes_dropIndex name) ?_
  intro key entry found built
  have sound := coherent.sound key entry found
  have current := coherent.current key entry found built
  have apart : ∀ source ∈ entry.item.sources, source.name ≠ name :=
    fun source inside here => unused key entry found ⟨source, inside, here⟩
  refine current.after ?_ ?_ (c.catalog.holds_dropIndex name sound.hidden.has)
    fun source inside => c.catalog.holds_dropIndex name (sound.known source inside).has
  · intro source inside
    rw [c.catalog.directory_dropIndex, if_neg (apart source inside)]
    exact current.registered source inside
  · intro source inside
    rw [c.catalog.read_dropIndex name (sound.known source inside).has, if_neg ?_]
    · exact current.live source inside
    · intro dropped
      have known := coherent.catalog.known ⟨name, source.index⟩ dropped
      exact (sound.known source inside).index_ne known (apart source inside) rfl

theorem becomes_dropIndex {name : String} {c' : Collection} (drops : c.dropIndex name = .ok c') :
    c.Becomes c' := by
  have invalidated := becomes_invalidate coherent name
  have dropped := becomes_dropName invalidated.coherent fun key entry found => by
    have keyed := invalidated.coherent.keyed key entry found
    exact ((c.cache.getElem?_invalidate name keyed).mp found).2
  unfold dropIndex at drops
  split at drops
  next => cases drops
  next index catalog unregistered =>
    cases drops
    have same : (c.catalog.dropIndex name).2 = catalog := by rw [unregistered]
    rw [← same]
    exact invalidated.trans dropped

theorem becomes_sameIndexes {catalog : Catalog} (indexes : catalog.indexes = c.catalog.indexes)
    (directory : catalog.directory = c.catalog.directory) :
    c.Becomes { c with catalog } := by
  have same : c.catalog.SameIndexes catalog := by
    constructor
    · intro index
      rw [indexes]
    · intro index
      rw [indexes]
    · intro index
      rw [indexes]
    · exact directory
  have holds : ∀ index id, catalog.holds index id = c.catalog.holds index id := by
    intro index id
    rw [Catalog.holds, indexes, Catalog.holds]
  refine becomes_catalog coherent same.becomes fun key entry found built => ?_
  have current := coherent.current key entry found built
  refine current.after ?_ ?_ (holds _) fun source _ => holds source.index
  · rw [directory]
    exact current.registered
  · rw [indexes]
    exact current.live

theorem becomes_createSort (name : String) : c.Becomes (c.createSort name).2 := by
  show c.Becomes { c with catalog := (c.catalog.createSort name).2 }
  unfold Catalog.createSort
  split
  next => exact .refl coherent
  next => exact becomes_sameIndexes coherent rfl rfl

theorem becomes_loadStaticSort (name : String) (ids : List DocId) :
    c.Becomes (c.loadStaticSort name ids).2 :=
  becomes_sameIndexes coherent rfl rfl

theorem becomes_putSort (sort : Handle Ranking) (ranking : Ranking) :
    c.Becomes (c.putSort sort ranking) :=
  becomes_sameIndexes coherent rfl rfl

theorem becomes_removeFromSort (sort : Handle Ranking) (id : DocId) :
    c.Becomes (c.removeFromSort sort id) := by
  unfold removeFromSort
  split
  next => exact becomes_putSort coherent sort _
  next => exact .refl coherent

end Names

/-! ## Whole documents -/

section Documents

variable {c : Collection}

theorem catalog_removeFrom (c : Collection) (name : String) (index : Handle Index)
    (id : DocId) :
    (c.removeFrom name index id).2.catalog =
      { c.catalog with indexes := (c.removeFrom name index id).2.catalog.indexes } := by
  have followed : ∀ (items : List Intersection) (catalog : Catalog),
      items.foldl (fun catalog item => catalog.follow name id false item) catalog =
        { catalog with indexes := (items.foldl
          (fun catalog item => catalog.follow name id false item) catalog).indexes } := by
    intro items
    induction items with
    | nil => exact fun _ => rfl
    | cons first items ih => exact fun catalog => ih _
  unfold removeFrom
  split
  · exact followed _ _
  · rfl

theorem directory_removeFrom (c : Collection) (name : String) (index : Handle Index)
    (id : DocId) : (c.removeFrom name index id).2.catalog.directory = c.catalog.directory := by
  rw [catalog_removeFrom]

private theorem becomes_removeFromAll (coherent : c.Coherent) (id : DocId)
    {named : List (String × Handle Index)}
    (registered : ∀ pair ∈ named, c.catalog.directory[pair.1]? = some pair.2) :
    c.Becomes (named.foldl (fun c (name, index) => (c.removeFrom name index id).2) c) := by
  induction named generalizing c with
  | nil => exact .refl coherent
  | cons first named ih =>
      have once := becomes_removeFrom coherent (registered first List.mem_cons_self) id
      refine once.trans (ih once.coherent fun pair inside => ?_)
      rw [directory_removeFrom]
      exact registered pair (List.mem_cons_of_mem _ inside)

theorem becomes_removeDocument (coherent : c.Coherent) (id : DocId) :
    c.Becomes (c.removeDocument id) := by
  have indexes := becomes_removeFromAll coherent id fun pair inside =>
    Std.ExtTreeMap.mem_toList_iff_getElem?_eq_some.mp inside
  have sorts : ∀ (handles : List (Handle Ranking)) (c : Collection), c.Coherent →
      c.Becomes (handles.foldl (fun c sort => c.removeFromSort sort id) c) := by
    intro handles
    induction handles with
    | nil => exact fun _ coherent => .refl coherent
    | cons first handles ih =>
        intro c coherent
        have once := becomes_removeFromSort coherent first id
        exact once.trans (ih _ once.coherent)
  exact indexes.trans (sorts _ _ indexes.coherent)

end Documents

/-! ## The empty collection -/

theorem coherent_ofConfig (config : Config) : (ofConfig config).Coherent := by
  have absent : ∀ (key : String) (entry : Entry),
      (ofConfig config).cache.lookup[key]? ≠ some entry := by
    intro key entry
    simp [ofConfig, Cache.ofConfig]
  have unnamed : ∀ source : Source,
      (ofConfig config).catalog.directory[source.name]? ≠ some source.index := by
    intro source
    simp [ofConfig]
  constructor
  · constructor
    · exact fun source registered => absurd registered (unnamed source)
    · exact fun source registered => absurd registered (unnamed source)
  · exact fun key entry found => absurd found (absent key entry)
  · exact fun key entry found => absurd found (absent key entry)
  · exact fun key _ entry _ found => absurd found (absent key entry)
  · intro source key item
    constructor
    · intro routed
      rw [show (ofConfig config).cache.routing.lookup? source key = none from
        Routing.lookup?_empty source key] at routed
      cases routed
    · rintro ⟨-, entry, found, -⟩
      exact absurd found (absent key entry)
  · exact fun key entry found => absurd found (absent key entry)

end Collection

end RankedQuery
