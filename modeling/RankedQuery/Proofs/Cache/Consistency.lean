import Mathlib.Data.List.Nodup
import Mathlib.Data.List.Perm.Subperm
import RankedQuery.Proofs.Cache.Building

/-!
# Consistency of the three views

The lookup, the routing and the recency list of a cache hold the same built
intersections.  Each operation changes the three in its own order; here each is
shown to leave them in agreement, whatever the catalog looks like.
-/

namespace RankedQuery

/-! ## Buckets -/

namespace Routing

def Filled (r : Routing) : Prop :=
  ∀ (source : String) (bucket : Bucket),
    r.bucket? source = some bucket → bucket.isEmpty = false

theorem Filled.registerAt {r : Routing} (filled : r.Filled) (name : String)
    (item : Intersection) : (r.registerAt name item).Filled := by
  intro source bucket found
  simp only [Routing.registerAt, bucket?, Std.ExtTreeMap.getElem?_insert,
    Std.LawfulEqCmp.compare_eq_iff_eq] at found
  split at found
  next =>
    cases found
    simp
  next => exact filled source bucket found

theorem Filled.unregisterAt {r : Routing} (filled : r.Filled) (name : String)
    (item : Intersection) : (r.unregisterAt name item).Filled := by
  unfold Routing.unregisterAt
  split
  next => exact filled
  next held _ =>
    dsimp only
    generalize (if held[item.key]? = some item then held.erase item.key else held) = rest
    intro source bucket found
    split at found
    next =>
      simp only [bucket?, Std.ExtTreeMap.getElem?_erase] at found
      split at found
      next => cases found
      next => exact filled source bucket found
    next some =>
      simp only [bucket?, Std.ExtTreeMap.getElem?_insert] at found
      split at found
      next =>
        cases found
        simpa using some
      next => exact filled source bucket found

theorem Filled.register {r : Routing} (filled : r.Filled) (item : Intersection) :
    (r.register item).Filled := by
  unfold Routing.register
  induction item.sources generalizing r with
  | nil => exact filled
  | cons first sources ih => exact ih (filled.registerAt first.name item)

theorem Filled.unregister {r : Routing} (filled : r.Filled) (item : Intersection) :
    (r.unregister item).Filled := by
  unfold Routing.unregister
  induction item.sources generalizing r with
  | nil => exact filled
  | cons first sources ih => exact ih (filled.unregisterAt first.name item)

end Routing

namespace Cache

/-! ## Agreement -/

def HasBuilt (c : Cache) (item : Intersection) : Prop :=
  ∃ entry, c.lookup[item.key]? = some entry ∧ entry.item = item ∧ entry.isBuilt = true

structure Consistent (c : Cache) : Prop where
  keyed : ∀ (key : String) (entry : Entry), c.lookup[key]? = some entry →
    entry.item.key = key
  canonical : ∀ (key : String) (entry : Entry), c.lookup[key]? = some entry →
    key = canonicalKey (entry.item.sources.map (·.name))
  nodup : c.recency.Nodup
  tracked : ∀ item, item ∈ c.recency ↔ c.HasBuilt item
  routed : ∀ source key item, c.routing.lookup? source key = some item ↔
    item.IsOver source ∧ item.key = key ∧ c.HasBuilt item
  filled : c.routing.Filled

namespace Consistent

variable {c : Cache} (consistent : c.Consistent)

include consistent

theorem mem_items {name : String} {item : Intersection} :
    item ∈ c.routing.items name ↔ item.IsOver name ∧ c.HasBuilt item := by
  rw [Routing.mem_items]
  constructor
  · rintro ⟨key, routed⟩
    obtain ⟨isOver, -, built⟩ := (consistent.routed name key item).mp routed
    exact ⟨isOver, built⟩
  · rintro ⟨isOver, built⟩
    exact ⟨item.key, (consistent.routed name item.key item).mpr ⟨isOver, rfl, built⟩⟩

theorem nodup_items (name : String) : (c.routing.items name).Nodup := by
  unfold Routing.items
  split
  next bucket found =>
    have keyed : ∀ pair ∈ bucket.toList, pair.2.key = pair.1 := by
      intro pair listed
      have held := Std.ExtTreeMap.mem_toList_iff_getElem?_eq_some.mp listed
      refine ((consistent.routed name pair.1 pair.2).mp ?_).2.1
      simp only [Routing.lookup?, found, Option.bind_some, held]
    rw [values_eq]
    refine List.Nodup.map_on (fun a inside b inside' same => ?_) (nodup_toList bucket)
    refine Prod.ext ?_ same
    rw [← keyed a inside, ← keyed b inside', same]
  next => exact List.nodup_nil

theorem length_recency_le : c.recency.length ≤ c.lookup.size := by
  have distinct : (c.recency.map (·.key)).Nodup := by
    refine List.Nodup.map_on (fun a inside b inside' same => ?_) consistent.nodup
    obtain ⟨entry, found, rfl, -⟩ := (consistent.tracked a).mp inside
    obtain ⟨entry', found', rfl, -⟩ := (consistent.tracked b).mp inside'
    rw [← same, found, Option.some.injEq] at found'
    rw [found']
  have listed : c.recency.map (·.key) ⊆ c.lookup.keys := by
    intro key inside
    obtain ⟨item, tracked, rfl⟩ := List.mem_map.mp inside
    obtain ⟨entry, found, -⟩ := (consistent.tracked item).mp tracked
    rw [Std.ExtTreeMap.mem_keys, Std.ExtTreeMap.mem_iff_isSome_getElem?, found]
    rfl
  have short := (distinct.subperm listed).length_le
  rwa [List.length_map, Std.ExtTreeMap.length_keys] at short

theorem perm {recency : List Intersection} (perm : recency.Perm c.recency) :
    { c with recency }.Consistent where
  keyed := consistent.keyed
  canonical := consistent.canonical
  nodup := perm.nodup_iff.mpr consistent.nodup
  tracked _ := perm.mem_iff.trans (consistent.tracked _)
  routed := consistent.routed
  filled := consistent.filled

end Consistent

theorem consistent_empty (c : Cache) (lookup : c.lookup = ∅) (routing : c.routing = {})
    (recency : c.recency = []) : c.Consistent := by
  have none : ∀ item, ¬ c.HasBuilt item := by
    rintro item ⟨entry, found, -⟩
    simp [lookup] at found
  constructor
  · simp [lookup]
  · simp [lookup]
  · simp [recency]
  · simp [recency, none]
  · simp [routing, none]
  · simp [Routing.Filled, Routing.bucket?, routing]

theorem Consistent.of_sameViews {c c' : Cache} (consistent : c.Consistent)
    (lookup : c'.lookup = c.lookup) (routing : c'.routing = c.routing)
    (recency : c'.recency = c.recency) : c'.Consistent := by
  have built : ∀ item, c'.HasBuilt item ↔ c.HasBuilt item := by
    intro item
    rw [HasBuilt, lookup, HasBuilt]
  constructor
  · rw [lookup]
    exact consistent.keyed
  · rw [lookup]
    exact consistent.canonical
  · rw [recency]
    exact consistent.nodup
  · simpa only [recency, built] using consistent.tracked
  · simpa only [routing, built] using consistent.routed
  · rw [routing]
    exact consistent.filled

/-! ## Removals -/

section Removals

variable {c : Cache}

theorem hasBuilt_evict (c : Cache) (item : Intersection) {other : Intersection} :
    (c.evict item).HasBuilt other ↔ c.HasBuilt other ∧ other ≠ item := by
  unfold HasBuilt
  simp only [getElem?_evict]
  constructor
  · rintro ⟨entry, ⟨found, stays⟩, rfl, built⟩
    exact ⟨⟨entry, found, rfl, built⟩, fun evicted => stays ⟨evicted ▸ rfl, evicted⟩⟩
  · rintro ⟨⟨entry, found, rfl, built⟩, apart⟩
    exact ⟨entry, ⟨found, fun evicted => apart evicted.2⟩, rfl, built⟩

theorem consistent_discard (consistent : c.Consistent) (item : Intersection) :
    (c.discard item).Consistent where
  keyed key entry found := consistent.keyed key entry ((c.getElem?_discard item).mp found).1
  canonical key entry found :=
    consistent.canonical key entry ((c.getElem?_discard item).mp found).1
  nodup := consistent.nodup.filter _
  tracked other := by
    refine Iff.trans ?_ (hasBuilt_evict c item).symm
    rw [← consistent.tracked]
    exact List.mem_filter.trans (and_congr_right fun _ => decide_eq_true_iff)
  routed source key other := by
    show (c.routing.unregister item).lookup? source key = some other ↔
      other.IsOver source ∧ other.key = key ∧ (c.evict item).HasBuilt other
    have routed := consistent.routed source key other
    rw [Routing.lookup?_unregister, hasBuilt_evict]
    by_cases same : other = item
    · subst same
      simp only [routed, ne_eq, not_true_eq_false, and_false, iff_false]
      split
      next => simp
      next stays =>
        intro held
        exact stays ⟨(routed.mp held).1, (routed.mp held).2.1, held⟩
    · split
      next elsewhere =>
        have apart : c.routing.lookup? source key ≠ some other := by
          rw [elsewhere.2.2]
          exact fun shared => same (Option.some.inj shared).symm
        simpa [same] using fun isOver here held => apart (routed.mpr ⟨isOver, here, held⟩)
      next => simp [routed, same]
  filled := consistent.filled.unregister item

theorem consistent_discardAll (consistent : c.Consistent) (items : List Intersection) :
    (c.discardAll items).Consistent := by
  induction items generalizing c with
  | nil => exact consistent
  | cons first items ih => exact ih (consistent_discard consistent first)

/-- The coldest intersection leaves the recency list before it leaves the rest. -/
theorem consistent_evict_first {item : Intersection} {rest : List Intersection}
    (consistent : { c with recency := item :: rest }.Consistent) :
    { c.evict item with recency := rest }.Consistent := by
  have removed : (item :: rest).filter (· ≠ item) = rest := by
    obtain ⟨absent, -⟩ := List.nodup_cons.mp consistent.nodup
    rw [List.filter_cons_of_neg (by simp), List.filter_eq_self]
    intro other inside
    simpa using fun same : other = item => absent (same ▸ inside)
  have discarded := consistent_discard consistent item
  unfold discard at discarded
  rw [removed] at discarded
  exact discarded

theorem consistent_keep_first {item : Intersection} {cold kept : List Intersection}
    (consistent : { c with recency := item :: cold ++ kept }.Consistent) :
    { c with recency := cold ++ (kept ++ [item]) }.Consistent := by
  have moved : (cold ++ (kept ++ [item])).Perm (item :: cold ++ kept) := by
    rw [← List.append_assoc]
    exact List.perm_append_singleton item (cold ++ kept)
  exact consistent.perm moved

theorem consistent_sweepBuilt (cutoff : Millis) {cold kept : List Intersection}
    (consistent : { c with recency := cold ++ kept }.Consistent) (room : Nat) :
    (c.sweepBuilt cutoff cold kept room).2.Consistent := by
  -- At every step, what is still to be gone through and what was kept make up the list.
  induction cold generalizing kept room c with
  | nil => exact consistent
  | cons item cold ih =>
      cases room with
      | zero => exact consistent
      | succ room =>
          obtain ⟨entry, found, same, -⟩ :=
            (consistent.tracked item).mp (List.mem_append_left _ List.mem_cons_self)
          have found : c.lookup[item.key]? = some entry := found
          simp only [sweepBuilt, found, same, ne_eq, not_true_eq_false, if_false]
          split
          next => exact ih (consistent_evict_first consistent) room
          next => exact ih (consistent_keep_first consistent) (room + 1)

theorem consistent_sweep (consistent : c.Consistent) (now : Millis) :
    (c.sweep now).2.Consistent := by
  have whole : { c with recency := c.recency ++ [] }.Consistent := by simpa using consistent
  have swept := consistent_sweepBuilt (c.cutoff now) whole c.sweepLimit
  unfold sweep
  dsimp only
  generalize c.sweepBuilt (c.cutoff now) c.recency [] c.sweepLimit = stale at swept ⊢
  exact (consistent_discardAll swept _).of_sameViews rfl rfl rfl

end Removals

/-! ## Entries -/

section Entries

variable {c : Cache}

theorem consistent_enter (consistent : c.Consistent) {item : Intersection}
    (absent : c.lookup[item.key]? = none)
    (canonical : item.key = canonicalKey (item.sources.map (·.name))) (now : Millis) :
    (c.enter now item).Consistent := by
  have lookup : ∀ key : String, (c.enter now item).lookup[key]? =
      if item.key = key then some { item, created := now } else c.lookup[key]? := by
    intro key
    rw [enter, Std.ExtTreeMap.getElem?_insert]
    simp only [Std.LawfulEqCmp.compare_eq_iff_eq]
  have built : ∀ other, (c.enter now item).HasBuilt other ↔ c.HasBuilt other := by
    intro other
    simp only [HasBuilt, lookup]
    split
    next here => simp [← here, absent, Entry.isBuilt]
    next => rfl
  constructor
  · intro key entry found
    rw [lookup] at found
    split at found
    next here =>
      cases found
      exact here
    next => exact consistent.keyed key entry found
  · intro key entry found
    rw [lookup] at found
    split at found
    next here =>
      cases found
      rw [← here]
      exact canonical
    next => exact consistent.canonical key entry found
  · exact consistent.nodup
  · intro other
    exact (consistent.tracked other).trans (built other).symm
  · intro source key other
    rw [built]
    exact consistent.routed source key other
  · exact consistent.filled

theorem hasBuilt_setStage {key : String} {entry : Entry} (found : c.lookup[key]? = some entry)
    (keyed : entry.item.key = key) (now : Millis) {item : Intersection} :
    (c.setStage key (.built now)).HasBuilt item ↔ item = entry.item ∨ c.HasBuilt item := by
  simp only [HasBuilt, getElem?_setStage]
  by_cases here : key = item.key
  · subst here
    simp only [if_true, found, Option.map_some, Option.some.injEq, exists_eq_left', Entry.isBuilt,
      and_true]
    constructor
    · exact fun same => .inl same.symm
    · rintro (same | ⟨same, -⟩)
      · exact same.symm
      · exact same
  · have apart : item ≠ entry.item := fun same => here (same ▸ keyed.symm)
    simp only [here, if_false, apart, false_or]

private theorem keys_setStage (consistent : c.Consistent) {key : String} {stage : Stage}
    {other : String} {entry : Entry} (found : (c.setStage key stage).lookup[other]? = some entry) :
    entry.item.key = other ∧ other = canonicalKey (entry.item.sources.map (·.name)) := by
  obtain ⟨before, held, same⟩ := item_setStage found
  rw [← same]
  exact ⟨consistent.keyed other before held, consistent.canonical other before held⟩

theorem consistent_touch (consistent : c.Consistent) {key : String} {entry : Entry}
    (found : c.lookup[key]? = some entry) (built : entry.isBuilt = true) (now : Millis) :
    (c.setStage key (.built now)).Consistent := by
  have keyed := consistent.keyed key entry found
  have unchanged : ∀ item, (c.setStage key (.built now)).HasBuilt item ↔ c.HasBuilt item := by
    intro item
    rw [hasBuilt_setStage found keyed]
    refine or_iff_right_of_imp ?_
    rintro rfl
    exact ⟨entry, keyed ▸ found, rfl, built⟩
  constructor
  · exact fun _ _ held => (keys_setStage consistent held).1
  · exact fun _ _ held => (keys_setStage consistent held).2
  · exact consistent.nodup
  · intro item
    exact (consistent.tracked item).trans (unchanged item).symm
  · intro source key' item
    rw [unchanged]
    exact consistent.routed source key' item
  · exact consistent.filled

end Entries

/-! ## Builds -/

section Builds

variable {c : Cache} {key : String} {entry : Entry}

theorem not_hasBuilt_of_waiting (found : c.lookup[key]? = some entry)
    (waiting : entry.isBuilt = false) {item : Intersection} (here : item.key = key) :
    ¬ c.HasBuilt item := by
  rintro ⟨other, held, rfl, built⟩
  rw [here, found, Option.some.injEq] at held
  subst held
  simp [waiting] at built

theorem lookup?_of_waiting (consistent : c.Consistent) (found : c.lookup[key]? = some entry)
    (waiting : entry.isBuilt = false) (source : String) :
    c.routing.lookup? source key = none := by
  cases routed : c.routing.lookup? source key with
  | none => rfl
  | some item =>
      obtain ⟨-, here, built⟩ := (consistent.routed source key item).mp routed
      exact absurd built (not_hasBuilt_of_waiting found waiting here)

/-- A build that fails takes out again what it routed. -/
theorem consistent_failed (consistent : c.Consistent) (found : c.lookup[key]? = some entry)
    (waiting : entry.isBuilt = false) :
    ({ c with routing := c.routing.register entry.item }.discard entry.item).Consistent := by
  have discarded := consistent_discard consistent entry.item
  constructor
  · exact discarded.keyed
  · exact discarded.canonical
  · exact discarded.nodup
  · exact discarded.tracked
  · intro source key' item
    refine Iff.trans ?_ (discarded.routed source key' item)
    show ((c.routing.register entry.item).unregister entry.item).lookup? source key' = some item ↔
      (c.routing.unregister entry.item).lookup? source key' = some item
    rw [Routing.lookup?_unregister, Routing.lookup?_unregister, Routing.lookup?_register]
    by_cases place : entry.item.IsOver source ∧ entry.item.key = key'
    · obtain ⟨isOver, rfl⟩ := place
      have unrouted := lookup?_of_waiting consistent found waiting source
      rw [← consistent.keyed key entry found] at unrouted
      simp [isOver, unrouted]
    · simp [place]
  · exact (consistent.filled.register entry.item).unregister entry.item

private theorem consistent_built (consistent : c.Consistent) (found : c.lookup[key]? = some entry)
    (waiting : entry.isBuilt = false) (now : Millis) {c' : Cache}
    (lookup : c'.lookup = (c.setStage key (.built now)).lookup)
    (routing : c'.routing = c.routing.register entry.item)
    (recency : c'.recency = c.recency ++ [entry.item]) : c'.Consistent := by
  have keyed := consistent.keyed key entry found
  have built : ∀ item, c'.HasBuilt item ↔ item = entry.item ∨ c.HasBuilt item := by
    intro item
    rw [HasBuilt, lookup]
    exact hasBuilt_setStage found keyed now
  constructor
  · intro other held inside
    rw [lookup] at inside
    exact (keys_setStage consistent inside).1
  · intro other held inside
    rw [lookup] at inside
    exact (keys_setStage consistent inside).2
  · rw [recency, List.nodup_append_comm, List.singleton_append, List.nodup_cons]
    refine ⟨fun tracked => ?_, consistent.nodup⟩
    exact not_hasBuilt_of_waiting found waiting keyed ((consistent.tracked _).mp tracked)
  · intro item
    rw [recency, List.mem_append, List.mem_singleton, built, consistent.tracked]
    exact or_comm
  · intro source other item
    rw [routing, Routing.lookup?_register, built]
    by_cases place : entry.item.IsOver source ∧ entry.item.key = other
    · obtain ⟨isOver, rfl⟩ := place
      -- Nothing else was routed under the key, since the entry was not built.
      have unbuilt : item.key = entry.item.key → ¬ c.HasBuilt item :=
        fun here => not_hasBuilt_of_waiting found waiting (here.trans keyed)
      rw [if_pos ⟨isOver, rfl⟩, Option.some.injEq]
      constructor
      · rintro rfl
        exact ⟨isOver, rfl, .inl rfl⟩
      · rintro ⟨-, here, same | held⟩
        · exact same.symm
        · exact absurd held (unbuilt here)
    · rw [if_neg place, consistent.routed]
      refine and_congr_right fun isOver => and_congr_right fun here => ?_
      refine (or_iff_right ?_).symm
      rintro rfl
      exact place ⟨isOver, here⟩
  · rw [routing]
    exact consistent.filled.register entry.item

theorem consistent_completed (consistent : c.Consistent) (found : c.lookup[key]? = some entry)
    (waiting : entry.isBuilt = false) (now : Millis) :
    (({ c with routing := c.routing.register entry.item }.setStage key
      (.built now)).track entry.item).Consistent := by
  have keyed := consistent.keyed key entry found
  have others : c.recency.filter (·.key ≠ entry.item.key) = c.recency := by
    rw [List.filter_eq_self]
    intro item inside
    have unbuilt : item.key = key → ¬ c.HasBuilt item := not_hasBuilt_of_waiting found waiting
    simpa [keyed] using fun here => unbuilt here ((consistent.tracked item).mp inside)
  have live : ({ c with routing := c.routing.register entry.item }.setStage key
      (.built now)).isLive entry.item = true := by
    refine isLive_eq_true.mpr ⟨{ entry with stage := .built now }, ?_, rfl⟩
    rw [getElem?_setStage, if_pos keyed.symm, keyed]
    exact congrArg _ found
  refine consistent_built consistent found waiting now (lookup_track _ _) (routing_track _ _) ?_
  rw [track, if_pos live]
  exact congrArg (· ++ [entry.item]) others

end Builds

end Cache

end RankedQuery
