import RankedQuery.Proofs.Cache.Counting
import RankedQuery.Proofs.Cache.Sweeping

/-!
# The limit of a sweep

A sweep may remove so many entries.  It evicts stale ones first, from the cold end
on, and with what is left of its limit it reaps abandoned ones.  So it removes as
many as there are, or as it may; sweeping again at the same time goes on with the
others until none is left.

An entry with a queued build is not abandoned, however long it waits.
-/

namespace RankedQuery

namespace Entry

/-- What a sweep is to remove. -/
def isOverdue (cutoff : Millis) (e : Entry) : Bool := e.isStale cutoff || e.isAbandoned cutoff

end Entry

namespace Cache

def staleItems (c : Cache) (cutoff : Millis) : List Intersection :=
  c.recency.filter (c.isStale cutoff)

def abandonedItems (c : Cache) (cutoff : Millis) : List Intersection :=
  c.itemsWhere (·.isAbandoned cutoff)

def overdueItems (c : Cache) (cutoff : Millis) : List Intersection :=
  c.itemsWhere (·.isOverdue cutoff)

def sweeps (now : Millis) : (times : Nat) → Cache → Nat × Cache
  | 0, c => (0, c)
  | times + 1, c =>
      let (first, c) := c.sweep now
      let (others, c) := sweeps now times c
      (first + others, c)

def settings (c : Cache) : Millis × Nat := (c.staleness, c.sweepLimit)

theorem settings_discardAll (c : Cache) (items : List Intersection) :
    (c.discardAll items).settings = c.settings := by
  induction items generalizing c with
  | nil => rfl
  | cons first items ih => exact ih (c.discard first)

/-! ## Counting what passes a test -/

section Counting

variable {c c' : Cache}

theorem length_itemsWhere_split (c : Cache) (test part : Entry → Bool) :
    (c.itemsWhere test).length =
      (c.itemsWhere fun e => part e && test e).length +
        (c.itemsWhere fun e => !part e && test e).length := by
  simp only [itemsWhere, List.length_map]
  rw [List.length_eq_length_filter_add part, List.filter_filter, List.filter_filter]

theorem length_itemsWhere_not (c : Cache) (test : Entry → Bool) :
    (c.itemsWhere test).length + (c.itemsWhere fun e => !test e).length = c.size := by
  have whole := c.length_itemsWhere_split (fun _ => true) test
  simp only [Bool.and_true] at whole
  rw [← whole, itemsWhere, List.filter_eq_self.mpr fun _ _ => rfl, List.length_map, values_eq,
    List.length_map, Std.ExtTreeMap.length_toList]
  rfl

theorem perm_itemsWhere (test : Entry → Bool) (consistent : c.Consistent)
    (consistent' : c'.Consistent)
    (same : ∀ (key : String) (entry : Entry), test entry = true →
      (c'.lookup[key]? = some entry ↔ c.lookup[key]? = some entry)) :
    (c'.itemsWhere test).Perm (c.itemsWhere test) := by
  refine (List.perm_ext_iff_of_nodup (consistent'.nodup_itemsWhere test)
    (consistent.nodup_itemsWhere test)).mpr fun item => ?_
  rw [mem_itemsWhere, mem_itemsWhere]
  refine exists_congr fun key => exists_congr fun entry => ?_
  constructor
  · rintro ⟨found, passes, rfl⟩
    exact ⟨(same key entry passes).mp found, passes, rfl⟩
  · rintro ⟨found, passes, rfl⟩
    exact ⟨(same key entry passes).mpr found, passes, rfl⟩

theorem length_overdueItems (cutoff : Millis) (c : Cache) :
    (c.overdueItems cutoff).length =
      (c.itemsWhere (·.isStale cutoff)).length + (c.abandonedItems cutoff).length := by
  have stale : (fun e : Entry => e.isStale cutoff && e.isOverdue cutoff) =
      (·.isStale cutoff) := by
    funext e
    rw [Entry.isOverdue]
    cases e.isStale cutoff <;> rfl
  have abandoned : (fun e : Entry => !e.isStale cutoff && e.isOverdue cutoff) =
      (·.isAbandoned cutoff) := by
    funext e
    simp only [Entry.isOverdue, Entry.isStale, Entry.isAbandoned]
    cases e.isBuilt <;> simp
  rw [overdueItems, length_itemsWhere_split c _ (·.isStale cutoff), stale, abandoned,
    abandonedItems]

end Counting

namespace Consistent

variable {c : Cache} (consistent : c.Consistent)

include consistent

theorem item_mem_itemsWhere {key : String} {entry : Entry}
    (found : c.lookup[key]? = some entry) (test : Entry → Bool) :
    entry.item ∈ c.itemsWhere test ↔ test entry = true := by
  rw [mem_itemsWhere]
  constructor
  · rintro ⟨key', other, found', passes, same⟩
    have sameKey : key' = key := by
      rw [← consistent.keyed key' other found', same, consistent.keyed key entry found]
    rw [sameKey, found, Option.some.injEq] at found'
    rwa [found']
  · exact fun passes => ⟨key, entry, found, passes, rfl⟩

theorem getElem?_discardAll (items : List Intersection) {key : String} {entry : Entry} :
    (c.discardAll items).lookup[key]? = some entry ↔
      c.lookup[key]? = some entry ∧ entry.item ∉ items := by
  constructor
  · intro found
    have held := (sheds_discardAll c items).entries key entry found
    exact (Cache.getElem?_discardAll (consistent.keyed key entry held)).mp found
  · rintro ⟨held, stays⟩
    exact (Cache.getElem?_discardAll (consistent.keyed key entry held)).mpr ⟨held, stays⟩

theorem perm_staleItems (cutoff : Millis) :
    (c.staleItems cutoff).Perm (c.itemsWhere (·.isStale cutoff)) := by
  refine (List.perm_ext_iff_of_nodup (consistent.nodup.filter _)
    (consistent.nodup_itemsWhere _)).mpr fun item => ?_
  rw [List.mem_filter, isStale_eq_true, consistent.tracked, mem_itemsWhere]
  constructor
  · rintro ⟨-, entry, found, same, stale⟩
    exact ⟨item.key, entry, found, stale, same⟩
  · rintro ⟨key, entry, found, stale, rfl⟩
    rw [← consistent.keyed key entry found] at found
    exact ⟨⟨entry, found, rfl, (Bool.and_eq_true_iff.mp stale).1⟩, entry, found, rfl, stale⟩

end Consistent

/-! ## Losing entries -/

/-- The second cache has all entries of the first but those of the listed
intersections, which are all there. -/
structure Loses (c : Cache) (items : List Intersection) (c' : Cache) : Prop where
  consistent : c'.Consistent
  settings : c'.settings = c.settings
  size : c'.size + items.length = c.size
  lookup : ∀ (key : String) (entry : Entry), c'.lookup[key]? = some entry ↔
    c.lookup[key]? = some entry ∧ entry.item ∉ items

theorem Loses.sweepLimit {c c' : Cache} {items : List Intersection} (loses : c.Loses items c') :
    c'.sweepLimit = c.sweepLimit := congrArg Prod.snd loses.settings

theorem Loses.cutoff {c c' : Cache} {items : List Intersection} (loses : c.Loses items c')
    (now : Millis) : c'.cutoff now = c.cutoff now := by
  rw [Cache.cutoff, Cache.cutoff, show c'.staleness = c.staleness from
    congrArg Prod.fst loses.settings]

theorem Loses.trans {c c' c'' : Cache} {items others : List Intersection}
    (first : c.Loses items c') (second : c'.Loses others c'') :
    c.Loses (items ++ others) c'' where
  consistent := second.consistent
  settings := second.settings.trans first.settings
  size := by
    have before := first.size
    have behind := second.size
    rw [List.length_append]
    omega
  lookup key entry := by
    rw [second.lookup, first.lookup, List.mem_append, not_or, and_assoc]

theorem Loses.count {c c' : Cache} {items : List Intersection} (loses : c.Loses items c')
    (change : Counters → Counters) : c.Loses items (c'.count change) where
  consistent := loses.consistent.of_sameViews rfl rfl rfl
  settings := loses.settings
  size := loses.size
  lookup := loses.lookup

section Losing

variable {c : Cache} (consistent : c.Consistent)

include consistent

theorem loses_discardAll {items : List Intersection} (distinct : items.Nodup)
    (live : ∀ item ∈ items, c.isLive item = true) : c.Loses items (c.discardAll items) where
  consistent := consistent_discardAll consistent items
  settings := settings_discardAll c items
  size := size_discardAll distinct live
  lookup _ _ := consistent.getElem?_discardAll items

theorem loses_sweepBuilt (cutoff : Millis) (room : Nat) :
    ∃ c' : Cache, sweepBuilt cutoff c.recency [] room c =
        (((c.staleItems cutoff).take room).length, c') ∧
      c.Loses ((c.staleItems cutoff).take room) c' := by
  have whole : { c with recency := c.recency ++ [] }.Consistent := by simpa using consistent
  have swept := consistent_sweepBuilt cutoff whole room
  have size := c.size_sweepBuilt cutoff c.recency [] room
  have parts := sweepBuilt_eq cutoff whole room
  simp only [evicted_divide] at parts
  rw [parts] at swept size
  exact ⟨_, parts, swept, settings_discardAll c _, size,
    fun _ _ => consistent.getElem?_discardAll _⟩

/-- Abandoned entries are not built, so the first half of a sweep leaves them. -/
theorem Loses.perm_abandonedItems {c' : Cache} {cutoff : Millis} {items : List Intersection}
    (loses : c.Loses items c') (stale : items ⊆ c.staleItems cutoff) :
    (c'.abandonedItems cutoff).Perm (c.abandonedItems cutoff) := by
  refine perm_itemsWhere _ consistent loses.consistent fun key entry abandoned => ?_
  rw [loses.lookup, and_iff_left_iff_imp]
  intro found listed
  have isStale := (consistent.item_mem_itemsWhere found _).mp
    ((consistent.perm_staleItems cutoff).subset (stale listed))
  simp only [Entry.isAbandoned, Entry.isStale] at abandoned isStale
  cases built : entry.isBuilt <;> simp [built] at abandoned isStale

end Losing

/-! ## One sweep -/

/-- The second cache is what a sweep with this cutoff and limit leaves of the first;
so many entries are gone. -/
structure Swept (cutoff : Millis) (limit : Nat) (c : Cache) (removed : Nat) (c' : Cache) :
    Prop where
  number : removed = min limit ((c.staleItems cutoff).length + (c.abandonedItems cutoff).length)
  size : c'.size + removed = c.size
  /-- The coldest stale entries go, and as many abandoned ones as there is room for. -/
  lookup : ∃ reaped : List Intersection,
    reaped.Nodup ∧ reaped ⊆ c.abandonedItems cutoff ∧
    reaped.length =
      min (limit - (c.staleItems cutoff).length) (c.abandonedItems cutoff).length ∧
    ∀ (key : String) (entry : Entry), c'.lookup[key]? = some entry ↔
      c.lookup[key]? = some entry ∧ entry.item ∉ (c.staleItems cutoff).take limit ∧
        entry.item ∉ reaped
  spared : ∀ (key : String) (entry : Entry), entry.isOverdue cutoff = false →
    (c'.lookup[key]? = some entry ↔ c.lookup[key]? = some entry)
  counters : c'.counters =
    { c.counters with evictions := c.counters.evictions + removed }

section OneSweep

variable {c : Cache} (consistent : c.Consistent) (now : Millis)

include consistent

theorem loses_sweep :
    let stale := c.staleItems (c.cutoff now)
    let abandoned := c.abandonedItems (c.cutoff now)
    ∃ reaped : List Intersection, reaped.Nodup ∧ reaped ⊆ abandoned ∧
      reaped.length = min (c.sweepLimit - stale.length) abandoned.length ∧
      (c.sweep now).1 = (stale.take c.sweepLimit ++ reaped).length ∧
      c.Loses (stale.take c.sweepLimit ++ reaped) (c.sweep now).2 := by
  intro stale abandoned
  obtain ⟨c', built, evicts⟩ := loses_sweepBuilt consistent (c.cutoff now) c.sweepLimit
  have perm := evicts.perm_abandonedItems consistent (List.take_subset _ _)
  let reaped := (c'.abandonedItems (c.cutoff now)).take
    (c.sweepLimit - (stale.take c.sweepLimit).length)
  have distinct : reaped.Nodup :=
    (evicts.consistent.nodup_itemsWhere _).sublist (List.take_sublist _ _)
  have reaps : c'.Loses reaped (c'.discardAll reaped) :=
    loses_discardAll evicts.consistent distinct fun _ listed =>
      evicts.consistent.isLive_of_mem_itemsWhere _ (List.mem_of_mem_take listed)
  refine ⟨reaped, distinct, fun _ listed => perm.subset (List.mem_of_mem_take listed), ?_, ?_, ?_⟩
  · have number : (c'.abandonedItems (c.cutoff now)).length = abandoned.length :=
      perm.length_eq
    simp only [reaped, List.length_take, number]
    omega
  · simp only [sweep, sweepAbandoned, built, evicts.sweepLimit, List.length_append]
    rfl
  · simp only [sweep, sweepAbandoned, built, evicts.sweepLimit]
    exact (evicts.trans reaps).count _

theorem swept_sweep :
    c.Swept (c.cutoff now) c.sweepLimit (c.sweep now).1 (c.sweep now).2 := by
  obtain ⟨reaped, distinct, inside, few, number, loses⟩ := loses_sweep consistent now
  constructor
  · rw [number, List.length_append, List.length_take, few]
    omega
  · rw [number]
    exact loses.size
  · refine ⟨reaped, distinct, inside, few, fun key entry => ?_⟩
    rw [loses.lookup, List.mem_append, not_or]
  · intro key entry kept
    simp only [Entry.isOverdue, Bool.or_eq_false_iff] at kept
    rw [loses.lookup, and_iff_left_iff_imp]
    intro found listed
    rcases List.mem_append.mp listed with evicted | reaps
    · have stale := (consistent.item_mem_itemsWhere found _).mp
        ((consistent.perm_staleItems _).subset (List.mem_of_mem_take evicted))
      exact absurd stale (by simp [kept.1])
    · have abandoned := (consistent.item_mem_itemsWhere found _).mp (inside reaps)
      exact absurd abandoned (by simp [kept.2])
  · exact counters_sweep c now

end OneSweep

/-! ## Sweeping again -/

section SweepingAgain

variable {c : Cache} (consistent : c.Consistent) (now : Millis)

include consistent

theorem Swept.length_overdueItems {c' : Cache} {cutoff : Millis} {limit removed : Nat}
    (swept : c.Swept cutoff limit removed c') (consistent' : c'.Consistent) :
    (c'.overdueItems cutoff).length + removed = (c.overdueItems cutoff).length := by
  have spared := (perm_itemsWhere (fun e => !e.isOverdue cutoff) consistent
    consistent' fun key entry kept => swept.spared key entry (by simpa using kept)).length_eq
  have before := c.length_itemsWhere_not (·.isOverdue cutoff)
  have behind := c'.length_itemsWhere_not (·.isOverdue cutoff)
  have size := swept.size
  simp only [overdueItems]
  omega

theorem sweeps_removes (times : Nat) :
    let cutoff := c.cutoff now
    let after := c.sweeps now times
    after.2.Consistent ∧
      after.1 = min (times * c.sweepLimit) (c.overdueItems cutoff).length ∧
      (after.2.overdueItems cutoff).length + after.1 =
        (c.overdueItems cutoff).length ∧
      ∀ (key : String) (entry : Entry), entry.isOverdue cutoff = false →
        (after.2.lookup[key]? = some entry ↔ c.lookup[key]? = some entry) := by
  induction times generalizing c with
  | zero => exact ⟨consistent, by simp [sweeps], rfl, fun _ _ _ => Iff.rfl⟩
  | succ times ih =>
      obtain ⟨_, -, -, -, -, loses⟩ := loses_sweep consistent now
      have swept := swept_sweep consistent now
      have left := swept.length_overdueItems consistent loses.consistent
      have total := length_overdueItems (c.cutoff now) c
      have number := swept.number
      rw [← (consistent.perm_staleItems _).length_eq] at total
      rw [← total] at number
      obtain ⟨further, removed, again, spared⟩ := ih loses.consistent
      rw [loses.cutoff] at removed again spared
      rw [loses.sweepLimit] at removed
      simp only [sweeps, Nat.succ_mul]
      refine ⟨further, by omega, by omega, fun key entry kept => ?_⟩
      exact (spared key entry kept).trans (swept.spared key entry kept)

theorem lookup_sweeps (times : Nat)
    (enough : (c.overdueItems (c.cutoff now)).length ≤ times * c.sweepLimit)
    (key : String) (entry : Entry) :
    (c.sweeps now times).2.lookup[key]? = some entry ↔
      c.lookup[key]? = some entry ∧ entry.isOverdue (c.cutoff now) = false := by
  obtain ⟨consistent', removed, left, spared⟩ := sweeps_removes consistent now times
  have none : (c.sweeps now times).2.overdueItems (c.cutoff now) = [] :=
    List.length_eq_zero_iff.mp (by omega)
  constructor
  · intro found
    have kept : entry.isOverdue (c.cutoff now) = false := by
      by_contra overdue
      have listed := (consistent'.item_mem_itemsWhere found
        (·.isOverdue (c.cutoff now))).mpr (by simpa using overdue)
      rw [← overdueItems, none] at listed
      cases listed
    exact ⟨(spared key entry kept).mp found, kept⟩
  · rintro ⟨found, kept⟩
    exact (spared key entry kept).mpr found

end SweepingAgain

end Cache

/-! ## Queued builds -/

namespace Entry

def withQueued (queued : Bool) (e : Entry) : Entry :=
  match e.stage with
  | .waiting _ => { e with stage := .waiting queued }
  | .built _ => e

theorem item_withQueued (queued : Bool) (e : Entry) : (e.withQueued queued).item = e.item := by
  unfold withQueued
  split <;> rfl

theorem isBuilt_withQueued (queued : Bool) (e : Entry) :
    (e.withQueued queued).isBuilt = e.isBuilt := by
  unfold withQueued
  split
  next waiting => simp [isBuilt, waiting]
  next => rfl

theorem withQueued_false {e : Entry} (idle : e.isQueued = false) : e.withQueued false = e := by
  obtain ⟨item, created, stage⟩ := e
  cases stage with
  | waiting queued =>
      obtain rfl : queued = false := idle
      rfl
  | built => rfl

end Entry

namespace Cache

/-- The cache, but builds of these intersections are queued as long as they wait, and
of no others. -/
def withQueued (queued : Intersection → Bool) (c : Cache) : Cache :=
  { c with lookup := c.lookup.map fun _ entry => entry.withQueued (queued entry.item) }

variable {queued : Intersection → Bool} {c : Cache}

theorem getElem?_withQueued (key : String) : (c.withQueued queued).lookup[key]? =
    c.lookup[key]?.map fun entry => entry.withQueued (queued entry.item) :=
  Std.ExtTreeMap.getElem?_map

theorem hasBuilt_withQueued {item : Intersection} :
    (c.withQueued queued).HasBuilt item ↔ c.HasBuilt item := by
  simp only [HasBuilt, getElem?_withQueued, Option.map_eq_some_iff]
  constructor
  · rintro ⟨_, ⟨entry, found, rfl⟩, same, built⟩
    rw [Entry.item_withQueued] at same
    rw [Entry.isBuilt_withQueued] at built
    exact ⟨entry, found, same, built⟩
  · rintro ⟨entry, found, same, built⟩
    refine ⟨_, ⟨entry, found, rfl⟩, ?_, ?_⟩
    · rw [Entry.item_withQueued, same]
    · rw [Entry.isBuilt_withQueued, built]

theorem Consistent.withQueued (consistent : c.Consistent) (queued : Intersection → Bool) :
    (c.withQueued queued).Consistent where
  keyed key entry' found' := by
    rw [getElem?_withQueued, Option.map_eq_some_iff] at found'
    obtain ⟨entry, found, rfl⟩ := found'
    rw [Entry.item_withQueued]
    exact consistent.keyed key entry found
  canonical key entry' found' := by
    rw [getElem?_withQueued, Option.map_eq_some_iff] at found'
    obtain ⟨entry, found, rfl⟩ := found'
    rw [Entry.item_withQueued]
    exact consistent.canonical key entry found
  nodup := consistent.nodup
  tracked item := (consistent.tracked item).trans hasBuilt_withQueued.symm
  routed source key item := by
    rw [hasBuilt_withQueued]
    exact consistent.routed source key item
  filled := consistent.filled

end Cache

end RankedQuery
