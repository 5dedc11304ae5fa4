import RankedQuery.Proofs.Cache.Consistency

/-!
# Counting entries

Every removal takes out as many entries as it says, since what it takes out are
different live intersections.
-/

namespace RankedQuery

namespace Cache

variable {c : Cache}

@[simp] theorem size_count (c : Cache) (change : Counters → Counters) :
    (c.count change).size = c.size := rfl

/-! ## Removals -/

theorem size_evict {item : Intersection} (live : c.isLive item = true) :
    (c.evict item).size + 1 = c.size := by
  obtain ⟨entry, found, -⟩ := isLive_eq_true.mp live
  have present : c.lookup.contains item.key = true := by
    rw [Std.ExtTreeMap.contains_eq_isSome_getElem?, found]
    rfl
  have some : c.lookup.size ≠ 0 := by
    intro none
    rw [← Std.ExtTreeMap.eq_empty_iff_size_eq_zero] at none
    simp [none] at present
  simp only [evict, live, if_true, size, Std.ExtTreeMap.size_erase, present]
  exact Nat.sub_add_cancel (Nat.pos_of_ne_zero some)

theorem isLive_discard {item other : Intersection} (live : c.isLive other = true)
    (apart : other ≠ item) : (c.discard item).isLive other = true := by
  obtain ⟨entry, found, same⟩ := isLive_eq_true.mp live
  refine isLive_eq_true.mpr ⟨entry, ?_, same⟩
  exact (c.getElem?_discard item).mpr ⟨found, fun removed => apart (same ▸ removed.2)⟩

theorem size_discardAll {items : List Intersection} (distinct : items.Nodup)
    (live : ∀ item ∈ items, c.isLive item = true) :
    (c.discardAll items).size + items.length = c.size := by
  induction items generalizing c with
  | nil => rfl
  | cons first items ih =>
      obtain ⟨absent, distinct⟩ := List.nodup_cons.mp distinct
      obtain ⟨firstLive, live⟩ := List.forall_mem_cons.mp live
      have once : (c.discard first).size + 1 = c.size :=
        size_evict (c := { c with recency := c.recency.filter (· ≠ first) }) firstLive
      have others := ih distinct fun item inside =>
        isLive_discard (live item inside) fun same : item = first => absent (same ▸ inside)
      rw [List.length_cons, ← once, ← others]
      rfl

@[simp] theorem counters_discardAll (c : Cache) (items : List Intersection) :
    (c.discardAll items).counters = c.counters := by
  induction items generalizing c with
  | nil => rfl
  | cons first items ih => exact ih (c.discard first)

namespace Consistent

variable (consistent : c.Consistent) (test : Entry → Bool)

include consistent

theorem nodup_itemsWhere : (c.itemsWhere test).Nodup := by
  have keyed : ∀ pair ∈ c.lookup.toList, pair.2.item.key = pair.1 := fun pair listed =>
    consistent.keyed pair.1 pair.2 (Std.ExtTreeMap.mem_toList_iff_getElem?_eq_some.mp listed)
  have distinct : (c.lookup.toList.map (·.2.item)).Nodup := by
    refine List.Nodup.map_on (fun a inside b inside' same => ?_) (nodup_toList c.lookup)
    have key : a.1 = b.1 := by rw [← keyed a inside, same, keyed b inside']
    refine Prod.ext key ?_
    have first := Std.ExtTreeMap.mem_toList_iff_getElem?_eq_some.mp inside
    have second := Std.ExtTreeMap.mem_toList_iff_getElem?_eq_some.mp inside'
    rw [key, second] at first
    exact (Option.some.inj first).symm
  have values : c.lookup.toList.map (·.2.item) = c.lookup.values.map (·.item) := by
    rw [values_eq, List.map_map]
    rfl
  rw [values] at distinct
  exact distinct.sublist (List.filter_sublist.map _)

theorem isLive_of_mem_itemsWhere {item : Intersection} (listed : item ∈ c.itemsWhere test) :
    c.isLive item = true := by
  obtain ⟨key, entry, found, -, rfl⟩ := mem_itemsWhere.mp listed
  refine isLive_eq_true.mpr ⟨entry, ?_, rfl⟩
  rw [consistent.keyed key entry found]
  exact found

theorem size_invalidate (source : String) :
    (c.invalidate source).2.size + (c.invalidate source).1 = c.size :=
  size_discardAll (consistent.nodup_itemsWhere _) fun _ =>
    consistent.isLive_of_mem_itemsWhere _

theorem size_sweepAbandoned (cutoff : Millis) (room : Nat) :
    (c.sweepAbandoned cutoff room).2.size + (c.sweepAbandoned cutoff room).1 = c.size :=
  size_discardAll ((consistent.nodup_itemsWhere _).sublist (List.take_sublist _ _))
    fun _ inside => consistent.isLive_of_mem_itemsWhere _ (List.mem_of_mem_take inside)

end Consistent

theorem size_sweepBuilt (cutoff : Millis) (cold kept : List Intersection) (room : Nat)
    (c : Cache) :
    (c.sweepBuilt cutoff cold kept room).2.size + (c.sweepBuilt cutoff cold kept room).1 =
      c.size := by
  induction cold generalizing kept room c with
  | nil => rfl
  | cons item cold ih =>
      cases room with
      | zero => rfl
      | succ room =>
          unfold sweepBuilt
          split
          next => exact ih kept (room + 1) c
          next entry found =>
            split
            next => exact ih kept (room + 1) c
            next same =>
              split
              next =>
                have live : c.isLive item = true :=
                  isLive_eq_true.mpr ⟨entry, found, not_ne_iff.mp same⟩
                have evicted := size_evict live
                have rest := ih kept room (c.evict item)
                dsimp only
                omega
              next => exact ih (kept ++ [item]) (room + 1) c

theorem counters_sweepBuilt (cutoff : Millis) (cold kept : List Intersection) (room : Nat)
    (c : Cache) : (c.sweepBuilt cutoff cold kept room).2.counters = c.counters := by
  induction cold generalizing kept room c with
  | nil => rfl
  | cons item cold ih =>
      cases room with
      | zero => rfl
      | succ room =>
          unfold sweepBuilt
          split
          next => exact ih kept (room + 1) c
          next =>
            split
            next => exact ih kept (room + 1) c
            next =>
              split
              next => exact ih kept room (c.evict item)
              next => exact ih (kept ++ [item]) (room + 1) c

theorem Consistent.size_sweep (consistent : c.Consistent) (now : Millis) :
    (c.sweep now).2.size + (c.sweep now).1 = c.size := by
  have whole : { c with recency := c.recency ++ [] }.Consistent := by simpa using consistent
  have swept := consistent_sweepBuilt (c.cutoff now) whole c.sweepLimit
  have stale := c.size_sweepBuilt (c.cutoff now) c.recency [] c.sweepLimit
  unfold sweep
  dsimp only
  generalize c.sweepBuilt (c.cutoff now) c.recency [] c.sweepLimit = built at swept stale ⊢
  have abandoned := swept.size_sweepAbandoned (c.cutoff now) (built.2.sweepLimit - built.1)
  rw [size_count]
  omega

theorem counters_sweep (c : Cache) (now : Millis) :
    (c.sweep now).2.counters =
      { c.counters with evictions := c.counters.evictions + (c.sweep now).1 } := by
  have stale := c.counters_sweepBuilt (c.cutoff now) c.recency [] c.sweepLimit
  simp only [sweep, count, sweepAbandoned, counters_discardAll, stale]

end Cache

end RankedQuery
