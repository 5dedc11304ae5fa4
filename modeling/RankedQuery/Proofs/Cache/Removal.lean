import RankedQuery.Cache.Basic
import RankedQuery.Proofs.Cache.Routing

/-!
# Taking intersections out of the cache

Every removal evicts intersections one by one.  An eviction clears the place of
the intersection in the lookup, if it is live, and its places in the routing.
-/

namespace RankedQuery

namespace Cache

theorem isLive_eq_true {c : Cache} {item : Intersection} :
    c.isLive item = true ↔
      ∃ entry, c.lookup[item.key]? = some entry ∧ entry.item = item := by
  simp [isLive, Option.any_eq_true]

theorem getElem?_evict (c : Cache) (item : Intersection) {key : String} {entry : Entry} :
    (c.evict item).lookup[key]? = some entry ↔
      c.lookup[key]? = some entry ∧ ¬ (item.key = key ∧ entry.item = item) := by
  unfold evict
  by_cases live : c.isLive item = true
  · obtain ⟨held, found, same⟩ := isLive_eq_true.mp live
    simp only [live, if_true]
    by_cases here : item.key = key
    · subst here
      simp only [Std.ExtTreeMap.getElem?_erase_self, found, true_and, Option.some.injEq]
      constructor
      · simp
      · rintro ⟨rfl, apart⟩
        exact absurd same apart
    · simp [Std.ExtTreeMap.getElem?_erase, here]
  · simp only [live, Bool.false_eq_true, if_false]
    refine ⟨fun found => ⟨found, ?_⟩, And.left⟩
    rintro ⟨rfl, same⟩
    exact live (isLive_eq_true.mpr ⟨entry, found, same⟩)

theorem routing_evict (c : Cache) (item : Intersection) :
    (c.evict item).routing = c.routing.unregister item := rfl

theorem getElem?_discard (c : Cache) (item : Intersection) {key : String} {entry : Entry} :
    (c.discard item).lookup[key]? = some entry ↔
      c.lookup[key]? = some entry ∧ ¬ (item.key = key ∧ entry.item = item) :=
  getElem?_evict _ item

theorem getElem?_discardAll {items : List Intersection} {c : Cache} {key : String}
    {entry : Entry} (keyed : entry.item.key = key) :
    (c.discardAll items).lookup[key]? = some entry ↔
      c.lookup[key]? = some entry ∧ entry.item ∉ items := by
  induction items generalizing c with
  | nil => simp [discardAll]
  | cons first items ih =>
      have rest := ih (c := c.discard first)
      rw [getElem?_discard] at rest
      rw [discardAll, List.foldl_cons]
      refine rest.trans ?_
      rw [List.mem_cons, not_or, and_assoc]
      refine and_congr_right fun _ => and_congr_left fun _ => not_congr ?_
      constructor
      · exact And.right
      · rintro rfl
        exact ⟨keyed, rfl⟩

theorem mem_itemsWhere {c : Cache} {test : Entry → Bool} {item : Intersection} :
    item ∈ c.itemsWhere test ↔
      ∃ (key : String) (entry : Entry),
        c.lookup[key]? = some entry ∧ test entry = true ∧ entry.item = item := by
  simp only [itemsWhere, List.mem_map, List.mem_filter, mem_values]
  constructor
  · rintro ⟨entry, ⟨⟨key, found⟩, passes⟩, same⟩
    exact ⟨key, entry, found, passes, same⟩
  · rintro ⟨key, entry, found, passes, same⟩
    exact ⟨entry, ⟨⟨key, found⟩, passes⟩, same⟩

/-- Invalidation leaves the entries that are not over the source. -/
theorem getElem?_invalidate (c : Cache) (source : String) {key : String} {entry : Entry}
    (keyed : entry.item.key = key) :
    (c.invalidate source).2.lookup[key]? = some entry ↔
      c.lookup[key]? = some entry ∧ ¬ entry.item.IsOver source := by
  unfold invalidate
  rw [getElem?_discardAll keyed, mem_itemsWhere]
  refine and_congr_right fun found => not_congr ?_
  simp only [List.any_eq_true, decide_eq_true_eq]
  constructor
  · rintro ⟨_, other, -, isOver, same⟩
    rw [← same]
    exact isOver
  · intro isOver
    exact ⟨key, entry, found, isOver, rfl⟩

/-! ## Nothing but removal -/

/-- The second cache has no entry that the first has not, and takes requests only
if the first does. -/
structure Sheds (c c' : Cache) : Prop where
  accepting : c'.accepting = true → c.accepting = true
  entries : ∀ (key : String) (entry : Entry),
    c'.lookup[key]? = some entry → c.lookup[key]? = some entry

theorem Sheds.refl (c : Cache) : c.Sheds c := ⟨id, fun _ _ => id⟩

theorem Sheds.trans {c c' c'' : Cache} (first : c.Sheds c') (second : c'.Sheds c'') :
    c.Sheds c'' where
  accepting accepts := first.accepting (second.accepting accepts)
  entries key entry found := first.entries key entry (second.entries key entry found)

theorem sheds_evict (c : Cache) (item : Intersection) : c.Sheds (c.evict item) :=
  ⟨id, fun _ _ found => ((c.getElem?_evict item).mp found).1⟩

theorem sheds_discardAll (c : Cache) (items : List Intersection) :
    c.Sheds (c.discardAll items) := by
  induction items generalizing c with
  | nil => exact .refl c
  | cons first items ih =>
      have once : c.Sheds (c.discard first) :=
        ⟨id, fun _ _ found => ((c.getElem?_discard first).mp found).1⟩
      exact once.trans (ih (c.discard first))

theorem sheds_sweepBuilt (cutoff : Millis) (cold kept : List Intersection) (room : Nat)
    (c : Cache) : c.Sheds (c.sweepBuilt cutoff cold kept room).2 := by
  induction cold generalizing kept room c with
  | nil => exact ⟨id, fun _ _ => id⟩
  | cons item cold ih =>
      cases room with
      | zero => exact ⟨id, fun _ _ => id⟩
      | succ room =>
          unfold sweepBuilt
          split
          next => exact ih kept (room + 1) c
          next =>
            split
            next => exact ih kept (room + 1) c
            next =>
              split
              next => exact (sheds_evict c item).trans (ih kept room (c.evict item))
              next => exact ih (kept ++ [item]) (room + 1) c

theorem sheds_sweep (c : Cache) (now : Millis) : c.Sheds (c.sweep now).2 := by
  unfold sweep
  dsimp only
  have stale := sheds_sweepBuilt (c.cutoff now) c.recency [] c.sweepLimit c
  generalize c.sweepBuilt (c.cutoff now) c.recency [] c.sweepLimit = swept at stale ⊢
  have abandoned : swept.2.Sheds
      (swept.2.sweepAbandoned (c.cutoff now) (swept.2.sweepLimit - swept.1)).2 :=
    sheds_discardAll swept.2 _
  exact stale.trans ⟨abandoned.accepting, abandoned.entries⟩

end Cache

end RankedQuery
