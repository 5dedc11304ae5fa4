import RankedQuery.Proofs.Cache.Limits

/-!
# Invalidation

An invalidation takes out exactly the entries over a source, built or not, and says
how many they were.  The other entries keep their stages, their indexes, their order
of use and their places in the routing.
-/

namespace RankedQuery

namespace Cache

theorem recency_discardAll_eq (c : Cache) (items : List Intersection) :
    (c.discardAll items).recency = c.recency.filter (· ∉ items) := by
  induction items generalizing c with
  | nil => simp [discardAll]
  | cons first items ih =>
      rw [discardAll, List.foldl_cons]
      refine (ih (c.discard first)).trans ?_
      show (c.recency.filter _).filter _ = _
      rw [List.filter_filter]
      refine List.filter_congr fun item _ => ?_
      simp only [List.mem_cons, not_or, Bool.decide_and, Bool.and_comm, ne_eq]

def itemsOver (c : Cache) (source : String) : List Intersection :=
  c.itemsWhere (·.item.IsOver source)

/-- The second cache is the first without its entries over the source, which were so
many. -/
structure Invalidated (source : String) (c : Cache) (removed : Nat) (c' : Cache) : Prop where
  number : removed = (c.itemsOver source).length
  size : c'.size + removed = c.size
  lookup : ∀ (key : String) (entry : Entry), c'.lookup[key]? = some entry ↔
    c.lookup[key]? = some entry ∧ ¬ entry.item.IsOver source
  recency : c'.recency = c.recency.filter (¬ ·.IsOver source)
  routing : ∀ (name : String) (item : Intersection), item ∈ c'.routing.items name ↔
    item ∈ c.routing.items name ∧ ¬ item.IsOver source

theorem invalidate_eq (c : Cache) (source : String) :
    c.invalidate source =
      ((c.itemsOver source).length, c.discardAll (c.itemsOver source)) := by
  have isOver : (fun entry : Entry => entry.item.sources.any (·.name = source)) =
      fun entry => decide (entry.item.IsOver source) := by
    funext entry
    rw [Bool.eq_iff_iff, List.any_eq_true, decide_eq_true_iff]
    simp only [Intersection.IsOver, decide_eq_true_eq]
  rw [invalidate, itemsOver, isOver]

section Invalidate

variable {c : Cache} (consistent : c.Consistent) (source : String)

include consistent

theorem hasBuilt_invalidate {item : Intersection} :
    (c.invalidate source).2.HasBuilt item ↔ c.HasBuilt item ∧ ¬ item.IsOver source := by
  constructor
  · rintro ⟨entry, found, rfl, built⟩
    have held := (sheds_discardAll _ _).entries _ _ found
    have kept := (c.getElem?_invalidate source (consistent.keyed _ entry held)).mp found
    exact ⟨⟨entry, kept.1, rfl, built⟩, kept.2⟩
  · rintro ⟨⟨entry, found, rfl, built⟩, apart⟩
    exact ⟨entry, (c.getElem?_invalidate source rfl).mpr ⟨found, apart⟩, rfl, built⟩

theorem invalidated_invalidate :
    c.Invalidated source (c.invalidate source).1 (c.invalidate source).2 := by
  have consistent' : (c.invalidate source).2.Consistent := consistent_discardAll consistent _
  constructor
  · rw [invalidate_eq]
  · exact consistent.size_invalidate source
  · intro key entry
    constructor
    · intro found
      have held := (sheds_discardAll _ _).entries _ _ found
      exact (c.getElem?_invalidate source (consistent.keyed key entry held)).mp found
    · rintro ⟨found, apart⟩
      exact (c.getElem?_invalidate source (consistent.keyed key entry found)).mpr ⟨found, apart⟩
  · rw [invalidate_eq, recency_discardAll_eq]
    refine List.filter_congr fun item tracked => ?_
    obtain ⟨entry, found, rfl, -⟩ := (consistent.tracked item).mp tracked
    have isOver := consistent.item_mem_itemsWhere found (·.item.IsOver source)
    rw [decide_eq_true_iff] at isOver
    exact decide_eq_decide.mpr (not_congr isOver)
  · intro name item
    rw [consistent'.mem_items, consistent.mem_items, hasBuilt_invalidate consistent, and_assoc]

end Invalidate

end Cache

end RankedQuery
