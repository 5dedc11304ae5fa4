/-!
# Stable sorting

Insertion sort.  Elements of which each may precede the other keep their order.
-/

namespace RankedQuery

variable {α : Type}

def insertStable (mayPrecede : α → α → Bool) (a : α) : List α → List α
  | [] => [a]
  | b :: rest =>
      if mayPrecede a b then a :: b :: rest else b :: insertStable mayPrecede a rest

def sortStable (mayPrecede : α → α → Bool) : List α → List α
  | [] => []
  | a :: rest => insertStable mayPrecede a (sortStable mayPrecede rest)

theorem perm_insertStable (mayPrecede : α → α → Bool) (a : α) (list : List α) :
    (insertStable mayPrecede a list).Perm (a :: list) := by
  induction list with
  | nil => exact .refl _
  | cons b rest ih =>
      unfold insertStable
      split
      · exact .refl _
      · exact (ih.cons b).trans (.swap a b rest)

theorem perm_sortStable (mayPrecede : α → α → Bool) (list : List α) :
    (sortStable mayPrecede list).Perm list := by
  induction list with
  | nil => exact .refl _
  | cons a rest ih => exact (perm_insertStable mayPrecede a _).trans (ih.cons a)

structure Preorders (mayPrecede : α → α → Bool) : Prop where
  total : ∀ a b, mayPrecede a b = true ∨ mayPrecede b a = true
  trans : ∀ a b c, mayPrecede a b = true → mayPrecede b c = true → mayPrecede a c = true

theorem pairwise_sortStable {mayPrecede : α → α → Bool} (order : Preorders mayPrecede)
    (list : List α) : (sortStable mayPrecede list).Pairwise (mayPrecede · ·) := by
  induction list with
  | nil => exact .nil
  | cons a rest ih =>
      suffices ∀ sorted : List α, sorted.Pairwise (mayPrecede · ·) →
          (insertStable mayPrecede a sorted).Pairwise (mayPrecede · ·) from this _ ih
      intro sorted
      induction sorted with
      | nil => simp [insertStable]
      | cons b rest ih =>
          intro pairs
          obtain ⟨first, others⟩ := List.pairwise_cons.mp pairs
          unfold insertStable
          split
          next before =>
            refine .cons ?_ pairs
            intro c hc
            rcases List.mem_cons.mp hc with rfl | later
            · exact before
            · exact order.trans a b c before (first c later)
          next notBefore =>
            refine .cons ?_ (ih others)
            intro c hc
            rcases List.mem_cons.mp ((perm_insertStable mayPrecede a rest).mem_iff.mp hc)
              with rfl | later
            · exact (order.total c b).resolve_left notBefore
            · exact first c later

/-! ## Stability -/

section Stability

variable {mayPrecede : α → α → Bool} {keeps : α → Bool}
  (ties : ∀ a b, keeps a = true → keeps b = true → mayPrecede a b = true)

include ties

theorem filter_insertStable (a : α) (list : List α) :
    (insertStable mayPrecede a list).filter keeps = (a :: list).filter keeps := by
  induction list with
  | nil => rfl
  | cons b rest ih =>
      unfold insertStable
      split
      · rfl
      next notBefore =>
        by_cases kept : keeps a = true
        · -- An element that is passed is no tie, so it is not kept.
          have passed : keeps b = false :=
            Bool.eq_false_iff.mpr fun keptB => notBefore (ties a b kept keptB)
          simp only [List.filter_cons, passed, Bool.false_eq_true, if_false, ih]
        · simp only [List.filter_cons, kept, ih, Bool.false_eq_true, if_false]

/-- Elements of which each may precede the other stay in the order they had. -/
theorem filter_sortStable (list : List α) :
    (sortStable mayPrecede list).filter keeps = list.filter keeps := by
  induction list with
  | nil => rfl
  | cons a rest ih =>
      rw [sortStable, filter_insertStable ties, List.filter_cons, List.filter_cons, ih]

end Stability

end RankedQuery
