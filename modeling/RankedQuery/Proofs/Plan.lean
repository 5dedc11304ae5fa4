import RankedQuery.Proofs.Scan

/-!
# Plans and what they answer

The planner only reorders conditions, and never lets a union drive a scan.  So
the plan that it chooses always succeeds, and shows the page of the matches
whatever it is.
-/

namespace RankedQuery

section Stable

variable {α β : Type} (mayPrecede : β → β → Bool) (f : α → β)

private theorem insertStable_map (a : α) (list : List α) :
    insertStable mayPrecede (f a) (list.map f) =
      (insertStable (fun a b => mayPrecede (f a) (f b)) a list).map f := by
  induction list with
  | nil => rfl
  | cons b rest ih =>
      simp only [List.map_cons, insertStable]
      split
      · rfl
      · rw [ih, List.map_cons]

theorem sortStable_map (list : List α) :
    sortStable mayPrecede (list.map f) =
      (sortStable (fun a b => mayPrecede (f a) (f b)) list).map f := by
  induction list with
  | nil => rfl
  | cons a rest ih => rw [List.map_cons, sortStable, ih, insertStable_map, sortStable]

end Stable

namespace Planner

theorem plan_eq_sort {p : Planner} {conditions : List BoundCondition} {length : UInt64} :
    p.plan conditions length = .sort ↔ conditions = [] := by
  unfold plan
  cases conditions with
  | nil => simp
  | cons driver others =>
      simp only [reduceCtorEq, iff_false]
      split
      · simp
      · split <;> simp

theorem canIterate_of_indexDriven {p : Planner} {driver : BoundCondition}
    {others : List BoundCondition} {length : UInt64}
    (driven : p.plan (driver :: others) length = .indexDriven) :
    driver.canIterate = true := by
  cases drives : driver.canIterate with
  | true => rfl
  | false => simp [plan, drives] at driven

theorem order_boundIn (c : Catalog) (criteria : List Criterion) :
    ∃ ordered : List Criterion, ordered.Perm criteria ∧
      order (criteria.map (·.boundIn c)) = ordered.map (·.boundIn c) :=
  ⟨_, perm_sortStable _ criteria, sortStable_map mayPrecede _ criteria⟩

end Planner

/-- The planned scan succeeds.  It reports a total if there is to be one: all
documents where there are no conditions, and else the matches up to the cap. -/
theorem Planner.execute_plan (p : Planner) (c : Catalog) (ranking : Ranking)
    (criteria : List Criterion) (page : Page) (length : UInt64) :
    ∃ result,
      (p.plan (criteria.map (·.boundIn c)) length).execute c ranking
        (criteria.map (·.boundIn c)) page {} = .ok result ∧
      result.ShowsPage page (Scan.matching c ranking criteria page.direction) ∧
      result.total = if page.includeTotal then
        some (if criteria = [] then
            (Scan.matching c ranking criteria page.direction).length
          else min (Scan.matching c ranking criteria page.direction).length
            page.maxTotal.toNat) else none := by
  cases criteria with
  | nil =>
      have paged := Scan.sort_showsPage ranking page
      rw [Scan.matching_nil]
      refine ⟨_, rfl, paged, ?_⟩
      simp [Scan.sort, Ranking.size_eq]
  | cons first others =>
      cases planned : p.plan ((first :: others).map (·.boundIn c)) length with
      | sort => cases plan_eq_sort.mp planned
      | indexDriven =>
          have drives := canIterate_of_indexDriven planned
          obtain ⟨result, listed, answers⟩ :=
            Scan.indexDriven_answers c ranking page drives others
          exact ⟨result, listed, answers.toShowsPage, by simpa using answers.total⟩
      | sortDriven =>
          have answers := Scan.sortDriven_answers c ranking page (first :: others)
          exact ⟨_, rfl, answers.toShowsPage, by simpa using answers.total⟩

end RankedQuery
