import RankedQuery.Proofs.Scan

/-!
# Totals that are flagged as capped

Listing a driver counts all matches, so its total is flagged when there are more
than the page counts.  Walking the sort stops after one match more than the page
wants, or later, once the total is at its cap.  It then cannot tell whether more
matches follow, and flags the total even if it has just seen the last one.  So
the two scans agree on the flag except where the matches end right at the cap,
beyond the page.
-/

namespace RankedQuery

@[simp] theorem ResultSet.report_totalCapped (result : ResultSet) (page : Page) (total : Nat)
    (capped : Bool) : (result.report page total capped).totalCapped =
      if page.includeTotal then capped else result.totalCapped := by
  unfold report
  split <;> rfl

/-- The last match is beyond the page, and no total counts further than to it. -/
def Page.EndsAtCap (page : Page) (count : Nat) : Prop :=
  page.wanted < count ∧ count = page.maxTotal.toNat

namespace Scan

variable (c : Catalog) (ranking : Ranking) {page : Page}

theorem totalCapped_sortDriven (criteria : List Criterion)
    (asked : page.includeTotal = true) :
    (sortDriven c ranking (criteria.map (·.boundIn c)) page {}).totalCapped = true ↔
      page.maxTotal.toNat < (matching c ranking criteria page.direction).length ∨
        page.EndsAtCap (matching c ranking criteria page.direction).length := by
  have beyond := wanted_lt_target page
  have reaches : target page = max (page.wanted + 1) page.maxTotal.toNat := by
    simp [target, asked]
  have walked := walk_eq (fun id => criteria.all (·.holds c id)) page
    (page.direction.arrange ranking.ids) page.limit.toNat (Nat.zero_lt_of_lt beyond)
  rw [← matching] at walked
  simp only [Nat.zero_add] at walked
  simp only [sortDriven, acceptsAll_boundIn, Ranking.rest_cursor, List.length_nil, Nat.sub_zero,
    walked, ResultSet.report_totalCapped, asked, if_true, Bool.or_eq_true, Bool.and_eq_true,
    decide_eq_true_eq, Page.EndsAtCap]
  -- The walk sees all matches or as many as its target, which is not below the cap.
  omega

theorem totalCapped_indexDriven {first : Criterion}
    (drives : (first.boundIn c).canIterate = true) (others : List Criterion)
    (asked : page.includeTotal = true) :
    ∃ result, indexDriven c ranking ((first :: others).map (·.boundIn c)) page {} =
        .ok result ∧
      (result.totalCapped = true ↔ page.maxTotal.toNat <
        (matching c ranking (first :: others) page.direction).length) := by
  obtain ⟨listed, lists, complete⟩ := first.list_boundIn c drives
  have ranked := survivors_of_complete (BoundCondition.nodup_list lists) complete ranking others
    page.direction
  rw [List.map_cons] at ranked
  simp only [indexDriven, List.map_cons, lists, bind, Except.bind, ranked, pure, Except.pure]
  exact ⟨_, rfl, by simp [asked]⟩

end Scan

/-- Listing a driver flags a total just if it is inexact.  Walking the sort also
flags an exact one that ends at the cap beyond the page, and only there do the
two differ. -/
theorem Plan.totalCapped_iff (c : Catalog) (ranking : Ranking) (first : Criterion)
    (others : List Criterion) (page : Page)
    (drives : (first.boundIn c).canIterate = true) (asked : page.includeTotal = true) :
    let bound := (first :: others).map (·.boundIn c)
    let count := (Scan.matching c ranking (first :: others) page.direction).length
    ∃ listed walked,
      Plan.indexDriven.execute c ranking bound page {} = .ok listed ∧
      Plan.sortDriven.execute c ranking bound page {} = .ok walked ∧
      (listed.totalCapped = true ↔ page.maxTotal.toNat < count) ∧
      (walked.totalCapped = true ↔
        page.maxTotal.toNat < count ∨ page.EndsAtCap count) ∧
      (listed.totalCapped = walked.totalCapped ↔ ¬ page.EndsAtCap count) := by
  intro bound count
  obtain ⟨listed, lists, listedCapped⟩ :=
    Scan.totalCapped_indexDriven c ranking drives others asked
  have walkedCapped := Scan.totalCapped_sortDriven c ranking (first :: others) asked
  refine ⟨listed, _, lists, rfl, listedCapped, walkedCapped, ?_⟩
  rw [Bool.eq_iff_iff, listedCapped, walkedCapped]
  have notOver : page.EndsAtCap count → ¬ page.maxTotal.toNat < count := by
    rintro ⟨-, same⟩
    omega
  tauto

namespace Plan

private def pairCatalog : Catalog := (({} : Catalog).addIndex (.ofIds "a" [1, 2])).2

private def firstOfPair (maxTotal : UInt64) : Page :=
  { offset := 0, limit := 1, includeTotal := true, maxTotal }

theorem totalCapped_iff_of_pair :
    let bound := [Criterion.set ⟨0⟩].map (·.boundIn pairCatalog)
    ((Criterion.set ⟨0⟩).boundIn pairCatalog).canIterate = true ∧
      (firstOfPair 1).includeTotal = true ∧
      ∃ listed walked,
        Plan.indexDriven.execute pairCatalog (.static "n" [1, 2]) bound (firstOfPair 1) {} =
          .ok listed ∧
        Plan.sortDriven.execute pairCatalog (.static "n" [1, 2]) bound (firstOfPair 1) {} =
          .ok walked ∧
        listed.totalCapped = walked.totalCapped := by
  refine ⟨rfl, rfl, ?_⟩
  obtain ⟨listed, walked, lists, walks, -, -, same⟩ :=
    totalCapped_iff pairCatalog (.static "n" [1, 2]) (.set ⟨0⟩) [] (firstOfPair 1) rfl rfl
  refine ⟨listed, walked, lists, walks, same.mpr ?_⟩
  rintro ⟨-, atCap⟩
  exact absurd atCap (by decide +kernel)

theorem not_totalCapped_iff_inexact :
    ¬ ∀ (c : Catalog) (ranking : Ranking) (first : Criterion) (others : List Criterion)
        (page : Page), (first.boundIn c).canIterate = true → page.includeTotal = true →
      ∀ plan ∈ [Plan.indexDriven, Plan.sortDriven], ∃ result,
        plan.execute c ranking ((first :: others).map (·.boundIn c)) page {} = .ok result ∧
        (result.totalCapped = true ↔ page.maxTotal.toNat <
          (Scan.matching c ranking (first :: others) page.direction).length) := by
  intro inexact
  obtain ⟨result, walks, flagged⟩ := inexact pairCatalog (.static "n" [1, 2]) (.set ⟨0⟩) []
    (firstOfPair 2) rfl rfl .sortDriven (by simp)
  have capped : (Plan.sortDriven.execute pairCatalog (.static "n" [1, 2])
      ([Criterion.set ⟨0⟩].map (·.boundIn pairCatalog)) (firstOfPair 2) {}).toOption.map
        (·.totalCapped) = some true := by decide +kernel
  rw [walks] at capped
  have overCap := flagged.mp (Option.some.inj capped)
  exact absurd overCap (by decide +kernel)

end Plan

end RankedQuery
