import RankedQuery.Proofs.Plan

/-!
# Drivers of scans

The planner puts conditions that can drive a scan before those that cannot, and
shorter ones before longer ones; this is a total preorder, and conditions that tie
stay as they were.  So the first of the ordered conditions is a shortest one that can
drive, if any can.  A planned scan never fails, whenever its conditions were bound
and whatever the ratio says about a driver, even if it is no number.
-/

namespace RankedQuery

theorem BoundCondition.canIterate_eq_false {c : BoundCondition} :
    c.canIterate = false ↔ ∃ members, c.target = .union members := by
  unfold canIterate
  split <;> simp_all

theorem BoundCondition.exists_list {c : BoundCondition} (drives : c.canIterate = true)
    (catalog : Catalog) (direction : Direction) :
    ∃ listed, c.list catalog direction = .ok listed := by
  unfold list
  split
  next => exact ⟨_, rfl⟩
  next => exact ⟨_, rfl⟩
  next members union =>
    have refuses := canIterate_eq_false.mpr ⟨members, union⟩
    rw [drives] at refuses
    cases refuses

theorem Plan.exists_execute {plan : Plan} {conditions : List BoundCondition}
    (drives : plan = .indexDriven → ∀ driver ∈ conditions.head?, driver.canIterate = true)
    (catalog : Catalog) (ranking : Ranking) (page : Page) (result : ResultSet) :
    ∃ filled, plan.execute catalog ranking conditions page result = .ok filled := by
  cases plan with
  | sort => exact ⟨_, rfl⟩
  | sortDriven => exact ⟨_, rfl⟩
  | indexDriven =>
      cases conditions with
      | nil => exact ⟨_, rfl⟩
      | cons driver others =>
          obtain ⟨listed, lists⟩ := driver.exists_list (drives rfl driver rfl) catalog .asc
          simp only [execute, Scan.indexDriven, lists, bind, Except.bind]
          exact ⟨_, rfl⟩

namespace Planner

/-! ## The order -/

theorem mayPrecede_iff {a b : BoundCondition} :
    mayPrecede a b = true ↔
      (b.canIterate = true → a.canIterate = true) ∧
        (a.canIterate = b.canIterate → a.length ≤ b.length) := by
  unfold mayPrecede
  cases a.canIterate <;> cases b.canIterate <;> simp

theorem preorders_mayPrecede : Preorders mayPrecede where
  total a b := by
    simp only [mayPrecede_iff]
    cases a.canIterate <;> cases b.canIterate <;> simp <;> omega
  trans a b c := by
    simp only [mayPrecede_iff]
    cases a.canIterate <;> cases b.canIterate <;> cases c.canIterate <;> simp <;> omega

/-- The second list has the conditions of the first, those that can drive a scan
before unions, either group by ascending length, and ties as they were. -/
structure Arranges (conditions ordered : List BoundCondition) : Prop where
  perm : ordered.Perm conditions
  unionsLast : ordered.Pairwise fun a b => b.canIterate = true → a.canIterate = true
  ascending : ordered.Pairwise fun a b => a.canIterate = b.canIterate → a.length ≤ b.length
  ties : ∀ (drives : Bool) (length : Nat),
    ordered.filter (fun c => c.canIterate = drives ∧ c.length = length) =
      conditions.filter fun c => c.canIterate = drives ∧ c.length = length

theorem arranges_order (conditions : List BoundCondition) :
    Arranges conditions (order conditions) := by
  have sorted : (order conditions).Pairwise (mayPrecede · ·) :=
    pairwise_sortStable preorders_mayPrecede conditions
  refine ⟨perm_sortStable mayPrecede conditions, sorted.imp fun before => ?_,
    sorted.imp fun before => ?_, fun drives length => ?_⟩
  · exact (mayPrecede_iff.mp before).1
  · exact (mayPrecede_iff.mp before).2
  · apply filter_sortStable
    intro a b keepsA keepsB
    obtain ⟨drivesA, lengthA⟩ := of_decide_eq_true keepsA
    obtain ⟨drivesB, lengthB⟩ := of_decide_eq_true keepsB
    rw [mayPrecede_iff, drivesA, drivesB, lengthA, lengthB]
    exact ⟨id, fun _ => Nat.le_refl _⟩

example :
    (order [⟨"large", 400, .set ⟨0⟩⟩, ⟨"(small)", 2, .union [⟨1⟩]⟩,
      ⟨"medium", 40, .set ⟨2⟩⟩]).map (·.key) = ["medium", "large", "(small)"] := by
  decide

theorem Arranges.first {conditions others : List BoundCondition} {driver : BoundCondition}
    (arranges : Arranges conditions (driver :: others)) {c : BoundCondition}
    (listed : c ∈ conditions) (drives : c.canIterate = true) :
    driver.canIterate = true ∧ driver.length ≤ c.length := by
  rcases List.mem_cons.mp (arranges.perm.mem_iff.mpr listed) with rfl | later
  · exact ⟨drives, Nat.le_refl _⟩
  · have first := (List.pairwise_cons.mp arranges.unionsLast).1 c later drives
    have shorter := (List.pairwise_cons.mp arranges.ascending).1 c later
    exact ⟨first, shorter (first.trans drives.symm)⟩

/-! ## The plan -/

theorem length_le_of_indexDriven {p : Planner} {driver : BoundCondition}
    {others : List BoundCondition} {sortLength : UInt64}
    (driven : p.plan (driver :: others) sortLength = .indexDriven) :
    driver.length ≤ p.cap.toNat := by
  by_contra long
  simp [plan, Nat.lt_of_not_le long] at driven

theorem plan_eq_sortDriven {p : Planner} {driver : BoundCondition}
    (long : driver.canIterate = true → p.cap.toNat < driver.length)
    (others : List BoundCondition) (sortLength : UInt64) :
    p.plan (driver :: others) sortLength = .sortDriven := by
  have refused : (!driver.canIterate || decide (p.cap.toNat < driver.length)) = true := by
    cases drives : driver.canIterate with
    | false => rfl
    | true => simpa using long drives
  exact if_pos refused

/-- Whatever conditions there are, they are ordered with those that can drive a scan
first, by length, and what is planned for them can be carried out: a plan lists only a
first condition that can be listed, is within the cap and is as short as any other
that can, and where there is none the sort is walked. -/
theorem plan_order_drives (p : Planner) (conditions : List BoundCondition)
    (sortLength : UInt64) :
    Arranges conditions (order conditions) ∧
    (p.plan (order conditions) sortLength = .sort ↔ conditions = []) ∧
    (p.plan (order conditions) sortLength = .indexDriven →
      ∃ driver others, order conditions = driver :: others ∧ driver.canIterate = true ∧
        driver.length ≤ p.cap.toNat ∧
        ∀ c ∈ conditions, c.canIterate = true → driver.length ≤ c.length) ∧
    (∀ (catalog : Catalog) (ranking : Ranking) (page : Page) (result : ResultSet),
      ∃ filled, (p.plan (order conditions) sortLength).execute catalog ranking
        (order conditions) page result = .ok filled) ∧
    (conditions ≠ [] → (∀ c ∈ conditions, c.canIterate = true → p.cap.toNat < c.length) →
      p.plan (order conditions) sortLength = .sortDriven) := by
  have arranges := arranges_order conditions
  generalize order conditions = ordered at arranges
  have sameLength := arranges.perm.length_eq
  refine ⟨arranges, ?_, fun driven => ?_, ?_, fun any long => ?_⟩
  · rw [plan_eq_sort, ← List.length_eq_zero_iff, sameLength, List.length_eq_zero_iff]
  · cases ordered with
    | nil => cases driven
    | cons driver others =>
        exact ⟨driver, others, rfl, canIterate_of_indexDriven driven,
          length_le_of_indexDriven driven, fun c listed drives =>
            (arranges.first listed drives).2⟩
  · apply Plan.exists_execute
    intro driven driver first
    obtain ⟨others, rfl⟩ := List.head?_eq_some_iff.mp first
    exact canIterate_of_indexDriven driven
  · cases ordered with
    | nil => exact absurd (List.length_eq_zero_iff.mp sameLength.symm) any
    | cons driver others =>
        have listed : driver ∈ conditions := arranges.perm.mem_iff.mp List.mem_cons_self
        exact plan_eq_sortDriven (long driver listed) others sortLength

end Planner

end RankedQuery
