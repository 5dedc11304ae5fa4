import RankedQuery.Proofs.Scan.Words

/-!
# Scans over outdated conditions

A condition keeps the handles, the length and the window of positions of its
binding, while the data under it moves on: positions shift, a window may come to
lie beyond the end of its sort, and a name may lead elsewhere by now.  A scan
still asks every condition about each document, and what a condition accepts is
read when it is asked.  So no document is shown that does not match now.  Only
the window of a ranked driver can hide one: a walk over the sort and a driver
that lists an index miss nothing.
-/

namespace RankedQuery

structure Binding where
  catalog : Catalog
  condition : Condition
  bound : BoundCondition
  binds : condition.bind catalog = .ok bound

namespace Binding

/-- Whether a document now satisfies the condition, on what it was bound to. -/
def holds (now : Catalog) (id : DocId) (b : Binding) : Bool :=
  b.condition.holdsSince b.catalog now id

theorem accepts_bound (b : Binding) (now : Catalog) (id : DocId) :
    b.bound.accepts now id = b.holds now id := by
  obtain ⟨criterion, same, meaning⟩ := Condition.bind_since b.binds
  rw [same, Criterion.accepts_boundIn_since, meaning, holds]

theorem length_bound_le (b : Binding) : b.bound.length ≤ 2 ^ 32 := by
  obtain ⟨criterion, same, -⟩ := Condition.bind_since b.binds
  rw [same]
  exact criterion.length_boundIn_le b.catalog

theorem acceptsAll_bound (now : Catalog) (bindings : List Binding) :
    acceptsAll now (bindings.map (·.bound)) = fun id => bindings.all (·.holds now id) := by
  funext id
  simp [acceptsAll, Function.comp_def, accepts_bound]

def matching (now : Catalog) (ranking : Ranking) (bindings : List Binding)
    (direction : Direction) : List DocId :=
  (direction.arrange ranking.ids).filter fun id => bindings.all (·.holds now id)

theorem accepted_bound (now : Catalog) (ranking : Ranking) (bindings : List Binding)
    (direction : Direction) :
    Scan.accepted now ranking (bindings.map (·.bound)) direction =
      matching now ranking bindings direction := by
  rw [Scan.accepted, acceptsAll_bound, matching]

theorem mem_matching {now : Catalog} {ranking : Ranking} {bindings : List Binding}
    {direction : Direction} {id : DocId} :
    id ∈ matching now ranking bindings direction ↔
      id ∈ ranking.ids ∧ ∀ b ∈ bindings, b.holds now id = true := by
  rw [matching, List.mem_filter, Direction.mem_arrange, List.all_eq_true]

theorem matching_sublist (now : Catalog) (ranking : Ranking) (bindings : List Binding)
    (direction : Direction) :
    (matching now ranking bindings direction).Sublist (direction.arrange ranking.ids) :=
  List.filter_sublist

end Binding

theorem BoundCondition.list_of_isSet {c : BoundCondition} (isSet : c.isSet = true)
    (now : Catalog) :
    ∃ listed, c.list now .asc = .ok listed ∧ ∀ id, id ∈ listed ↔ c.accepts now id = true := by
  obtain ⟨key, length, target⟩ := c
  cases target with
  | ranked sort window start stop => cases isSet
  | set index =>
      refine ⟨_, rfl, fun id => ?_⟩
      have asked : accepts now ⟨key, length, .set index⟩ id = now.holds index id :=
        accepts_ofIndex now index id
      rw [asked]
      exact Index.mem_ids
  | union members => cases isSet

namespace Scan

variable (now : Catalog) (ranking : Ranking) (page : Page)

theorem execute_showsPage {plan : Plan} {conditions : List BoundCondition} {result : ResultSet}
    (asks : plan ≠ .sort) (scanned : plan.execute now ranking conditions page {} = .ok result) :
    ∃ found, found.Sublist (accepted now ranking conditions page.direction) ∧
      result.ShowsPage page found := by
  cases plan with
  | sort => exact absurd rfl asks
  | sortDriven =>
      cases scanned
      exact ⟨_, List.Sublist.refl _,
        (sortDriven_accepted now ranking page conditions).toShowsPage⟩
  | indexDriven =>
      cases conditions with
      | nil =>
          cases scanned
          have everything :
              accepted now ranking [] page.direction = page.direction.arrange ranking.ids := by
            simp [accepted, acceptsAll]
          rw [everything]
          exact ⟨_, List.Sublist.refl _, sort_showsPage ranking page⟩
      | cons driver others =>
          simp only [Plan.execute] at scanned
          cases lists : driver.list now .asc with
          | error error => simp [indexDriven, lists, bind, Except.bind] at scanned
          | ok listed =>
              obtain ⟨shown, scans, answers⟩ := indexDriven_listed now ranking page lists others
              rw [scans] at scanned
              cases scanned
              exact ⟨_, List.filter_sublist, answers.toShowsPage⟩

end Scan

end RankedQuery
