import RankedQuery.Proofs.Engine.Run
import RankedQuery.Proofs.Scan.Outdated

/-!
# Windows whose positions shift

A ranked condition is bound to the positions of its documents, and lists what is
at these positions now.  When documents before them come or go, the documents
that satisfy the condition move within their sort and may leave the window, so
that a scan which lists them misses them, although they satisfy all conditions
before and after.  It misses nothing as long as the window covers the positions
that the condition would be bound to now.
-/

namespace RankedQuery

/-! ## What a window lists -/

namespace Ranking

variable (r : Ranking)

theorem mem_slice {start stop : Nat} {id : DocId} :
    id ∈ (r.ids.take stop).drop start ↔
      ∃ position, r.rank? id = some position ∧ start ≤ position ∧ position < stop := by
  simp only [List.mem_iff_getElem?, List.getElem?_drop, List.getElem?_take, rank?_eq_some]
  constructor
  · rintro ⟨index, held⟩
    split at held
    next inside => exact ⟨start + index, held, Nat.le_add_right _ _, inside⟩
    next => cases held
  · rintro ⟨position, held, first, last⟩
    refine ⟨position - start, ?_⟩
    rw [Nat.add_sub_cancel' first, if_pos last]
    exact held

end Ranking

def Catalog.window (c : Catalog) (sort : Handle Ranking) (test : ScoreTest) : Nat × Nat :=
  (c.rankings.read sort).positions test.window?

namespace Binding

variable {b : Binding} {name : String} {sort : Handle Ranking} {test : ScoreTest}

theorem bound_eq_ofSort (isRanked : b.condition = .ranked name test)
    (registered : b.catalog.sort? name = some sort) :
    b.bound = .ofSort b.catalog (Condition.ranked name test).key sort test := by
  have binds := b.binds
  rw [isRanked, Condition.bind_ranked registered] at binds
  exact (Except.ok.inj binds).symm

theorem holds_eq_passes (isRanked : b.condition = .ranked name test)
    (registered : b.catalog.sort? name = some sort) (now : Catalog) (id : DocId) :
    b.holds now id = ((now.rankings.read sort).score? id).any test.holds := by
  rw [holds, isRanked, Condition.holdsSince, registered, Option.any_some]

theorem list_bound (isRanked : b.condition = .ranked name test)
    (registered : b.catalog.sort? name = some sort) (now : Catalog) :
    b.bound.list now .asc = .ok (((now.rankings.read sort).ids.take
      (b.catalog.window sort test).2).drop (b.catalog.window sort test).1) := by
  rw [bound_eq_ofSort isRanked registered]
  simp only [BoundCondition.list, BoundCondition.ofSort, Ranking.rest_window, Direction.arrange]
  rfl

theorem mem_window_of_holds (isRanked : b.condition = .ranked name test)
    (registered : b.catalog.sort? name = some sort) {now : Catalog} {id : DocId}
    (satisfied : b.holds now id = true) :
    ∃ position, (now.rankings.read sort).rank? id = some position ∧
      (now.window sort test).1 ≤ position ∧ position < (now.window sort test).2 := by
  rw [holds_eq_passes isRanked registered] at satisfied
  have held : id ∈ (now.rankings.read sort).ids := by
    rw [Ranking.mem_ids]
    cases scored : (now.rankings.read sort).score? id with
    | none => simp [scored] at satisfied
    | some score => rfl
  have passes : id ∈ (now.rankings.read sort).passing test :=
    List.mem_filter.mpr ⟨held, satisfied⟩
  rw [Ranking.passing_eq_slice] at passes
  exact (now.rankings.read sort).mem_slice.mp passes

end Binding

/-! ## Scans from outdated windows -/

theorem ResultSet.ShowsPage.ids_eq {result : ResultSet} {page : Page} {found : List DocId}
    (shows : result.ShowsPage page found) (start : page.offset = 0)
    (room : found.length ≤ page.limit.toNat) : result.ids = found := by
  rw [shows.ids, start, UInt64.toNat_zero, List.drop_zero, List.take_of_length_le room]

/-- Listing a ranked condition that was bound earlier finds the matches of now that
are, now, at the positions of its window.  These are all matches if the window
covers the positions that the condition would be bound to now. -/
theorem Plan.indexDriven_in_window (now : Catalog) (ranking : Ranking) {first : Binding}
    {name : String} {sort : Handle Ranking} {test : ScoreTest}
    (isRanked : first.condition = .ranked name test)
    (registered : first.catalog.sort? name = some sort) (others : List Binding) {page : Page}
    (start : page.offset = 0) (room : ranking.size ≤ page.limit.toNat) :
    let bindings := first :: others
    let window := first.catalog.window sort test
    ∃ result,
      Plan.indexDriven.execute now ranking (bindings.map (·.bound)) page {} = .ok result ∧
      (∀ id, id ∈ result.ids ↔
        id ∈ ranking.ids ∧ (∀ b ∈ bindings, b.holds now id = true) ∧
        ∃ position, (now.rankings.read sort).rank? id = some position ∧
          window.1 ≤ position ∧ position < window.2) ∧
      (window.1 ≤ (now.window sort test).1 → (now.window sort test).2 ≤ window.2 →
        result.ids = Binding.matching now ranking bindings page.direction) := by
  intro bindings window
  let matching := Binding.matching now ranking bindings page.direction
  let listed := ((now.rankings.read sort).ids.take window.2).drop window.1
  obtain ⟨result, scans, answers⟩ := Scan.indexDriven_listed now ranking page
    (first.list_bound isRanked registered now) (others.map (·.bound))
  have accepted : Scan.accepted now ranking (first.bound :: others.map (·.bound))
      page.direction = matching := Binding.accepted_bound now ranking bindings page.direction
  rw [accepted] at answers
  have inside : (matching.filter listed.contains).Sublist (page.direction.arrange ranking.ids) :=
    List.filter_sublist.trans (Binding.matching_sublist now ranking bindings page.direction)
  have few : (matching.filter listed.contains).length ≤ page.limit.toNat := by
    have length := inside.length_le
    rw [Direction.length_arrange, ← Ranking.size_eq] at length
    exact Nat.le_trans length room
  have ids : result.ids = matching.filter listed.contains := answers.toShowsPage.ids_eq start few
  refine ⟨result, scans, fun id => ?_, fun before behind => ?_⟩
  · rw [ids, List.mem_filter, List.contains_iff_mem, Ranking.mem_slice, Binding.mem_matching,
      and_assoc]
  · rw [ids, List.filter_eq_self]
    intro id found
    have satisfied := (Binding.mem_matching.mp found).2 first List.mem_cons_self
    obtain ⟨position, held, low, high⟩ :=
      Binding.mem_window_of_holds isRanked registered satisfied
    exact List.contains_iff_mem.mpr ((now.rankings.read sort).mem_slice.mpr
      ⟨position, held, Nat.le_trans before low, Nat.lt_of_lt_of_le high behind⟩)

/-! ## A document that is hidden -/

namespace Plan

private def atLeastTen : Condition := .ranked "n" (.greaterThanOrEqual 10)

private def bindAtLeastTen {c : Catalog} (registered : c.sort? "n" = some ⟨0⟩) : Binding where
  catalog := c
  condition := atLeastTen
  bound := .ofSort c atLeastTen.key ⟨0⟩ (.greaterThanOrEqual 10)
  binds := Condition.bind_ranked registered _

private def wholeSort : Page := { offset := 0, limit := 10, maxTotal := 1000 }

private def twoScored (e : Engine) : Run :=
  [Operation.createSort "n", .setScore "n" 1 10, .setScore "n" 3 20].foldl Run.after (.ofEngine e)

private def oneBefore (r : Run) : Run := r.after (.setScore "n" 2 5)

private theorem exists_ok {answer : Except Error ResultSet} {ids : List DocId}
    (listed : answer.toOption.map (·.ids) = some ids) :
    ∃ result, answer = .ok result ∧ result.ids = ids := by
  cases answer with
  | error error => cases listed
  | ok result => exact ⟨result, rfl, Option.some.inj listed⟩

private theorem lastIsHidden :
    ∃ e, Engine.create {} = .ok e ∧
      let earlier := (twoScored e).catalog
      let now := (oneBefore (twoScored e)).catalog
      let ranking := now.rankings.read ⟨0⟩
      earlier.sort? "n" = some ⟨0⟩ ∧ ranking.size ≤ wholeSort.limit.toNat ∧
      ranking.ids = [2, 1, 3] ∧
      atLeastTen.holdsSince earlier now 1 = true ∧
      (atLeastTen.holdsSince earlier earlier 3 = true ∧
        atLeastTen.holdsSince earlier now 3 = true) ∧
      earlier.window ⟨0⟩ (.greaterThanOrEqual 10) = (0, 2) ∧
      (Plan.indexDriven.execute now ranking
        [.ofSort earlier atLeastTen.key ⟨0⟩ (.greaterThanOrEqual 10)] wholeSort {}).toOption.map
          (·.ids) = some [1] :=
  ⟨_, rfl, by decide +kernel⟩

theorem indexDriven_in_window_of_shifted :
    ∃ (now : Catalog) (first : Binding) (result : ResultSet),
      first.condition = atLeastTen ∧ first.catalog.sort? "n" = some ⟨0⟩ ∧
      wholeSort.offset = 0 ∧ (now.rankings.read ⟨0⟩).size ≤ wholeSort.limit.toNat ∧
      Plan.indexDriven.execute now (now.rankings.read ⟨0⟩) [first.bound] wholeSort {} =
        .ok result ∧
      1 ∈ result.ids ∧ 3 ∉ result.ids := by
  obtain ⟨e, -, registered, room, ids, firstHolds, -, window, -⟩ := lastIsHidden
  let first := bindAtLeastTen registered
  have isRanked : first.condition = .ranked "n" (.greaterThanOrEqual 10) := rfl
  have start : wholeSort.offset = 0 := rfl
  obtain ⟨result, scans, shown, -⟩ := indexDriven_in_window (oneBefore (twoScored e)).catalog
    ((oneBefore (twoScored e)).catalog.rankings.read ⟨0⟩) isRanked registered [] start room
  simp only [show first.catalog.window ⟨0⟩ (.greaterThanOrEqual 10) = (0, 2) from window,
    Ranking.rank?_eq_some, ids] at shown
  refine ⟨_, first, result, isRanked, registered, start, room, scans, ?_, ?_⟩
  · refine (shown 1).mpr ⟨by decide, fun b given => ?_, 1, rfl, by decide, by decide⟩
    obtain rfl := List.mem_singleton.mp given
    exact firstHolds
  · intro listed
    obtain ⟨-, -, position, held, -, inWindow⟩ := (shown 3).mp listed
    obtain rfl | rfl : position = 0 ∨ position = 1 := by omega
    · simp at held
    · simp at held

/-- Both documents satisfy the condition when it is bound and when the scan runs,
but the last one has left the window. -/
theorem not_shows_all_that_match_throughout :
    ¬ ∀ (config : Config) (r r' : Run) (name : String) (test : ScoreTest) (first : Binding)
        (others : List Binding) (sort : Handle Ranking) (page : Page) (result : ResultSet),
      r.Reached config → r.LeadsTo r' → first.condition = .ranked name test →
      (∀ b ∈ first :: others, b.catalog = r.catalog) →
      let ranking := r'.catalog.rankings.read sort
      page.offset = 0 → ranking.size ≤ page.limit.toNat →
      Plan.indexDriven.execute r'.catalog ranking ((first :: others).map (·.bound)) page {} =
        .ok result →
      ∀ id ∈ ranking.ids,
        (∀ b ∈ first :: others, b.holds r.catalog id = true ∧ b.holds r'.catalog id = true) →
        id ∈ result.ids := by
  intro allShown
  obtain ⟨e, created, registered, room, ids, -, lastHolds, -, scanned⟩ := lastIsHidden
  have leads : (twoScored e).LeadsTo (oneBefore (twoScored e)) := .step .refl trivial
  have reached : (twoScored e).Reached {} :=
    ⟨e, created, Run.LeadsTo.refl.foldl (by simp [Run.Allows])⟩
  let now := (oneBefore (twoScored e)).catalog
  let first := bindAtLeastTen registered
  obtain ⟨result, scans, listed⟩ := exists_ok scanned
  have boundBefore : ∀ b ∈ [first], b.catalog = (twoScored e).catalog := by
    intro b given
    rw [List.mem_singleton.mp given]
    rfl
  have throughout : ∀ b ∈ [first],
      b.holds (twoScored e).catalog 3 = true ∧ b.holds now 3 = true := by
    intro b given
    rw [List.mem_singleton.mp given]
    exact lastHolds
  have held : 3 ∈ (now.rankings.read ⟨0⟩).ids := by simp [now, ids]
  have found := allShown {} _ _ "n" _ first [] ⟨0⟩ wholeSort result reached leads rfl
    boundBefore rfl room scans 3 held throughout
  simp [listed] at found

end Plan

end RankedQuery
