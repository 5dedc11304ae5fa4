import RankedQuery.Proofs.Condition.Meaning

/-!
# Ranked conditions at binding

A test on scores becomes a window of scores, the window becomes two positions of
the sort, and a cursor reads the positions back as documents.  For a condition
that has just been bound nothing is lost or gained on the way, at the ends of the
range of scores as little as anywhere else: each view of it is the plain test on
the scores of the sort.
-/

namespace RankedQuery

/-- Both ends of a window are scores that pass, so that they do not cross. -/
theorem ScoreTest.low_le_high {test : ScoreTest} {low high : Score}
    (window : test.window? = some (low, high)) : low ≤ high := by
  cases test with
  | equal value =>
      cases window
      exact Int64.le_refl _
  | between low high =>
      simp only [window?] at window
      split at window
      next order =>
        cases window
        exact order
      next => cases window
  | lessThan value =>
      simp only [window?] at window
      split at window
      next => cases window
      next =>
        cases window
        exact Int64.minValue_le _
  | lessThanOrEqual value =>
      cases window
      exact Int64.minValue_le _
  | greaterThan value =>
      simp only [window?] at window
      split at window
      next => cases window
      next =>
        cases window
        exact Int64.le_maxValue _
  | greaterThanOrEqual value =>
      cases window
      exact Int64.le_maxValue _

/-! ## Documents by their scores -/

namespace Ranking

variable (r : Ranking)

def passing (test : ScoreTest) : List DocId :=
  r.ids.filter fun id => (r.score? id).any test.holds

theorem passing_eq (test : ScoreTest) :
    r.passing test = (r.entries.filter (test.holds ·.score)).map (·.id) := by
  rw [passing, ids_eq, List.filter_map]
  congr 1
  refine List.filter_congr fun e listed => ?_
  have scored : r.score? e.id = some e.score := mem_entries.mp listed
  simp [scored]

theorem upperBound_le_size (score : Score) : r.upperBound score ≤ r.ids.length := by
  rw [upperBound_eq, ids_eq, List.length_map]
  exact List.countP_le_length

theorem lowerBound_le_upperBound {low high : Score} (order : low ≤ high) :
    r.lowerBound low ≤ r.upperBound high := by
  rw [lowerBound_eq, upperBound_eq]
  refine List.countP_mono_left fun e _ below => ?_
  simp only [decide_eq_true_eq, Int64.le_iff_toInt_le, Int64.lt_iff_toInt_lt] at *
  omega

theorem passing_eq_slice (test : ScoreTest) :
    r.passing test =
      (r.ids.take (r.positions test.window?).2).drop (r.positions test.window?).1 := by
  have sameTest : r.entries.filter (test.holds ·.score) = r.entries.filter fun e =>
      test.window?.any fun ends => ends.1 ≤ e.score && e.score ≤ ends.2 :=
    List.filter_congr fun e _ => test.holds_eq_window e.score
  rw [passing_eq, sameTest]
  cases test.window? with
  | none => simp [positions]
  | some ends =>
      obtain ⟨low, high⟩ := ends
      rw [BoundCondition.positions_some, ids_eq, ← List.map_take, ← List.map_drop, slice_entries]
      rfl

theorem stop_eq_start_add (test : ScoreTest) :
    (r.positions test.window?).2 = (r.positions test.window?).1 + (r.passing test).length := by
  rw [passing_eq_slice, List.length_drop, List.length_take]
  cases window : test.window? with
  | none => simp [positions]
  | some ends =>
      obtain ⟨low, high⟩ := ends
      have inside := r.upperBound_le_size high
      have order := r.lowerBound_le_upperBound (ScoreTest.low_le_high window)
      rw [BoundCondition.positions_some]
      omega

/-- For an absent score the first and the last position cross by one. -/
theorem count_of_score (score : Score) :
    r.lastPosition score - r.firstPosition score + 1 =
      (r.ids.countP fun id => r.score? id = some score : Nat) := by
  have passing : r.passing (.equal score) = r.ids.filter fun id => r.score? id = some score := by
    refine List.filter_congr fun id _ => ?_
    cases r.score? id <;> simp [ScoreTest.holds]
  have stop := r.stop_eq_start_add (.equal score)
  rw [ScoreTest.window?, BoundCondition.positions_some, passing,
    ← List.countP_eq_length_filter] at stop
  simp only at stop
  simp only [lastPosition, firstPosition, stop]
  omega

end Ranking

/-! ## Views of a condition -/

namespace BoundCondition

variable (c : Catalog) (key : String) (sort : Handle Ranking) (test : ScoreTest)

theorem score?_ofSort (id : DocId) :
    (ofSort c key sort test).score? c id =
      ((c.rankings.read sort).score? id).filter test.holds := by
  have sameTest : test.holds = fun score =>
      test.window?.any fun ends => ends.1 ≤ score && score ≤ ends.2 :=
    funext test.holds_eq_window
  rw [sameTest]
  simp only [score?, ofSort]
  cases test.window? with
  | none => cases (c.rankings.read sort).score? id <;> rfl
  | some ends => rfl

theorem list_ofSort_passing (direction : Direction) :
    (ofSort c key sort test).list c direction =
      .ok (direction.arrange ((c.rankings.read sort).passing test)) := by
  rw [list_ofSort, Ranking.passing_eq]

theorem length_ofSort :
    (ofSort c key sort test).length = ((c.rankings.read sort).passing test).length := by
  have stop := (c.rankings.read sort).stop_eq_start_add test
  show ((c.rankings.read sort).positions test.window?).2 -
    ((c.rankings.read sort).positions test.window?).1 = _
  omega

end BoundCondition

/-- A ranked condition that has just been bound contains the documents whose score
passes its test, with their scores; its length is their number, its window of
positions is as wide, and it lists them in the order of the sort or in reverse.
So the first and the last position of a score tell how many documents have it. -/
theorem Condition.ranked_exact {c : Catalog} {name : String} {sort : Handle Ranking}
    (registered : c.sort? name = some sort) (test : ScoreTest) :
    let r := c.rankings.read sort
    ∃ bound, (Condition.ranked name test).bind c = .ok bound ∧
      (∀ id, bound.score? c id = (r.score? id).filter test.holds) ∧
      bound.length = (r.passing test).length ∧
      (∃ start stop, bound.positions? = some (start, stop) ∧ stop = start + bound.length) ∧
      bound.list c .asc = .ok (r.passing test) ∧
      bound.list c .desc = .ok (r.passing test).reverse ∧
      ∀ score, r.lastPosition score - r.firstPosition score + 1 =
        (r.ids.countP fun id => r.score? id = some score : Nat) := by
  intro r
  let key := (Condition.ranked name test).key
  have length := BoundCondition.length_ofSort c key sort test
  refine ⟨.ofSort c key sort test, bind_ranked registered test,
    BoundCondition.score?_ofSort c key sort test, length, ⟨_, _, rfl, ?_⟩,
    BoundCondition.list_ofSort_passing c key sort test .asc,
    BoundCondition.list_ofSort_passing c key sort test .desc, r.count_of_score⟩
  rw [length]
  exact r.stop_eq_start_add test

private def extremes : Catalog :=
  let c := (({} : Catalog).createSort "n").2
  c.updateSort ⟨0⟩ fun _ => ⟨"n", .dynamic
    ((((DynamicRanking.empty 4).set 1 Int64.maxValue 1).2.set 2 Int64.minValue 3).2.set 3 0 0).2⟩

theorem Condition.ranked_exact_of_extremes :
    extremes.sort? "n" = some ⟨0⟩ ∧
      ∃ bound, (Condition.ranked "n" (.greaterThan 0)).bind extremes = .ok bound ∧
        bound.length = 1 ∧ bound.list extremes .asc = .ok [1] ∧
        bound.score? extremes 1 = some Int64.maxValue ∧ bound.score? extremes 3 = none := by
  have registered : extremes.sort? "n" = some ⟨0⟩ := by decide +kernel
  obtain ⟨bound, binds, scores, length, -, lists, -, -⟩ :=
    ranked_exact registered (.greaterThan 0)
  have passing : (extremes.rankings.read ⟨0⟩).passing (.greaterThan 0) = [1] := by decide +kernel
  rw [passing] at length lists
  refine ⟨registered, bound, binds, length, lists, ?_, ?_⟩
  · rw [scores]
    decide +kernel
  · rw [scores]
    decide +kernel

end RankedQuery
