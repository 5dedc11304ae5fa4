import RankedQuery.Proofs.OrderedMaps
import RankedQuery.Proofs.Ranking.Walk
import RankedQuery.Sorting

/-!
# Dynamic rankings as maps of scores

A dynamic ranking is a map from documents to scores, looked at in (score, id)
order.  `Shows` says what that means for every way of reading a ranking, in
terms of the map alone.  Any sequence of changes gives the answers that a plain
map gives and leaves a ranking that shows the plain map.
-/

namespace RankedQuery

/-! ## Maps of scores -/

namespace ScoreMap

def entries (scores : ScoreMap) : List Scored :=
  scores.toList.map fun (id, score) => ⟨score, id⟩

def inOrder (scores : ScoreMap) : List DocId :=
  (sortStable (fun a b => ¬ b.Before a) (entries scores)).map (·.id)

theorem mem_entries {scores : ScoreMap} {score : Score} {id : DocId} :
    ⟨score, id⟩ ∈ entries scores ↔ scores[id]? = some score := by
  simp only [entries, List.mem_map, Scored.mk.injEq, Prod.exists]
  constructor
  · rintro ⟨_, _, listed, rfl, rfl⟩
    exact Std.ExtTreeMap.mem_toList_iff_getElem?_eq_some.mp listed
  · intro held
    exact ⟨id, score, Std.ExtTreeMap.mem_toList_iff_getElem?_eq_some.mpr held, rfl, rfl⟩

theorem nodup_entries (scores : ScoreMap) : (entries scores).Nodup := by
  refine List.pairwise_map.mpr ((nodup_toList scores).imp fun {a b} apart same => apart ?_)
  simp only [Scored.mk.injEq] at same
  exact Prod.ext same.2 same.1

theorem length_entries (scores : ScoreMap) : (entries scores).length = scores.size := by
  simp [entries]

end ScoreMap

/-! ## A dynamic ranking and its map -/

namespace DynamicRanking

theorem perm_entries (r : DynamicRanking) : r.entries.Perm (ScoreMap.entries r.scores) := by
  have distinct : r.entries.Nodup :=
    r.ordered_entries.imp fun earlier => earlier.ne
  refine (List.perm_ext_iff_of_nodup distinct (ScoreMap.nodup_entries _)).mpr ?_
  rintro ⟨score, id⟩
  rw [mem_entries, ScoreMap.mem_entries, getElem?_scores]

theorem ids_eq_inOrder (r : DynamicRanking) :
    r.entries.map (·.id) = ScoreMap.inOrder r.scores := by
  have order : Preorders fun a b : Scored => decide (¬ b.Before a) := by
    constructor
    · intro a b
      by_cases earlier : b.Before a
      · simp [earlier, earlier.asymm]
      · simp [earlier]
    · intro a b c
      simp only [Scored.before_iff, decide_eq_true_eq]
      omega
  have antisymm : ∀ a b : Scored, a ∈ r.entries →
      b ∈ sortStable (fun a b => ¬ b.Before a) (ScoreMap.entries r.scores) →
      ¬ b.Before a → ¬ a.Before b → a = b := by
    intro a b _ _ notAfter notBefore
    by_contra apart
    rcases Scored.before_or_before apart with earlier | later
    · exact notBefore earlier
    · exact notAfter later
  rw [ScoreMap.inOrder]
  congr 1
  refine List.Perm.eq_of_pairwise antisymm ?_ ?_ ?_
  · exact r.ordered_entries.imp fun earlier => earlier.asymm
  · simpa using pairwise_sortStable order (ScoreMap.entries r.scores)
  · exact r.perm_entries.trans (perm_sortStable _ _).symm

end DynamicRanking

/-! ## What a ranking shows -/

/-- The ranking reads as the map in (score, id) order. -/
structure Ranking.Shows (r : Ranking) (scores : ScoreMap) : Prop where
  size : r.size = scores.size
  contains : ∀ id, r.contains id = scores.contains id
  score? : ∀ id, r.score? id = scores[id]?
  rank? : ∀ id, r.rank? id = scores[id]?.map fun score =>
    (ScoreMap.entries scores).countP (·.Before ⟨score, id⟩)
  lowerBound : ∀ score, r.lowerBound score =
    (ScoreMap.entries scores).countP (·.score < score)
  upperBound : ∀ score, r.upperBound score =
    (ScoreMap.entries scores).countP (·.score ≤ score)
  walks : ∃ listed : List Scored,
    listed.Pairwise Scored.Before ∧
      (∀ score id, ⟨score, id⟩ ∈ listed ↔ scores[id]? = some score) ∧
      (∀ position, (r.seek? position).map r.idAt = (listed.map (·.id))[position]?) ∧
      (∀ count, ((r.cursor .asc).take count).1 = (listed.map (·.id)).take count) ∧
      ∀ count, ((r.cursor .desc).take count).1 = (listed.map (·.id)).reverse.take count

theorem DynamicRanking.shows (d : DynamicRanking) (name : String) :
    Ranking.Shows ⟨name, .dynamic d⟩ d.scores where
  size := by
    rw [← ScoreMap.length_entries, ← d.perm_entries.length_eq]
    exact d.size_eq
  contains id := by
    rw [Std.ExtTreeMap.contains_eq_isSome_getElem?, d.getElem?_scores]
    rfl
  score? id := (d.getElem?_scores id).symm
  rank? id := by
    rw [d.getElem?_scores]
    refine (d.rank?_eq id).trans ?_
    congr 1
    funext score
    exact d.perm_entries.countP_eq _
  lowerBound score := (d.lowerBound_eq score).trans (d.perm_entries.countP_eq _)
  upperBound score := (d.upperBound_eq score).trans (d.perm_entries.countP_eq _)
  walks := ⟨d.entries, d.ordered_entries,
    fun score id => mem_entries.trans (by rw [d.getElem?_scores]),
    fun position => by
      rw [Ranking.seek?_eq, ← List.getElem?_map, Ranking.map_idAt_slots]
      rfl,
    Ranking.take_cursor _ .asc, Ranking.take_cursor _ .desc⟩

/-! ## Changes -/

inductive ScoreChange where
  | set (id : DocId) (score : Score) (draws : Nat := 0)
  | remove (id : DocId)
  deriving DecidableEq, Repr

namespace ScoreChange

def toRanking (change : ScoreChange) (r : Ranking) : Except Error (Bool × Ranking) :=
  match change with
  | set id score draws => r.set id score draws
  | remove id => r.remove id

def toMap (change : ScoreChange) (scores : ScoreMap) : Bool × ScoreMap :=
  match change with
  | set id score _ => (scores[id]? ≠ some score, scores.insert id score)
  | remove id => (scores.contains id, scores.erase id)

def allToRanking : List ScoreChange → Ranking → Except Error (List Bool × Ranking)
  | [], r => .ok ([], r)
  | change :: changes, r => do
      let (answer, r) ← change.toRanking r
      let (answers, r) ← allToRanking changes r
      return (answer :: answers, r)

def allToMap : List ScoreChange → ScoreMap → List Bool × ScoreMap
  | [], scores => ([], scores)
  | change :: changes, scores =>
      let (answer, scores) := change.toMap scores
      let (answers, scores) := allToMap changes scores
      (answer :: answers, scores)

theorem toRanking_dynamic (change : ScoreChange) (name : String) (d : DynamicRanking) :
    ∃ d' : DynamicRanking,
      change.toRanking ⟨name, .dynamic d⟩ =
        .ok ((change.toMap d.scores).1, ⟨name, .dynamic d'⟩) ∧
      d'.scores = (change.toMap d.scores).2 := by
  cases change with
  | set id score draws =>
      refine ⟨(d.set id score draws).2, ?_, d.scores_set id score draws⟩
      simp only [toRanking, toMap, Ranking.set, d.set_fst, d.getElem?_scores]
  | remove id =>
      refine ⟨(d.remove id).2, ?_, d.scores_remove id⟩
      simp only [toRanking, toMap, Ranking.remove, d.remove_fst,
        Std.ExtTreeMap.contains_eq_isSome_getElem?, d.getElem?_scores]

theorem allToRanking_dynamic (changes : List ScoreChange) (name : String)
    (d : DynamicRanking) :
    ∃ d' : DynamicRanking,
      allToRanking changes ⟨name, .dynamic d⟩ =
        .ok ((allToMap changes d.scores).1, ⟨name, .dynamic d'⟩) ∧
      d'.scores = (allToMap changes d.scores).2 := by
  induction changes generalizing d with
  | nil => exact ⟨d, rfl, rfl⟩
  | cons change changes ih =>
      obtain ⟨once, first, firstScores⟩ := change.toRanking_dynamic name d
      obtain ⟨last, others, otherScores⟩ := ih once
      rw [firstScores] at others otherScores
      refine ⟨last, ?_, otherScores⟩
      simp only [allToRanking, allToMap, first, bind, Except.bind, others, pure, Except.pure]

end ScoreChange

/-- A dynamic ranking is a map from documents to scores in (score, id) order: with
any number of levels and whatever heights are drawn, every sequence of changes of an
empty one answers as a plain map does, and leaves a ranking that shows the map. -/
theorem Ranking.dynamic_shows_map (name : String) (maxLevel : Nat)
    (changes : List ScoreChange) :
    ∃ r : Ranking,
      ScoreChange.allToRanking changes (.dynamic name maxLevel) =
        .ok ((ScoreChange.allToMap changes ∅).1, r) ∧
      r.Shows (ScoreChange.allToMap changes ∅).2 := by
  obtain ⟨d, changed, scores⟩ :=
    ScoreChange.allToRanking_dynamic changes name (.empty maxLevel)
  rw [DynamicRanking.scores_empty] at changed scores
  refine ⟨⟨name, .dynamic d⟩, changed, ?_⟩
  have shown := d.shows name
  rw [scores] at shown
  exact shown

end RankedQuery
