import RankedQuery.Proofs.Ranking.Pushes
import RankedQuery.Proofs.Ranking.Scores

/-!
# Rankings that readers cannot tell apart

Two rankings with the same scored documents in the same order read alike,
whatever kind they are of: every view of a ranking is one of its entries.
Cursors over them go through different slots, but whatever is asked of both in
turn gives the same answers.
-/

namespace RankedQuery

/-! ## Rankings -/

def Ranking.Alike (r r' : Ranking) : Prop := r.entries = r'.entries

namespace Ranking.Alike

variable {r r' : Ranking}

theorem refl (r : Ranking) : r.Alike r := rfl

theorem ids (alike : r.Alike r') : r.ids = r'.ids := by
  rw [Ranking.ids_eq, Ranking.ids_eq, alike]

theorem size (alike : r.Alike r') : r.size = r'.size := by
  rw [Ranking.size_eq, Ranking.size_eq, alike.ids]

theorem score? (alike : r.Alike r') (id : DocId) : r.score? id = r'.score? id := by
  ext score
  show r.score? id = some score ↔ r'.score? id = some score
  rw [← Ranking.mem_entries, ← Ranking.mem_entries, alike]

theorem contains (alike : r.Alike r') (id : DocId) : r.contains id = r'.contains id := by
  rw [Ranking.contains, Ranking.contains, alike.score?]

theorem rank? (alike : r.Alike r') (id : DocId) : r.rank? id = r'.rank? id := by
  ext position
  show r.rank? id = some position ↔ r'.rank? id = some position
  rw [Ranking.rank?_eq_some, Ranking.rank?_eq_some, alike.ids]

theorem lowerBound (alike : r.Alike r') (score : Score) :
    r.lowerBound score = r'.lowerBound score := by
  rw [Ranking.lowerBound_eq, Ranking.lowerBound_eq, alike]

theorem upperBound (alike : r.Alike r') (score : Score) :
    r.upperBound score = r'.upperBound score := by
  rw [Ranking.upperBound_eq, Ranking.upperBound_eq, alike]

theorem firstPosition (alike : r.Alike r') (score : Score) :
    r.firstPosition score = r'.firstPosition score := by
  rw [Ranking.firstPosition, Ranking.firstPosition, alike.lowerBound]

theorem lastPosition (alike : r.Alike r') (score : Score) :
    r.lastPosition score = r'.lastPosition score := by
  rw [Ranking.lastPosition, Ranking.lastPosition, alike.upperBound]

end Ranking.Alike

/-! ## Cursors -/

namespace Cursor

inductive Action where
  | range (first last : UInt64)
  | offset (skip : UInt64)
  | next
  deriving DecidableEq, Repr

def act (c : Cursor) : Action → Option DocId × Cursor
  | .range first last => (none, c.range first last)
  | .offset skip => (none, c.offset skip.toNat)
  | .next => c.next

def answers : List Action → Cursor → List (Option DocId)
  | [], _ => []
  | action :: actions, c => (c.act action).1 :: answers actions (c.act action).2

/-- The two cursors have the same settings before the first step, and the same
documents to give afterwards. -/
structure Alike (c c' : Cursor) : Prop where
  ranking : c.ranking.Alike c'.ranking
  direction : c.direction = c'.direction
  start : c.start = c'.start
  stop : c.stop = c'.stop
  skip : c.skip = c'.skip
  pending : c.state = .pending ↔ c'.state = .pending
  ahead : c.state ≠ .pending →
    ahead c.ranking c.direction c.state = ahead c'.ranking c'.direction c'.state
  valid : c.Valid
  valid' : c'.Valid

namespace Alike

variable {c c' : Cursor}

theorem remaining (alike : c.Alike c') : c.remaining = c'.remaining := by
  by_cases pending : c.state = .pending
  · simp only [Cursor.remaining, pending, alike.pending.mp pending, alike.ranking.ids,
      alike.direction, alike.start, alike.stop, alike.skip]
  · have started : c'.state ≠ .pending := fun pending' => pending (alike.pending.mpr pending')
    rw [remaining_of_ne_pending pending, remaining_of_ne_pending started]
    exact alike.ahead pending

theorem next (alike : c.Alike c') :
    c.next.1 = c'.next.1 ∧ c.next.2.Alike c'.next.2 := by
  obtain ⟨state, started, step, inside, ahead⟩ := next_eq alike.valid
  obtain ⟨state', started', step', inside', ahead'⟩ := next_eq alike.valid'
  rw [step, step', alike.remaining]
  refine ⟨rfl, ?_⟩
  constructor
  · exact alike.ranking
  · exact alike.direction
  · exact alike.start
  · exact alike.stop
  · exact alike.skip
  · simp [started, started']
  · intro _
    simp only [ahead, ahead', alike.remaining]
  · exact ⟨alike.valid.stop_le, inside⟩
  · exact ⟨alike.valid'.stop_le, inside'⟩

theorem window (alike : c.Alike c') (start stop : Nat) :
    (c.window start stop).Alike (c'.window start stop) where
  ranking := alike.ranking
  direction := alike.direction
  start := rfl
  stop := by simp only [Cursor.window, alike.ranking.size]
  skip := alike.skip
  pending := alike.pending
  ahead := alike.ahead
  valid := ⟨Nat.min_le_right _ _, alike.valid.inside⟩
  valid' := ⟨Nat.min_le_right _ _, alike.valid'.inside⟩

theorem offset (alike : c.Alike c') (skip : Nat) : (c.offset skip).Alike (c'.offset skip) where
  ranking := alike.ranking
  direction := alike.direction
  start := alike.start
  stop := alike.stop
  skip := rfl
  pending := alike.pending
  ahead := alike.ahead
  valid := ⟨alike.valid.stop_le, alike.valid.inside⟩
  valid' := ⟨alike.valid'.stop_le, alike.valid'.inside⟩

theorem take (alike : c.Alike c') (count : Nat) :
    (c.take count).1 = (c'.take count).1 ∧ (c.take count).2.Alike (c'.take count).2 := by
  induction count generalizing c c' with
  | zero => exact ⟨rfl, alike⟩
  | succ count ih =>
      obtain ⟨same, after⟩ := alike.next
      unfold Cursor.take
      cases step : c.next with
      | mk id further =>
          cases step' : c'.next with
          | mk id' further' =>
              rw [step, step'] at same after
              obtain rfl : id = id' := same
              cases id with
              | none => exact ⟨rfl, after⟩
              | some id =>
                  obtain ⟨ids, last⟩ := ih after
                  exact ⟨congrArg (id :: ·) ids, last⟩

theorem rest (alike : c.Alike c') : c.rest = c'.rest := by
  rw [Cursor.rest, Cursor.rest, alike.ranking.size]
  exact (alike.take _).1

theorem act (alike : c.Alike c') (action : Action) :
    (c.act action).1 = (c'.act action).1 ∧ (c.act action).2.Alike (c'.act action).2 := by
  cases action with
  | range first last => exact ⟨rfl, alike.window first.toNat _⟩
  | offset skip => exact ⟨rfl, alike.offset skip.toNat⟩
  | next => exact alike.next

theorem answers (alike : c.Alike c') (actions : List Action) :
    answers actions c = answers actions c' := by
  induction actions generalizing c c' with
  | nil => rfl
  | cons action actions ih =>
      obtain ⟨same, after⟩ := alike.act action
      simp only [Cursor.answers]
      rw [same, ih after]

end Alike

end Cursor

theorem Ranking.Alike.cursor {r r' : Ranking} (alike : r.Alike r') (direction : Direction) :
    (r.cursor direction).Alike (r'.cursor direction) where
  ranking := alike
  direction := rfl
  start := rfl
  stop := alike.size
  skip := rfl
  pending := Iff.rfl
  ahead started := absurd rfl started
  valid := r.valid_cursor direction
  valid' := r'.valid_cursor direction

/-! ## A static ranking as scores -/

def ScoreChange.ofPositions (draws : DocId → Nat) (placed : List (DocId × Nat)) :
    List ScoreChange :=
  placed.map fun (id, position) => .set id (Int64.ofNat position) (draws id)

theorem ScoreChange.allToMap_ofPositions (draws : DocId → Nat) {placed : List (DocId × Nat)}
    (distinct : (placed.map (·.1)).Nodup) (scores : ScoreMap) {id : DocId} {score : Score} :
    (allToMap (ofPositions draws placed) scores).2[id]? = some score ↔
      (∃ position, (id, position) ∈ placed ∧ Int64.ofNat position = score) ∨
        id ∉ placed.map (·.1) ∧ scores[id]? = some score := by
  induction placed generalizing scores with
  | nil => simp [ofPositions, allToMap]
  | cons first placed ih =>
      obtain ⟨firstId, position⟩ := first
      obtain ⟨fresh, distinct⟩ := List.nodup_cons.mp distinct
      have others := ih distinct (scores.insert firstId (Int64.ofNat position))
      simp only [ofPositions] at others
      simp only [ofPositions, List.map_cons, allToMap, toMap, others,
        Std.ExtTreeMap.getElem?_insert, Std.LawfulEqCmp.compare_eq_iff_eq]
      by_cases here : firstId = id
      · subst here
        have absent : ∀ position, (firstId, position) ∉ placed := fun position inside =>
          fresh (List.mem_map.mpr ⟨_, inside, rfl⟩)
        have unlisted : firstId ∉ placed.map (·.1) := fresh
        simp [absent, unlisted]
      · simp [here, Ne.symm here]

/-- In whatever order the documents of a static ranking are given their positions
as scores, the dynamic ranking that results has the same entries. -/
theorem StaticRanking.alike_dynamic (s : StaticRanking) (name name' : String) (maxLevel : Nat)
    (draws : DocId → Nat) {placed : List (DocId × Nat)} (perm : placed.Perm s.toList.zipIdx) :
    ∃ r : Ranking,
      ScoreChange.allToRanking (ScoreChange.ofPositions draws placed) (.dynamic name' maxLevel) =
        .ok ((ScoreChange.allToMap (ScoreChange.ofPositions draws placed) ∅).1, r) ∧
      Ranking.Alike ⟨name, .static s⟩ r := by
  obtain ⟨d, changed, scores⟩ :=
    ScoreChange.allToRanking_dynamic (ScoreChange.ofPositions draws placed) name'
      (.empty maxLevel)
  rw [DynamicRanking.scores_empty] at changed scores
  refine ⟨⟨name', .dynamic d⟩, changed, ?_⟩
  have distinct : (placed.map (·.1)).Nodup := by
    rw [(perm.map _).nodup_iff, List.zipIdx_map_fst]
    exact s.nodup_toList
  have members : ∀ e : Scored, e ∈ s.entries ↔ e ∈ d.entries := by
    rintro ⟨score, id⟩
    have mapped : d.score? id =
        (ScoreChange.allToMap (ScoreChange.ofPositions draws placed) ∅).2[id]? := by
      rw [← d.getElem?_scores, scores]
    rw [StaticRanking.mem_entries, DynamicRanking.mem_entries, mapped,
      ScoreChange.allToMap_ofPositions draws distinct]
    simp [StaticRanking.score?, StaticRanking.rank?_eq_some, perm.mem_iff,
      List.mem_zipIdx_iff_getElem?]
  exact Scored.eq_of_mem_iff s.ordered_entries d.ordered_entries members

end RankedQuery
