import RankedQuery.Ranking.SkipList.Removal

/-!
# Dynamic rankings

A dynamic ranking gives every one of its documents a score that can change.  It
is a skip list that threads towers, so that each view of it is one of the row
of its entries or of the map of its scores.
-/

namespace RankedQuery

abbrev ScoreMap := Std.ExtTreeMap DocId Score

structure DynamicRanking where
  list : SkipList
  threaded : ∃ towers, list.Threads towers

namespace SkipList

theorem threads_ofMaxLevel (maxLevel : Nat) :
    (ofMaxLevel maxLevel).Threads [⟨head, ⟨Int64.minValue, 0⟩, max maxLevel 1⟩] := by
  have inner {p : Nat} (inside : p < 1) : p = 0 := by omega
  have link {n : Nat} (low : n < max maxLevel 1) :
      (ofMaxLevel maxLevel).nodes.link? head n = some ⟨tail, 1⟩ := by
    simp [ofMaxLevel, Arena.link?, head, low]
  constructor
  case carries =>
    constructor
    · intro p tower held
      obtain rfl := inner (List.getElem?_eq_some_iff.mp held).1
      cases held
      rfl
    · intro n p q used high follows
      obtain rfl := inner (lt_length_of_high high)
      have last : q = 1 := Nat.le_antisymm follows.within follows.ahead
      rw [last]
      exact link high
  case first => rfl
  case length => rfl
  case level_pos => exact Nat.one_pos
  case level_le => exact Nat.le_max_right maxLevel 1
  case heights =>
    intro p after inside
    have here := inner inside
    omega
  case distinct =>
    intro p q inside within same
    obtain rfl := inner inside
    rcases Nat.lt_or_eq_of_le within with inside' | rfl
    · exact (inner inside').symm
    · cases same
  case ordered => exact .nil
  case slots => simp [ofMaxLevel]
  case room => simp [ofMaxLevel, tail]
  case openable =>
    intro n low
    rw [link low, Option.isSome_some]
  case free => simp [ofMaxLevel]
  case nodup_free => exact .nil

namespace Threads

variable {l : SkipList} {towers : List Tower} (threads : l.Threads towers)

include threads

theorem exists_set (id : DocId) (score : Score) (draws : Nat) :
    ∃ towers', (l.set id score draws).2.Threads towers' := by
  unfold set
  split
  next slot found =>
    obtain ⟨k, tower, held, rfl, rfl⟩ := threads.exists_tower found
    split
    · exact ⟨towers, threads⟩
    · obtain ⟨new, -, inserted⟩ := (threads.unlink held).insert ⟨score, tower.entry.id⟩
        (threads.absent_unlink held) rfl draws
      exact ⟨_, inserted⟩
  next absent =>
    obtain ⟨new, -, inserted⟩ := threads.insert ⟨score, id⟩ absent rfl draws
    exact ⟨_, inserted⟩

theorem exists_remove (id : DocId) : ∃ towers', (l.remove id).2.Threads towers' := by
  unfold remove
  split
  next slot found =>
    obtain ⟨k, tower, held, rfl, rfl⟩ := threads.exists_tower found
    exact ⟨_, threads.unlink held⟩
  next => exact ⟨towers, threads⟩

theorem score?_set (id : DocId) (score : Score) (draws : Nat) (other : DocId) :
    (l.set id score draws).2.score? other =
      if id = other then some score else l.score? other := by
  unfold set
  split
  next slot found =>
    obtain ⟨k, tower, held, rfl, rfl⟩ := threads.exists_tower found
    split
    next same =>
      split
      next here => rw [← here, score?, found, Option.map_some, same]
      next => rfl
    next =>
      rw [(threads.unlink held).score?_insert ⟨score, tower.entry.id⟩
        (threads.absent_unlink held), threads.score?_unlink held]
      split <;> rfl
  next absent => rw [threads.score?_insert ⟨score, id⟩ absent]

theorem score?_remove (id other : DocId) :
    (l.remove id).2.score? other = if id = other then none else l.score? other := by
  unfold remove
  split
  next slot found =>
    obtain ⟨k, tower, held, rfl, rfl⟩ := threads.exists_tower found
    exact threads.score?_unlink held other
  next absent =>
    split
    next here => rw [← here, score?, absent, Option.map_none]
    next => rfl

end Threads

theorem set_fst (l : SkipList) (id : DocId) (score : Score) (draws : Nat) :
    (l.set id score draws).1 = decide (l.score? id ≠ some score) := by
  unfold set score?
  cases l.slots[id]? with
  | none => simp
  | some slot => by_cases same : (l.entryAt slot).score = score <;> simp [same]

theorem remove_fst (l : SkipList) (id : DocId) : (l.remove id).1 = (l.score? id).isSome := by
  unfold remove score?
  cases l.slots[id]? <;> rfl

end SkipList

namespace DynamicRanking

def empty (maxLevel : Nat) : DynamicRanking :=
  ⟨.ofMaxLevel maxLevel, _, SkipList.threads_ofMaxLevel maxLevel⟩

instance : Inhabited DynamicRanking := ⟨empty 1⟩

/-! ## Reading -/

section

variable (r : DynamicRanking)

def size : Nat := r.list.length

def entries : List Scored := r.list.entries

def slots : List Nat := r.list.chain

def score? (id : DocId) : Option Score := r.list.score? id

def rank? (id : DocId) : Option Nat := r.list.rank? id

def lowerBound (score : Score) : Nat := r.list.lowerBound score

def upperBound (score : Score) : Nat := r.list.upperBound score

def seek? (position : Nat) : Option Nat := r.list.seek? position

def nextSlot? (slot : Nat) : Option Nat := r.list.nextSlot? slot

def prevSlot? (slot : Nat) : Option Nat := r.list.prevSlot? slot

def idAt (slot : Nat) : DocId := r.list.idAt slot

theorem size_eq : r.size = r.entries.length := by
  obtain ⟨towers, threads⟩ := r.threaded
  rw [size, entries, threads.entries_eq, threads.length_documents]

theorem ordered_entries : r.entries.Pairwise Scored.Before := by
  obtain ⟨towers, threads⟩ := r.threaded
  rw [entries, threads.entries_eq]
  exact threads.ordered

theorem mem_entries {r : DynamicRanking} {score : Score} {id : DocId} :
    ⟨score, id⟩ ∈ r.entries ↔ r.score? id = some score := by
  obtain ⟨towers, threads⟩ := r.threaded
  rw [entries, threads.entries_eq]
  exact threads.mem_documents

theorem rank?_eq (id : DocId) :
    r.rank? id =
      (r.score? id).map fun score => r.entries.countP (·.Before ⟨score, id⟩) := by
  obtain ⟨towers, threads⟩ := r.threaded
  rw [entries, threads.entries_eq]
  exact threads.rank?_eq id

theorem lowerBound_eq (score : Score) :
    r.lowerBound score = r.entries.countP (·.score < score) := by
  obtain ⟨towers, threads⟩ := r.threaded
  rw [lowerBound, SkipList.lowerBound, entries, threads.entries_eq]
  refine threads.countWhile_eq (threads.ordered.imp fun earlier below => ?_)
  have order := earlier.score_le
  simp only [decide_eq_true_eq, Int64.le_iff_toInt_le, Int64.lt_iff_toInt_lt] at *
  omega

theorem upperBound_eq (score : Score) :
    r.upperBound score = r.entries.countP (·.score ≤ score) := by
  obtain ⟨towers, threads⟩ := r.threaded
  rw [upperBound, SkipList.upperBound, entries, threads.entries_eq]
  refine threads.countWhile_eq (threads.ordered.imp fun earlier below => ?_)
  have order := earlier.score_le
  simp only [decide_eq_true_eq, Int64.le_iff_toInt_le] at *
  omega

theorem length_slots : r.slots.length = r.size := by
  obtain ⟨towers, threads⟩ := r.threaded
  rw [slots, threads.chain_eq, List.length_map, List.length_tail, threads.length]
  rfl

theorem nodup_slots : r.slots.Nodup := by
  obtain ⟨towers, threads⟩ := r.threaded
  exact threads.nodup_chain

theorem seek?_eq (position : Nat) : r.seek? position = r.slots[position]? := by
  obtain ⟨towers, threads⟩ := r.threaded
  exact threads.seek?_eq position

theorem nextSlot?_eq {r : DynamicRanking} {position slot : Nat}
    (held : r.slots[position]? = some slot) : r.nextSlot? slot = r.slots[position + 1]? := by
  obtain ⟨towers, threads⟩ := r.threaded
  exact threads.nextSlot?_chain held

theorem prevSlot?_eq {r : DynamicRanking} {position slot : Nat}
    (held : r.slots[position]? = some slot) :
    r.prevSlot? slot = if 0 < position then r.slots[position - 1]? else none := by
  obtain ⟨towers, threads⟩ := r.threaded
  exact threads.prevSlot?_chain held

theorem map_idAt_slots : r.slots.map r.idAt = r.entries.map (·.id) := by
  rw [entries, SkipList.entries, List.map_map]
  rfl

end

/-! ## Changing -/

def set (r : DynamicRanking) (id : DocId) (score : Score) (draws : Nat) :
    Bool × DynamicRanking :=
  let outcome := r.list.set id score draws
  (outcome.1, ⟨outcome.2, r.threaded.elim fun _ threads => threads.exists_set id score draws⟩)

def remove (r : DynamicRanking) (id : DocId) : Bool × DynamicRanking :=
  let outcome := r.list.remove id
  (outcome.1, ⟨outcome.2, r.threaded.elim fun _ threads => threads.exists_remove id⟩)

def scores (r : DynamicRanking) : ScoreMap :=
  r.list.slots.map fun _ slot => (r.list.entryAt slot).score

theorem scores_empty (maxLevel : Nat) : (empty maxLevel).scores = ∅ := rfl

theorem getElem?_scores (r : DynamicRanking) (id : DocId) : r.scores[id]? = r.score? id := by
  rw [scores, Std.ExtTreeMap.getElem?_map]
  rfl

theorem scores_set (r : DynamicRanking) (id : DocId) (score : Score) (draws : Nat) :
    (r.set id score draws).2.scores = r.scores.insert id score := by
  obtain ⟨towers, threads⟩ := r.threaded
  apply Std.ExtTreeMap.ext_getElem?
  intro other
  rw [getElem?_scores, Std.ExtTreeMap.getElem?_insert, getElem?_scores]
  simp only [Std.LawfulEqCmp.compare_eq_iff_eq]
  exact threads.score?_set id score draws other

theorem set_fst (r : DynamicRanking) (id : DocId) (score : Score) (draws : Nat) :
    (r.set id score draws).1 = decide (r.score? id ≠ some score) := by
  exact r.list.set_fst id score draws

theorem scores_remove (r : DynamicRanking) (id : DocId) :
    (r.remove id).2.scores = r.scores.erase id := by
  obtain ⟨towers, threads⟩ := r.threaded
  apply Std.ExtTreeMap.ext_getElem?
  intro other
  rw [getElem?_scores, Std.ExtTreeMap.getElem?_erase, getElem?_scores]
  simp only [Std.LawfulEqCmp.compare_eq_iff_eq]
  exact threads.score?_remove id other

theorem remove_fst (r : DynamicRanking) (id : DocId) :
    (r.remove id).1 = (r.score? id).isSome := by
  exact r.list.remove_fst id

end DynamicRanking

end RankedQuery
