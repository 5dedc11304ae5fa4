import RankedQuery.Proofs.Ranking.Walk

/-!
# Static rankings as lists

A static ranking is a list that is pushed to at both ends.  `Lists` says what
that means for every way of reading a ranking, in terms of the list alone, and
`InBounds` that no operation reads or writes outside of the cells.  Any sequence
of pushes gives the answers that a plain list gives and leaves a ranking that
lists the plain list, however often the cells had to grow on either side.
-/

namespace RankedQuery

/-! ## What a ranking lists -/

/-- The ranking reads as the list, with the positions as scores. -/
structure Ranking.Lists (r : Ranking) (ids : List DocId) : Prop where
  size : r.size = ids.length
  contains : ∀ id, r.contains id = true ↔ id ∈ ids
  rank? : ∀ id position, r.rank? id = some position ↔ ids[position]? = some id
  score? : ∀ id score, r.score? id = some score ↔
    ∃ position : Nat, ids[position]? = some id ∧ score.toInt = position
  lowerBound : ∀ score, r.lowerBound score =
    (List.range ids.length).countP fun position : Nat => (position : Int) < score.toInt
  upperBound : ∀ score, r.upperBound score =
    (List.range ids.length).countP fun position : Nat => (position : Int) ≤ score.toInt
  seeks : ∀ position, (r.seek? position).map r.idAt = ids[position]?
  forwards : ∀ count, ((r.cursor .asc).take count).1 = ids.take count
  backwards : ∀ count, ((r.cursor .desc).take count).1 = ids.reverse.take count

namespace StaticRanking

variable (r : StaticRanking)

theorem score?_eq_some {r : StaticRanking} {id : DocId} {score : Score} :
    r.score? id = some score ↔
      ∃ position : Nat, r.toList[position]? = some id ∧ score.toInt = position := by
  rw [score?, Option.map_eq_some_iff]
  constructor
  · rintro ⟨position, ranked, rfl⟩
    have placed := rank?_eq_some.mp ranked
    have inside := (List.getElem?_eq_some_iff.mp placed).1
    rw [← size_eq] at inside
    exact ⟨position, placed, toInt_ofNat_position inside⟩
  · rintro ⟨position, placed, scored⟩
    have inside := (List.getElem?_eq_some_iff.mp placed).1
    rw [← size_eq] at inside
    refine ⟨position, rank?_eq_some.mpr placed, ?_⟩
    rw [← Int64.toInt_inj, toInt_ofNat_position inside, scored]

theorem lowerBound_eq_countP (score : Score) :
    r.lowerBound score =
      (List.range r.size).countP fun position : Nat => (position : Int) < score.toInt := by
  rw [lowerBound, ← countP_lt_range]
  apply List.countP_congr
  intro position _
  simp only [decide_eq_true_eq]
  omega

theorem upperBound_eq_countP (score : Score) :
    r.upperBound score =
      (List.range r.size).countP fun position : Nat => (position : Int) ≤ score.toInt := by
  rw [upperBound, ← countP_lt_range]
  apply List.countP_congr
  intro position inside
  have few := r.size_le
  have below := List.mem_range.mp inside
  have least := Int64.toInt_minValue
  have greatest := Int64.toInt_maxValue
  simp only [decide_eq_true_eq, toInt_saturate]
  omega

theorem lists (name : String) : Ranking.Lists ⟨name, .static r⟩ r.toList where
  size := r.size_eq
  contains id := by
    rw [Ranking.contains, ← Ranking.mem_ids]
    rfl
  rank? _ _ := rank?_eq_some
  score? _ _ := score?_eq_some
  lowerBound score := by
    rw [← size_eq]
    exact r.lowerBound_eq_countP score
  upperBound score := by
    rw [← size_eq]
    exact r.upperBound_eq_countP score
  seeks position := by
    rw [Ranking.seek?_eq, ← List.getElem?_map, Ranking.map_idAt_slots]
    rfl
  forwards := Ranking.take_cursor _ .asc
  backwards := Ranking.take_cursor _ .desc

/-! ## One push -/

variable {r} in
theorem absent_iff {id : DocId} : r.slots[id]? = none ↔ id ∉ r.toList := by
  rw [← contains_iff, contains, Std.ExtTreeMap.contains_eq_isSome_getElem?]
  simp

variable {r} in
theorem append?_of_mem {id : DocId} (present : id ∈ r.toList) : r.append? id = none := by
  unfold append?
  split
  next absent => exact absurd present (absent_iff.mp absent)
  next => rfl

variable {r} in
theorem append?_of_not_mem {id : DocId} (missing : id ∉ r.toList) :
    ∃ pushed, r.append? id = some pushed ∧ pushed.toList = r.toList ++ [id] := by
  unfold append?
  split
  next absent => exact ⟨_, rfl, r.toList_pushBack id absent⟩
  next taken =>
    rw [absent_iff.mpr missing] at taken
    cases taken

variable {r} in
theorem prepend?_of_mem {id : DocId} (present : id ∈ r.toList) : r.prepend? id = none := by
  unfold prepend?
  split
  next absent => exact absurd present (absent_iff.mp absent)
  next => rfl

variable {r} in
theorem prepend?_of_not_mem {id : DocId} (missing : id ∉ r.toList) :
    ∃ pushed, r.prepend? id = some pushed ∧ pushed.toList = id :: r.toList := by
  unfold prepend?
  split
  next absent => exact ⟨_, rfl, r.toList_pushFront id absent⟩
  next taken =>
    rw [absent_iff.mpr missing] at taken
    cases taken

/-! ## Cells -/

structure Readable (slot : Nat) : Prop where
  before : 0 < slot
  behind : slot + 1 < r.cells.size
  held : r.cells[slot]? = some (some (r.idAt slot))

/-- All that the operations read and write lies in the array, and what they
subtract from is large enough.  A walk starts from a cell that it sought, and goes on to
neighbours. -/
structure InBounds : Prop where
  size : r.start ≤ r.stop
  rank : ∀ (id : DocId) (slot : Nat), r.slots[id]? = some slot → r.start ≤ slot
  seek : ∀ position slot, r.seek? position = some slot → r.Readable slot
  next : ∀ slot slot', r.Readable slot → r.nextSlot? slot = some slot' → r.Readable slot'
  prev : ∀ slot slot', r.Readable slot → r.prevSlot? slot = some slot' → r.Readable slot'
  append : r.withRoomBehind.stop < r.withRoomBehind.cells.size
  prepend : 0 < r.withRoomAhead.start ∧
    r.withRoomAhead.start - 1 < r.withRoomAhead.cells.size

variable {r} in
theorem readable_iff {slot : Nat} : r.Readable slot ↔ (r.cells.document? slot).isSome := by
  constructor
  · intro readable
    simp [Cells.document?, readable.held]
  · intro held
    obtain ⟨first, last⟩ := (r.laid.occupied slot).mp held
    have room := r.start_pos
    have inside := r.stop_lt_size
    refine ⟨by omega, by omega, ?_⟩
    have document := document?_eq_idAt first last
    rwa [Cells.document?, Option.join_eq_some_iff] at document

theorem inBounds : r.InBounds where
  size := r.start_le_stop
  rank _ _ := start_le_slot
  seek position slot sought := by
    unfold seek? at sought
    split at sought
    next inside =>
      cases sought
      rw [readable_iff, r.laid.occupied]
      simp only [size] at inside
      omega
    next => cases sought
  next slot slot' _ found := by
    obtain ⟨id, held, rfl⟩ := Option.map_eq_some_iff.mp found
    simp [readable_iff, held]
  prev slot slot' _ found := by
    obtain ⟨id, held, rfl⟩ := Option.map_eq_some_iff.mp found
    simp [readable_iff, held]
  append := r.withRoomBehind.stop_lt_size
  prepend := ⟨r.withRoomAhead.start_pos, r.withRoomAhead.pred_start_lt_size⟩

end StaticRanking

/-! ## Pushes -/

inductive Push where
  | append (id : DocId)
  | prepend (id : DocId)
  deriving DecidableEq, Repr

namespace Push

def id : Push → DocId
  | append id => id
  | prepend id => id

def toRanking (push : Push) (r : Ranking) : Option (Except Error Ranking) :=
  match push with
  | append id => r.append? id
  | prepend id => r.prepend? id

def toList? (push : Push) (ids : List DocId) : Option (List DocId) :=
  if push.id ∈ ids then none
  else
    match push with
    | append id => some (ids ++ [id])
    | prepend id => some (id :: ids)

def allToRanking : List Push → Ranking → Option (List (Option Error) × Ranking)
  | [], r => some ([], r)
  | push :: pushes, r => do
      match ← push.toRanking r with
      | .ok r =>
          let (errors, r) ← allToRanking pushes r
          return (none :: errors, r)
      | .error error =>
          let (errors, r) ← allToRanking pushes r
          return (some error :: errors, r)

def allToList (name : String) : List Push → List DocId → List (Option Error) × List DocId
  | [], ids => ([], ids)
  | push :: pushes, ids =>
      match push.toList? ids with
      | some ids =>
          let (errors, ids) := allToList name pushes ids
          (none :: errors, ids)
      | none =>
          let (errors, ids) := allToList name pushes ids
          (some (.staticMove name push.id) :: errors, ids)

theorem toRanking_of_mem {push : Push} {s : StaticRanking} (name : String)
    (present : push.id ∈ s.toList) :
    push.toRanking ⟨name, .static s⟩ = some (.error (.staticMove name push.id)) := by
  cases push with
  | append id =>
      have refused : s.append? id = none := StaticRanking.append?_of_mem present
      simp [toRanking, Ranking.append?, refused, Push.id]
  | prepend id =>
      have refused : s.prepend? id = none := StaticRanking.prepend?_of_mem present
      simp [toRanking, Ranking.prepend?, refused, Push.id]

theorem toRanking_of_not_mem {push : Push} {s : StaticRanking} (name : String)
    (missing : push.id ∉ s.toList) :
    ∃ s' : StaticRanking, push.toRanking ⟨name, .static s⟩ = some (.ok ⟨name, .static s'⟩) ∧
      push.toList? s.toList = some s'.toList := by
  unfold toList?
  rw [if_neg missing]
  cases push with
  | append id =>
      obtain ⟨s', pushed, list⟩ := StaticRanking.append?_of_not_mem missing
      simp only [Push.id] at pushed list
      exact ⟨s', by simp [toRanking, Ranking.append?, pushed], by simp [list]⟩
  | prepend id =>
      obtain ⟨s', pushed, list⟩ := StaticRanking.prepend?_of_not_mem missing
      simp only [Push.id] at pushed list
      exact ⟨s', by simp [toRanking, Ranking.prepend?, pushed], by simp [list]⟩

theorem allToRanking_static (pushes : List Push) (name : String) (s : StaticRanking) :
    ∃ s' : StaticRanking,
      allToRanking pushes ⟨name, .static s⟩ =
        some ((allToList name pushes s.toList).1, ⟨name, .static s'⟩) ∧
      s'.toList = (allToList name pushes s.toList).2 := by
  induction pushes generalizing s with
  | nil => exact ⟨s, rfl, rfl⟩
  | cons push pushes ih =>
      by_cases present : push.id ∈ s.toList
      · obtain ⟨last, others, list⟩ := ih s
        refine ⟨last, ?_, ?_⟩
        · simp [allToRanking, toRanking_of_mem name present, others, allToList, toList?, present]
        · simp [allToList, toList?, present, list]
      · obtain ⟨once, first, firstList⟩ := toRanking_of_not_mem name present
        obtain ⟨last, others, list⟩ := ih once
        refine ⟨last, ?_, ?_⟩
        · simp [allToRanking, first, others, allToList, firstList]
        · simp [allToList, firstList, list]

theorem kind_of_error (name : String) (pushes : List Push) (ids : List DocId) {error : Error}
    (failed : some error ∈ (allToList name pushes ids).1) : error.kind = .unsupported := by
  induction pushes generalizing ids with
  | nil => simp [allToList] at failed
  | cons push pushes ih =>
      unfold allToList at failed
      split at failed
      next => exact ih _ (by simpa using failed)
      next =>
        rcases List.mem_cons.mp failed with here | later
        · cases here
          rfl
        · exact ih _ later

end Push

/-- A static ranking is the list that it represents: after loading, which keeps
first occurrences, every sequence of pushes answers as the plain list does, in
that a document that is there already is refused, and leaves a ranking that lists
the plain list and keeps inside of its cells. -/
theorem Ranking.static_lists (name : String) (ids : List DocId) (pushes : List Push) :
    ∃ s : StaticRanking,
      Push.allToRanking pushes (.static name ids) =
        some ((Push.allToList name pushes ids.eraseDups).1, ⟨name, .static s⟩) ∧
      (∀ error, some error ∈ (Push.allToList name pushes ids.eraseDups).1 →
        error.kind = .unsupported) ∧
      Ranking.Lists ⟨name, .static s⟩ (Push.allToList name pushes ids.eraseDups).2 ∧
      s.InBounds := by
  obtain ⟨s, answers, list⟩ := Push.allToRanking_static pushes name (.load ids)
  rw [StaticRanking.toList_load] at answers list
  have lists := s.lists name
  rw [list] at lists
  exact ⟨s, answers, fun _ failed => Push.kind_of_error name pushes _ failed, lists, s.inBounds⟩

end RankedQuery
