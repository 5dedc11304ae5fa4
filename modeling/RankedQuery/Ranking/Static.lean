import Std.Data.ExtTreeMap
import RankedQuery.Basic

/-!
# Static rankings

A static ranking is a list of documents in the order in which they were loaded,
open at both ends: new documents go to the front or to the back, and none ever
moves or leaves.  The position of a document is its score.

The documents lie side by side in an array of cells, with empty cells around
them.  There is always an empty cell before the first document and one behind
the last, so that a walk may look at the neighbours of any document.  Where a
push would take the last empty cell of its side, the array grows there first.
Growing in front moves every document to another cell.
-/

namespace RankedQuery

abbrev Cells := Array (Option DocId)

abbrev SlotMap := Std.ExtTreeMap DocId Nat

def Cells.document? (cells : Cells) (slot : Nat) : Option DocId := cells[slot]?.join

def padding : Nat := 16

/-- Documents lie exactly in the cells from `start` up to `stop`, and the slots
tell where each of them lies. -/
structure Laid (document? : Nat → Option DocId) (slots : SlotMap) (start stop : Nat) :
    Prop where
  occupied : ∀ slot, (document? slot).isSome ↔ start ≤ slot ∧ slot < stop
  agree : ∀ id slot, slots[id]? = some slot ↔ document? slot = some id

structure StaticRanking where
  slots : SlotMap
  /-- The cell of the first document. -/
  start : Nat
  /-- One past the cell of the last document. -/
  stop : Nat
  cells : Cells
  start_pos : 0 < start
  start_le_stop : start ≤ stop
  stop_lt_size : stop < cells.size
  laid : Laid cells.document? slots start stop

/-! ## Cells -/

namespace Cells

theorem document?_replicate (count slot : Nat) :
    document? (Array.replicate count none) slot = none := by
  simp only [document?, Array.getElem?_replicate]
  split <;> rfl

variable (cells : Cells)

theorem document?_set {slot : Nat} (inside : slot < cells.size) (id : DocId) (other : Nat) :
    document? (cells.set slot (some id) inside) other =
      if other = slot then some id else cells.document? other := by
  by_cases here : other = slot
  · subst here
    simp [document?]
  · simp [document?, here, Array.getElem?_set_ne _ (Ne.symm here)]

theorem document?_push (id : DocId) (slot : Nat) :
    document? (cells.push (some id)) slot =
      if slot = cells.size then some id else cells.document? slot := by
  by_cases last : slot = cells.size <;> simp [document?, Array.getElem?_push, last]

theorem document?_padded_behind (grow slot : Nat) :
    document? (cells ++ Array.replicate grow none) slot = cells.document? slot := by
  by_cases inside : slot < cells.size
  · simp [document?, Array.getElem?_append, inside]
  · simp only [document?, Array.getElem?_append, inside, if_false, Array.getElem?_replicate]
    split <;> simp [inside]

theorem document?_padded_ahead (grow slot : Nat) :
    document? (Array.replicate grow none ++ cells) slot =
      if slot < grow then none else cells.document? (slot - grow) := by
  by_cases ahead : slot < grow <;> simp [document?, Array.getElem?_append, ahead]

end Cells

/-! ## Where the documents lie -/

namespace Laid

variable {document? document?' : Nat → Option DocId} {slots : SlotMap} {start stop : Nat}

theorem congr (laid : Laid document? slots start stop)
    (same : ∀ slot, document?' slot = document? slot) : Laid document?' slots start stop :=
  funext same ▸ laid

private theorem insert {start' stop' free : Nat} {id : DocId}
    (laid : Laid document? slots start stop) (absent : slots[id]? = none)
    (filled : ∀ slot, document?' slot = if slot = free then some id else document? slot)
    (vacant : ¬ (start ≤ free ∧ free < stop))
    (extent : ∀ slot, start' ≤ slot ∧ slot < stop' ↔ slot = free ∨ start ≤ slot ∧ slot < stop) :
    Laid document?' (slots.insert id free) start' stop' where
  occupied slot := by
    rw [extent, filled]
    by_cases here : slot = free <;> simp [here, laid.occupied]
  agree other slot := by
    have empty : document? free = none := by
      simpa [← laid.occupied] using vacant
    have elsewhere : document? slot ≠ some id := fun taken => by
      simp [(laid.agree id slot).mpr taken] at absent
    rw [filled, Std.ExtTreeMap.getElem?_insert]
    by_cases same : id = other
    · subst same
      by_cases here : slot = free
      · simp [here]
      · simp [here, Ne.symm here, elsewhere]
    · by_cases here : slot = free
      · simp [same, here, laid.agree, empty]
      · simp [same, here, laid.agree]

theorem insert_behind {id : DocId} (laid : Laid document? slots start stop)
    (ordered : start ≤ stop) (absent : slots[id]? = none)
    (filled : ∀ slot, document?' slot = if slot = stop then some id else document? slot) :
    Laid document?' (slots.insert id stop) start (stop + 1) := by
  refine laid.insert absent filled (by omega) fun slot => ?_
  omega

theorem insert_ahead {id : DocId} (laid : Laid document? slots start stop)
    (ordered : start ≤ stop) (room : 0 < start) (absent : slots[id]? = none)
    (filled : ∀ slot, document?' slot = if slot = start - 1 then some id else document? slot) :
    Laid document?' (slots.insert id (start - 1)) (start - 1) stop := by
  refine laid.insert absent filled (by omega) fun slot => ?_
  omega

theorem shift {grow : Nat} (laid : Laid document? slots start stop)
    (moved : ∀ slot, document?' slot = if slot < grow then none else document? (slot - grow)) :
    Laid document?' (slots.map fun _ slot => slot + grow) (start + grow) (stop + grow) where
  occupied slot := by
    rw [moved]
    by_cases ahead : slot < grow
    · simp [ahead]
      omega
    · simp only [ahead, if_false, laid.occupied]
      omega
  agree id slot := by
    rw [moved, Std.ExtTreeMap.getElem?_map, Option.map_eq_some_iff]
    by_cases ahead : slot < grow
    · simp only [ahead, if_true, reduceCtorEq, iff_false]
      rintro ⟨_, -, rfl⟩
      omega
    · simp only [ahead, if_false, laid.agree]
      constructor
      · rintro ⟨_, held, rfl⟩
        simpa using held
      · intro held
        exact ⟨slot - grow, held, by omega⟩

end Laid

/-! ## Loading -/

/-- The cells of a ranking that is being loaded, so far without room behind the
last document. -/
structure StaticRanking.Loading where
  slots : SlotMap
  cells : Cells
  padded : padding ≤ cells.size
  laid : Laid cells.document? slots padding cells.size

namespace StaticRanking

namespace Loading

def empty : Loading where
  slots := ∅
  cells := Array.replicate padding none
  padded := by simp
  laid := by
    constructor
    · intro slot
      simp [Cells.document?_replicate]
    · intro id slot
      simp [Cells.document?_replicate]

/-- Adds a document behind the others, unless it is there already.  The slot is
taken before the array grows, so that an unshared array grows in place. -/
def add (loading : Loading) (id : DocId) : Loading :=
  if absent : loading.slots[id]? = none then
    { slots := loading.slots.insert id loading.cells.size
      cells := loading.cells.push (some id)
      padded := by
        have padded := loading.padded
        simp only [Array.size_push]
        omega
      laid := by
        rw [Array.size_push]
        exact loading.laid.insert_behind loading.padded absent
          (loading.cells.document?_push id) }
  else loading

def finish (loading : Loading) : StaticRanking where
  slots := loading.slots
  start := padding
  stop := loading.cells.size
  cells := loading.cells ++ Array.replicate padding none
  start_pos := by decide
  start_le_stop := loading.padded
  stop_lt_size := by simp [padding]
  laid := loading.laid.congr (loading.cells.document?_padded_behind padding)

end Loading

/-- The documents of a list in its order; a repeated one keeps its first place. -/
def load (ids : List DocId) : StaticRanking := (ids.foldl Loading.add .empty).finish

instance : Inhabited StaticRanking := ⟨load []⟩

/-! ## Reading -/

def size (r : StaticRanking) : Nat := r.stop - r.start

def contains (r : StaticRanking) (id : DocId) : Bool := r.slots.contains id

def rank? (r : StaticRanking) (id : DocId) : Option Nat :=
  r.slots[id]?.map fun slot => slot - r.start

def score? (r : StaticRanking) (id : DocId) : Option Score :=
  (r.rank? id).map fun rank => Int64.ofNat rank

def lowerBound (r : StaticRanking) (score : Score) : Nat :=
  min score.toInt.toNat r.size

def upperBound (r : StaticRanking) (score : Score) : Nat :=
  min (saturate (score.toInt + 1)).toInt.toNat r.size

def seek? (r : StaticRanking) (position : Nat) : Option Nat :=
  if position < r.size then some (r.start + position) else none

def nextSlot? (r : StaticRanking) (slot : Nat) : Option Nat :=
  (r.cells.document? (slot + 1)).map fun _ => slot + 1

def prevSlot? (r : StaticRanking) (slot : Nat) : Option Nat :=
  (r.cells.document? (slot - 1)).map fun _ => slot - 1

/-- The document in a cell; document zero stands for an empty cell. -/
def idAt (r : StaticRanking) (slot : Nat) : DocId := (r.cells.document? slot).getD 0

def toList (r : StaticRanking) : List DocId :=
  (List.range r.size).map fun position => r.idAt (r.start + position)

/-! ## Pushing -/

def growBehind (r : StaticRanking) (grow : Nat) : StaticRanking where
  slots := r.slots
  start := r.start
  stop := r.stop
  cells := r.cells ++ Array.replicate grow none
  start_pos := r.start_pos
  start_le_stop := r.start_le_stop
  stop_lt_size := by
    have inside := r.stop_lt_size
    simp only [Array.size_append]
    omega
  laid := r.laid.congr (r.cells.document?_padded_behind grow)

def growAhead (r : StaticRanking) (grow : Nat) : StaticRanking where
  slots := r.slots.map fun _ slot => slot + grow
  start := r.start + grow
  stop := r.stop + grow
  cells := Array.replicate grow none ++ r.cells
  start_pos := Nat.add_pos_left r.start_pos grow
  start_le_stop := Nat.add_le_add_right r.start_le_stop grow
  stop_lt_size := by
    have inside := r.stop_lt_size
    simp only [Array.size_append, Array.size_replicate]
    omega
  laid := r.laid.shift (r.cells.document?_padded_ahead grow)

def withRoomBehind (r : StaticRanking) : StaticRanking :=
  if r.cells.size ≤ r.stop + 1 then r.growBehind (max r.size padding) else r

def withRoomAhead (r : StaticRanking) : StaticRanking :=
  if r.start ≤ 1 then r.growAhead (max r.size padding) else r

theorem room_behind (r : StaticRanking) :
    r.withRoomBehind.stop + 1 < r.withRoomBehind.cells.size := by
  have inside := r.stop_lt_size
  unfold withRoomBehind
  split
  · simp only [growBehind, Array.size_append, Array.size_replicate, padding]
    omega
  · omega

theorem room_ahead (r : StaticRanking) : 1 < r.withRoomAhead.start := by
  have room := r.start_pos
  unfold withRoomAhead
  split
  · simp only [growAhead, padding]
    omega
  · omega

theorem slots_withRoomBehind (r : StaticRanking) : r.withRoomBehind.slots = r.slots := by
  unfold withRoomBehind
  split <;> rfl

theorem absent_withRoomAhead {r : StaticRanking} {id : DocId} (absent : r.slots[id]? = none) :
    r.withRoomAhead.slots[id]? = none := by
  unfold withRoomAhead
  split
  · simp [growAhead, absent]
  · exact absent

def pushBack (r : StaticRanking) (id : DocId) (absent : r.slots[id]? = none) :
    StaticRanking :=
  let roomy := r.withRoomBehind
  { slots := roomy.slots.insert id roomy.stop
    start := roomy.start
    stop := roomy.stop + 1
    cells := roomy.cells.set roomy.stop (some id) roomy.stop_lt_size
    start_pos := roomy.start_pos
    start_le_stop := Nat.le_succ_of_le roomy.start_le_stop
    stop_lt_size := by
      rw [Array.size_set]
      exact r.room_behind
    laid := roomy.laid.insert_behind roomy.start_le_stop
      (by rw [r.slots_withRoomBehind, absent]) (roomy.cells.document?_set roomy.stop_lt_size id) }

theorem pred_start_lt_size (r : StaticRanking) : r.start - 1 < r.cells.size := by
  have inside := r.stop_lt_size
  have ordered := r.start_le_stop
  omega

def pushFront (r : StaticRanking) (id : DocId) (absent : r.slots[id]? = none) :
    StaticRanking :=
  let roomy := r.withRoomAhead
  { slots := roomy.slots.insert id (roomy.start - 1)
    start := roomy.start - 1
    stop := roomy.stop
    cells := roomy.cells.set (roomy.start - 1) (some id) roomy.pred_start_lt_size
    start_pos := Nat.sub_pos_of_lt r.room_ahead
    start_le_stop := Nat.le_trans (Nat.sub_le _ _) roomy.start_le_stop
    stop_lt_size := by
      rw [Array.size_set]
      exact roomy.stop_lt_size
    laid := roomy.laid.insert_ahead roomy.start_le_stop roomy.start_pos
      (absent_withRoomAhead absent) (roomy.cells.document?_set roomy.pred_start_lt_size id) }

def append? (r : StaticRanking) (id : DocId) : Option StaticRanking :=
  match absent : r.slots[id]? with
  | none => some (r.pushBack id absent)
  | some _ => none

def prepend? (r : StaticRanking) (id : DocId) : Option StaticRanking :=
  match absent : r.slots[id]? with
  | none => some (r.pushFront id absent)
  | some _ => none

/-! ## In terms of the list -/

theorem size_eq (r : StaticRanking) : r.size = r.toList.length := by
  simp [toList]

theorem document?_eq_idAt {r : StaticRanking} {slot : Nat} (first : r.start ≤ slot)
    (last : slot < r.stop) : r.cells.document? slot = some (r.idAt slot) := by
  obtain ⟨id, held⟩ := Option.isSome_iff_exists.mp ((r.laid.occupied slot).mpr ⟨first, last⟩)
  simp [idAt, held]

theorem getElem?_toList (r : StaticRanking) (position : Nat) :
    r.toList[position]? = r.cells.document? (r.start + position) := by
  by_cases inside : position < r.size
  · have occupied : r.start + position < r.stop := by
      simp only [size] at inside
      omega
    simp [toList, inside, document?_eq_idAt (Nat.le_add_right _ _) occupied]
  · have empty : r.cells.document? (r.start + position) = none := by
      rw [← Option.not_isSome_iff_eq_none, r.laid.occupied]
      simp only [size] at inside
      omega
    simp [toList, inside, empty]

theorem getElem?_toList_eq_some {r : StaticRanking} {position : Nat} {id : DocId} :
    r.toList[position]? = some id ↔ r.slots[id]? = some (r.start + position) := by
  rw [getElem?_toList, r.laid.agree]

theorem start_le_slot {r : StaticRanking} {id : DocId} {slot : Nat}
    (taken : r.slots[id]? = some slot) : r.start ≤ slot := by
  have held := (r.laid.agree id slot).mp taken
  have occupied := (r.laid.occupied slot).mp (by simp [held])
  exact occupied.1

theorem rank?_eq_some {r : StaticRanking} {id : DocId} {position : Nat} :
    r.rank? id = some position ↔ r.toList[position]? = some id := by
  rw [getElem?_toList_eq_some, rank?]
  cases taken : r.slots[id]? with
  | none => simp
  | some slot =>
      have first := start_le_slot taken
      simp only [Option.map_some, Option.some.injEq]
      omega

theorem contains_iff {r : StaticRanking} {id : DocId} :
    r.contains id = true ↔ id ∈ r.toList := by
  rw [List.mem_iff_getElem?, contains, Std.ExtTreeMap.contains_eq_isSome_getElem?]
  simp only [← rank?_eq_some]
  cases taken : r.slots[id]? <;> simp [rank?, taken]

theorem nodup_toList (r : StaticRanking) : r.toList.Nodup := by
  rw [List.Nodup, List.pairwise_iff_getElem]
  intro i j _ _ before same
  have first := getElem?_toList_eq_some.mp (List.getElem?_eq_getElem (l := r.toList) (i := i) ‹_›)
  have second := getElem?_toList_eq_some.mp (List.getElem?_eq_getElem (l := r.toList) (i := j) ‹_›)
  rw [same, second] at first
  simp only [Option.some.injEq] at first
  omega

/-! ### Walking -/

def occupied (r : StaticRanking) : List Nat := (List.range r.size).map (r.start + ·)

theorem length_occupied (r : StaticRanking) : r.occupied.length = r.size := by simp [occupied]

theorem nodup_occupied (r : StaticRanking) : r.occupied.Nodup :=
  List.pairwise_map.mpr <| List.nodup_range.imp fun apart same => apart (Nat.add_left_cancel same)

theorem map_idAt_occupied (r : StaticRanking) : r.occupied.map r.idAt = r.toList := by
  rw [occupied, List.map_map]
  rfl

theorem getElem?_occupied (r : StaticRanking) (position : Nat) :
    r.occupied[position]? = if position < r.size then some (r.start + position) else none := by
  by_cases inside : position < r.size <;> simp [occupied, inside]

theorem seek?_eq (r : StaticRanking) (position : Nat) :
    r.seek? position = r.occupied[position]? :=
  (r.getElem?_occupied position).symm

theorem nextSlot?_occupied {r : StaticRanking} {position slot : Nat}
    (held : r.occupied[position]? = some slot) :
    r.nextSlot? slot = r.occupied[position + 1]? := by
  rw [getElem?_occupied] at held ⊢
  obtain ⟨-, ⟨⟩⟩ := Option.ite_none_right_eq_some.mp held
  rw [nextSlot?, Nat.add_assoc, ← getElem?_toList, size_eq]
  split
  next more => simp [more]
  next last => simp [last]

theorem prevSlot?_occupied {r : StaticRanking} {position slot : Nat}
    (held : r.occupied[position]? = some slot) :
    r.prevSlot? slot = if 0 < position then r.occupied[position - 1]? else none := by
  rw [getElem?_occupied] at held ⊢
  obtain ⟨inside, ⟨⟩⟩ := Option.ite_none_right_eq_some.mp held
  cases position with
  | zero =>
      have sentinel : r.cells.document? (r.start - 1) = none := by
        have room := r.start_pos
        rw [← Option.not_isSome_iff_eq_none, r.laid.occupied]
        omega
      simp [prevSlot?, sentinel]
  | succ position =>
      have before : r.start + (position + 1) - 1 = r.start + position := by omega
      have length := r.size_eq
      have held : position < r.toList.length := by omega
      rw [prevSlot?, before, ← getElem?_toList]
      simp [held, length]

/-! ### Loading and pushing -/

theorem toList_growBehind (r : StaticRanking) (grow : Nat) :
    (r.growBehind grow).toList = r.toList := by
  ext position
  rw [getElem?_toList, getElem?_toList]
  simp [growBehind, Cells.document?_padded_behind]

theorem toList_growAhead (r : StaticRanking) (grow : Nat) :
    (r.growAhead grow).toList = r.toList := by
  ext position
  have moved : r.start + grow + position - grow = r.start + position := by omega
  have beyond : ¬ r.start + grow + position < grow := by omega
  rw [getElem?_toList, getElem?_toList]
  simp [growAhead, Cells.document?_padded_ahead, moved, beyond]

theorem toList_withRoomBehind (r : StaticRanking) : r.withRoomBehind.toList = r.toList := by
  unfold withRoomBehind
  split
  · exact r.toList_growBehind _
  · rfl

theorem toList_withRoomAhead (r : StaticRanking) : r.withRoomAhead.toList = r.toList := by
  unfold withRoomAhead
  split
  · exact r.toList_growAhead _
  · rfl

private theorem toList_eq_append {r r' : StaticRanking} {id : DocId} (start : r'.start = r.start)
    (filled : ∀ slot, r'.cells.document? slot =
      if slot = r.stop then some id else r.cells.document? slot) :
    r'.toList = r.toList ++ [id] := by
  have length := r.size_eq
  have ordered := r.start_le_stop
  simp only [size] at length
  apply List.ext_getElem?
  intro position
  rw [getElem?_toList, start, filled, List.getElem?_append]
  by_cases old : position < r.toList.length
  · have apart : r.start + position ≠ r.stop := by omega
    rw [if_neg apart, if_pos old, getElem?_toList]
  · by_cases new : r.start + position = r.stop
    · have last : position - r.toList.length = 0 := by omega
      simp [old, new, last]
    · have beyond : position - r.toList.length ≠ 0 := by omega
      simp [old, new, beyond, ← getElem?_toList]

theorem toList_pushBack (r : StaticRanking) (id : DocId) (absent : r.slots[id]? = none) :
    (r.pushBack id absent).toList = r.toList ++ [id] := by
  rw [← r.toList_withRoomBehind]
  apply toList_eq_append
  · rfl
  · exact r.withRoomBehind.cells.document?_set r.withRoomBehind.stop_lt_size id

theorem toList_pushFront (r : StaticRanking) (id : DocId) (absent : r.slots[id]? = none) :
    (r.pushFront id absent).toList = id :: r.toList := by
  rw [← r.toList_withRoomAhead]
  have room := r.room_ahead
  apply List.ext_getElem?
  intro position
  rw [getElem?_toList]
  simp only [pushFront, Cells.document?_set]
  cases position with
  | zero => simp
  | succ position =>
      have apart : r.withRoomAhead.start - 1 + (position + 1) ≠ r.withRoomAhead.start - 1 := by
        omega
      have same : r.withRoomAhead.start - 1 + (position + 1) =
          r.withRoomAhead.start + position := by omega
      rw [if_neg apart, same, List.getElem?_cons_succ, getElem?_toList]

theorem toList_finish_add (loading : Loading) (id : DocId) :
    (loading.add id).finish.toList =
      if id ∈ loading.finish.toList then loading.finish.toList
      else loading.finish.toList ++ [id] := by
  have listed : id ∈ loading.finish.toList ↔ loading.slots[id]?.isSome = true := by
    rw [← contains_iff, contains, Std.ExtTreeMap.contains_eq_isSome_getElem?]
    rfl
  by_cases absent : loading.slots[id]? = none
  · have added : (loading.add id).finish.toList = loading.finish.toList ++ [id] := by
      apply toList_eq_append
      · rfl
      · intro slot
        simp [Loading.finish, Loading.add, absent, Cells.document?_padded_behind,
          Cells.document?_push]
    simp [added, listed, absent]
  · have kept : loading.add id = loading := by simp [Loading.add, absent]
    simp [kept, listed, Option.isSome_iff_ne_none.mpr absent]

private theorem toList_finish_foldl (ids : List DocId) (loading : Loading) :
    (ids.foldl Loading.add loading).finish.toList =
      loading.finish.toList ++ (ids.removeAll loading.finish.toList).eraseDups := by
  induction ids generalizing loading with
  | nil => simp
  | cons id ids ih =>
      rw [List.foldl_cons, ih, toList_finish_add]
      by_cases repeated : id ∈ loading.finish.toList
      · simp [List.cons_removeAll, repeated]
      · have others : (ids.removeAll (loading.finish.toList ++ [id])) =
            (ids.removeAll loading.finish.toList).filter fun other => !other == id := by
          simp [List.removeAll, List.filter_filter, Bool.and_comm, Bool.beq_eq_decide_eq]
        simp [List.cons_removeAll, List.eraseDups_cons, repeated, others]

/-- Loading keeps the first occurrences. -/
theorem toList_load (ids : List DocId) : (load ids).toList = ids.eraseDups := by
  have none : Loading.empty.finish.toList = [] := rfl
  rw [load, toList_finish_foldl, none]
  simp

end StaticRanking

end RankedQuery
