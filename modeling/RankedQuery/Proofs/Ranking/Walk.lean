import RankedQuery.Proofs.Ranking.Entries
import RankedQuery.Ranking.Cursor

/-!
# Walks over a ranking

A cursor is a list that is read from the front.  `remaining` is that list: the
window in the direction of the walk less the skipped documents before the first
step, and what lies onward of the position afterwards.  Every step gives its
head and leaves its tail, so that a walk of any length gives a stretch of it.
-/

namespace RankedQuery

namespace Cursor

def onward (ids : List DocId) (position : Nat) : Direction → List DocId
  | .asc => ids.drop position
  | .desc => (ids.take (position + 1)).reverse

/-- The documents ahead of a cursor once it is walking. -/
def ahead (r : Ranking) (direction : Direction) : State → List DocId
  | .walking slot left => (onward r.ids (r.slots.idxOf slot) direction).take left
  | _ => []

def Room (size position left : Nat) : Direction → Prop
  | .asc => position + left ≤ size
  | .desc => position < size ∧ left ≤ position + 1

def Inside (r : Ranking) (direction : Direction) : State → Prop
  | .walking slot left =>
      ∃ position, r.slots[position]? = some slot ∧ 0 < left ∧
        Room r.size position left direction
  | _ => True

structure Valid (c : Cursor) : Prop where
  stop_le : c.stop ≤ c.ranking.size
  inside : Inside c.ranking c.direction c.state

def remaining (c : Cursor) : List DocId :=
  match c.state with
  | .pending =>
      (c.direction.arrange ((c.ranking.ids.take c.stop).drop c.start)).drop c.skip
  | state => ahead c.ranking c.direction state

theorem remaining_of_ne_pending {c : Cursor} (started : c.state ≠ .pending) :
    c.remaining = ahead c.ranking c.direction c.state := by
  unfold remaining
  cases h : c.state <;> simp_all

/-! ## Positions and slots -/

theorem idxOf_slot {r : Ranking} {position slot : Nat}
    (held : r.slots[position]? = some slot) : r.slots.idxOf slot = position := by
  obtain ⟨inside, rfl⟩ := List.getElem?_eq_some_iff.mp held
  exact r.nodup_slots.idxOf_getElem position inside

theorem lt_size_of_slot {r : Ranking} {position slot : Nat}
    (held : r.slots[position]? = some slot) : position < r.size := by
  rw [← r.length_slots]
  exact (List.getElem?_eq_some_iff.mp held).1

theorem exists_slot {r : Ranking} {position : Nat} (inside : position < r.size) :
    ∃ slot, r.slots[position]? = some slot := by
  rw [← r.length_slots] at inside
  exact ⟨_, List.getElem?_eq_getElem inside⟩

theorem ahead_eq {r : Ranking} {position slot : Nat} (held : r.slots[position]? = some slot)
    (direction : Direction) (left : Nat) :
    ahead r direction (.walking slot left) = (onward r.ids position direction).take left := by
  rw [ahead, idxOf_slot held]

/-! ## The first step -/

theorem begin_eq {c : Cursor} (valid : c.Valid) :
    (c.stop ≤ c.start ∨ c.stop - c.start ≤ c.skip) ∧ c.begin = .finished ∨
      ¬ (c.stop ≤ c.start ∨ c.stop - c.start ≤ c.skip) ∧
        ∃ position slot left,
          c.ranking.slots[position]? = some slot ∧ c.begin = .walking slot left ∧
            match c.direction with
            | .asc => position = c.start + c.skip ∧ left = c.stop - (c.start + c.skip)
            | .desc => position = c.stop - 1 - c.skip ∧
                left = c.stop - 1 - c.skip - c.start + 1 := by
  have stop_le := valid.stop_le
  unfold begin
  split
  next nothing => exact .inl ⟨nothing, rfl⟩
  next something =>
    refine .inr ⟨something, ?_⟩
    cases c.direction with
    | asc =>
        obtain ⟨slot, held⟩ := exists_slot (show c.start + c.skip < c.ranking.size by omega)
        exact ⟨_, slot, _, held, by simp only [Ranking.seek?_eq, held], rfl, rfl⟩
    | desc =>
        obtain ⟨slot, held⟩ := exists_slot (show c.stop - 1 - c.skip < c.ranking.size by omega)
        exact ⟨_, slot, _, held, by simp only [Ranking.seek?_eq, held], rfl, rfl⟩

theorem inside_begin {c : Cursor} (valid : c.Valid) :
    Inside c.ranking c.direction c.begin := by
  have stop_le := valid.stop_le
  rcases begin_eq valid with ⟨-, finished⟩ | ⟨some, position, slot, left, held, walking, place⟩
  · rw [finished]
    trivial
  · rw [walking]
    refine ⟨position, held, ?_⟩
    cases direction : c.direction <;> simp only [direction, Room] at place ⊢ <;> omega

theorem ahead_begin {c : Cursor} (valid : c.Valid) (pending : c.state = .pending) :
    ahead c.ranking c.direction c.begin = c.remaining := by
  have stop_le := valid.stop_le
  rw [Ranking.size_eq] at stop_le
  simp only [remaining, pending]
  rcases begin_eq valid with
    ⟨nothing, finished⟩ | ⟨something, position, slot, left, held, walking, place⟩
  · rw [finished, ahead.eq_def, eq_comm, List.drop_eq_nil_iff]
    cases c.direction <;> simp [Direction.arrange] <;> omega
  · rw [walking, ahead_eq held]
    cases direction : c.direction with
    | asc =>
        simp only [direction] at place
        obtain ⟨rfl, rfl⟩ := place
        simp only [onward, Direction.arrange, List.drop_take, List.drop_drop]
        congr 1
        omega
    | desc =>
        simp only [direction] at place
        obtain ⟨rfl, rfl⟩ := place
        simp only [onward, Direction.arrange, List.drop_reverse, List.take_reverse,
          List.drop_take, List.take_take, List.length_take, List.length_drop]
        have first : min (c.stop - 1 - c.skip + 1) c.ranking.ids.length -
            (c.stop - 1 - c.skip - c.start + 1) = c.start := by omega
        have count : min (min (c.stop - c.start) (c.ranking.ids.length - c.start) - c.skip)
            (c.stop - c.start) = c.stop - 1 - c.skip + 1 - c.start := by omega
        rw [first, count]

/-! ## Every step -/

def beyond (position : Nat) : Direction → Nat
  | .asc => position + 1
  | .desc => position - 1

theorem onward_eq_cons {ids : List DocId} {position : Nat} (held : position < ids.length)
    (direction : Direction) :
    onward ids position direction = ids[position] ::
      match direction with
      | .asc => onward ids (position + 1) .asc
      | .desc => (ids.take position).reverse := by
  cases direction with
  | asc => exact List.drop_eq_getElem_cons held
  | desc =>
      simp only [onward]
      rw [← List.take_append_getElem held, List.reverse_append]
      rfl

/-- A step from a slot finds the next one while documents are left. -/
theorem advance_eq {c : Cursor} {position slot left : Nat}
    (held : c.ranking.slots[position]? = some slot)
    (room : Room c.ranking.size position left c.direction) :
    left ≤ 1 ∧ c.advance slot left = .finished ∨
      1 < left ∧ ∃ next, c.ranking.slots[beyond position c.direction]? = some next ∧
        c.advance slot left = .walking next (left - 1) := by
  have step : 1 < left → beyond position c.direction < c.ranking.size ∧
      c.ranking.step? slot c.direction = c.ranking.slots[beyond position c.direction]? := by
    intro more
    cases direction : c.direction with
    | asc =>
        simp only [direction, Room] at room
        exact ⟨by simp only [beyond]; omega, Ranking.step?_asc held⟩
    | desc =>
        simp only [direction, Room] at room
        refine ⟨by simp only [beyond]; omega, ?_⟩
        rw [Ranking.step?_desc held, if_pos (by omega), beyond]
  unfold advance
  by_cases more : 1 < left
  · obtain ⟨inside, found⟩ := step more
    obtain ⟨next, there⟩ := exists_slot inside
    exact .inr ⟨more, next, there, by simp only [found, there, if_pos more]⟩
  · refine .inl ⟨Nat.le_of_not_lt more, ?_⟩
    split <;> simp [more]

theorem ahead_walking {c : Cursor} {slot left : Nat}
    (inside : Inside c.ranking c.direction (.walking slot left)) :
    ahead c.ranking c.direction (.walking slot left) =
      c.ranking.idAt slot :: ahead c.ranking c.direction (c.advance slot left) := by
  obtain ⟨position, held, some_left, room⟩ := inside
  have inner : position < c.ranking.ids.length := Ranking.size_eq _ ▸ lt_size_of_slot held
  have found : c.ranking.ids[position] = c.ranking.idAt slot := by
    have there : c.ranking.ids[position]? = some (c.ranking.idAt slot) := by
      rw [← Ranking.map_idAt_slots, List.getElem?_map, held, Option.map_some]
    exact (List.getElem?_eq_some_iff.mp there).2
  obtain ⟨rest, rfl⟩ : ∃ rest, left = rest + 1 := ⟨left - 1, by omega⟩
  rw [ahead_eq held, onward_eq_cons inner, List.take_succ_cons, found]
  congr 1
  rcases advance_eq held room with ⟨last, finished⟩ | ⟨more, next, there, walking⟩
  · obtain rfl : rest = 0 := by omega
    rw [finished]
    simp [ahead]
  · rw [walking, ahead_eq there, Nat.add_sub_cancel]
    cases direction : c.direction with
    | asc => rfl
    | desc =>
        have before : position - 1 + 1 = position := by
          simp only [direction, Room] at room
          omega
        simp [onward, beyond, before]

theorem inside_advance {c : Cursor} {slot left : Nat}
    (inside : Inside c.ranking c.direction (.walking slot left)) :
    Inside c.ranking c.direction (c.advance slot left) := by
  obtain ⟨position, held, some_left, room⟩ := inside
  rcases advance_eq held room with ⟨last, finished⟩ | ⟨more, next, there, walking⟩
  · rw [finished]
    trivial
  · rw [walking]
    refine ⟨_, there, by omega, ?_⟩
    cases direction : c.direction <;> simp only [direction, beyond, Room] at room ⊢ <;> omega

theorem advance_ne_pending (c : Cursor) (slot left : Nat) : c.advance slot left ≠ .pending := by
  unfold advance
  split
  · split <;> simp
  · simp

theorem begin_ne_pending (c : Cursor) : c.begin ≠ .pending := by
  unfold begin
  split
  · simp
  · dsimp only
    split <;> simp

def current (c : Cursor) : State := if c.state = .pending then c.begin else c.state

theorem current_ne_pending (c : Cursor) : c.current ≠ .pending := by
  unfold current
  split
  · exact c.begin_ne_pending
  · assumption

theorem inside_current {c : Cursor} (valid : c.Valid) :
    Inside c.ranking c.direction c.current := by
  unfold current
  split
  · exact inside_begin valid
  · exact valid.inside

theorem ahead_current {c : Cursor} (valid : c.Valid) :
    ahead c.ranking c.direction c.current = c.remaining := by
  unfold current
  split
  next pending => exact ahead_begin valid pending
  next started => exact (remaining_of_ne_pending started).symm

/-- A step gives the head of what remains and leaves its tail. -/
theorem next_eq {c : Cursor} (valid : c.Valid) :
    ∃ state, state ≠ .pending ∧ c.next = (c.remaining.head?, { c with state }) ∧
      Inside c.ranking c.direction state ∧
      ahead c.ranking c.direction state = c.remaining.tail := by
  have inside := inside_current valid
  rw [← ahead_current valid]
  unfold next
  rw [← current]
  cases state : c.current with
  | pending => exact absurd state c.current_ne_pending
  | finished => exact ⟨.finished, by simp, by simp [ahead], trivial, by simp [ahead]⟩
  | walking slot left =>
      rw [state] at inside
      rw [ahead_walking inside]
      exact ⟨c.advance slot left, c.advance_ne_pending slot left, rfl,
        inside_advance inside, rfl⟩

theorem next_fst {c : Cursor} (valid : c.Valid) : c.next.1 = c.remaining.head? := by
  obtain ⟨state, -, next, -, -⟩ := next_eq valid
  rw [next]

theorem remaining_next {c : Cursor} (valid : c.Valid) :
    c.next.2.remaining = c.remaining.tail := by
  obtain ⟨state, started, next, -, tail⟩ := next_eq valid
  rw [next, remaining_of_ne_pending started]
  exact tail

theorem valid_next {c : Cursor} (valid : c.Valid) : c.next.2.Valid := by
  obtain ⟨state, -, next, inside, -⟩ := next_eq valid
  rw [next]
  exact ⟨valid.stop_le, inside⟩

/-! ## Walks of any length -/

theorem take_eq {c : Cursor} (valid : c.Valid) (count : Nat) :
    (c.take count).1 = c.remaining.take count ∧
      (c.take count).2.remaining = c.remaining.drop count ∧ (c.take count).2.Valid := by
  induction count generalizing c with
  | zero => simpa [take] using valid
  | succ count ih =>
      have head := next_fst valid
      have tail := remaining_next valid
      obtain ⟨ids, left, kept⟩ := ih (valid_next valid)
      cases next : c.next with
      | mk first further =>
          simp only [next] at head tail ids left kept
          unfold take
          simp only [next]
          cases remaining : c.remaining with
          | nil =>
              simp only [remaining, List.head?_nil] at head
              simp only [remaining, List.tail_nil] at tail
              subst head
              have valid := valid_next valid
              simp only [next] at valid
              simpa [tail] using valid
          | cons id rest =>
              simp only [remaining, List.head?_cons] at head
              simp only [remaining, List.tail_cons] at tail
              subst head
              simpa [ids, left, tail] using kept

theorem length_remaining_le {c : Cursor} (valid : c.Valid) :
    c.remaining.length ≤ c.ranking.size := by
  rw [← ahead_current valid, Ranking.size_eq]
  cases c.current with
  | pending => simp [ahead]
  | finished => simp [ahead]
  | walking position left =>
      simp only [ahead, List.length_take]
      cases c.direction <;> simp only [onward, List.length_reverse, List.length_take,
        List.length_drop] <;> omega

theorem rest_eq {c : Cursor} (valid : c.Valid) : c.rest = c.remaining := by
  rw [rest, (take_eq valid _).1, List.take_of_length_le (length_remaining_le valid)]

end Cursor

/-! ## Walks from the start -/

namespace Ranking

variable (r : Ranking) (direction : Direction)

theorem valid_cursor : (r.cursor direction).Valid := ⟨Nat.le_refl _, trivial⟩

theorem valid_window (start stop : Nat) :
    ((r.cursor direction).window start stop).Valid := ⟨Nat.min_le_right _ _, trivial⟩

theorem valid_offset (skip : Nat) : ((r.cursor direction).offset skip).Valid :=
  ⟨Nat.le_refl _, trivial⟩

theorem remaining_offset (skip : Nat) :
    ((r.cursor direction).offset skip).remaining = (direction.arrange r.ids).drop skip := by
  simp [Cursor.remaining, Cursor.offset, cursor, size_eq]

theorem remaining_cursor : (r.cursor direction).remaining = direction.arrange r.ids := by
  simp [Cursor.remaining, cursor, size_eq]

theorem rest_cursor : (r.cursor direction).rest = direction.arrange r.ids := by
  rw [Cursor.rest_eq (r.valid_cursor direction), remaining_cursor]

theorem take_cursor (count : Nat) :
    ((r.cursor direction).take count).1 = (direction.arrange r.ids).take count := by
  rw [(Cursor.take_eq (r.valid_cursor direction) count).1, remaining_cursor]

theorem rest_window (start stop : Nat) :
    ((r.cursor direction).window start stop).rest =
      direction.arrange ((r.ids.take stop).drop start) := by
  have sameTake : r.ids.take (min stop r.ids.length) = r.ids.take stop := by
    rw [← List.take_take, List.take_length]
  rw [Cursor.rest_eq (r.valid_window direction start stop)]
  simp [Cursor.remaining, Cursor.window, cursor, size_eq, sameTake]

end Ranking

end RankedQuery
