import Mathlib.Data.List.Induction
import RankedQuery.Proofs.Ranking.Alike

/-!
# Reading a ranking through a cursor

Whatever a reader asks of a new cursor, in whatever order, the cursor is a fixed
list of documents: the settings before the first step fix the list, every step
takes its head, and later settings change nothing.  The positions that the
cursor works out on the way are all words, and the slots it goes to have others
on both sides, so no addition overflows, no subtraction goes below zero and no
access leaves the array of a static ranking.
-/

namespace RankedQuery

/-! ## Positions that have to be words -/

def addWords? (a b : Nat) : Option Nat := if a + b ≤ maxWord then some (a + b) else none

def subWords? (a b : Nat) : Option Nat := if b ≤ a then some (a - b) else none

theorem addWords?_eq {a b : Nat} (fits : a + b ≤ maxWord) : addWords? a b = some (a + b) := by
  simp [addWords?, fits]

theorem subWords?_eq {a b : Nat} (le : b ≤ a) : subWords? a b = some (a - b) := by
  simp [subWords?, le]

/-- Whether a slot and the two beside it are in the array of a static ranking.
The slots of a dynamic one are links, which need no arithmetic. -/
def Ranking.isAmidSlots (r : Ranking) (slot : Nat) : Bool :=
  match r.order with
  | .dynamic _ => true
  | .static s => 0 < slot && slot + 1 < s.cells.size

theorem Ranking.isAmidSlots_of_slot {r : Ranking} {position slot : Nat}
    (held : r.slots[position]? = some slot) : r.isAmidSlots slot = true := by
  obtain ⟨name, order⟩ := r
  cases order with
  | dynamic d => rfl
  | static s =>
      have padded := s.start_pos
      have behind := s.stop_lt_size
      obtain ⟨inside, ⟨⟩⟩ :=
        Option.ite_none_right_eq_some.mp ((s.getElem?_occupied position).symm.trans held)
      have inside : position < s.stop - s.start := inside
      have amid : 0 < s.start + position ∧ s.start + position + 1 < s.cells.size := by omega
      show (decide (0 < s.start + position) && decide (s.start + position + 1 < s.cells.size)) =
        true
      simp only [amid, decide_true, Bool.and_self]

namespace Cursor

def begin? (c : Cursor) : Option State :=
  if c.stop ≤ c.start then some .finished
  else do
    let width ← subWords? c.stop c.start
    if width ≤ c.skip then return .finished
    let (position, left) ←
      match c.direction with
      | .asc => do
          let position ← addWords? c.start c.skip
          let left ← subWords? c.stop position
          pure (position, left)
      | .desc => do
          let last ← subWords? c.stop 1
          let position ← subWords? last c.skip
          let before ← subWords? position c.start
          let left ← addWords? before 1
          pure (position, left)
    match c.ranking.seek? position with
    | some slot => return .walking slot left
    | none => return .finished

/-- `advance` with its arithmetic on words, from a slot that has others on both
sides. -/
def advance? (c : Cursor) (slot left : Nat) : Option State :=
  if c.ranking.isAmidSlots slot then
    match c.ranking.step? slot c.direction with
    | some slot =>
        if 1 < left then do
          let left ← subWords? left 1
          return .walking slot left
        else some .finished
    | none => some .finished
  else none

def next? (c : Cursor) : Option (Option DocId × Cursor) :=
  (if c.state = .pending then c.begin? else some c.state).bind fun
    | .walking slot left =>
        (c.advance? slot left).map fun state => (some (c.ranking.idAt slot), { c with state })
    | _ => some (none, { c with state := .finished })

def act? (c : Cursor) : Action → Option (Option DocId × Cursor)
  | .next => c.next?
  | setting => some (c.act setting)

def answers? : List Action → Cursor → Option (List (Option DocId))
  | [], _ => some []
  | action :: actions, c => do
      let (answer, c) ← c.act? action
      let further ← answers? actions c
      return answer :: further

theorem begin?_eq {c : Cursor} (valid : c.Valid) : c.begin? = some c.begin := by
  have few := c.ranking.size_le
  have stop_le := valid.stop_le
  unfold begin? begin
  by_cases empty : c.stop ≤ c.start
  · simp [empty]
  have width : subWords? c.stop c.start = some (c.stop - c.start) := subWords?_eq (by omega)
  by_cases skipped : c.stop - c.start ≤ c.skip
  · simp [empty, width, skipped]
  simp only [empty, width, skipped, if_false, or_self, Option.bind_eq_bind, Option.bind_some]
  cases c.direction with
  | asc =>
      have position : addWords? c.start c.skip = some (c.start + c.skip) :=
        addWords?_eq (by simp only [maxWord]; omega)
      have left : subWords? c.stop (c.start + c.skip) = some (c.stop - (c.start + c.skip)) :=
        subWords?_eq (by omega)
      simp only [position, left, Option.bind_some, pure]
      cases c.ranking.seek? (c.start + c.skip) <;> rfl
  | desc =>
      have last : subWords? c.stop 1 = some (c.stop - 1) := subWords?_eq (by omega)
      have position : subWords? (c.stop - 1) c.skip = some (c.stop - 1 - c.skip) :=
        subWords?_eq (by omega)
      have before : subWords? (c.stop - 1 - c.skip) c.start =
          some (c.stop - 1 - c.skip - c.start) := subWords?_eq (by omega)
      have left : addWords? (c.stop - 1 - c.skip - c.start) 1 =
          some (c.stop - 1 - c.skip - c.start + 1) :=
        addWords?_eq (by simp only [maxWord]; omega)
      simp only [last, position, before, left, Option.bind_some, pure]
      cases c.ranking.seek? (c.stop - 1 - c.skip) <;> rfl

theorem advance?_eq {c : Cursor} {slot left : Nat}
    (inside : Inside c.ranking c.direction (.walking slot left)) :
    c.advance? slot left = some (c.advance slot left) := by
  obtain ⟨position, held, some_left, room⟩ := inside
  simp only [advance?, advance, Ranking.isAmidSlots_of_slot held, if_true]
  cases c.ranking.step? slot c.direction with
  | none => rfl
  | some slot =>
      by_cases more : 1 < left
      · simp [more, subWords?_eq some_left]
      · simp [more]

theorem next?_eq {c : Cursor} (valid : c.Valid) : c.next? = some c.next := by
  have current : (if c.state = .pending then c.begin? else some c.state) = some c.current := by
    unfold Cursor.current
    split
    · exact begin?_eq valid
    · rfl
  have inside := inside_current valid
  unfold next? next
  rw [current, ← Cursor.current, Option.bind_some]
  cases state : c.current with
  | pending => exact absurd state c.current_ne_pending
  | finished => rfl
  | walking slot left =>
      rw [state] at inside
      simp only [advance?_eq inside, Option.map_some]

theorem valid_offset {c : Cursor} (valid : c.Valid) (skip : Nat) : (c.offset skip).Valid :=
  ⟨valid.stop_le, valid.inside⟩

theorem valid_act {c : Cursor} (valid : c.Valid) (action : Action) : (c.act action).2.Valid := by
  cases action with
  | range first last => exact ⟨Nat.min_le_right _ _, valid.inside⟩
  | offset skip => exact valid_offset valid skip.toNat
  | next => exact valid_next valid

theorem answers?_eq {c : Cursor} (valid : c.Valid) (actions : List Action) :
    answers? actions c = some (answers actions c) := by
  induction actions generalizing c with
  | nil => rfl
  | cons action actions ih =>
      have acted : c.act? action = some (c.act action) := by
        cases action with
        | range first last => rfl
        | offset skip => rfl
        | next => exact next?_eq valid
      simp only [answers?, answers, acted, ih (valid_act valid action), Option.bind_eq_bind,
        Option.bind_some]
      rfl

/-! ## A list that is read from the front -/

/-- What the actions give if each step takes the head of a list and settings
change nothing. -/
def reading : List DocId → List Action → List (Option DocId)
  | _, [] => []
  | documents, .next :: actions => documents.head? :: reading documents.tail actions
  | documents, _ :: actions => none :: reading documents actions

theorem drop_reading_replicate (documents : List DocId) (count : Nat) (actions : List Action) :
    (reading documents (.replicate count .next ++ actions)).drop count =
      reading (documents.drop count) actions := by
  induction count generalizing documents with
  | zero => rfl
  | succ count ih =>
      rw [List.replicate_succ, List.cons_append, reading, List.drop_succ_cons, ih,
        List.drop_tail]

theorem remaining_window_of_started {c : Cursor} (started : c.state ≠ .pending)
    (start stop : Nat) : (c.window start stop).remaining = c.remaining := by
  have stillStarted : (c.window start stop).state ≠ .pending := started
  rw [remaining_of_ne_pending started, remaining_of_ne_pending stillStarted]
  rfl

theorem remaining_offset_of_started {c : Cursor} (started : c.state ≠ .pending) (skip : Nat) :
    (c.offset skip).remaining = c.remaining := by
  have stillStarted : (c.offset skip).state ≠ .pending := started
  rw [remaining_of_ne_pending started, remaining_of_ne_pending stillStarted]
  rfl

theorem remaining_offset_of_pending {c : Cursor} (pending : c.state = .pending) (skip : Nat) :
    (c.offset skip).remaining = (c.offset 0).remaining.drop skip := by
  simp [remaining, offset, pending]

theorem next_started {c : Cursor} (valid : c.Valid) : c.next.2.state ≠ .pending := by
  obtain ⟨state, started, next, -, -⟩ := next_eq valid
  rwa [next]

/-- Once it has started, a cursor is the list of what remains. -/
theorem answers_of_started {c : Cursor} (valid : c.Valid) (started : c.state ≠ .pending)
    (actions : List Action) : answers actions c = reading c.remaining actions := by
  induction actions generalizing c with
  | nil => rfl
  | cons action actions ih =>
      cases action with
      | range first last =>
          have rest := ih (valid_act valid (.range first last)) started
          simp only [act, range, remaining_window_of_started started] at rest
          simp only [answers, reading, act, range, rest]
      | offset skip =>
          have rest := ih (valid_offset valid skip.toNat) started
          rw [remaining_offset_of_started started] at rest
          simp only [answers, reading, act, rest]
      | next =>
          simp only [answers, act, reading, next_fst valid, remaining_next valid,
            ih (valid_next valid) (next_started valid)]

theorem answers_next {c : Cursor} (valid : c.Valid) (actions : List Action) :
    answers (.next :: actions) c = reading c.remaining (.next :: actions) := by
  simp only [answers, act, reading, next_fst valid, remaining_next valid,
    answers_of_started (valid_next valid) (next_started valid)]

theorem answers_replicate_next {c : Cursor} (valid : c.Valid) (count : Nat)
    (actions : List Action) :
    answers (.replicate count .next ++ .next :: actions) c =
      reading c.remaining (.replicate count .next ++ .next :: actions) := by
  cases count with
  | zero => exact answers_next valid actions
  | succ count => exact answers_next valid _

/-! ## The settings before the first step -/

def after (c : Cursor) (actions : List Action) : Cursor :=
  actions.foldl (fun c action => (c.act action).2) c

def setup (actions : List Action) : List Action := actions.takeWhile (· ≠ .next)

theorem valid_after {c : Cursor} (valid : c.Valid) (actions : List Action) :
    (c.after actions).Valid := by
  induction actions generalizing c with
  | nil => exact valid
  | cons action actions ih => exact ih (valid_act valid action)

theorem answers_eq_reading {c : Cursor} (valid : c.Valid) (actions : List Action) :
    answers actions c = reading (c.after (setup actions)).remaining actions := by
  induction actions generalizing c with
  | nil => rfl
  | cons action actions ih =>
      cases action with
      | range first last =>
          simp only [answers, ih (valid_act valid (.range first last))]
          rfl
      | offset skip =>
          simp only [answers, ih (valid_act valid (.offset skip))]
          rfl
      | next => exact answers_next valid actions

namespace Action

def range? : Action → Option (UInt64 × UInt64)
  | range first last => some (first, last)
  | _ => none

def offset? : Action → Option UInt64
  | offset skip => some skip
  | _ => none

def lastRange? (actions : List Action) : Option (UInt64 × UInt64) :=
  (actions.filterMap range?).getLast?

def lastOffset (actions : List Action) : Nat :=
  (actions.filterMap offset?).getLast?.elim 0 (·.toNat)

end Action

def kept {α : Type} (ids : List α) : Option (UInt64 × UInt64) → List α
  | none => ids
  | some (first, last) => (ids.take (last.toNat + 1)).drop first.toNat

/-- What the settings make of a new cursor: of those of one kind the last counts. -/
theorem after_settings (r : Ranking) (direction : Direction) {settings : List Action}
    (unstarted : .next ∉ settings) :
    (r.cursor direction).after settings =
      (match Action.lastRange? settings with
        | none => r.cursor direction
        | some (first, last) => (r.cursor direction).range first last).offset
          (Action.lastOffset settings) := by
  induction settings using List.reverseRecOn with
  | nil => rfl
  | append_singleton settings action ih =>
      have earlier := ih fun inside => unstarted (List.mem_append_left _ inside)
      simp only [after] at earlier
      simp only [after, List.foldl_append, List.foldl_cons, List.foldl_nil, earlier,
        Action.lastRange?, Action.lastOffset, List.filterMap_append]
      cases action with
      | range first last =>
          simp only [act, Action.range?, Action.offset?, List.filterMap_cons, List.filterMap_nil,
            List.getLast?_append, List.getLast?_singleton, List.append_nil, Option.some_or]
          cases (settings.filterMap Action.range?).getLast? <;> rfl
      | offset skip =>
          simp [act, offset, Action.range?, Action.offset?]
      | next => exact absurd (List.mem_append_right _ List.mem_cons_self) unstarted

theorem next_not_mem_setup (actions : List Action) : .next ∉ setup actions := by
  intro inside
  have passed := List.all_eq_true.mp List.all_takeWhile _ inside
  simp at passed

theorem state_after_settings (r : Ranking) (direction : Direction) {settings : List Action}
    (unstarted : .next ∉ settings) :
    ((r.cursor direction).after settings).state = .pending := by
  rw [after_settings r direction unstarted]
  cases Action.lastRange? settings <;> rfl

/-- The documents ahead of a new cursor after its settings.  A range up to the
largest word keeps everything from its first position on. -/
theorem remaining_settings (r : Ranking) (direction : Direction) {settings : List Action}
    (unstarted : .next ∉ settings) :
    ((r.cursor direction).after settings).remaining =
      (direction.arrange (kept r.ids (Action.lastRange? settings))).drop
        (Action.lastOffset settings) := by
  have few := r.size_le
  rw [Ranking.size_eq] at few
  rw [after_settings r direction unstarted]
  cases Action.lastRange? settings with
  | none => exact r.remaining_offset direction _
  | some bounds =>
      obtain ⟨first, last⟩ := bounds
      have sameTake : r.ids.take (min (addSaturating last.toNat 1) r.ids.length) =
          r.ids.take (last.toNat + 1) := by
        rw [List.take_eq_take_iff]
        simp only [addSaturating, maxWord]
        omega
      simp [remaining, offset, range, window, Ranking.cursor, Ranking.size_eq, sameTake, kept]

end Cursor

/-! ## New cursors -/

namespace Ranking

variable (r : Ranking) (direction : Direction)

theorem answers_cursor (actions : List Cursor.Action) :
    Cursor.answers actions (r.cursor direction) =
      Cursor.reading
        ((direction.arrange
          (Cursor.kept r.ids (Cursor.Action.lastRange? (Cursor.setup actions)))).drop
            (Cursor.Action.lastOffset (Cursor.setup actions))) actions := by
  rw [Cursor.answers_eq_reading (r.valid_cursor direction),
    Cursor.remaining_settings r direction (Cursor.next_not_mem_setup actions)]

theorem answers_offset (earlier : List Cursor.Action) (skip : Nat)
    (later : List Cursor.Action) :
    let settled := (r.cursor direction).after (Cursor.setup earlier)
    Cursor.answers (.next :: later) (settled.offset skip) =
      (Cursor.answers (.replicate skip .next ++ .next :: later) (settled.offset 0)).drop
        skip := by
  intro settled
  have valid : settled.Valid := Cursor.valid_after (r.valid_cursor direction) _
  have pending : settled.state = .pending :=
    Cursor.state_after_settings r direction (Cursor.next_not_mem_setup earlier)
  rw [Cursor.answers_next (Cursor.valid_offset valid skip),
    Cursor.answers_replicate_next (Cursor.valid_offset valid 0),
    Cursor.drop_reading_replicate, Cursor.remaining_offset_of_pending pending]

theorem answers_range_to_end (first : UInt64) (later : List Cursor.Action) :
    Cursor.answers (.range first 0xffffffffffffffff :: .next :: later) (r.cursor direction) =
      none :: Cursor.reading (direction.arrange (r.ids.drop first.toNat)) (.next :: later) := by
  have few := r.size_le
  rw [Ranking.size_eq] at few
  have everything : r.ids.take ((0xffffffffffffffff : UInt64).toNat + 1) = r.ids :=
    List.take_of_length_le (Nat.le_trans few (by decide))
  rw [answers_cursor]
  show Cursor.reading (direction.arrange ((r.ids.take _).drop first.toNat)) _ = _
  rw [everything]
  rfl

/-- Whatever is asked of a new cursor over a ranking of either kind, no position
arithmetic fails, and the steps give one after the other what the settings before
the first step keep: the positions of the last range, in the direction of the
cursor, without those skipped by the last offset.  Skipping is the same as steps
whose documents are thrown away, and a range may go up to the largest word. -/
theorem cursor_reads :
    (∀ actions, Cursor.answers? actions (r.cursor direction) =
      some (Cursor.answers actions (r.cursor direction))) ∧
    (∀ actions, Cursor.answers actions (r.cursor direction) =
      Cursor.reading
        ((direction.arrange
          (Cursor.kept r.ids (Cursor.Action.lastRange? (Cursor.setup actions)))).drop
            (Cursor.Action.lastOffset (Cursor.setup actions))) actions) ∧
    (∀ (earlier : List Cursor.Action) (skip : UInt64) (later : List Cursor.Action),
      let settled := (r.cursor direction).after (Cursor.setup earlier)
      Cursor.answers (.next :: later) (settled.offset skip.toNat) =
        (Cursor.answers (.replicate skip.toNat .next ++ .next :: later)
          (settled.offset 0)).drop skip.toNat) ∧
    ∀ (first : UInt64) (later : List Cursor.Action),
      Cursor.answers (.range first 0xffffffffffffffff :: .next :: later) (r.cursor direction) =
        none :: Cursor.reading (direction.arrange (r.ids.drop first.toNat)) (.next :: later) :=
  ⟨Cursor.answers?_eq (r.valid_cursor direction), answers_cursor r direction,
    fun earlier skip later => answers_offset r direction earlier skip.toNat later,
    answers_range_to_end r direction⟩

end Ranking

end RankedQuery
