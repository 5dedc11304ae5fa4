import RankedQuery.Ranking.Basic

/-!
# Cursors

A cursor walks a ranking in one direction.  Until its first step it can be
restricted to a window of positions, counted in ascending order whatever the
direction, and told to skip documents at the start of its walk; the last such
setting counts.  The first step seeks a slot; from then on the cursor goes from
slot to slot with a number of documents left, and settings change nothing any
more.
-/

namespace RankedQuery

inductive Cursor.State where
  | pending
  | walking (slot left : Nat)
  | finished
  deriving DecidableEq, Repr

structure Cursor where
  ranking : Ranking
  direction : Direction
  /-- The first position of the window. -/
  start : Nat
  /-- One past the last position of the window. -/
  stop : Nat
  skip : Nat
  state : Cursor.State

def Ranking.cursor (r : Ranking) (direction : Direction) : Cursor :=
  { ranking := r, direction, start := 0, stop := r.size, skip := 0, state := .pending }

namespace Cursor

/-- Keeps to the positions from `start` up to but not including `stop`. -/
def window (c : Cursor) (start stop : Nat) : Cursor :=
  { c with start, stop := min stop c.ranking.size }

/-- Keeps to the positions `first` to `last`, both included. -/
def range (c : Cursor) (first last : UInt64) : Cursor :=
  c.window first.toNat (addSaturating last.toNat 1)

def offset (c : Cursor) (skip : Nat) : Cursor := { c with skip }

def begin (c : Cursor) : State :=
  if c.stop ≤ c.start ∨ c.stop - c.start ≤ c.skip then .finished
  else
    let (position, left) :=
      match c.direction with
      | .asc => (c.start + c.skip, c.stop - (c.start + c.skip))
      | .desc => (c.stop - 1 - c.skip, c.stop - 1 - c.skip - c.start + 1)
    match c.ranking.seek? position with
    | some slot => .walking slot left
    | none => .finished

def advance (c : Cursor) (slot left : Nat) : State :=
  match c.ranking.step? slot c.direction with
  | some slot => if 1 < left then .walking slot (left - 1) else .finished
  | none => .finished

def next (c : Cursor) : Option DocId × Cursor :=
  match if c.state = .pending then c.begin else c.state with
  | .walking slot left =>
      (some (c.ranking.idAt slot), { c with state := c.advance slot left })
  | _ => (none, { c with state := .finished })

def take (c : Cursor) : (count : Nat) → List DocId × Cursor
  | 0 => ([], c)
  | count + 1 =>
      match c.next with
      | (some id, c) =>
          let (ids, c) := c.take count
          (id :: ids, c)
      | (none, c) => ([], c)

def rest (c : Cursor) : List DocId := (c.take c.ranking.size).1

end Cursor

end RankedQuery
