import Std.Data.ExtTreeMap
import RankedQuery.Ranking.Scored

/-!
# Skip lists

A skip list keeps scored documents in (score, id) order.  Its nodes lie in an
arena and refer to each other by slots; the slot of a node that has left is
given to a later one.  A node has a link on every level below its height, which
leads over the lower nodes to the next one that is high enough and knows how
many positions it spans.  A search starts at the head, on the highest level in
use, and goes forward on every level as far as it may before it goes down.

The head and the tail have slots but no documents.  The head is at position 0
and the n-th document at position n.  How high a new node gets is a matter of
chance: `draws` tells how many tosses in a row went in its favour.
-/

namespace RankedQuery

structure SkipList.Link where
  next : Nat
  width : Nat
  deriving DecidableEq, Repr, Inhabited

structure SkipList.Node where
  entry : Scored
  prev : Nat
  links : List SkipList.Link
  deriving DecidableEq, Repr, Inhabited

abbrev SkipList.Arena := Array SkipList.Node

structure SkipList where
  nodes : SkipList.Arena
  free : List Nat
  slots : Std.ExtTreeMap DocId Nat
  /-- The number of levels in use. -/
  level : Nat
  length : Nat
  maxLevel : Nat

namespace SkipList

def head : Nat := 0

def tail : Nat := 1

/-- A node met by a search, and its position. -/
structure Place where
  slot : Nat
  position : Nat
  deriving DecidableEq, Repr, Inhabited

def front : Place := ⟨head, 0⟩

/-! ## The arena -/

namespace Arena

def node (arena : Arena) (slot : Nat) : Node := arena[slot]?.getD default

def link (arena : Arena) (slot level : Nat) : Link :=
  (arena.node slot).links[level]?.getD default

def setLink (arena : Arena) (slot level : Nat) (link : Link) : Arena :=
  arena.modify slot fun node => { node with links := node.links.set level link }

def setPrev (arena : Arena) (slot prev : Nat) : Arena :=
  arena.modify slot fun node => { node with prev }

def walk (arena : Arena) (test : Place → Bool) (level : Nat) : (fuel : Nat) → Place → Place
  | 0, place => place
  | fuel + 1, place =>
      let link := arena.link place.slot level
      let ahead : Place := ⟨link.next, place.position + link.width⟩
      if link.next ≠ tail ∧ test ahead then arena.walk test level fuel ahead else place

/-- The places where a search leaves the levels below a given one, from the
highest down. -/
def trail (arena : Arena) (test : Place → Bool) (fuel : Nat) :
    (levels : Nat) → Place → List Place
  | 0, _ => []
  | level + 1, place =>
      let place := arena.walk test level fuel place
      place :: arena.trail test fuel level place

def eachLevel (arena : Arena) (step : Arena → Nat → Arena) (first : Nat) :
    (count : Nat) → Arena
  | 0 => arena
  | count + 1 => step (arena.eachLevel step first count) (first + count)

/-- Opens a level for which no node is high enough yet. -/
def openLevel (length : Nat) (arena : Arena) (level : Nat) : Arena :=
  arena.setLink head level ⟨tail, length + 1⟩

/-- Links a new node on a level of its own, behind the place where the search for
it left that level. -/
def splice (update : Nat → Place) (slot : Nat) (arena : Arena) (level : Nat) : Arena :=
  let before := arena.link (update level).slot level
  let skipped := (update 0).position - (update level).position
  let arena := arena.setLink slot level ⟨before.next, before.width - skipped⟩
  arena.setLink (update level).slot level ⟨slot, skipped + 1⟩

/-- Lets a link span a new node that is too low for it. -/
def widen (update : Nat → Place) (arena : Arena) (level : Nat) : Arena :=
  let link := arena.link (update level).slot level
  arena.setLink (update level).slot level { link with width := link.width + 1 }

def weave (arena : Arena) (update : Nat → Place) (slot height level : Nat) : Arena :=
  let arena := arena.eachLevel (splice update slot) 0 height
  arena.eachLevel (widen update) height (level - height)

def attach (arena : Arena) (update : Nat → Place) (slot height level : Nat) : Arena :=
  let arena := arena.weave update slot height level
  arena.setPrev (arena.link slot 0).next slot

/-- Takes a node out of a level: the link that led to it or spanned it goes on to
where it led. -/
def bypass (update : Nat → Place) (slot : Nat) (arena : Arena) (level : Nat) : Arena :=
  let link := arena.link (update level).slot level
  if link.next = slot then
    let removed := arena.link slot level
    arena.setLink (update level).slot level ⟨removed.next, link.width + removed.width - 1⟩
  else arena.setLink (update level).slot level { link with width := link.width - 1 }

def detach (arena : Arena) (update : Nat → Place) (slot level : Nat) : Arena :=
  let arena := arena.eachLevel (bypass update slot) 0 level
  arena.setPrev (arena.link slot 0).next (arena.node slot).prev

def clear (arena : Arena) (slot : Nat) : Arena :=
  arena.modify slot fun node => { node with links := [] }

/-- The highest level in use, not counting those whose only link leads from the
head to the tail. -/
def lowered (arena : Arena) : (level : Nat) → Nat
  | level + 2 =>
      if (arena.link head (level + 1)).next = tail then arena.lowered (level + 1)
      else level + 2
  | level => level

end Arena

/-! ## Reading -/

def ofMaxLevel (maxLevel : Nat) : SkipList where
  nodes := #[
    ⟨⟨Int64.minValue, 0⟩, head, .replicate (max maxLevel 1) ⟨tail, 1⟩⟩,
    ⟨⟨Int64.maxValue, 0⟩, head, []⟩]
  free := []
  slots := ∅
  level := 1
  length := 0
  maxLevel := max maxLevel 1

variable (l : SkipList)

def entryAt (slot : Nat) : Scored := (l.nodes.node slot).entry

def idAt (slot : Nat) : DocId := (l.entryAt slot).id

def score? (id : DocId) : Option Score := l.slots[id]?.map fun slot => (l.entryAt slot).score

def search (test : Place → Bool) : List Place :=
  l.nodes.trail test l.length l.level front

/-- The place where a search leaves a level, the head for a level not in use. -/
def left (trail : List Place) (level : Nat) : Place := trail.reverse[level]?.getD front

def precedes (entry : Scored) (place : Place) : Bool := (l.entryAt place.slot).Before entry

def rank? (id : DocId) : Option Nat := do
  let slot ← l.slots[id]?
  let trail := l.search fun place => place.slot = slot || l.precedes (l.entryAt slot) place
  let place ← trail.find? (·.slot = slot)
  return place.position - 1

def countWhile (test : Score → Bool) : Nat :=
  (left (l.search fun place => test (l.entryAt place.slot).score) 0).position

def lowerBound (score : Score) : Nat := l.countWhile (· < score)

def upperBound (score : Score) : Nat := l.countWhile (· ≤ score)

def seek? (position : Nat) : Option Nat :=
  if l.length ≤ position then none
  else
    ((l.search (·.position ≤ position + 1)).find? (·.position = position + 1)).map (·.slot)

def nextSlot? (slot : Nat) : Option Nat :=
  let next := (l.nodes.link slot 0).next
  if next = tail then none else some next

def prevSlot? (slot : Nat) : Option Nat :=
  let prev := (l.nodes.node slot).prev
  if prev = head then none else some prev

def slotsFrom : (fuel : Nat) → (slot : Nat) → List Nat
  | 0, _ => []
  | fuel + 1, slot =>
      match l.nextSlot? slot with
      | some next => next :: slotsFrom fuel next
      | none => []

def chain : List Nat := l.slotsFrom l.length head

def entries : List Scored := l.chain.map l.entryAt

/-! ## Changing -/

def height (draws : Nat) : Nat := min (draws + 1) l.maxLevel

def raise (height : Nat) : SkipList :=
  if l.level < height then
    { l with
      nodes := l.nodes.eachLevel (Arena.openLevel l.length) l.level (height - l.level)
      level := height }
  else l

def alloc (node : Node) : Nat × SkipList :=
  match l.free with
  | slot :: free => (slot, { l with nodes := l.nodes.setIfInBounds slot node, free })
  | [] => (l.nodes.size, { l with nodes := l.nodes.push node })

def insert (entry : Scored) (draws : Nat) : SkipList :=
  let update := left (l.search (l.precedes entry))
  let height := l.height draws
  let l := l.raise height
  let (slot, l) := l.alloc ⟨entry, (update 0).slot, .replicate height default⟩
  { l with
    nodes := l.nodes.attach update slot height l.level
    slots := l.slots.insert entry.id slot
    length := l.length + 1 }

def unlink (slot : Nat) : SkipList :=
  let entry := l.entryAt slot
  let update := left (l.search (l.precedes entry))
  let nodes := l.nodes.detach update slot l.level
  { l with
    nodes := nodes.clear slot
    free := slot :: l.free
    slots := l.slots.erase entry.id
    level := nodes.lowered l.level
    length := l.length - 1 }

def set (id : DocId) (score : Score) (draws : Nat) : Bool × SkipList :=
  match l.slots[id]? with
  | some slot =>
      if (l.entryAt slot).score = score then (false, l)
      else (true, (l.unlink slot).insert ⟨score, id⟩ draws)
  | none => (true, l.insert ⟨score, id⟩ draws)

def remove (id : DocId) : Bool × SkipList :=
  match l.slots[id]? with
  | some slot => (true, l.unlink slot)
  | none => (false, l)

end SkipList

end RankedQuery
