import RankedQuery.Error
import RankedQuery.Ranking.Dynamic
import RankedQuery.Ranking.Static

/-!
# Rankings

A ranking, the sort of a query, is a named total order over documents: a
dynamic one, ordered by scores that can change, or a static one, ordered as it
was loaded.  Readers need not know which of the two they have.
-/

namespace RankedQuery

inductive Ranking.Order where
  | dynamic (ranking : DynamicRanking)
  | static (ranking : StaticRanking)

structure Ranking where
  name : String
  order : Ranking.Order

namespace Ranking

def dynamic (name : String) (maxLevel : Nat := 32) : Ranking := ⟨name, .dynamic (.empty maxLevel)⟩

def static (name : String) (ids : List DocId) : Ranking := ⟨name, .static (.load ids)⟩

instance : Inhabited Ranking := ⟨dynamic ""⟩

def isStatic (r : Ranking) : Bool :=
  match r.order with
  | .dynamic _ => false
  | .static _ => true

/-! ## Reading -/

def size (r : Ranking) : Nat :=
  match r.order with
  | .dynamic d => d.size
  | .static s => s.size

def ids (r : Ranking) : List DocId :=
  match r.order with
  | .dynamic d => d.entries.map (·.id)
  | .static s => s.toList

def rank? (r : Ranking) (id : DocId) : Option Nat :=
  match r.order with
  | .dynamic d => d.rank? id
  | .static s => s.rank? id

def score? (r : Ranking) (id : DocId) : Option Score :=
  match r.order with
  | .dynamic d => d.score? id
  | .static s => s.score? id

def contains (r : Ranking) (id : DocId) : Bool := (r.score? id).isSome

def lowerBound (r : Ranking) (score : Score) : Nat :=
  match r.order with
  | .dynamic d => d.lowerBound score
  | .static s => s.lowerBound score

def upperBound (r : Ranking) (score : Score) : Nat :=
  match r.order with
  | .dynamic d => d.upperBound score
  | .static s => s.upperBound score

/-- The first position that `score` occupies.  For an absent score the first
and the last position cross. -/
def firstPosition (r : Ranking) (score : Score) : Int := r.lowerBound score

def lastPosition (r : Ranking) (score : Score) : Int := (r.upperBound score : Int) - 1

theorem size_eq (r : Ranking) : r.size = r.ids.length := by
  unfold size ids
  split
  · rw [List.length_map, DynamicRanking.size_eq]
  · exact StaticRanking.size_eq _

/-! ## Walking

A walk goes from slot to slot.  A slot holds one document, and slots lie in the
order of the documents. -/

def seek? (r : Ranking) (position : Nat) : Option Nat :=
  match r.order with
  | .dynamic d => d.seek? position
  | .static s => s.seek? position

def step? (r : Ranking) (slot : Nat) (direction : Direction) : Option Nat :=
  match r.order, direction with
  | .dynamic d, .asc => d.nextSlot? slot
  | .dynamic d, .desc => d.prevSlot? slot
  | .static s, .asc => s.nextSlot? slot
  | .static s, .desc => s.prevSlot? slot

def idAt (r : Ranking) (slot : Nat) : DocId :=
  match r.order with
  | .dynamic d => d.idAt slot
  | .static s => s.idAt slot

def slots (r : Ranking) : List Nat :=
  match r.order with
  | .dynamic d => d.slots
  | .static s => s.occupied

theorem length_slots : ∀ r : Ranking, r.slots.length = r.size
  | ⟨_, .dynamic d⟩ => d.length_slots
  | ⟨_, .static s⟩ => s.length_occupied

theorem nodup_slots : ∀ r : Ranking, r.slots.Nodup
  | ⟨_, .dynamic d⟩ => d.nodup_slots
  | ⟨_, .static s⟩ => s.nodup_occupied

theorem map_idAt_slots : ∀ r : Ranking, r.slots.map r.idAt = r.ids
  | ⟨_, .dynamic d⟩ => d.map_idAt_slots
  | ⟨_, .static s⟩ => s.map_idAt_occupied

theorem seek?_eq : ∀ (r : Ranking) (position : Nat), r.seek? position = r.slots[position]?
  | ⟨_, .dynamic d⟩, position => d.seek?_eq position
  | ⟨_, .static s⟩, position => s.seek?_eq position

theorem step?_asc {position slot : Nat} : ∀ {r : Ranking}, r.slots[position]? = some slot →
    r.step? slot .asc = r.slots[position + 1]?
  | ⟨_, .dynamic _⟩, held => DynamicRanking.nextSlot?_eq held
  | ⟨_, .static _⟩, held => StaticRanking.nextSlot?_occupied held

theorem step?_desc {position slot : Nat} : ∀ {r : Ranking}, r.slots[position]? = some slot →
    r.step? slot .desc = if 0 < position then r.slots[position - 1]? else none
  | ⟨_, .dynamic _⟩, held => DynamicRanking.prevSlot?_eq held
  | ⟨_, .static _⟩, held => StaticRanking.prevSlot?_occupied held

/-! ## Changing -/

/-- Draws made from an id, for callers that draw none. -/
def drawsOf (id : DocId) : Nat :=
  ((List.range 32).takeWhile fun bit => (id * 0x9e3779b9).toNat.testBit (31 - bit)).length

def set (r : Ranking) (id : DocId) (score : Score) (draws : Nat := drawsOf id) :
    Except Error (Bool × Ranking) :=
  match r.order with
  | .dynamic d =>
      let (changed, d) := d.set id score draws
      .ok (changed, { r with order := .dynamic d })
  | .static _ => .error (.staticScore r.name)

def remove (r : Ranking) (id : DocId) : Except Error (Bool × Ranking) :=
  match r.order with
  | .dynamic d =>
      let (changed, d) := d.remove id
      .ok (changed, { r with order := .dynamic d })
  | .static _ => .error (.staticRemoval r.name)

def append? (r : Ranking) (id : DocId) : Option (Except Error Ranking) :=
  match r.order with
  | .dynamic _ => none
  | .static s =>
      match s.append? id with
      | some s => some (.ok { r with order := .static s })
      | none => some (.error (.staticMove r.name id))

def prepend? (r : Ranking) (id : DocId) : Option (Except Error Ranking) :=
  match r.order with
  | .dynamic _ => none
  | .static s =>
      match s.prepend? id with
      | some s => some (.ok { r with order := .static s })
      | none => some (.error (.staticMove r.name id))

end Ranking

end RankedQuery
