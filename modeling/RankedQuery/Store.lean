/-!
# Handles and stores

A store holds values behind handles.  Whoever holds a handle sees every later
change of its value, under whatever name the value is known meanwhile, and two
handles are equal exactly when they were given out together.  Nothing is ever
taken out of a store.

`read` gives the default value for a handle of no store; the laws below say
what `insert` and `update` do to it.
-/

namespace RankedQuery

structure Handle (α : Type) where
  slot : Nat

instance {α : Type} : DecidableEq (Handle α) := fun g h =>
  decidable_of_iff (g.slot = h.slot) (by cases g; cases h; simp)

instance {α : Type} : Repr (Handle α) := ⟨fun h => reprPrec h.slot⟩

instance {α : Type} : Inhabited (Handle α) := ⟨⟨0⟩⟩

structure Store (α : Type) where
  cells : Array α := #[]
  deriving Inhabited

namespace Store

variable {α : Type}

def Has (s : Store α) (h : Handle α) : Prop := h.slot < s.cells.size

instance (s : Store α) (h : Handle α) : Decidable (s.Has h) :=
  inferInstanceAs (Decidable (h.slot < s.cells.size))

def read [Inhabited α] (s : Store α) (h : Handle α) : α :=
  s.cells[h.slot]?.getD default

def next (s : Store α) : Handle α := ⟨s.cells.size⟩

def insert (s : Store α) (value : α) : Store α := ⟨s.cells.push value⟩

def update (s : Store α) (h : Handle α) (change : α → α) : Store α :=
  ⟨s.cells.modify h.slot change⟩

theorem not_has_next (s : Store α) : ¬ s.Has s.next := Nat.lt_irrefl _

theorem has_insert {s : Store α} {value : α} {h : Handle α} :
    (s.insert value).Has h ↔ s.Has h ∨ h = s.next := by
  cases h
  simp only [Has, insert, next, Array.size_push, Handle.mk.injEq]
  omega

@[simp] theorem has_update {s : Store α} {g h : Handle α} {change : α → α} :
    (s.update g change).Has h ↔ s.Has h := by
  simp [Has, update]

theorem update_of_not_has {s : Store α} {h : Handle α} (unknown : ¬ s.Has h)
    (change : α → α) : s.update h change = s := by
  unfold Has at unknown
  have same : s.cells.modify h.slot change = s.cells := by
    ext i inside
    · simp
    · rw [Array.size_modify] at inside
      rw [Array.getElem_modify, if_neg (by omega)]
  simp [update, same]

variable [Inhabited α]

theorem read_of_not_has {s : Store α} {h : Handle α} (unknown : ¬ s.Has h) :
    s.read h = default := by
  rw [read, Array.getElem?_eq_none (Nat.le_of_not_lt unknown), Option.getD_none]

@[simp] theorem read_insert_next (s : Store α) (value : α) :
    (s.insert value).read s.next = value := by
  simp [read, insert, next]

theorem read_insert_of_has {s : Store α} {h : Handle α} (known : s.Has h)
    (value : α) : (s.insert value).read h = s.read h := by
  unfold Has at known
  simp [read, insert, Array.getElem?_push, Nat.ne_of_lt known]

theorem read_update_self {s : Store α} {h : Handle α} (known : s.Has h)
    (change : α → α) : (s.update h change).read h = change (s.read h) := by
  unfold Has at known
  simp [read, update, Array.getElem?_modify, Array.getElem?_eq_getElem known]

theorem read_update_of_ne {s : Store α} {g h : Handle α} (distinct : g ≠ h)
    (change : α → α) : (s.update g change).read h = s.read h := by
  have slots : g.slot ≠ h.slot := fun same =>
    distinct (by cases g; cases h; simp_all)
  simp [read, update, Array.getElem?_modify, slots]

theorem read_update_const {s : Store α} {h : Handle α} (value : α)
    (foreign : ¬ s.Has h → value = default) : (s.update h fun _ => value).read h = value := by
  by_cases known : s.Has h
  · exact read_update_self known _
  · rw [update_of_not_has known, read_of_not_has known, foreign known]

theorem ext_read {s s' : Store α} (has : ∀ h, s'.Has h ↔ s.Has h)
    (read : ∀ h, s'.read h = s.read h) : s' = s := by
  have size : s'.cells.size = s.cells.size := by
    apply Nat.le_antisymm
    · refine Nat.le_of_not_lt fun longer => ?_
      exact Nat.lt_irrefl _ ((has ⟨s.cells.size⟩).mp longer)
    · refine Nat.le_of_not_lt fun longer => ?_
      exact Nat.lt_irrefl _ ((has ⟨s'.cells.size⟩).mpr longer)
  have cells : s'.cells = s.cells := by
    refine Array.ext size fun i inside inside' => ?_
    have same := read ⟨i⟩
    simpa [Store.read, Array.getElem?_eq_getElem inside, Array.getElem?_eq_getElem inside']
      using same
  cases s
  cases s'
  exact congrArg Store.mk cells

end Store

end RankedQuery
