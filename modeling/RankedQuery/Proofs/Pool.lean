import RankedQuery.Page
import RankedQuery.Query

/-!
# Pools lend fresh values

Whatever a pool takes back is reset, and a reset value is a fresh one.  So the
values at rest are all fresh, and so is every value that is lent.  A pool makes a
value of its own only when none is at rest, which takes as many loans as it has
room for; so as long as no more values are out, it has one at rest for each that
is not.
-/

namespace RankedQuery

theorem ResultSet.reset_eq (result : ResultSet) : Reusable.reset result = Reusable.fresh := rfl

theorem Query.reset_eq (query : Query) : Reusable.reset query = Reusable.fresh := rfl

namespace Pool

variable {α : Type} [Reusable α] {p : Pool α}

def Clean (p : Pool α) : Prop := ∀ value ∈ p.free, value = Reusable.fresh

theorem clean_ofCapacity (capacity : UInt64) : (ofCapacity capacity : Pool α).Clean :=
  fun _ resting => List.eq_of_mem_replicate resting

theorem checkout_eq_fresh (clean : p.Clean) : p.checkout.1 = Reusable.fresh := by
  unfold checkout
  cases resting : p.free with
  | nil => rfl
  | cons value free =>
      apply clean
      rw [resting]
      exact List.mem_cons_self

theorem clean_checkout (clean : p.Clean) : p.checkout.2.Clean := by
  unfold checkout
  cases resting : p.free with
  | nil =>
      intro other inside
      cases inside
  | cons value free =>
      intro other inside
      apply clean
      rw [resting]
      exact List.mem_cons_of_mem _ inside

theorem clean_release (clean : p.Clean) {value : α}
    (resets : Reusable.reset value = (Reusable.fresh : α)) : (p.release value).Clean := by
  unfold release
  split
  · intro other inside
    rcases List.mem_append.mp inside with before | returned
    · exact clean other before
    · rw [List.mem_singleton.mp returned, resets]
  · exact clean

/-! ## Counting -/

theorem available_checkout (p : Pool α) : p.checkout.2.available = p.available - 1 := by
  unfold checkout available
  cases p.free <;> simp

@[simp] theorem capacity_checkout (p : Pool α) : p.checkout.2.capacity = p.capacity := by
  unfold checkout
  cases p.free <;> rfl

@[simp] theorem checkouts_checkout (p : Pool α) :
    p.checkout.2.checkouts = p.checkouts + 1 := by
  unfold checkout
  cases p.free <;> rfl

theorem transient_checkout (p : Pool α) :
    p.checkout.2.transient = p.transient + if p.available = 0 then 1 else 0 := by
  unfold checkout available
  cases p.free <;> simp

theorem available_release (p : Pool α) (value : α) :
    (p.release value).available =
      if p.available < p.capacity then p.available + 1 else p.available := by
  unfold release available
  split <;> simp

@[simp] theorem capacity_release (p : Pool α) (value : α) :
    (p.release value).capacity = p.capacity := by
  unfold release
  split <;> rfl

@[simp] theorem checkouts_release (p : Pool α) (value : α) :
    (p.release value).checkouts = p.checkouts := by
  unfold release
  split <;> rfl

@[simp] theorem transient_release (p : Pool α) (value : α) :
    (p.release value).transient = p.transient := by
  unfold release
  split <;> rfl

structure Lends (p : Pool α) (count : Nat) (p' : Pool α) : Prop where
  checkouts : p'.checkouts = p.checkouts + count
  transient : p'.transient = p.transient + if p.available = 0 then count else 0

omit [Reusable α] in
theorem lends_none (p : Pool α) : p.Lends 0 p := ⟨rfl, by simp⟩

theorem lends_checkout (p : Pool α) : p.Lends 1 p.checkout.2 :=
  ⟨p.checkouts_checkout, p.transient_checkout⟩

theorem lends_release (p : Pool α) (value : α) : p.Lends 0 (p.release value) := by
  constructor <;> simp

/-- What holds of a pool that was made for `size` values, while `loans` of them
are out and at no time more than `most` were. -/
structure Accounts (p : Pool α) (size : UInt64) (loans most : Nat) : Prop where
  clean : p.Clean
  capacity : p.capacity = max size.toNat 1
  available_le : p.available ≤ p.capacity
  covered : p.capacity ≤ p.available + loans
  loans_le : loans ≤ most
  unexceeded : most ≤ p.capacity → p.transient = 0

theorem accounts_ofCapacity (size : UInt64) :
    (ofCapacity size : Pool α).Accounts size 0 0 where
  clean := clean_ofCapacity size
  capacity := rfl
  available_le := by simp [ofCapacity, available]
  covered := by simp [ofCapacity, available]
  loans_le := Nat.le_refl 0
  unexceeded _ := rfl

namespace Accounts

variable {size : UInt64} {loans most : Nat}

theorem checkout (accounts : p.Accounts size loans most) :
    p.checkout.2.Accounts size (loans + 1) (max most (loans + 1)) where
  clean := clean_checkout accounts.clean
  capacity := by rw [capacity_checkout, accounts.capacity]
  available_le := by
    have le := accounts.available_le
    rw [available_checkout, capacity_checkout]
    omega
  covered := by
    have covered := accounts.covered
    rw [available_checkout, capacity_checkout]
    omega
  loans_le := Nat.le_max_right ..
  unexceeded few := by
    have covered := accounts.covered
    rw [capacity_checkout] at few
    rw [transient_checkout, accounts.unexceeded (by omega), if_neg (by omega)]

theorem release (accounts : p.Accounts size loans most) (out : 0 < loans) {value : α}
    (resets : Reusable.reset value = (Reusable.fresh : α)) :
    (p.release value).Accounts size (loans - 1) most where
  clean := clean_release accounts.clean resets
  capacity := by rw [capacity_release, accounts.capacity]
  available_le := by
    have le := accounts.available_le
    rw [available_release, capacity_release]
    split <;> omega
  covered := by
    have covered := accounts.covered
    rw [available_release, capacity_release]
    split <;> omega
  loans_le := by
    have le := accounts.loans_le
    omega
  unexceeded few := by
    rw [capacity_release] at few
    rw [transient_release, accounts.unexceeded few]

/-- With nothing on loan the pool is full. -/
theorem available_eq (accounts : p.Accounts size 0 most) : p.available = p.capacity :=
  Nat.le_antisymm accounts.available_le accounts.covered

end Accounts

end Pool

end RankedQuery
