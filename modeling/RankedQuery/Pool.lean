import RankedQuery.Stats

/-!
# Pools

A pool lends out values and takes them back, reset.  It never refuses: an
empty pool lends a fresh value, and a full one forgets what is returned.
-/

namespace RankedQuery

/-- Values that can be handed out again after a reset. -/
class Reusable (α : Type) where
  fresh : α
  reset : α → α

structure Pool (α : Type) where
  capacity : Nat
  /-- The values at rest, the next one to be lent first. -/
  free : List α
  checkouts : Nat := 0
  /-- Checkouts that found the pool empty. -/
  transient : Nat := 0
  deriving Repr

namespace Pool

variable {α : Type} [Reusable α]

/-- A pool filled with fresh values; it holds at least one. -/
def ofCapacity (capacity : UInt64) : Pool α :=
  let capacity := max capacity.toNat 1
  { capacity, free := List.replicate capacity Reusable.fresh }

def available (p : Pool α) : Nat := p.free.length

def checkout (p : Pool α) : α × Pool α :=
  let p := { p with checkouts := p.checkouts + 1 }
  match p.free with
  | value :: free => (value, { p with free })
  | [] => (Reusable.fresh, { p with transient := p.transient + 1 })

def release (p : Pool α) (value : α) : Pool α :=
  if p.free.length < p.capacity then
    { p with free := p.free ++ [Reusable.reset value] }
  else p

def stats (p : Pool α) : PoolStats where
  capacity := .ofNat p.capacity
  available := .ofNat p.available
  checkouts := .ofNat p.checkouts
  transient := .ofNat p.transient

end Pool

end RankedQuery
