import RankedQuery.Condition.Bound
import RankedQuery.Config
import RankedQuery.Sorting

/-!
# Scan plans

A planner orders conditions and decides how a scan walks its candidates.
Conditions that can drive a scan come first, shorter ones before longer ones;
the first drives the scan if it is short, both absolutely and for its sort.
-/

namespace RankedQuery

inductive Plan where
  /-- No conditions: page straight through the sort. -/
  | sort
  /-- List the first condition, filter by the others, order what is left. -/
  | indexDriven
  /-- Walk the sort and filter by every condition. -/
  | sortDriven
  deriving DecidableEq, Repr

structure Planner where
  /-- The largest share of the sort that a driver may have. -/
  ratio : Float
  /-- The largest length that a driver may have. -/
  cap : UInt64
  deriving DecidableEq, Repr

def Config.planner (c : Config) : Planner := ⟨c.indexDrivenRatio, c.indexDrivenCap⟩

namespace Planner

def mayPrecede (a b : BoundCondition) : Bool :=
  match a.canIterate, b.canIterate with
  | true, false => true
  | false, true => false
  | _, _ => a.length ≤ b.length

def order (conditions : List BoundCondition) : List BoundCondition :=
  sortStable mayPrecede conditions

def isShort (p : Planner) (length sortLength : UInt64) : Bool :=
  length.toFloat ≤ sortLength.toFloat * p.ratio

def plan (p : Planner) (conditions : List BoundCondition) (sortLength : UInt64) : Plan :=
  match conditions with
  | [] => .sort
  | driver :: _ =>
      if !driver.canIterate || p.cap.toNat < driver.length then .sortDriven
      else if p.isShort (.ofNat driver.length) sortLength then .indexDriven
      else .sortDriven

end Planner

end RankedQuery
