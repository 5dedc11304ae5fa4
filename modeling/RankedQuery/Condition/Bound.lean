import RankedQuery.Catalog
import RankedQuery.Condition.Basic
import RankedQuery.Ranking.Cursor

/-!
# Bound conditions

A bound condition has handles in place of names.  Its length and, for a ranked
condition, its window of positions are those at binding; what it contains and
what it lists is read from the catalog at the time of asking.
-/

namespace RankedQuery

inductive BoundCondition.Target where
  | ranked (sort : Handle Ranking) (window : Option (Score × Score)) (start stop : Nat)
  | set (index : Handle Index)
  | union (members : List (Handle Index))
  deriving DecidableEq, Repr

structure BoundCondition where
  key : String
  /-- The number of documents that satisfied the condition at binding; for a
  union, that of its largest member. -/
  length : Nat
  target : BoundCondition.Target
  deriving DecidableEq, Repr

/-! ## Binding -/

def Ranking.positions (r : Ranking) : Option (Score × Score) → Nat × Nat
  | none => (0, 0)
  | some (low, high) => ((r.firstPosition low).toNat, (r.lastPosition high + 1).toNat)

namespace BoundCondition

def ofIndex (catalog : Catalog) (index : Handle Index) : BoundCondition :=
  let value := catalog.indexes.read index
  { key := value.name, length := value.size, target := .set index }

def ofSort (catalog : Catalog) (key : String) (sort : Handle Ranking) (test : ScoreTest) :
    BoundCondition :=
  let window := test.window?
  let (start, stop) := (catalog.rankings.read sort).positions window
  { key, length := stop - start, target := .ranked sort window start stop }

def ofUnion (catalog : Catalog) (key : String) (members : List (Handle Index)) :
    BoundCondition :=
  let lengths := members.map fun index => (catalog.indexes.read index).size
  { key, length := lengths.foldl max 0, target := .union members }

end BoundCondition

def Condition.bind (condition : Condition) (catalog : Catalog) :
    Except Error BoundCondition :=
  match condition with
  | .ranked name test => do
      let sort ← catalog.findSort name
      return .ofSort catalog condition.key sort test
  | .set name => do
      let index ← catalog.findIndex name
      return .ofIndex catalog index
  | .union names => do
      let sources ← catalog.directory.resolve names
      return .ofUnion catalog condition.key (sources.map (·.index))

def Condition.bindAll (catalog : Catalog) :
    List Condition → Except Error (List BoundCondition)
  | [] => .ok []
  | condition :: conditions => do
      let bound ← condition.bind catalog
      let others ← bindAll catalog conditions
      return bound :: others

namespace BoundCondition

/-! ## Asking -/

/-- Members of a union have no common order, so it cannot drive a scan. -/
def canIterate (c : BoundCondition) : Bool :=
  match c.target with
  | .union _ => false
  | _ => true

def isSet (c : BoundCondition) : Bool :=
  match c.target with
  | .set _ => true
  | _ => false

def index? (c : BoundCondition) : Option (Handle Index) :=
  match c.target with
  | .set index => some index
  | _ => none

def positions? (c : BoundCondition) : Option (Nat × Nat) :=
  match c.target with
  | .ranked _ _ start stop => some (start, stop)
  | _ => none

/-- The score of a document that satisfies the condition now; zero where the
condition is not about scores. -/
def score? (catalog : Catalog) (c : BoundCondition) (id : DocId) : Option Score :=
  match c.target with
  | .ranked sort window _ _ =>
      match window with
      | none => none
      | some (low, high) =>
          ((catalog.rankings.read sort).score? id).filter fun score =>
            low ≤ score && score ≤ high
  | .set index => if catalog.holds index id then some 0 else none
  | .union members => if members.any (catalog.holds · id) then some 0 else none

def accepts (catalog : Catalog) (c : BoundCondition) (id : DocId) : Bool :=
  (c.score? catalog id).isSome

/-- Lists documents of the condition: a ranked one what now lies in its window
of positions, in the ranking's order; a membership condition its members, by
ascending id in either direction. -/
def list (catalog : Catalog) (c : BoundCondition) (direction : Direction) :
    Except Error (List DocId) :=
  match c.target with
  | .ranked sort _ start stop =>
      .ok (((catalog.rankings.read sort).cursor direction).window start stop).rest
  | .set index => .ok (catalog.indexes.read index).ids
  | .union _ => .error (.illegalIteration c.key)

end BoundCondition

end RankedQuery
