import Std.Data.ExtTreeMap
import RankedQuery.Index
import RankedQuery.Ranking.Basic
import RankedQuery.Store

/-!
# The catalog

The catalog keeps the values of all indexes and rankings and the names under
which some of them are registered.  A directory maps index names to handles;
the catalog has the present one, and whoever kept an earlier one can still
resolve names with it.  Dropping an index takes it out of the directory and
retires it; its value stays readable through its handle.
-/

namespace RankedQuery

abbrev Directory := Std.ExtTreeMap String (Handle Index)

structure Source where
  name : String
  index : Handle Index
  deriving DecidableEq, Repr, Inhabited

namespace Directory

/-- One source per name, in the order of the names; fails at the first name
that is not registered. -/
def resolve (directory : Directory) : List String → Except Error (List Source)
  | [] => .ok []
  | name :: names =>
      match directory[name]? with
      | none => .error (.unknownReference name)
      | some index => do
          let sources ← directory.resolve names
          return ⟨name, index⟩ :: sources

/-- The names before the first that is not registered. -/
def resolvable (directory : Directory) (names : List String) : List String :=
  names.takeWhile (directory.contains ·)

end Directory

structure Catalog where
  indexes : Store Index := {}
  rankings : Store Ranking := {}
  directory : Directory := ∅
  sorts : Std.ExtTreeMap String (Handle Ranking) := ∅
  /-- How high the nodes of new dynamic sorts may get. -/
  levelLimit : Nat := 32

instance : Inhabited Catalog := ⟨{}⟩

namespace Catalog

/-! ## Names -/

def index? (c : Catalog) (name : String) : Option (Handle Index) := c.directory[name]?

def sort? (c : Catalog) (name : String) : Option (Handle Ranking) := c.sorts[name]?

def findIndex (c : Catalog) (name : String) : Except Error (Handle Index) :=
  match c.index? name with
  | some index => .ok index
  | none => .error (.unknownReference name)

def findSort (c : Catalog) (name : String) : Except Error (Handle Ranking) :=
  match c.sort? name with
  | some sort => .ok sort
  | none => .error (.unknownReference name)

def indexNames (c : Catalog) : List String := c.directory.keys

def sortNames (c : Catalog) : List String := c.sorts.keys

/-- Adds an index that no name refers to. -/
def addIndex (c : Catalog) (index : Index) : Handle Index × Catalog :=
  (c.indexes.next, { c with indexes := c.indexes.insert index })

def createIndex (c : Catalog) (name : String) : Handle Index × Catalog :=
  match c.index? name with
  | some index => (index, c)
  | none =>
      let (index, c) := c.addIndex { name }
      (index, { c with directory := c.directory.insert name index })

def installSort (c : Catalog) (ranking : Ranking) : Handle Ranking × Catalog :=
  let sort := c.rankings.next
  (sort, { c with
    rankings := c.rankings.insert ranking
    sorts := c.sorts.insert ranking.name sort })

def createSort (c : Catalog) (name : String) : Handle Ranking × Catalog :=
  match c.sort? name with
  | some sort => (sort, c)
  | none => c.installSort (.dynamic name c.levelLimit)

/-- Unregisters an index and retires it. -/
def dropIndex (c : Catalog) (name : String) : Option (Handle Index) × Catalog :=
  match c.index? name with
  | none => (none, c)
  | some index =>
      (some index, { c with
        indexes := c.indexes.update index .retire
        directory := c.directory.erase name })

/-! ## Values -/

def holds (c : Catalog) (index : Handle Index) (id : DocId) : Bool :=
  (c.indexes.read index).contains id

def updateIndex (c : Catalog) (index : Handle Index) (change : Index → Index) : Catalog :=
  { c with indexes := c.indexes.update index change }

def updateSort (c : Catalog) (sort : Handle Ranking) (change : Ranking → Ranking) : Catalog :=
  { c with rankings := c.rankings.update sort change }

end Catalog

end RankedQuery
