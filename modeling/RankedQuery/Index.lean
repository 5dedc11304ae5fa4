import Std.Data.ExtTreeSet
import RankedQuery.Basic

/-!
# Membership indexes

An index is a named set of documents.  The set lists its members by ascending
id, and two sets with the same members are equal.  An index that was
unregistered is retired for good.
-/

namespace RankedQuery

abbrev IdSet := Std.ExtTreeSet DocId

structure Index where
  name : String
  members : IdSet := ∅
  retired : Bool := false
  deriving Inhabited

namespace Index

def ofIds (name : String) (ids : List DocId) : Index :=
  { name, members := Std.ExtTreeSet.ofList ids }

def contains (index : Index) (id : DocId) : Bool := index.members.contains id

def size (index : Index) : Nat := index.members.size

def ids (index : Index) : List DocId := index.members.toList

def add (index : Index) (id : DocId) : Index :=
  { index with members := index.members.insert id }

def remove (index : Index) (id : DocId) : Index :=
  { index with members := index.members.erase id }

def retire (index : Index) : Index := { index with retired := true }

def refill (index : Index) (members : IdSet) : Index := { index with members }

theorem mem_ids {index : Index} {id : DocId} :
    id ∈ index.ids ↔ index.contains id = true := by
  rw [ids, contains, Std.ExtTreeSet.mem_toList, Std.ExtTreeSet.contains_iff_mem]

theorem length_ids (index : Index) : index.ids.length = index.size := by
  simp [ids, size]

theorem nodup_ids (index : Index) : index.ids.Nodup :=
  index.members.distinct_toList.imp fun apart same =>
    apart (Std.LawfulEqCmp.compare_eq_iff_eq.mpr same)

theorem contains_add {index : Index} {id other : DocId} :
    (index.add id).contains other = true ↔ id = other ∨ index.contains other = true := by
  simp [contains, add]

theorem contains_remove {index : Index} {id other : DocId} :
    (index.remove id).contains other = true ↔ id ≠ other ∧ index.contains other = true := by
  simp [contains, remove]

theorem ext_contains {index index' : Index} (name : index'.name = index.name)
    (retired : index'.retired = index.retired)
    (contains : ∀ id, index'.contains id = index.contains id) : index' = index := by
  have members : index'.members = index.members := Std.ExtTreeSet.ext_contains contains
  cases index
  cases index'
  simp_all

end Index

end RankedQuery
