import RankedQuery.Proofs.Engine.Consistency

/-!
# Secluded indexes

An index without a name that is the result of no entry, or of a built one that
follows no source, is out of reach: whatever is done to the engine and to its other
indexes leaves it as it is.
-/

namespace RankedQuery

def Access.Spares (index : Handle Index) : Access → Prop
  | .put other _ | .take other _ => other ≠ index
  | _ => True

namespace Collection

/-- No name refers to the index, and an entry with this result is built and follows
no source. -/
structure Secludes (c : Collection) (index : Handle Index) : Prop where
  hidden : c.catalog.Hides index
  idle : ∀ (key : String) (entry : Entry), c.cache.lookup[key]? = some entry →
    entry.item.result = index → entry.isBuilt = true ∧ entry.item.sources = []

variable {c : Collection} {index : Handle Index}

theorem Secludes.of_continues {c' : Collection} (secludes : c.Secludes index)
    (continues : c.Continues c') (cache : c'.cache = c.cache) : c'.Secludes index where
  hidden := continues.catalog.hides _ secludes.hidden
  idle := by
    rw [cache]
    exact secludes.idle

theorem Secludes.ne_registered (secludes : c.Secludes index) {name : String}
    {other : Handle Index} (registered : c.catalog.directory[name]? = some other) :
    other ≠ index := by
  rintro rfl
  exact secludes.hidden.unnamed name registered

/-! Gets. -/

theorem Secludes.read_get (secludes : c.Secludes index) (now : Millis)
    (names : List String) (directory : Directory) :
    (c.get now names directory).2.catalog.indexes.read index = c.catalog.indexes.read index := by
  have step := c.afterGet now names directory
  generalize (c.get now names directory).2 = c' at step ⊢
  cases step with
  | hit => rfl
  | queued => rfl
  | waits found waiting =>
      refine read_requestBuild c.missed now _ fun same => ?_
      have idle := secludes.idle _ _ found same
      rw [Entry.isBuilt_of_waiting waiting] at idle
      cases idle.1
  | unresolved => rfl
  | enters =>
      refine (read_requestBuild _ now _ fun same => ?_).trans
        (c.catalog.read_addIndex _ secludes.hidden.has)
      have fresh : ¬ c.catalog.indexes.Has index := same ▸ c.catalog.indexes.not_has_next
      exact fresh secludes.hidden.has

/-! Changes of indexes. -/

section Changes

variable (consistent : c.Consistent) (secludes : c.Secludes index)

include consistent secludes

theorem Secludes.read_changed (name : String) (id : DocId) (added : Bool) :
    (c.changed name id added).catalog.indexes.read index = c.catalog.indexes.read index := by
  refine Collection.read_changed consistent (fun item built isOver same => ?_) id added
  obtain ⟨entry, found, rfl, -⟩ := built
  obtain ⟨source, inside, -⟩ := isOver
  rw [(secludes.idle _ entry found same).2] at inside
  cases inside

private theorem read_updated {other : Handle Index} (apart : other ≠ index)
    (change : Index → Index) (name : ∀ value, (change value).name = value.name)
    (retired : ∀ value, (change value).retired = value.retired) (source : String) (id : DocId)
    (added : Bool) :
    ({ c with catalog := c.catalog.updateIndex other change }.changed source id
      added).catalog.indexes.read index = c.catalog.indexes.read index := by
  have updated := continues_updateIndex consistent other change name retired
  have still := secludes.of_continues updated rfl
  exact (still.read_changed updated.consistent source id added).trans
    (Store.read_update_of_ne apart change)

theorem Secludes.read_addTo {other : Handle Index} (apart : other ≠ index) (name : String)
    (id : DocId) :
    (c.addTo name other id).2.catalog.indexes.read index = c.catalog.indexes.read index := by
  unfold addTo
  split
  · rfl
  · exact read_updated consistent secludes apart (·.add id) (fun _ => rfl) (fun _ => rfl) name id
      true

theorem Secludes.read_removeFrom {other : Handle Index} (apart : other ≠ index) (name : String)
    (id : DocId) :
    (c.removeFrom name other id).2.catalog.indexes.read index =
      c.catalog.indexes.read index := by
  unfold removeFrom
  split
  · exact read_updated consistent secludes apart (·.remove id) (fun _ => rfl) (fun _ => rfl) name id
      false
  · rfl

theorem Secludes.read_add (name : String) (id : DocId) :
    (c.orKeep (c.add name id)).catalog.indexes.read index = c.catalog.indexes.read index := by
  unfold add
  cases found : c.catalog.findIndex name with
  | error => rfl
  | ok other =>
      have registered := Catalog.findIndex_eq_ok.mp found
      exact secludes.read_addTo consistent (secludes.ne_registered registered) name id

theorem Secludes.read_remove (name : String) (id : DocId) :
    (c.orKeep (c.remove name id)).catalog.indexes.read index = c.catalog.indexes.read index := by
  unfold remove
  cases found : c.catalog.findIndex name with
  | error => rfl
  | ok other =>
      have registered := Catalog.findIndex_eq_ok.mp found
      exact secludes.read_removeFrom consistent (secludes.ne_registered registered) name id

end Changes

/-! Changes of sorts leave all indexes alone. -/

theorem indexes_createSort (name : String) :
    (c.createSort name).2.catalog.indexes = c.catalog.indexes := by
  show (c.catalog.createSort name).2.indexes = _
  unfold Catalog.createSort
  split <;> rfl

theorem indexes_setScore (sort : String) (id : DocId) (score : Score) (draws : Nat) :
    (c.orKeep (c.setScore sort id score draws)).catalog.indexes = c.catalog.indexes := by
  unfold setScore
  cases c.catalog.findSort sort with
  | error => rfl
  | ok handle =>
      simp only [bind, Except.bind]
      cases (c.catalog.rankings.read handle).set id score draws <;> rfl

theorem indexes_removeScore (sort : String) (id : DocId) :
    (c.orKeep (c.removeScore sort id)).catalog.indexes = c.catalog.indexes := by
  unfold removeScore
  cases c.catalog.findSort sort with
  | error => rfl
  | ok handle =>
      simp only [bind, Except.bind]
      cases (c.catalog.rankings.read handle).remove id <;> rfl

private theorem indexes_onStatic (sort : Handle Ranking)
    (attempt : Option (Except Error Ranking)) :
    (c.orKeepSort (attempt.map fun ranking => do
      return c.putSort sort (← ranking))).catalog.indexes = c.catalog.indexes := by
  cases attempt with
  | none => rfl
  | some changed => cases changed <;> rfl

theorem indexes_removeFromSort (sort : Handle Ranking) (id : DocId) :
    (c.removeFromSort sort id).catalog.indexes = c.catalog.indexes := by
  unfold removeFromSort
  split <;> rfl

/-! Whole documents. -/

theorem indexes_removeFromSorts (handles : List (Handle Ranking)) (id : DocId) (c : Collection) :
    (handles.foldl (fun c sort => c.removeFromSort sort id) c).catalog.indexes =
      c.catalog.indexes := by
  induction handles generalizing c with
  | nil => rfl
  | cons first handles ih => exact (ih _).trans (indexes_removeFromSort first id)

private theorem read_removeFromAll (consistent : c.Consistent) (secludes : c.Secludes index)
    (id : DocId) {named : List (String × Handle Index)}
    (apart : ∀ pair ∈ named, pair.2 ≠ index) :
    (named.foldl (fun c (name, index) => (c.removeFrom name index id).2) c).catalog.indexes.read
      index = c.catalog.indexes.read index := by
  induction named generalizing c with
  | nil => rfl
  | cons first named ih =>
      obtain ⟨apartFirst, apart⟩ := List.forall_mem_cons.mp apart
      have once := continues_removeFrom consistent first.1 first.2 id
      have still := secludes.of_continues once (cache_removeFrom first.1 first.2 id)
      exact (ih once.consistent still apart).trans
        (secludes.read_removeFrom consistent apartFirst first.1 id)

theorem Secludes.read_removeDocument (consistent : c.Consistent) (secludes : c.Secludes index)
    (id : DocId) :
    (c.removeDocument id).catalog.indexes.read index = c.catalog.indexes.read index := by
  unfold removeDocument
  dsimp only
  rw [indexes_removeFromSorts]
  refine read_removeFromAll consistent secludes id fun pair inside => ?_
  exact secludes.ne_registered (Std.ExtTreeMap.mem_toList_iff_getElem?_eq_some.mp inside)

theorem Secludes.read_dropIndex (secludes : c.Secludes index) (name : String) :
    (c.catalog.dropIndex name).2.indexes.read index = c.catalog.indexes.read index := by
  rw [c.catalog.read_dropIndex name secludes.hidden.has, if_neg (secludes.hidden.unnamed name)]

end Collection

namespace Engine

open Collection

theorem read_access (e : Engine) (consistent : e.collection.Consistent) {index : Handle Index}
    (secludes : e.collection.Secludes index) {a : Access} (spares : a.Spares index) :
    (e.access a).collection.catalog.indexes.read index =
      e.collection.catalog.indexes.read index := by
  have same : ∀ {c : Collection}, c.catalog.indexes = e.collection.catalog.indexes →
      c.catalog.indexes.read index = e.collection.catalog.indexes.read index :=
    fun indexes => congrArg (Store.read · index) indexes
  cases a with
  | call op =>
      cases op with
      | createIndex name => exact e.collection.catalog.read_createIndex name secludes.hidden.has
      | dropIndex name =>
          have dropped := secludes.read_dropIndex name
          simp only [access, after, onCollection, Collection.dropIndex]
          split
          next drops =>
            split at drops
            next => cases drops
            next catalog unregistered =>
              cases drops
              rw [unregistered] at dropped
              exact dropped
          next => rfl
      | createSort name => exact same (indexes_createSort name)
      | loadStaticSort name ids => rfl
      | add name id => exact secludes.read_add consistent name id
      | remove name id => exact secludes.read_remove consistent name id
      | setScore sort id score draws => exact same (indexes_setScore sort id score draws)
      | removeScore sort id => exact same (indexes_removeScore sort id)
      | append sort id => exact same (indexes_onStatic sort _)
      | prepend sort id => exact same (indexes_onStatic sort _)
      | removeDocument id => exact secludes.read_removeDocument consistent id
      | get now names directory => exact secludes.read_get now names directory
      | execute now query =>
          rcases e.collection_execute now query with unchanged | got
          · exact same (congrArg (·.catalog.indexes) unchanged)
          · rw [show (e.access (.call (.execute now query))).collection = _ from got]
            exact secludes.read_get now _ _
      | _ => rfl
  | unregister name => exact secludes.read_dropIndex name
  | report name id added => exact secludes.read_changed consistent name id added
  | put other id => exact Store.read_update_of_ne spares _
  | take other id => exact Store.read_update_of_ne spares _

end Engine

end RankedQuery
