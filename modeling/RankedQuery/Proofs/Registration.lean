import RankedQuery.Cache.Intersection

/-!
# Registered, retired and hidden indexes

An index of a catalog is registered under a name, or was and is retired, or is
hidden: no name ever referred to it, as for the results of intersections.  These
properties outlast every change of a catalog, except that registered indexes may
retire.
-/

namespace RankedQuery

/-! ## Resolving names -/

namespace Catalog

theorem findSort_eq_ok {c : Catalog} {name : String} {handle : Handle Ranking} :
    c.findSort name = .ok handle ↔ c.sort? name = some handle := by
  unfold findSort
  cases c.sort? name <;> simp

theorem findIndex_eq_ok {c : Catalog} {name : String} {handle : Handle Index} :
    c.findIndex name = .ok handle ↔ c.index? name = some handle := by
  unfold findIndex
  cases c.index? name <;> simp

end Catalog

namespace Directory

theorem resolve_of_registered {directory : Directory} {sources : List Source}
    (registered : ∀ source ∈ sources, directory[source.name]? = some source.index) :
    directory.resolve (sources.map (·.name)) = .ok sources := by
  induction sources with
  | nil => rfl
  | cons source sources ih =>
      have first := registered source List.mem_cons_self
      have others := ih fun other inside => registered other (List.mem_cons_of_mem _ inside)
      simp only [List.map_cons, resolve, first, others, bind, Except.bind, pure, Except.pure]

theorem resolve_eq_ok {directory : Directory} {names : List String} {sources : List Source} :
    directory.resolve names = .ok sources ↔
      sources.map (·.name) = names ∧
        ∀ source ∈ sources, directory[source.name]? = some source.index := by
  constructor
  · intro resolved
    induction names generalizing sources with
    | nil =>
        cases resolved
        simp
    | cons name names ih =>
        unfold resolve at resolved
        split at resolved
        next => cases resolved
        next index known =>
          cases others : directory.resolve names with
          | error error => simp [others, bind, Except.bind] at resolved
          | ok rest =>
              simp only [others, bind, Except.bind, pure, Except.pure, Except.ok.injEq] at resolved
              subst resolved
              obtain ⟨sameNames, registered⟩ := ih others
              exact ⟨by rw [List.map_cons, sameNames], List.forall_mem_cons.mpr ⟨known, registered⟩⟩
  · rintro ⟨rfl, registered⟩
    exact resolve_of_registered registered

theorem exists_resolve {directory : Directory} {names : List String}
    (registered : ∀ name ∈ names, (directory[name]?).isSome = true) :
    ∃ sources, directory.resolve names = .ok sources := by
  induction names with
  | nil => exact ⟨[], rfl⟩
  | cons name names ih =>
      obtain ⟨index, known⟩ := Option.isSome_iff_exists.mp (registered name List.mem_cons_self)
      obtain ⟨sources, others⟩ := ih fun other inside =>
        registered other (List.mem_cons_of_mem _ inside)
      refine ⟨⟨name, index⟩ :: sources, ?_⟩
      simp only [resolve, known, others, bind, Except.bind, pure, Except.pure]

end Directory

/-! ## What is known of an index -/

namespace Catalog

/-- The index of the source is registered under its name, or was and retired. -/
structure Knows (c : Catalog) (source : Source) : Prop where
  has : c.indexes.Has source.index
  name : (c.indexes.read source.index).name = source.name
  placed : c.directory[source.name]? = some source.index ∨
    (c.indexes.read source.index).retired = true

structure Hides (c : Catalog) (index : Handle Index) : Prop where
  has : c.indexes.Has index
  live : (c.indexes.read index).retired = false
  unnamed : ∀ name : String, c.directory[name]? ≠ some index

structure Sound (c : Catalog) : Prop where
  known : ∀ source : Source, c.directory[source.name]? = some source.index → c.Knows source
  live : ∀ source : Source, c.directory[source.name]? = some source.index →
    (c.indexes.read source.index).retired = false

theorem Knows.ne_hidden {c : Catalog} {source : Source} {index : Handle Index}
    (known : c.Knows source) (hidden : c.Hides index) : source.index ≠ index := by
  rintro rfl
  rcases known.placed with registered | retired
  · exact hidden.unnamed _ registered
  · simp [hidden.live] at retired

theorem Knows.index_ne {c : Catalog} {a b : Source} (knowsA : c.Knows a) (knowsB : c.Knows b)
    (apart : a.name ≠ b.name) : a.index ≠ b.index := by
  intro same
  apply apart
  rw [← knowsA.name, ← knowsB.name, same]

/-! ## Changes that keep what is known -/

/-- The first catalog may have become the second. -/
structure Becomes (c c' : Catalog) : Prop where
  has : ∀ index, c.indexes.Has index → c'.indexes.Has index
  knows : ∀ source, c.Knows source → c'.Knows source
  hides : ∀ index, c.Hides index → c'.Hides index
  sound : c.Sound → c'.Sound

namespace Becomes

variable {c c' c'' : Catalog}

theorem refl (c : Catalog) : c.Becomes c :=
  ⟨fun _ => id, fun _ => id, fun _ => id, id⟩

theorem trans (first : c.Becomes c') (second : c'.Becomes c'') : c.Becomes c'' where
  has index given := second.has index (first.has index given)
  knows source known := second.knows source (first.knows source known)
  hides index hidden := second.hides index (first.hides index hidden)
  sound sound := second.sound (first.sound sound)

end Becomes

structure SameIndexes (c c' : Catalog) : Prop where
  has : ∀ index, c'.indexes.Has index ↔ c.indexes.Has index
  name : ∀ index, (c'.indexes.read index).name = (c.indexes.read index).name
  retired : ∀ index, (c'.indexes.read index).retired = (c.indexes.read index).retired
  directory : c'.directory = c.directory

namespace SameIndexes

variable {c c' c'' : Catalog}

theorem refl (c : Catalog) : c.SameIndexes c :=
  ⟨fun _ => Iff.rfl, fun _ => rfl, fun _ => rfl, rfl⟩

theorem trans (first : c.SameIndexes c') (second : c'.SameIndexes c'') :
    c.SameIndexes c'' where
  has index := (second.has index).trans (first.has index)
  name index := (second.name index).trans (first.name index)
  retired index := (second.retired index).trans (first.retired index)
  directory := second.directory.trans first.directory

theorem knows (same : c.SameIndexes c') {source : Source} (known : c.Knows source) :
    c'.Knows source := by
  constructor
  · exact (same.has _).mpr known.has
  · rw [same.name]
    exact known.name
  · rw [same.directory, same.retired]
    exact known.placed

theorem becomes (same : c.SameIndexes c') : c.Becomes c' where
  has index := (same.has index).mpr
  knows _ := same.knows
  hides index hidden := by
    constructor
    · exact (same.has _).mpr hidden.has
    · rw [same.retired]
      exact hidden.live
    · rw [same.directory]
      exact hidden.unnamed
  sound sound := by
    constructor
    · intro source registered
      rw [same.directory] at registered
      exact same.knows (sound.known source registered)
    · intro source registered
      rw [same.directory] at registered
      rw [same.retired]
      exact sound.live source registered

end SameIndexes

/-! ## Changes of members -/

section Members

variable {c : Catalog} {index : Handle Index}

theorem sameIndexes_updateIndex (known : c.indexes.Has index) {change : Index → Index}
    (name : ∀ value, (change value).name = value.name)
    (retired : ∀ value, (change value).retired = value.retired) :
    c.SameIndexes (c.updateIndex index change) := by
  constructor
  · intro other
    exact Store.has_update
  · intro other
    by_cases here : index = other
    · subst here
      rw [updateIndex, Store.read_update_self known, name]
    · rw [updateIndex, Store.read_update_of_ne here]
  · intro other
    by_cases here : index = other
    · subst here
      rw [updateIndex, Store.read_update_self known, retired]
    · rw [updateIndex, Store.read_update_of_ne here]
  · rfl

theorem holds_updateIndex (known : c.indexes.Has index) (change : Index → Index)
    (other : Handle Index) (id : DocId) :
    (c.updateIndex index change).holds other id =
      if other = index then (change (c.indexes.read index)).contains id
      else c.holds other id := by
  unfold holds updateIndex
  by_cases here : other = index
  · subst here
    rw [if_pos rfl, Store.read_update_self known]
  · rw [if_neg here, Store.read_update_of_ne (Ne.symm here)]

theorem holds_add (known : c.indexes.Has index) (id : DocId) (other : Handle Index) (x : DocId) :
    (c.updateIndex index (·.add id)).holds other x =
      if other = index ∧ x = id then true else c.holds other x := by
  rw [holds_updateIndex known]
  by_cases here : other = index
  · subst here
    rw [if_pos rfl, Bool.eq_iff_iff, Index.contains_add]
    by_cases same : x = id
    · simp [same]
    · simp [same, Ne.symm same, holds]
  · simp [here]

theorem holds_remove (known : c.indexes.Has index) (id : DocId) (other : Handle Index)
    (x : DocId) :
    (c.updateIndex index (·.remove id)).holds other x =
      if other = index ∧ x = id then false else c.holds other x := by
  rw [holds_updateIndex known]
  by_cases here : other = index
  · subst here
    rw [if_pos rfl, Bool.eq_iff_iff, Index.contains_remove]
    by_cases same : x = id
    · simp [same]
    · simp [same, Ne.symm same, holds]
  · simp [here]

theorem allHold_congr {c c' : Catalog} {sources : List Source} {id : DocId}
    (same : ∀ source ∈ sources, c'.holds source.index id = c.holds source.index id) :
    c'.allHold sources id = c.allHold sources id := by
  unfold allHold
  rw [Bool.eq_iff_iff, List.all_eq_true, List.all_eq_true]
  refine forall_congr' fun source => forall_congr' fun inside => ?_
  rw [same source inside]

end Members

/-! ## New indexes -/

section New

variable (c : Catalog) (index : Index)

theorem has_next_addIndex : (c.addIndex index).2.indexes.Has (c.addIndex index).1 :=
  Store.has_insert.mpr (.inr rfl)

theorem read_addIndex {other : Handle Index} (known : c.indexes.Has other) :
    (c.addIndex index).2.indexes.read other = c.indexes.read other :=
  Store.read_insert_of_has known index

theorem holds_addIndex {other : Handle Index} (known : c.indexes.Has other) (id : DocId) :
    (c.addIndex index).2.holds other id = c.holds other id := by
  rw [holds, read_addIndex c index known, holds]

theorem knows_addIndex {source : Source} (known : c.Knows source) :
    (c.addIndex index).2.Knows source := by
  have same := read_addIndex c index known.has
  refine ⟨Store.has_insert.mpr (.inl known.has), ?_, ?_⟩
  · rw [same]
    exact known.name
  · rw [same]
    exact known.placed

theorem becomes_addIndex : c.Becomes (c.addIndex index).2 where
  has _ given := Store.has_insert.mpr (.inl given)
  knows _ := knows_addIndex c index
  hides other hidden := by
    refine ⟨Store.has_insert.mpr (.inl hidden.has), ?_, hidden.unnamed⟩
    rw [read_addIndex c index hidden.has]
    exact hidden.live
  sound sound := by
    constructor
    · intro source registered
      exact knows_addIndex c index (sound.known source registered)
    · intro source registered
      rw [read_addIndex c index (sound.known source registered).has]
      exact sound.live source registered

theorem hides_next (sound : c.Sound) (live : index.retired = false) :
    (c.addIndex index).2.Hides (c.addIndex index).1 := by
  refine ⟨has_next_addIndex c index, ?_, ?_⟩
  · rw [addIndex, Store.read_insert_next]
    exact live
  · intro name registered
    have known := sound.known ⟨name, c.indexes.next⟩ registered
    exact c.indexes.not_has_next known.has

end New

/-! ## Names -/

section Names

variable (c : Catalog) (name : String)

theorem directory_createIndex (other : String) :
    (c.createIndex name).2.directory[other]? =
      if c.directory[name]? = none ∧ other = name then some c.indexes.next
      else c.directory[other]? := by
  unfold createIndex
  split
  next index known => simp [show c.directory[name]? = some index from known]
  next absent =>
    rw [show c.directory[name]? = none from absent]
    by_cases here : other = name
    · subst here
      simp [addIndex]
    · simp [addIndex, here, Std.ExtTreeMap.getElem?_insert, Ne.symm here]

theorem indexes_createIndex :
    (c.createIndex name).2.indexes =
      if c.directory[name]? = none then (c.addIndex { name }).2.indexes else c.indexes := by
  unfold createIndex
  split
  next index known => simp [show c.directory[name]? = some index from known]
  next absent =>
    rw [show c.directory[name]? = none from absent]
    rfl

theorem has_createIndex {index : Handle Index} (known : c.indexes.Has index) :
    (c.createIndex name).2.indexes.Has index := by
  rw [indexes_createIndex]
  split
  · exact Store.has_insert.mpr (.inl known)
  · exact known

theorem read_createIndex {index : Handle Index} (known : c.indexes.Has index) :
    (c.createIndex name).2.indexes.read index = c.indexes.read index := by
  rw [indexes_createIndex]
  split
  · exact read_addIndex c { name } known
  · rfl

theorem holds_createIndex {index : Handle Index} (known : c.indexes.Has index) (id : DocId) :
    (c.createIndex name).2.holds index id = c.holds index id := by
  rw [holds, read_createIndex c name known, holds]

theorem registered_createIndex {other : String} {index : Handle Index}
    (registered : c.directory[other]? = some index) :
    (c.createIndex name).2.directory[other]? = some index := by
  rw [directory_createIndex, if_neg ?_]
  · exact registered
  · rintro ⟨absent, rfl⟩
    simp [absent] at registered

private theorem knows_createIndex {source : Source} (known : c.Knows source) :
    (c.createIndex name).2.Knows source := by
  constructor
  · exact has_createIndex c name known.has
  · rw [read_createIndex c name known.has]
    exact known.name
  · rw [read_createIndex c name known.has]
    exact known.placed.imp_left (registered_createIndex c name)

theorem becomes_createIndex : c.Becomes (c.createIndex name).2 where
  has _ := has_createIndex c name
  knows _ := knows_createIndex c name
  hides index hidden := by
    constructor
    · exact has_createIndex c name hidden.has
    · rw [read_createIndex c name hidden.has]
      exact hidden.live
    · intro other
      rw [directory_createIndex]
      split
      · intro same
        cases same
        exact c.indexes.not_has_next hidden.has
      · exact hidden.unnamed other
  sound sound := by
    have fresh : c.directory[name]? = none →
        (c.createIndex name).2.indexes.Has c.indexes.next ∧
          (c.createIndex name).2.indexes.read c.indexes.next = { name } := by
      intro absent
      rw [indexes_createIndex, if_pos absent]
      exact ⟨has_next_addIndex c { name }, Store.read_insert_next _ _⟩
    constructor
    · rintro ⟨other, index⟩ registered
      have placed := registered
      rw [directory_createIndex] at registered
      split at registered
      next new =>
        obtain ⟨absent, rfl⟩ := new
        cases registered
        obtain ⟨has, value⟩ := fresh absent
        exact ⟨has, congrArg Index.name value, .inl placed⟩
      next => exact knows_createIndex c name (sound.known ⟨other, index⟩ registered)
    · rintro ⟨other, index⟩ registered
      rw [directory_createIndex] at registered
      split at registered
      next new =>
        cases registered
        exact congrArg Index.retired (fresh new.1).2
      next =>
        have known := sound.known ⟨other, index⟩ registered
        rw [read_createIndex c name known.has]
        exact sound.live ⟨other, index⟩ registered

/-! ## Dropping a name -/

theorem directory_dropIndex (other : String) :
    (c.dropIndex name).2.directory[other]? =
      if other = name then none else c.directory[other]? := by
  unfold dropIndex
  split
  next absent =>
    by_cases here : other = name
    · subst here
      rw [if_pos rfl]
      exact absent
    · simp [here]
  next =>
    by_cases here : other = name
    · simp [here]
    · simp [here, Std.ExtTreeMap.getElem?_erase, Ne.symm here]

theorem read_dropIndex {index : Handle Index} (known : c.indexes.Has index) :
    (c.dropIndex name).2.indexes.read index =
      if c.directory[name]? = some index then (c.indexes.read index).retire
      else c.indexes.read index := by
  unfold dropIndex
  split
  next absent => simp [show c.directory[name]? = none from absent]
  next dropped registered =>
    rw [show c.directory[name]? = some dropped from registered]
    by_cases here : dropped = index
    · subst here
      rw [if_pos rfl, Store.read_update_self known]
    · rw [if_neg (by simpa using here), Store.read_update_of_ne here]

theorem has_dropIndex {index : Handle Index} (known : c.indexes.Has index) :
    (c.dropIndex name).2.indexes.Has index := by
  unfold dropIndex
  split
  · exact known
  · exact Store.has_update.mpr known

theorem holds_dropIndex {index : Handle Index} (known : c.indexes.Has index) (id : DocId) :
    (c.dropIndex name).2.holds index id = c.holds index id := by
  rw [holds, read_dropIndex c name known, holds]
  split <;> rfl

private theorem knows_dropIndex {source : Source} (known : c.Knows source) :
    (c.dropIndex name).2.Knows source := by
  constructor
  · exact has_dropIndex c name known.has
  · rw [read_dropIndex c name known.has, ← known.name]
    split <;> rfl
  · rw [read_dropIndex c name known.has, directory_dropIndex]
    rcases known.placed with registered | retired
    · by_cases here : source.name = name
      · subst here
        simp [registered, Index.retire]
      · rw [if_neg here]
        exact .inl registered
    · right
      split
      · rfl
      · exact retired

theorem becomes_dropIndex : c.Becomes (c.dropIndex name).2 where
  has _ := has_dropIndex c name
  knows _ := knows_dropIndex c name
  hides index hidden := by
    constructor
    · exact has_dropIndex c name hidden.has
    · rw [read_dropIndex c name hidden.has, if_neg (hidden.unnamed name)]
      exact hidden.live
    · intro other
      rw [directory_dropIndex]
      split
      · simp
      · exact hidden.unnamed other
  sound sound := by
    constructor
    · intro source registered
      rw [directory_dropIndex] at registered
      split at registered
      next => cases registered
      next => exact knows_dropIndex c name (sound.known source registered)
    · intro source registered
      rw [directory_dropIndex] at registered
      split at registered
      next => cases registered
      next apart =>
        have known := sound.known source registered
        rw [read_dropIndex c name known.has, if_neg ?_]
        · exact sound.live source registered
        · intro dropped
          apply apart
          rw [← known.name]
          exact (sound.known ⟨name, source.index⟩ dropped).name

end Names

end Catalog

end RankedQuery
