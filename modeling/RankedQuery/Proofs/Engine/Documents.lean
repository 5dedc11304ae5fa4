import RankedQuery.Proofs.Engine.Consistency
import RankedQuery.Proofs.Ranking.Withdrawal

/-!
# Removing whole documents

A document is taken out of one registered index after the other, with the cached
intersections following each time, and then out of one sort after the other.  In
what order the indexes and the sorts come does not matter, and it cannot fail: the
document is then nowhere in reach, and nothing else has changed.
-/

namespace RankedQuery

/-! ## Collections without a document -/

namespace Collection

/-- The second collection is the first without the document in some of the indexes
and of the sorts.  Nothing else is different. -/
structure Clears (c : Collection) (id : DocId) (cleared : Handle Index → Prop)
    (stripped : Handle Ranking → Prop) (c' : Collection) : Prop where
  cache : c'.cache = c.cache
  same : c.catalog.SameIndexes c'.catalog
  sorts : c'.catalog.sorts = c.catalog.sorts
  levelLimit : c'.catalog.levelLimit = c.catalog.levelLimit
  has : ∀ sort, c'.catalog.rankings.Has sort ↔ c.catalog.rankings.Has sort
  holds : ∀ index other, c'.catalog.holds index other = true ↔
    c.catalog.holds index other = true ∧ ¬ (cleared index ∧ other = id)
  without : ∀ sort, stripped sort →
    c'.catalog.rankings.read sort = (c.catalog.rankings.read sort).without id
  kept : ∀ sort, ¬ stripped sort →
    c'.catalog.rankings.read sort = c.catalog.rankings.read sort

namespace Clears

variable {c c' c'' : Collection} {id : DocId} {cleared cleared' : Handle Index → Prop}
  {stripped stripped' : Handle Ranking → Prop}

theorem refl (c : Collection) (id : DocId) :
    c.Clears id (fun _ => False) (fun _ => False) c where
  cache := rfl
  same := .refl _
  sorts := rfl
  levelLimit := rfl
  has _ := Iff.rfl
  holds _ _ := by simp
  without _ never := never.elim
  kept _ _ := rfl

theorem trans (first : c.Clears id cleared stripped c')
    (second : c'.Clears id cleared' stripped' c'') :
    c.Clears id (fun index => cleared index ∨ cleared' index)
      (fun sort => stripped sort ∨ stripped' sort) c'' where
  cache := second.cache.trans first.cache
  same := first.same.trans second.same
  sorts := second.sorts.trans first.sorts
  levelLimit := second.levelLimit.trans first.levelLimit
  has sort := (second.has sort).trans (first.has sort)
  holds index other := by
    rw [second.holds, first.holds]
    tauto
  without sort either := by
    by_cases before : stripped sort
    · by_cases again : stripped' sort
      · rw [second.without sort again, first.without sort before, Ranking.without_without]
      · rw [second.kept sort again, first.without sort before]
    · rw [second.without sort (either.resolve_left before), first.kept sort before]
  kept sort neither := by
    rw [second.kept sort fun again => neither (.inr again),
      first.kept sort fun before => neither (.inl before)]

theorem congr (clears : c.Clears id cleared stripped c')
    (indexes : ∀ index, c.catalog.holds index id = true → (cleared index ↔ cleared' index))
    (rankings : ∀ sort, stripped sort ↔ stripped' sort) : c.Clears id cleared' stripped' c' where
  cache := clears.cache
  same := clears.same
  sorts := clears.sorts
  levelLimit := clears.levelLimit
  has := clears.has
  holds index other := by
    -- An index that does not hold the document may count as cleared or not.
    rw [clears.holds]
    refine and_congr_right fun held => not_congr (and_congr_left ?_)
    rintro rfl
    exact indexes index held
  without sort given := clears.without sort ((rankings sort).mpr given)
  kept sort not := clears.kept sort fun given => not ((rankings sort).mp given)

theorem unique (first : c.Clears id cleared stripped c')
    (second : c.Clears id cleared stripped c'') : c' = c'' := by
  have indexes : c'.catalog.indexes = c''.catalog.indexes := by
    refine Store.ext_read (fun index => ?_) fun index => Index.ext_contains ?_ ?_ fun other => ?_
    · rw [first.same.has, second.same.has]
    · rw [first.same.name, second.same.name]
    · rw [first.same.retired, second.same.retired]
    · have held := (first.holds index other).trans (second.holds index other).symm
      exact Bool.eq_iff_iff.mpr held
  have rankings : c'.catalog.rankings = c''.catalog.rankings := by
    refine Store.ext_read (fun sort => ?_) fun sort => ?_
    · rw [first.has, second.has]
    · by_cases given : stripped sort
      · rw [first.without sort given, second.without sort given]
      · rw [first.kept sort given, second.kept sort given]
  have directory := first.same.directory.trans second.same.directory.symm
  have sorts := first.sorts.trans second.sorts.symm
  have levelLimit := first.levelLimit.trans second.levelLimit.symm
  have cache := first.cache.trans second.cache.symm
  obtain ⟨⟨_, _, _, _, _⟩, _⟩ := c'
  obtain ⟨⟨_, _, _, _, _⟩, _⟩ := c''
  cases indexes
  cases rankings
  cases directory
  cases sorts
  cases levelLimit
  cases cache
  rfl

theorem again (clears : c.Clears id cleared stripped c') :
    c'.Clears id cleared stripped c' where
  cache := rfl
  same := .refl _
  sorts := rfl
  levelLimit := rfl
  has _ := Iff.rfl
  holds index other := by
    rw [clears.holds]
    tauto
  without sort given := by rw [clears.without sort given, Ranking.without_without]
  kept _ _ := rfl

theorem not_holds (clears : c.Clears id cleared stripped c') {index : Handle Index}
    (given : cleared index) : c'.catalog.holds index id = false := by
  rw [← Bool.not_eq_true, clears.holds]
  exact fun held => held.2 ⟨given, rfl⟩

theorem holds_of_ne (clears : c.Clears id cleared stripped c') (index : Handle Index)
    {other : DocId} (apart : other ≠ id) :
    c'.catalog.holds index other = c.catalog.holds index other := by
  rw [Bool.eq_iff_iff, clears.holds]
  exact and_iff_left fun given => apart given.2

theorem read_of_static (clears : c.Clears id cleared stripped c') {sort : Handle Ranking}
    (fixed : (c.catalog.rankings.read sort).isStatic = true) :
    c'.catalog.rankings.read sort = c.catalog.rankings.read sort := by
  by_cases given : stripped sort
  · rw [clears.without sort given, Ranking.without_of_static fixed]
  · exact clears.kept sort given

theorem score?_of_ne (clears : c.Clears id cleared stripped c') (sort : Handle Ranking)
    {other : DocId} (apart : other ≠ id) :
    (c'.catalog.rankings.read sort).score? other =
      (c.catalog.rankings.read sort).score? other := by
  by_cases given : stripped sort
  · rw [clears.without sort given, Ranking.score?_without_of_ne _ apart]
  · rw [clears.kept sort given]

theorem others_ids (clears : c.Clears id cleared stripped c') (sort : Handle Ranking) :
    (c'.catalog.rankings.read sort).ids.filter (· ≠ id) =
      (c.catalog.rankings.read sort).ids.filter (· ≠ id) := by
  by_cases given : stripped sort
  · rw [clears.without sort given, Ranking.others_without]
  · rw [clears.kept sort given]

end Clears

/-! ## One index -/

/-- A change of the first index gets to the second: they are the same, or the second
is the result of a built entry that has the first as a source. -/
def Reaches (c : Collection) (index other : Handle Index) : Prop :=
  other = index ∨ ∃ item, c.cache.HasBuilt item ∧
    (∃ source ∈ item.sources, source.index = index) ∧ item.result = other

theorem holds_changed_removal {c : Collection} (consistent : c.Consistent) (name : String)
    (id : DocId) (index : Handle Index) (other : DocId) :
    (c.changed name id false).catalog.holds index other = true ↔
      c.catalog.holds index other = true ∧
        ¬ ((∃ item, c.cache.HasBuilt item ∧ item.IsOver name ∧ item.result = index) ∧
          other = id) := by
  by_cases follows : ∃ item, c.cache.HasBuilt item ∧ item.IsOver name ∧ item.result = index
  · obtain ⟨item, built, isOver, rfl⟩ := follows
    rw [holds_changed consistent built isOver]
    have routed : ∃ item', c.cache.HasBuilt item' ∧ item'.IsOver name ∧
        item'.result = item.result := ⟨item, built, isOver, rfl⟩
    by_cases here : other = id <;> simp [here, routed]
  · have unchanged := read_changed consistent
      (fun item built isOver same => follows ⟨item, built, isOver, same⟩) id false
    rw [Catalog.holds, unchanged]
    exact (and_iff_left fun both => follows both.1).symm

section Indexes

variable {c : Collection} (coherent : c.Coherent)

include coherent

theorem Coherent.current_of_hasBuilt {item : Intersection} (built : c.cache.HasBuilt item) :
    item.Current c.catalog := by
  obtain ⟨entry, found, rfl, isBuilt⟩ := built
  exact coherent.current _ entry found isBuilt

theorem Coherent.isOver_iff {item : Intersection} (built : c.cache.HasBuilt item)
    {name : String} {index : Handle Index} (registered : c.catalog.directory[name]? = some index) :
    item.IsOver name ↔ ∃ source ∈ item.sources, source.index = index := by
  have current := coherent.current_of_hasBuilt built
  refine exists_congr fun source => and_congr_right fun inside => ?_
  have placed := current.registered source inside
  constructor
  · rintro rfl
    exact Option.some.inj (placed.symm.trans registered)
  · rintro rfl
    by_contra apart
    have known := coherent.catalog.known ⟨name, source.index⟩ registered
    exact (coherent.catalog.known source placed).index_ne known apart rfl

theorem Coherent.not_holds_of_reaches {index other : Handle Index}
    (reaches : c.Reaches index other) {id : DocId} (absent : c.catalog.holds index id = false) :
    c.catalog.holds other id = false := by
  rcases reaches with rfl | ⟨item, built, ⟨source, inside, rfl⟩, rfl⟩
  · exact absent
  · have members := (coherent.current_of_hasBuilt built).members (List.ne_nil_of_mem inside) id
    rw [members, ← Bool.not_eq_true, Catalog.allHold, List.all_eq_true]
    intro all
    simp [all source inside] at absent

theorem holds_removeFrom (consistent : c.Consistent) {name : String} {index : Handle Index}
    (registered : c.catalog.directory[name]? = some index) (id : DocId) (other : Handle Index)
    (x : DocId) :
    (c.removeFrom name index id).2.catalog.holds other x = true ↔
      c.catalog.holds other x = true ∧ ¬ (c.Reaches index other ∧ x = id) := by
  have has := (coherent.catalog.known ⟨name, index⟩ registered).has
  unfold removeFrom
  split
  next present =>
    have updated := continues_updateIndex consistent index (·.remove id) (fun _ => rfl)
      fun _ => rfl
    have followers : (∃ item, c.cache.HasBuilt item ∧ item.IsOver name ∧ item.result = other) ↔
        ∃ item, c.cache.HasBuilt item ∧
          (∃ source ∈ item.sources, source.index = index) ∧ item.result = other :=
      exists_congr fun item => and_congr_right fun built =>
        and_congr_left' (coherent.isOver_iff built registered)
    have removed : (c.catalog.updateIndex index (·.remove id)).holds other x = true ↔
        c.catalog.holds other x = true ∧ ¬ (other = index ∧ x = id) := by
      rw [Catalog.holds_remove has]
      split
      next here => simp [here]
      next elsewhere => simp [elsewhere]
    refine (holds_changed_removal updated.consistent name id other x).trans ?_
    refine (and_congr removed (not_congr (and_congr_left' followers))).trans ?_
    rw [Reaches, and_assoc, ← not_or, ← or_and_right]
  next absent =>
    -- The built entries over the index do not hold the document either.
    have nothing : c.Reaches index other ∧ x = id → c.catalog.holds other x = false := by
      rintro ⟨reaches, rfl⟩
      exact coherent.not_holds_of_reaches reaches (by simpa using absent)
    refine (and_iff_left_of_imp fun held both => ?_).symm
    simp [nothing both] at held

theorem clears_removeFrom (consistent : c.Consistent) {name : String} {index : Handle Index}
    (registered : c.catalog.directory[name]? = some index) (id : DocId) :
    c.Clears id (c.Reaches index) (fun _ => False) (c.removeFrom name index id).2 where
  cache := cache_removeFrom name index id
  same := by
    have has := (coherent.catalog.known ⟨name, index⟩ registered).has
    unfold removeFrom
    split
    · have updated := continues_updateIndex consistent index (·.remove id) (fun _ => rfl)
        fun _ => rfl
      have same : c.catalog.SameIndexes (c.catalog.updateIndex index (·.remove id)) :=
        Catalog.sameIndexes_updateIndex has (fun _ => rfl) fun _ => rfl
      exact same.trans (Catalog.sameIndexes_followAll fun _ => hides_items updated.consistent)
    · exact .refl _
  sorts := by rw [catalog_removeFrom]
  levelLimit := by rw [catalog_removeFrom]
  has _ := by rw [catalog_removeFrom]
  holds := holds_removeFrom coherent consistent registered id
  without _ never := never.elim
  kept _ _ := by rw [catalog_removeFrom]

/-! ## All indexes and all sorts -/

theorem clears_removeFromAll (consistent : c.Consistent) (id : DocId)
    {named : List (String × Handle Index)}
    (registered : ∀ pair ∈ named, c.catalog.directory[pair.1]? = some pair.2) :
    c.Clears id (fun other => ∃ pair ∈ named, c.Reaches pair.2 other) (fun _ => False)
      (named.foldl (fun c (name, index) => (c.removeFrom name index id).2) c) := by
  induction named generalizing c with
  | nil => exact (Clears.refl c id).congr (by simp) fun _ => Iff.rfl
  | cons first named ih =>
      obtain ⟨registeredFirst, registered⟩ := List.forall_mem_cons.mp registered
      have once := clears_removeFrom coherent consistent registeredFirst id
      have others := ih (becomes_removeFrom coherent registeredFirst id).coherent
        (continues_removeFrom consistent first.1 first.2 id).consistent fun pair inside => by
          rw [once.same.directory]
          exact registered pair inside
      -- The cache stays as it is, and with it what each of the indexes reaches.
      simp only [Reaches, once.cache] at others
      refine (once.trans others).congr (fun other _ => ?_) fun _ => or_self_iff
      simp [Reaches]

theorem removeFromAll_ownNames (consistent : c.Consistent) (id : DocId)
    {named : List (String × Handle Index)}
    (registered : ∀ pair ∈ named, c.catalog.directory[pair.1]? = some pair.2) :
    (named.map (·.2)).foldl
        (fun c index => (c.removeFrom (c.catalog.indexes.read index).name index id).2) c =
      named.foldl (fun c (name, index) => (c.removeFrom name index id).2) c := by
  induction named generalizing c with
  | nil => rfl
  | cons first named ih =>
      obtain ⟨registeredFirst, registered⟩ := List.forall_mem_cons.mp registered
      -- A registered index has the name that it is registered under.
      have known := coherent.catalog.known ⟨first.1, first.2⟩ registeredFirst
      have once := clears_removeFrom coherent consistent registeredFirst id
      rw [List.map_cons, List.foldl_cons, List.foldl_cons, known.name]
      refine ih (becomes_removeFrom coherent registeredFirst id).coherent
        (continues_removeFrom consistent first.1 first.2 id).consistent fun pair inside => ?_
      rw [once.same.directory]
      exact registered pair inside

end Indexes

section Sorts

variable (c : Collection) (id : DocId)

theorem removeFromSort_of_static {sort : Handle Ranking}
    (fixed : (c.catalog.rankings.read sort).isStatic = true) : c.removeFromSort sort id = c := by
  unfold removeFromSort
  rw [Ranking.remove_of_static fixed]

theorem removeFromSort_of_dynamic {sort : Handle Ranking}
    (free : (c.catalog.rankings.read sort).isStatic = false) :
    c.removeFromSort sort id = c.putSort sort ((c.catalog.rankings.read sort).without id) := by
  unfold removeFromSort
  rw [Ranking.remove_of_dynamic free]

theorem clears_removeFromSort (sort : Handle Ranking) :
    c.Clears id (fun _ => False) (· = sort) (c.removeFromSort sort id) := by
  cases free : (c.catalog.rankings.read sort).isStatic with
  | true =>
      rw [c.removeFromSort_of_static id free]
      refine { Clears.refl c id with without := ?_, kept := fun _ _ => rfl }
      rintro _ rfl
      exact (Ranking.without_of_static free id).symm
  | false =>
      rw [c.removeFromSort_of_dynamic id free]
      refine { Clears.refl c id with
        same := ⟨fun _ => Iff.rfl, fun _ => rfl, fun _ => rfl, rfl⟩
        has := fun _ => Store.has_update
        without := ?_
        kept := fun _ apart => Store.read_update_of_ne (Ne.symm apart) _ }
      rintro _ rfl
      exact Store.read_update_const _ fun unknown => by
        rw [Store.read_of_not_has unknown]
        exact Ranking.without_of_absent rfl

theorem clears_removeFromSorts (sorts : List (Handle Ranking)) :
    c.Clears id (fun _ => False) (· ∈ sorts)
      (sorts.foldl (fun c sort => c.removeFromSort sort id) c) := by
  induction sorts generalizing c with
  | nil => exact (Clears.refl c id).congr (fun _ _ => Iff.rfl) (by simp)
  | cons first sorts ih =>
      refine ((c.clears_removeFromSort id first).trans (ih _)).congr
        (fun _ _ => or_self_iff) fun sort => ?_
      rw [List.mem_cons]

end Sorts

/-! ## Any order -/

/-- Takes a document out of the listed indexes, each under its own name, and then out
of those of the listed sorts that are not static.  Fails with the first sort that does
not let go of it. -/
def removeInOrder (c : Collection) (id : DocId) (indexes : List (Handle Index))
    (sorts : List (Handle Ranking)) : Except Error Collection :=
  let c := indexes.foldl
    (fun c index => (c.removeFrom (c.catalog.indexes.read index).name index id).2) c
  sorts.foldlM (fun c sort =>
    if (c.catalog.rankings.read sort).isStatic then return c
    else do
      let (_, ranking) ← (c.catalog.rankings.read sort).remove id
      return c.putSort sort ranking) c

theorem removeInOrder_eq_ok (c : Collection) (id : DocId) (indexes : List (Handle Index))
    (sorts : List (Handle Ranking)) :
    c.removeInOrder id indexes sorts = .ok (sorts.foldl (fun c sort => c.removeFromSort sort id)
      (indexes.foldl
        (fun c index => (c.removeFrom (c.catalog.indexes.read index).name index id).2) c)) := by
  unfold removeInOrder
  dsimp only
  generalize indexes.foldl _ c = c
  induction sorts generalizing c with
  | nil => rfl
  | cons first sorts ih =>
      rw [List.foldlM_cons, List.foldl_cons, ← ih]
      cases free : (c.catalog.rankings.read first).isStatic with
      | true =>
          rw [c.removeFromSort_of_static id free]
          rfl
      | false =>
          rw [c.removeFromSort_of_dynamic id free, Ranking.remove_of_dynamic free]
          rfl

def Exposes (c : Collection) (index : Handle Index) : Prop :=
  (∃ name : String, c.catalog.directory[name]? = some index) ∨
    ∃ item, c.cache.HasBuilt item ∧ item.result = index

def Ranks (c : Collection) (sort : Handle Ranking) : Prop :=
  ∃ name : String, c.catalog.sorts[name]? = some sort

theorem Clears.exposes {c c' : Collection} {id : DocId} {cleared : Handle Index → Prop}
    {stripped : Handle Ranking → Prop} (clears : c.Clears id cleared stripped c')
    (index : Handle Index) : c'.Exposes index ↔ c.Exposes index := by
  simp only [Exposes, Cache.HasBuilt, clears.cache, clears.same.directory]

theorem Clears.ranks {c c' : Collection} {id : DocId} {cleared : Handle Index → Prop}
    {stripped : Handle Ranking → Prop} (clears : c.Clears id cleared stripped c')
    (sort : Handle Ranking) : c'.Ranks sort ↔ c.Ranks sort := by
  simp only [Ranks, clears.sorts]

section Walk

variable {c : Collection} (coherent : c.Coherent) (consistent : c.Consistent) (id : DocId)
  (vacant : ∀ item, c.cache.HasBuilt item → item.sources = [] →
    c.catalog.holds item.result id = false)

include coherent vacant

theorem reached_iff_exposes {indexes : List (Handle Index)}
    (complete : ∀ index, index ∈ indexes ↔ ∃ name : String, c.catalog.directory[name]? = some index)
    {other : Handle Index} (held : c.catalog.holds other id = true) :
    (∃ index ∈ indexes, c.Reaches index other) ↔ c.Exposes other := by
  constructor
  · rintro ⟨index, listed, rfl | ⟨item, built, -, result⟩⟩
    · exact .inl ((complete _).mp listed)
    · exact .inr ⟨item, built, result⟩
  · rintro (registered | ⟨item, built, rfl⟩)
    · exact ⟨other, (complete other).mpr registered, .inl rfl⟩
    · cases sources : item.sources with
      | nil =>
          rw [vacant item built sources] at held
          cases held
      | cons source others =>
          have inside : source ∈ item.sources := by
            rw [sources]
            exact List.mem_cons_self
          have registered := (coherent.current_of_hasBuilt built).registered source inside
          exact ⟨source.index, (complete _).mpr ⟨_, registered⟩,
            .inr ⟨item, built, ⟨source, inside, rfl⟩, rfl⟩⟩

include consistent

theorem clears_all {named : List (String × Handle Index)} {sorts : List (Handle Ranking)}
    (registered : ∀ pair ∈ named, c.catalog.directory[pair.1]? = some pair.2)
    (complete : ∀ index, index ∈ named.map (·.2) ↔
      ∃ name : String, c.catalog.directory[name]? = some index)
    (allSorts : ∀ sort, sort ∈ sorts ↔ c.Ranks sort) :
    c.Clears id c.Exposes c.Ranks (sorts.foldl (fun c sort => c.removeFromSort sort id)
      (named.foldl (fun c (name, index) => (c.removeFrom name index id).2) c)) := by
  have first := clears_removeFromAll coherent consistent id registered
  have both := first.trans (clears_removeFromSorts _ id sorts)
  refine both.congr (fun other held => ?_) fun sort => ?_
  · rw [or_false, ← reached_iff_exposes coherent id vacant complete held]
    simp only [List.mem_map, exists_exists_and_eq_and]
  · rw [false_or, allSorts]

theorem clears_removeDocument : c.Clears id c.Exposes c.Ranks (c.removeDocument id) := by
  have first := clears_removeFromAll coherent consistent id fun pair inside =>
    Std.ExtTreeMap.mem_toList_iff_getElem?_eq_some.mp inside
  refine clears_all coherent consistent id vacant
    (fun pair inside => Std.ExtTreeMap.mem_toList_iff_getElem?_eq_some.mp inside)
    (fun index => ?_) fun sort => ?_
  · rw [← values_eq, mem_values]
  · rw [first.sorts, mem_values]
    rfl

theorem removeInOrder_eq {indexes : List (Handle Index)} {sorts : List (Handle Ranking)}
    (allIndexes : ∀ index, index ∈ indexes ↔
      ∃ name : String, c.catalog.directory[name]? = some index)
    (allSorts : ∀ sort, sort ∈ sorts ↔ c.Ranks sort) :
    c.removeInOrder id indexes sorts = .ok (c.removeDocument id) := by
  let named := indexes.map fun index => ((c.catalog.indexes.read index).name, index)
  have handles : named.map (·.2) = indexes := by simp [named, Function.comp_def]
  have registered : ∀ pair ∈ named, c.catalog.directory[pair.1]? = some pair.2 := by
    intro pair inside
    obtain ⟨index, listed, rfl⟩ := List.mem_map.mp inside
    obtain ⟨name, known⟩ := (allIndexes index).mp listed
    have own := (coherent.catalog.known ⟨name, index⟩ known).name
    rw [own]
    exact known
  rw [removeInOrder_eq_ok, ← handles, removeFromAll_ownNames coherent consistent id registered]
  rw [← handles] at allIndexes
  exact congrArg Except.ok
    ((clears_all coherent consistent id vacant registered allIndexes allSorts).unique
      (clears_removeDocument coherent consistent id vacant))

end Walk

end Collection

end RankedQuery
