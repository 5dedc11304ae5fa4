import RankedQuery.Collection
import RankedQuery.Proofs.Registration

/-!
# Intersections and single changes

An intersection holds what all its sources hold, and a list of intersections
that follow a change of an index hold that afterwards.  Their results are hidden
and their sources known, so that the result of one is never a source of another.
-/

namespace RankedQuery

namespace Catalog

/-! ## Whole intersections -/

theorem allHold_perm {sources sources' : List Source} (perm : sources.Perm sources')
    (c : Catalog) (id : DocId) : c.allHold sources id = c.allHold sources' id :=
  perm.all_eq

theorem contains_intersect (c : Catalog) {sources : List Source} (any : sources ≠ [])
    (id : DocId) : (c.intersect sources).contains id = c.allHold sources id := by
  have perm : (c.bySize sources).Perm sources := perm_sortStable _ sources
  rw [← allHold_perm perm]
  unfold intersect
  split
  next none =>
    rw [none] at perm
    exact absurd perm.nil_eq.symm any
  next smallest others first =>
    rw [first, Bool.eq_iff_iff]
    simp [allHold, holds, Index.contains]

theorem allHold_eq_and_others (c : Catalog) {sources : List Source} {name : String}
    {id : DocId} {held : Bool} (isOver : ∃ source ∈ sources, source.name = name)
    (named : ∀ source ∈ sources, source.name = name → c.holds source.index id = held) :
    c.allHold sources id =
      (held && c.allHold (sources.filter (·.name ≠ name)) id) := by
  obtain ⟨witness, listed, same⟩ := isOver
  unfold allHold
  rw [Bool.eq_iff_iff, Bool.and_eq_true, List.all_eq_true, List.all_eq_true]
  constructor
  · intro all
    refine ⟨?_, fun source inside => all source (List.mem_filter.mp inside).1⟩
    rw [← named witness listed same]
    exact all witness listed
  · rintro ⟨holds, others⟩ source inside
    by_cases here : source.name = name
    · rw [named source inside here, holds]
    · exact others source (List.mem_filter.mpr ⟨inside, by simpa using here⟩)

/-! ## One intersection -/

section Follow

variable {c : Catalog} {item : Intersection}

theorem sameIndexes_follow (known : c.indexes.Has item.result) (name : String)
    (id : DocId) (added : Bool) : c.SameIndexes (c.follow name id added item) := by
  unfold follow
  split
  · split
    · exact sameIndexes_updateIndex known (fun _ => rfl) (fun _ => rfl)
    · exact .refl c
  · exact sameIndexes_updateIndex known (fun _ => rfl) (fun _ => rfl)

theorem read_follow_of_ne {index : Handle Index} (apart : item.result ≠ index) (name : String)
    (id : DocId) (added : Bool) :
    (c.follow name id added item).indexes.read index = c.indexes.read index := by
  unfold follow
  split
  · split
    · exact Store.read_update_of_ne apart _
    · rfl
  · exact Store.read_update_of_ne apart _

theorem holds_follow (known : c.indexes.Has item.result) (name : String) (id : DocId)
    (added : Bool) (index : Handle Index) (other : DocId) :
    (c.follow name id added item).holds index other =
      if index = item.result ∧ other = id then
        added && (c.holds index id || c.allHold (item.sources.filter (·.name ≠ name)) id)
      else c.holds index other := by
  unfold follow
  generalize item.sources.filter (·.name ≠ name) = others
  cases added with
  | true =>
      by_cases joins : c.allHold others id = true
      · rw [if_pos rfl, if_pos joins, holds_add known, joins]
        simp
      · rw [if_pos rfl, if_neg joins]
        split
        next here => simp [here, joins]
        next => rfl
  | false =>
      rw [if_neg Bool.false_ne_true, holds_remove known]
      simp

theorem allHold_follow (hidden : c.Hides item.result) {sources : List Source}
    (known : ∀ source ∈ sources, c.Knows source) (name : String) (id : DocId)
    (added : Bool) (other : DocId) :
    (c.follow name id added item).allHold sources other = c.allHold sources other := by
  refine allHold_congr fun source inside => ?_
  rw [holds_follow hidden.has, if_neg fun both => (known source inside).ne_hidden hidden both.1]

end Follow

/-! ## All intersections over an index -/

section FollowAll

variable {name : String} {id : DocId} {added : Bool}

theorem sameIndexes_followAll {c : Catalog} {items : List Intersection}
    (hidden : ∀ item ∈ items, c.Hides item.result) :
    c.SameIndexes (items.foldl (fun c item => c.follow name id added item) c) := by
  induction items generalizing c with
  | nil => exact .refl c
  | cons first items ih =>
      have same := sameIndexes_follow (hidden first List.mem_cons_self).has name id added
      refine same.trans (ih fun item inside => ?_)
      exact same.becomes.hides _ (hidden item (List.mem_cons_of_mem _ inside))

theorem read_followAll_of_ne {c : Catalog} {items : List Intersection} {index : Handle Index}
    (apart : ∀ item ∈ items, item.result ≠ index) :
    (items.foldl (fun c item => c.follow name id added item) c).indexes.read index =
      c.indexes.read index := by
  induction items generalizing c with
  | nil => rfl
  | cons first items ih =>
      rw [List.foldl_cons, ih fun item inside => apart item (List.mem_cons_of_mem _ inside)]
      exact read_follow_of_ne (apart first List.mem_cons_self) name id added

theorem holds_followAll_of_ne {c : Catalog} {items : List Intersection}
    (hidden : ∀ item ∈ items, c.Hides item.result) {index : Handle Index} {other : DocId}
    (apart : ∀ item ∈ items, ¬ (index = item.result ∧ other = id)) :
    (items.foldl (fun c item => c.follow name id added item) c).holds index other =
      c.holds index other := by
  induction items generalizing c with
  | nil => rfl
  | cons first items ih =>
      have same := sameIndexes_follow (hidden first List.mem_cons_self).has name id added
      have unchanged := ih (fun item inside =>
          same.becomes.hides _ (hidden item (List.mem_cons_of_mem _ inside)))
        fun item inside => apart item (List.mem_cons_of_mem _ inside)
      rw [List.foldl_cons, unchanged, holds_follow (hidden first List.mem_cons_self).has,
        if_neg (apart first List.mem_cons_self)]

/-- An intersection that is the only one with its result takes over the change,
however often it is listed. -/
theorem holds_followAll {c : Catalog} {items : List Intersection}
    (hidden : ∀ item ∈ items, c.Hides item.result)
    {item : Intersection} (listed : item ∈ items)
    (known : ∀ source ∈ item.sources, c.Knows source)
    (alone : ∀ other ∈ items, other.result = item.result → other = item) :
    (items.foldl (fun c item => c.follow name id added item) c).holds item.result id =
      (added && (c.holds item.result id ||
        c.allHold (item.sources.filter (·.name ≠ name)) id)) := by
  -- A follower may be listed again further on; once it holds the change it keeps it.
  induction items generalizing c with
  | nil => cases listed
  | cons first items ih =>
      have firstHidden := hidden first List.mem_cons_self
      have same := sameIndexes_follow firstHidden.has name id added
      have hiddenAfter : ∀ item ∈ items, (c.follow name id added first).Hides item.result :=
        fun item inside => same.becomes.hides _ (hidden item (List.mem_cons_of_mem _ inside))
      rw [List.foldl_cons]
      by_cases again : item ∈ items
      · rw [ih hiddenAfter again (fun source inside => same.knows (known source inside))
          fun other inside => alone other (List.mem_cons_of_mem _ inside)]
        rw [allHold_follow firstHidden fun source inside =>
          known source (List.mem_filter.mp inside).1]
        by_cases one : first.result = item.result
        · obtain rfl := alone first List.mem_cons_self one
          rw [holds_follow firstHidden.has, if_pos ⟨rfl, rfl⟩]
          cases added <;> simp
        · rw [holds_follow firstHidden.has, if_neg fun both => one both.1.symm]
      · obtain rfl : item = first := (List.mem_cons.mp listed).resolve_right again
        rw [holds_followAll_of_ne hiddenAfter, holds_follow firstHidden.has,
          if_pos ⟨rfl, rfl⟩]
        rintro other inside ⟨same, -⟩
        exact again (alone other (List.mem_cons_of_mem _ inside) same.symm ▸ inside)

/-- When a known index has gained or lost a document, an intersection that held
what its sources hold does so again, if it follows exactly when it is over the
index. -/
theorem members_followAll {c c' : Catalog} {items : List Intersection}
    {item : Intersection} {index : Handle Index} (known : c.Knows ⟨name, index⟩)
    (same : c.SameIndexes c') (before : c.holds index id = !added)
    (after : ∀ other x, c'.holds other x =
      if other = index ∧ x = id then added else c.holds other x)
    (hidden : ∀ other ∈ items, c'.Hides other.result) (hides : c.Hides item.result)
    (knows : ∀ source ∈ item.sources, c.Knows source)
    (named : ∀ source ∈ item.sources, source.name = name → source.index = index)
    (alone : ∀ other ∈ items, other.result = item.result → other = item)
    (listed : item ∈ items ↔ ∃ source ∈ item.sources, source.name = name)
    (members : ∀ x, c.holds item.result x = c.allHold item.sources x) (x : DocId) :
    (items.foldl (fun c item => c.follow name id added item) c').holds item.result x =
      (items.foldl (fun c item => c.follow name id added item) c').allHold
        item.sources x := by
  have sources : (items.foldl (fun c item => c.follow name id added item) c').allHold
      item.sources x = c'.allHold item.sources x := by
    refine allHold_congr fun source inside => holds_followAll_of_ne hidden ?_
    rintro other follows ⟨result, -⟩
    exact (same.knows (knows source inside)).ne_hidden (hidden other follows) result
  have result : c'.holds item.result x = c.holds item.result x := by
    rw [after, if_neg fun both => known.ne_hidden hides both.1.symm]
  rw [sources]
  by_cases isOver : ∃ source ∈ item.sources, source.name = name
  · by_cases here : x = id
    · subst here
      have changed := allHold_eq_and_others c' isOver fun source inside here => by
        rw [after, if_pos ⟨named source inside here, rfl⟩]
      have unchanged := allHold_eq_and_others c isOver fun source inside here => by
        rw [named source inside here, before]
      rw [holds_followAll hidden (listed.mpr isOver)
        (fun source inside => same.knows (knows source inside)) alone, changed, result,
        members, unchanged]
      cases added <;> simp
    · rw [holds_followAll_of_ne hidden fun _ _ both => here both.2, result, members]
      refine (allHold_congr fun source inside => ?_).symm
      rw [after, if_neg fun both => here both.2]
  · rw [holds_followAll_of_ne hidden, result, members]
    · refine (allHold_congr fun source inside => ?_).symm
      rw [after, if_neg fun both => ?_]
      refine (knows source inside).index_ne known (fun here => ?_) both.1
      exact isOver ⟨source, inside, here⟩
    · rintro other follows ⟨same, -⟩
      exact isOver (listed.mp (alone other follows same.symm ▸ follows))

end FollowAll

end Catalog

end RankedQuery
