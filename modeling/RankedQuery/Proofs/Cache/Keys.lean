import RankedQuery.Cache.Intersection

/-!
# Keys of intersections

Names are put in one order and without repetition before they are joined, so
that a key depends only on the set of names.  Names without the separator can be
read back from their key.
-/

namespace RankedQuery

/-! ## Canonical names -/

@[simp] theorem mem_canonicalNames {names : List String} {name : String} :
    name ∈ canonicalNames names ↔ name ∈ names := by
  simp [canonicalNames]

theorem canonicalNames_congr {names names' : List String}
    (same : ∀ name, name ∈ names ↔ name ∈ names') :
    canonicalNames names = canonicalNames names' := by
  unfold canonicalNames
  congr 1
  refine Std.ExtTreeSet.ext_mem fun name => ?_
  simp [same]

@[simp] theorem canonicalNames_idem (names : List String) :
    canonicalNames (canonicalNames names) = canonicalNames names :=
  canonicalNames_congr fun _ => mem_canonicalNames

@[simp] theorem canonicalNames_eq_nil {names : List String} :
    canonicalNames names = [] ↔ names = [] := by
  simp only [List.eq_nil_iff_forall_not_mem, mem_canonicalNames]

theorem all_canonicalNames (names : List String) (test : String → Bool) :
    (canonicalNames names).all test = names.all test := by
  rw [Bool.eq_iff_iff, List.all_eq_true, List.all_eq_true]
  simp only [mem_canonicalNames]

theorem canonicalKey_congr {names names' : List String}
    (same : ∀ name, name ∈ names ↔ name ∈ names') :
    canonicalKey names = canonicalKey names' := by
  rw [canonicalKey, canonicalNames_congr same, canonicalKey]

/-! ## Reading names back -/

def HasNoSeparator (name : String) : Prop := '&' ∉ name.toList

instance (name : String) : Decidable (HasNoSeparator name) :=
  inferInstanceAs (Decidable ('&' ∉ name.toList))

theorem splitOn_intercalate {names : List String} (free : ∀ name ∈ names, HasNoSeparator name)
    (any : names ≠ []) :
    ("&".intercalate names).toList.splitOn '&' = names.map String.toList := by
  rw [String.toList_intercalate]
  refine List.splitOn_intercalate '&' ?_ (by simpa using any)
  intro chars inside
  obtain ⟨name, listed, rfl⟩ := List.mem_map.mp inside
  exact free name listed

theorem intercalate_inj {names names' : List String}
    (free : ∀ name ∈ names, HasNoSeparator name)
    (free' : ∀ name ∈ names', HasNoSeparator name) (several : 2 ≤ names.length)
    (same : "&".intercalate names = "&".intercalate names') : names = names' := by
  have split := splitOn_intercalate free (List.ne_nil_of_length_pos (by omega))
  rw [same] at split
  by_cases any : names' = []
  · subst any
    have length := congrArg List.length split
    rw [List.length_map, String.intercalate_nil] at length
    simp only [String.toList_empty, List.splitOn_nil, List.length_singleton] at length
    omega
  · rw [splitOn_intercalate free' any] at split
    exact ((List.map_inj_right fun _ _ => String.toList_inj.mp).mp split).symm

theorem canonicalKey_inj {names names' : List String}
    (free : ∀ name ∈ names, HasNoSeparator name)
    (free' : ∀ name ∈ names', HasNoSeparator name)
    (several : 2 ≤ (canonicalNames names).length)
    (same : canonicalKey names = canonicalKey names') (name : String) :
    name ∈ names ↔ name ∈ names' := by
  have canonical : canonicalNames names = canonicalNames names' := by
    apply intercalate_inj _ _ several same
    · intro name listed
      exact free name (mem_canonicalNames.mp listed)
    · intro name listed
      exact free' name (mem_canonicalNames.mp listed)
  rw [← mem_canonicalNames, canonical, mem_canonicalNames]

/-! ## Names that share a key -/

theorem canonicalKey_eq_empty {names : List String} (empty : ∀ name ∈ names, name = "") :
    canonicalKey names = "" := by
  cases names with
  | nil => rfl
  | cons first others =>
      have single : canonicalKey (first :: others) = canonicalKey [""] := by
        apply canonicalKey_congr
        intro name
        constructor
        · intro listed
          simp [empty name listed]
        · intro listed
          rw [List.mem_singleton.mp listed, ← empty first List.mem_cons_self]
          exact List.mem_cons_self
      rw [single]
      decide +kernel

private theorem splitOn_canonicalKey {names : List String}
    (free : ∀ name ∈ names, HasNoSeparator name) (any : names ≠ []) :
    (canonicalKey names).toList.splitOn '&' = (canonicalNames names).map String.toList := by
  apply splitOn_intercalate
  · intro name listed
    exact free name (mem_canonicalNames.mp listed)
  · exact fun none => any (canonicalNames_eq_nil.mp none)

private theorem eq_empty_of_canonicalKey {names : List String}
    (free : ∀ name ∈ names, HasNoSeparator name) (empty : canonicalKey names = "") :
    ∀ name ∈ names, name = "" := by
  intro name listed
  have split := splitOn_canonicalKey free (List.ne_nil_of_mem listed)
  rw [empty, String.toList_empty, List.splitOn_nil] at split
  have read : name.toList ∈ (canonicalNames names).map String.toList :=
    List.mem_map_of_mem (mem_canonicalNames.mpr listed)
  rw [← split, List.mem_singleton] at read
  exact String.toList_eq_nil_iff.mp read

/-- Names without separators share a key only with the same names, except that
no name at all and the empty name have the empty key. -/
theorem canonicalKey_eq_iff {names names' : List String}
    (free : ∀ name ∈ names, HasNoSeparator name)
    (free' : ∀ name ∈ names', HasNoSeparator name) :
    canonicalKey names = canonicalKey names' ↔
      (∀ name, name ∈ names ↔ name ∈ names') ∨ ∀ name ∈ names ++ names', name = "" := by
  constructor
  · intro same
    cases names with
    | nil =>
        right
        exact eq_empty_of_canonicalKey free' same.symm
    | cons first others =>
        cases names' with
        | nil =>
            right
            rw [List.append_nil]
            exact eq_empty_of_canonicalKey free same
        | cons first' others' =>
            left
            have split := splitOn_canonicalKey free (List.cons_ne_nil first others)
            rw [same, splitOn_canonicalKey free' (List.cons_ne_nil first' others')] at split
            have canonical := (List.map_inj_right fun _ _ => String.toList_inj.mp).mp split
            intro name
            rw [← mem_canonicalNames, ← canonical, mem_canonicalNames]
  · rintro (same | empty)
    · exact canonicalKey_congr same
    · rw [canonicalKey_eq_empty fun name listed => empty name (List.mem_append_left _ listed),
        canonicalKey_eq_empty fun name listed => empty name (List.mem_append_right _ listed)]

theorem canonicalKey_eq_iff_of_pair :
    canonicalKey ["b", "a", "b"] = canonicalKey ["a", "b"] ↔
      (∀ name, name ∈ ["b", "a", "b"] ↔ name ∈ ["a", "b"]) ∨
        ∀ name ∈ ["b", "a", "b"] ++ ["a", "b"], name = "" :=
  canonicalKey_eq_iff (by decide) (by decide)

theorem canonicalKey_collides :
    ¬ ∀ names names' : List String, canonicalKey names = canonicalKey names' →
      ∀ name, name ∈ names ↔ name ∈ names' := by
  intro injective
  have same : canonicalKey ["a&b", "c"] = canonicalKey ["a", "b&c"] := by decide +kernel
  have listed := (injective _ _ same "c").mp (by decide)
  exact absurd listed (by decide)

end RankedQuery
