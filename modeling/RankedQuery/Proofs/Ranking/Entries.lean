import Mathlib.Algebra.Group.Nat.Defs
import Mathlib.Data.List.Perm.Subperm
import RankedQuery.Ranking.Basic

/-!
# The entries of a ranking

Both kinds of rankings are a list of scored documents in (score, id) order; in
a static ranking the position is the score.  Every view of a ranking is stated
here in terms of that list, so that later proofs do not ask which kind of
ranking they have.  The bounds of a score are counts of entries, and the
positions between two bounds hold exactly the entries scored between them.
-/

namespace RankedQuery

/-! ## Lists -/

theorem countP_lt_range (bound length : Nat) :
    (List.range length).countP (· < bound) = min bound length := by
  induction length with
  | zero => simp
  | succ length ih =>
      rw [List.range_succ, List.countP_append, ih, List.countP_singleton]
      by_cases below : length < bound <;> simp [below] <;> omega

theorem length_le_of_nodup {ids : List DocId} (nodup : ids.Nodup) :
    ids.length ≤ 2 ^ 32 := by
  have distinct : (ids.map UInt32.toNat).Nodup :=
    List.pairwise_map.mpr <| nodup.imp fun apart same => apart (UInt32.toNat_inj.mp same)
  have inside : ids.map UInt32.toNat ⊆ List.range (2 ^ 32) := by
    intro n hn
    obtain ⟨id, -, rfl⟩ := List.mem_map.mp hn
    exact List.mem_range.mpr id.toNat_lt
  simpa using (distinct.subperm inside).length_le

theorem Scored.eq_of_mem_iff {entries entries' : List Scored}
    (ordered : entries.Pairwise Scored.Before) (ordered' : entries'.Pairwise Scored.Before)
    (members : ∀ e : Scored, e ∈ entries ↔ e ∈ entries') : entries = entries' := by
  have nodup : ∀ {list : List Scored}, list.Pairwise Scored.Before → list.Nodup :=
    fun ordered => ordered.imp fun earlier => earlier.ne
  have perm := (List.perm_ext_iff_of_nodup (nodup ordered) (nodup ordered')).mpr members
  exact perm.eq_of_pairwise (fun a b _ _ before after => absurd after before.asymm)
    ordered ordered'

/-! ## Dynamic rankings -/

namespace DynamicRanking

theorem nodup_ids (r : DynamicRanking) : (r.entries.map (·.id)).Nodup := by
  rw [List.Nodup, List.pairwise_map]
  refine r.ordered_entries.imp_of_mem ?_
  rintro ⟨scoreA, id⟩ ⟨scoreB, idB⟩ memA memB earlier same
  subst same
  have scores := (mem_entries.mp memA).symm.trans (mem_entries.mp memB)
  simp only [Option.some.injEq] at scores
  subst scores
  exact Scored.not_before_self _ earlier

theorem rank?_eq_some {r : DynamicRanking} {id : DocId} {position : Nat} :
    r.rank? id = some position ↔ (r.entries.map (·.id))[position]? = some id := by
  have found : ∀ score, r.score? id = some score →
      (r.entries.map (·.id))[r.entries.countP (·.Before ⟨score, id⟩)]? = some id := by
    intro score scored
    simp [Scored.getElem?_countP_before r.ordered_entries (mem_entries.mpr scored)]
  rw [rank?_eq]
  constructor
  · intro ranked
    obtain ⟨score, scored, rfl⟩ := Option.map_eq_some_iff.mp ranked
    exact found score scored
  · intro placed
    obtain ⟨⟨score, _⟩, held, rfl⟩ : ∃ e : Scored, r.entries[position]? = some e ∧ e.id = id := by
      simpa using placed
    have scored := mem_entries.mp (List.mem_of_getElem? held)
    have inside := (List.getElem?_eq_some_iff.mp placed).1
    have same := (List.getElem?_inj inside r.nodup_ids).mp (placed.trans (found score scored).symm)
    simp [scored, same]

end DynamicRanking

/-! ## Static rankings -/

namespace StaticRanking

def entries (r : StaticRanking) : List Scored :=
  r.toList.zipIdx.map fun (id, position) => ⟨Int64.ofNat position, id⟩

theorem ids_entries (r : StaticRanking) : r.entries.map (·.id) = r.toList := by
  simp [entries, Function.comp_def]

theorem size_le (r : StaticRanking) : r.size ≤ 2 ^ 32 := by
  rw [size_eq]
  exact length_le_of_nodup r.nodup_toList

theorem toInt_ofNat_position {r : StaticRanking} {position : Nat} (inside : position < r.size) :
    (Int64.ofNat position).toInt = position := by
  have few := r.size_le
  exact Int64.toInt_ofNat_of_lt (by omega)

theorem getElem?_entries {r : StaticRanking} {position : Nat} :
    r.entries[position]? =
      r.toList[position]?.map fun id => ⟨Int64.ofNat position, id⟩ := by
  simp [entries, Function.comp_def]

theorem ordered_entries (r : StaticRanking) : r.entries.Pairwise Scored.Before := by
  rw [List.pairwise_iff_getElem]
  intro i j hi hj earlier
  have length : r.entries.length = r.size := by simp [entries, size_eq]
  have scoreI : (Int64.ofNat i).toInt = i := toInt_ofNat_position (r := r) (by omega)
  have scoreJ : (Int64.ofNat j).toInt = j := toInt_ofNat_position (r := r) (by omega)
  simp only [entries, List.getElem_map, List.getElem_zipIdx]
  refine Scored.before_of_score_lt ?_
  rw [Int64.lt_iff_toInt_lt]
  simp only [Nat.zero_add, scoreI, scoreJ]
  omega

theorem mem_entries {r : StaticRanking} {score : Score} {id : DocId} :
    ⟨score, id⟩ ∈ r.entries ↔ r.score? id = some score := by
  rw [List.mem_iff_getElem?, score?]
  simp only [getElem?_entries, Option.map_eq_some_iff, rank?_eq_some, Scored.mk.injEq]
  constructor
  · rintro ⟨position, _, placed, rfl, rfl⟩
    exact ⟨position, placed, rfl⟩
  · rintro ⟨position, placed, rfl⟩
    exact ⟨position, id, placed, rfl, rfl⟩

private theorem countP_entries (test : Score → Bool) {r : StaticRanking} {bound : Nat}
    (below : ∀ position < r.size, test (Int64.ofNat position) = decide (position < bound)) :
    r.entries.countP (fun e => test e.score) = min bound r.size := by
  calc
    r.entries.countP (fun e => test e.score) =
        (r.toList.zipIdx.map Prod.snd).countP fun position => test (Int64.ofNat position) := by
      rw [entries, List.countP_map, List.countP_map]
      rfl
    _ = (List.range r.size).countP (· < bound) := by
      rw [List.zipIdx_map_snd, ← List.range_eq_range', ← size_eq]
      refine List.countP_congr fun position inside => ?_
      rw [below position (List.mem_range.mp inside)]
    _ = min bound r.size := countP_lt_range bound r.size

theorem lowerBound_eq (r : StaticRanking) (score : Score) :
    r.lowerBound score = r.entries.countP (·.score < score) := by
  symm
  refine countP_entries (· < score) fun position inside => ?_
  simp only [Int64.lt_iff_toInt_lt, toInt_ofNat_position inside, decide_eq_decide]
  omega

theorem upperBound_eq (r : StaticRanking) (score : Score) :
    r.upperBound score = r.entries.countP (·.score ≤ score) := by
  symm
  refine countP_entries (· ≤ score) fun position inside => ?_
  have few := r.size_le
  simp only [Int64.le_iff_toInt_le, toInt_ofNat_position inside, toInt_saturate,
    Int64.toInt_minValue, Int64.toInt_maxValue, decide_eq_decide]
  omega

end StaticRanking

/-! ## Rankings of either kind -/

namespace Ranking

def entries (r : Ranking) : List Scored :=
  match r.order with
  | .dynamic d => d.entries
  | .static s => s.entries

theorem ids_eq : ∀ r : Ranking, r.ids = r.entries.map (·.id)
  | ⟨_, .dynamic _⟩ => rfl
  | ⟨_, .static s⟩ => s.ids_entries.symm

theorem ordered_entries : ∀ r : Ranking, r.entries.Pairwise Scored.Before
  | ⟨_, .dynamic d⟩ => d.ordered_entries
  | ⟨_, .static s⟩ => s.ordered_entries

theorem mem_entries {score : Score} {id : DocId} :
    ∀ {r : Ranking}, ⟨score, id⟩ ∈ r.entries ↔ r.score? id = some score
  | ⟨_, .dynamic _⟩ => DynamicRanking.mem_entries
  | ⟨_, .static _⟩ => StaticRanking.mem_entries

theorem nodup_ids : ∀ r : Ranking, r.ids.Nodup
  | ⟨_, .dynamic d⟩ => d.nodup_ids
  | ⟨_, .static s⟩ => s.nodup_toList

theorem size_le (r : Ranking) : r.size ≤ 2 ^ 32 := by
  rw [size_eq]
  exact length_le_of_nodup r.nodup_ids

theorem rank?_eq_some {id : DocId} {position : Nat} :
    ∀ {r : Ranking}, r.rank? id = some position ↔ r.ids[position]? = some id
  | ⟨_, .dynamic _⟩ => DynamicRanking.rank?_eq_some
  | ⟨_, .static _⟩ => StaticRanking.rank?_eq_some

theorem mem_ids {r : Ranking} {id : DocId} : id ∈ r.ids ↔ (r.score? id).isSome := by
  rw [Option.isSome_iff_exists, ids_eq, List.mem_map]
  constructor
  · rintro ⟨⟨score, _⟩, listed, rfl⟩
    exact ⟨score, mem_entries.mp listed⟩
  · rintro ⟨score, scored⟩
    exact ⟨_, mem_entries.mpr scored, rfl⟩

theorem lowerBound_eq (score : Score) :
    ∀ r : Ranking, r.lowerBound score = r.entries.countP (·.score < score)
  | ⟨_, .dynamic d⟩ => d.lowerBound_eq score
  | ⟨_, .static s⟩ => s.lowerBound_eq score

theorem upperBound_eq (score : Score) :
    ∀ r : Ranking, r.upperBound score = r.entries.countP (·.score ≤ score)
  | ⟨_, .dynamic d⟩ => d.upperBound_eq score
  | ⟨_, .static s⟩ => s.upperBound_eq score

theorem take_upperBound (r : Ranking) (score : Score) :
    r.entries.take (r.upperBound score) = r.entries.filter (·.score ≤ score) := by
  rw [upperBound_eq]
  refine take_countP_eq_filter (r.ordered_entries.imp fun {a b} earlier below => ?_)
  have order := earlier.score_le
  simp only [decide_eq_true_eq, Int64.le_iff_toInt_le] at *
  omega

/-- The positions between the bounds of two scores hold the entries scored from
the one to the other. -/
theorem slice_entries (r : Ranking) (low high : Score) :
    (r.entries.take (r.upperBound high)).drop (r.lowerBound low) =
      r.entries.filter fun e => low ≤ e.score && e.score ≤ high := by
  rw [take_upperBound, lowerBound_eq, ← List.filter_filter]
  by_cases order : low ≤ high
  · have sameCount : r.entries.countP (·.score < low) =
        (r.entries.filter (·.score ≤ high)).countP (·.score < low) := by
      rw [List.countP_filter]
      refine List.countP_congr fun e _ => ?_
      simp only [Int64.le_iff_toInt_le, Int64.lt_iff_toInt_lt, Bool.and_eq_true,
        decide_eq_true_eq] at order ⊢
      omega
    rw [sameCount, drop_countP_eq_filter]
    · refine List.filter_congr fun e _ => ?_
      simp [← Int64.not_le]
    · refine (r.ordered_entries.filter _).imp fun {a b} earlier below => ?_
      have order := earlier.score_le
      simp only [decide_eq_true_eq, Int64.le_iff_toInt_le, Int64.lt_iff_toInt_lt] at *
      omega
  · have apart : ∀ e : Scored, e.score ≤ high → e.score < low := fun e below => by
      simp only [Int64.le_iff_toInt_le, Int64.lt_iff_toInt_lt] at *
      omega
    have short : (r.entries.filter (·.score ≤ high)).length ≤
        r.entries.countP (·.score < low) := by
      rw [← List.countP_eq_length_filter]
      exact List.countP_mono_left fun e _ below => by
        simpa using apart e (by simpa using below)
    rw [List.drop_eq_nil_of_le short, eq_comm, List.filter_eq_nil_iff]
    intro e he
    have below := apart e (by simpa using (List.mem_filter.mp he).2)
    simpa [Int64.not_le] using below

end Ranking

end RankedQuery
