import RankedQuery.Proofs.Ranking.Entries

/-!
# Taking a document out of a ranking

A dynamic ranking lets go of a document and keeps the others as they are, with
their scores and in their order.  A static one refuses and stays as it is.
-/

namespace RankedQuery

namespace DynamicRanking

theorem remove_of_absent {r : DynamicRanking} {id : DocId} (absent : r.score? id = none) :
    (r.remove id).2 = r := by
  have missing : r.list.slots[id]? = none := Option.map_eq_none_iff.mp absent
  have same : (r.list.remove id).2 = r.list := by rw [SkipList.remove, missing]
  obtain ⟨list, threaded⟩ := r
  exact (DynamicRanking.mk.injEq ..).mpr same

theorem entries_remove (r : DynamicRanking) (id : DocId) :
    (r.remove id).2.entries = r.entries.filter (·.id ≠ id) := by
  refine Scored.eq_of_mem_iff (ordered_entries _) (r.ordered_entries.filter _) ?_
  rintro ⟨score, other⟩
  rw [List.mem_filter, mem_entries, mem_entries, ← getElem?_scores, ← getElem?_scores,
    scores_remove, Std.ExtTreeMap.getElem?_erase]
  by_cases same : id = other
  · simp [same]
  · simp [same, Ne.symm same]

end DynamicRanking

namespace Ranking

def without (r : Ranking) (id : DocId) : Ranking :=
  match r.remove id with
  | .ok (_, r) => r
  | .error _ => r

variable {r : Ranking}

theorem remove_of_static (fixed : r.isStatic = true) (id : DocId) :
    r.remove id = .error (.staticRemoval r.name) := by
  obtain ⟨name, order⟩ := r
  cases order with
  | dynamic d => cases fixed
  | static s => rfl

theorem without_of_static (fixed : r.isStatic = true) (id : DocId) : r.without id = r := by
  rw [without, remove_of_static fixed]

theorem remove_of_dynamic (free : r.isStatic = false) (id : DocId) :
    r.remove id = .ok (r.contains id, r.without id) := by
  obtain ⟨name, order⟩ := r
  cases order with
  | dynamic d =>
      simp only [without, remove, d.remove_fst]
      rfl
  | static s => cases free

theorem isStatic_without (r : Ranking) (id : DocId) : (r.without id).isStatic = r.isStatic := by
  obtain ⟨name, order⟩ := r
  cases order <;> rfl

theorem ids_without_of_dynamic (free : r.isStatic = false) (id : DocId) :
    (r.without id).ids = r.ids.filter (· ≠ id) := by
  obtain ⟨name, order⟩ := r
  cases order with
  | dynamic d =>
      show (d.remove id).2.entries.map (·.id) = (d.entries.map (·.id)).filter (· ≠ id)
      rw [d.entries_remove, List.filter_map]
      rfl
  | static s => cases free

theorem score?_without_self (free : r.isStatic = false) (id : DocId) :
    (r.without id).score? id = none := by
  obtain ⟨name, order⟩ := r
  cases order with
  | dynamic d =>
      show (d.remove id).2.score? id = none
      rw [← DynamicRanking.getElem?_scores, d.scores_remove]
      simp
  | static s => cases free

theorem score?_without_of_ne (r : Ranking) {id other : DocId} (apart : other ≠ id) :
    (r.without id).score? other = r.score? other := by
  obtain ⟨name, order⟩ := r
  cases order with
  | dynamic d =>
      show (d.remove id).2.score? other = d.score? other
      rw [← DynamicRanking.getElem?_scores, ← DynamicRanking.getElem?_scores, d.scores_remove,
        Std.ExtTreeMap.getElem?_erase]
      simp [Ne.symm apart]
  | static s => rfl

theorem others_without (r : Ranking) (id : DocId) :
    (r.without id).ids.filter (· ≠ id) = r.ids.filter (· ≠ id) := by
  cases free : r.isStatic with
  | true => rw [without_of_static free]
  | false =>
      rw [ids_without_of_dynamic free, List.filter_filter]
      exact List.filter_congr fun other _ => Bool.and_self _

theorem without_of_absent {id : DocId} (absent : r.score? id = none) : r.without id = r := by
  obtain ⟨name, order⟩ := r
  cases order with
  | dynamic d =>
      have same := DynamicRanking.remove_of_absent absent
      exact congrArg (fun d => Ranking.mk name (.dynamic d)) same
  | static s => rfl

theorem without_without (r : Ranking) (id : DocId) :
    (r.without id).without id = r.without id := by
  cases free : r.isStatic with
  | true => rw [without_of_static free, without_of_static free]
  | false => exact without_of_absent (score?_without_self free id)

end Ranking

end RankedQuery
