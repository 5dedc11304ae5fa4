import Std.Data.ExtTreeMap

/-!
# Ordered maps as lists

The values of an ordered map stand in the order of their keys, each pair once.
-/

namespace RankedQuery

variable {α β : Type} {cmp : α → α → Ordering} [Std.TransCmp cmp]

theorem values_eq (map : Std.ExtTreeMap α β cmp) : map.values = map.toList.map (·.2) := by
  obtain ⟨⟨inner⟩⟩ := map
  induction inner using Quotient.ind with
  | _ tree =>
      show tree.inner.values =
        (Std.DTreeMap.Internal.Impl.Const.toList tree.inner).map Prod.snd
      rw [Std.DTreeMap.Internal.Impl.values_eq_map_snd,
        Std.DTreeMap.Internal.Impl.Const.toList_eq_toListModel_map, List.map_map]
      rfl

theorem nodup_toList (map : Std.ExtTreeMap α β cmp) : map.toList.Nodup := by
  refine map.distinct_keys_toList.imp fun {a b} apart same => apart ?_
  rw [same]
  exact Std.ReflCmp.compare_self

variable [Std.LawfulEqCmp cmp]

theorem mem_values {map : Std.ExtTreeMap α β cmp} {value : β} :
    value ∈ map.values ↔ ∃ key : α, map[key]? = some value := by
  simp only [values_eq, List.mem_map, Prod.exists, exists_eq_right,
    Std.ExtTreeMap.mem_toList_iff_getElem?_eq_some]

end RankedQuery
