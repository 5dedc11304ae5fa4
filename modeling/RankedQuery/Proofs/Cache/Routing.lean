import RankedQuery.Cache.Routing
import RankedQuery.Proofs.OrderedMaps

/-!
# Where an intersection is routed

The routing, read as a partial map from a source name and a key to an
intersection.  Registering sets the places of an intersection, one for each of
its sources; unregistering clears those of them that it still holds.
-/

namespace RankedQuery

def Intersection.IsOver (item : Intersection) (source : String) : Prop :=
  ∃ s ∈ item.sources, s.name = source

instance (item : Intersection) (source : String) : Decidable (item.IsOver source) :=
  inferInstanceAs (Decidable (∃ s ∈ item.sources, s.name = source))

namespace Routing

def lookup? (r : Routing) (source key : String) : Option Intersection :=
  (r.bucket? source).bind (·[key]?)

@[simp] theorem lookup?_empty (source key : String) :
    Routing.lookup? {} source key = none := by
  simp [lookup?, bucket?]

theorem mem_items {r : Routing} {source : String} {item : Intersection} :
    item ∈ r.items source ↔ ∃ key, r.lookup? source key = some item := by
  unfold items lookup?
  cases r.bucket? source with
  | none => simp
  | some bucket => exact mem_values

/-! ## One place -/

theorem lookup?_registerAt (r : Routing) (name : String) (item : Intersection)
    (source key : String) :
    (r.registerAt name item).lookup? source key =
      if name = source ∧ item.key = key then some item else r.lookup? source key := by
  simp only [registerAt, lookup?, bucket?, Std.ExtTreeMap.getElem?_insert,
    Std.LawfulEqCmp.compare_eq_iff_eq]
  by_cases here : name = source
  · subst here
    by_cases same : item.key = key
    · simp [same]
    · cases r.buckets[name]? <;> simp [same, Std.ExtTreeMap.getElem?_insert]
  · simp [here]

private theorem getElem?_without (bucket : Bucket) (item : Intersection) (key : String) :
    (if bucket[item.key]? = some item then bucket.erase item.key else bucket)[key]? =
      if item.key = key ∧ bucket[key]? = some item then none else bucket[key]? := by
  by_cases same : item.key = key
  · subst same
    split
    next held => simp [held]
    next apart => simp [apart]
  · split <;> simp [same, Std.ExtTreeMap.getElem?_erase]

private theorem lookup?_replace (r : Routing) (name : String) (bucket : Bucket)
    (source key : String) :
    Routing.lookup? (if bucket.isEmpty then ⟨r.buckets.erase name⟩
        else ⟨r.buckets.insert name bucket⟩) source key =
      if name = source then bucket[key]? else r.lookup? source key := by
  by_cases here : name = source
  · subst here
    split
    next empty =>
      rw [Std.ExtTreeMap.isEmpty_iff] at empty
      simp [lookup?, bucket?, empty]
    next => simp [lookup?, bucket?]
  · split <;> simp [lookup?, bucket?, here, Std.ExtTreeMap.getElem?_insert,
      Std.ExtTreeMap.getElem?_erase]

theorem lookup?_unregisterAt (r : Routing) (name : String) (item : Intersection)
    (source key : String) :
    (r.unregisterAt name item).lookup? source key =
      if name = source ∧ item.key = key ∧ r.lookup? source key = some item then none
      else r.lookup? source key := by
  unfold unregisterAt
  cases known : r.bucket? name with
  | none =>
      by_cases here : name = source
      · subst here
        simp [lookup?, known]
      · simp [here]
  | some bucket =>
      dsimp only
      rw [lookup?_replace, getElem?_without]
      by_cases here : name = source
      · subst here
        simp [lookup?, known]
      · simp [here]

/-! ## All places of an intersection -/

private theorem lookup?_registerAll (r : Routing) (item : Intersection)
    (sources : List Source) (source key : String) :
    (sources.foldl (fun r s => r.registerAt s.name item) r).lookup? source key =
      if (∃ s ∈ sources, s.name = source) ∧ item.key = key then some item
      else r.lookup? source key := by
  induction sources generalizing r with
  | nil => simp
  | cons first others ih =>
      rw [List.foldl_cons, ih, lookup?_registerAt]
      by_cases same : item.key = key
      · by_cases here : first.name = source <;> simp [same, here]
      · simp [same]

theorem lookup?_register (r : Routing) (item : Intersection) (source key : String) :
    (r.register item).lookup? source key =
      if item.IsOver source ∧ item.key = key then some item else r.lookup? source key :=
  lookup?_registerAll r item item.sources source key

private theorem lookup?_unregisterAll (r : Routing) (item : Intersection)
    (sources : List Source) (source key : String) :
    (sources.foldl (fun r s => r.unregisterAt s.name item) r).lookup? source key =
      if (∃ s ∈ sources, s.name = source) ∧ item.key = key ∧
        r.lookup? source key = some item then none else r.lookup? source key := by
  induction sources generalizing r with
  | nil => simp
  | cons first others ih =>
      rw [List.foldl_cons, ih, lookup?_unregisterAt]
      by_cases held : item.key = key ∧ r.lookup? source key = some item
      · by_cases here : first.name = source <;> simp [held, here]
      · simp only [held, and_false, if_false]

theorem lookup?_unregister (r : Routing) (item : Intersection) (source key : String) :
    (r.unregister item).lookup? source key =
      if item.IsOver source ∧ item.key = key ∧ r.lookup? source key = some item then none
      else r.lookup? source key :=
  lookup?_unregisterAll r item item.sources source key

end Routing

end RankedQuery
