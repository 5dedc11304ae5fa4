import RankedQuery.Proofs.Cache.Sweeping
import RankedQuery.Proofs.Engine.CacheCalls

/-!
# The order of eviction

A history stamps intersections with the number of the access that last used
them, by a hit or by their build, and of the access that last put them at the
warm end of the recency list, by their build or by a sweep that found them
fresh.  Sweeps evict in the order of the second stamp.  A hit sets the first one
only, so that the order of use may be another.
-/

namespace RankedQuery

/-! ## Histories -/

instance (c : Cache) (item : Intersection) : Decidable (c.HasBuilt item) :=
  decidable_of_iff
    (c.lookup[item.key]?.any (fun entry => entry.item = item ∧ entry.isBuilt = true) = true)
    (by simp [Cache.HasBuilt, Option.any_eq_true])

namespace Access

def names? : Access → Option (List String)
  | .call (.get _ names _) => some names
  | .call (.execute _ query) => some query.indexes
  | _ => none

def sweep? : Access → Option Millis
  | .call (.sweep now) => some now
  | _ => none

theorem sweep?_eq_some {a : Access} {now : Millis} :
    a.sweep? = some now ↔ a = .call (.sweep now) := by
  unfold sweep?
  split <;> simp_all

end Access

namespace Run

variable (r : Run) (a : Access) (item : Intersection)

def Builds : Prop := ¬ r.cache.HasBuilt item ∧ (r.access a).cache.HasBuilt item

instance : Decidable (r.Builds a item) := inferInstanceAs (Decidable (_ ∧ _))

def Hits : Prop :=
  r.cache.counters.hits < (r.access a).cache.counters.hits ∧
    ∃ names ∈ a.names?, (r.cache.lookup[canonicalKey names]?.any (·.item = item)) = true

instance : Decidable (r.Hits a item) := inferInstanceAs (Decidable (_ ∧ _))

def Places : Prop :=
  r.Builds a item ∨ ∃ now ∈ a.sweep?, item ∈ (r.cache.division now).kept

instance : Decidable (r.Places a item) := inferInstanceAs (Decidable (_ ∨ _))

end Run

structure History where
  run : Run
  step : Nat
  used : Intersection → Nat
  placed : Intersection → Nat

namespace History

def ofEngine (e : Engine) : History := ⟨.ofEngine e, 0, fun _ => 0, fun _ => 0⟩

def access (h : History) (a : Access) : History where
  run := h.run.access a
  step := h.step + 1
  used item := if h.run.Builds a item ∨ h.run.Hits a item then h.step + 1 else h.used item
  placed item := if h.run.Places a item then h.step + 1 else h.placed item

inductive Reached (config : Config) : History → Prop
  | start {e : Engine} : Engine.create config = .ok e → Reached config (ofEngine e)
  | step {h : History} {a : Access} :
      Reached config h → h.run.Permits a → Reached config (h.access a)

end History

/-! ## One access -/

/-- The recency list may lose intersections, and what is new is at its warm end. -/
def Cache.Appends (c c' : Cache) : Prop :=
  ∃ kept added : List Intersection, c'.recency = kept ++ added ∧ kept.Sublist c.recency ∧
    ∀ item ∈ added, item ∉ c.recency

namespace Cache.Appends

variable {c c' : Cache}

theorem of_sublist (sublist : c'.recency.Sublist c.recency) : c.Appends c' :=
  ⟨c'.recency, [], (List.append_nil _).symm, sublist, by simp⟩

theorem of_eq (same : c'.recency = c.recency) : c.Appends c' :=
  of_sublist (same ▸ List.Sublist.refl _)

end Cache.Appends

theorem Cache.recency_discardAll_sublist (c : Cache) (items : List Intersection) :
    (c.discardAll items).recency.Sublist c.recency := by
  induction items generalizing c with
  | nil => exact List.Sublist.refl _
  | cons first items ih => exact (ih (c.discard first)).trans List.filter_sublist

namespace Collection

variable {c : Collection} (consistent : c.Consistent)

include consistent

theorem appends_requestBuild {item : Intersection} (awaits : c.cache.Awaits item)
    (now : Millis) : c.cache.Appends (c.requestBuild now item).cache := by
  have fresh : item ∉ c.cache.recency := by
    obtain ⟨entry, found, rfl, stage⟩ := awaits
    exact fun tracked => Cache.not_hasBuilt_of_waiting found (Entry.isBuilt_of_waiting stage) rfl
      ((consistent.cache.tracked _).mp tracked)
  cases accepts : c.cache.accepting with
  | true =>
      rw [requestBuild_of_accepts accepts awaits.isLive]
      rcases (c.count _).build_cases now item with same | ⟨change, failed⟩ |
        ⟨members, change, built⟩
      · rw [same]
        exact .of_eq rfl
      · rw [failed]
        exact .of_sublist List.filter_sublist
      · rw [built]
        simp only [count, onCache, Cache.count]
        unfold Cache.track
        split
        next => exact ⟨_, [item], rfl, List.filter_sublist, by simpa⟩
        next => exact .of_eq rfl
  | false =>
      rw [requestBuild_of_refuses accepts awaits]
      exact .of_eq rfl

theorem appends_get (now : Millis) (names : List String) {directory : Directory}
    (known : ∀ source : Source, directory[source.name]? = some source.index →
      c.catalog.Knows source) : c.cache.Appends (c.get now names directory).2.cache := by
  have missed : c.Continues c.missed := continues_count consistent _
  have step := c.afterGet now names directory
  generalize (c.get now names directory).2 = c' at step ⊢
  cases step with
  | hit => exact .of_eq rfl
  | queued => exact .of_eq rfl
  | waits found waiting =>
      exact appends_requestBuild missed.consistent
        (Cache.awaits_of_found found (consistent.cache.keyed _ _ found) waiting) now
  | unresolved => exact .of_eq rfl
  | enters absent resolved =>
      have entered := continues_enterResolved missed.consistent absent resolved known now
      exact appends_requestBuild entered.consistent (awaits_enter ..) now

end Collection

theorem Engine.appends_access (e : Engine) (consistent : e.collection.Consistent) (a : Access)
    (other : a.sweep? = none)
    (resolves : ∀ now names directory, a = .call (.get now names directory) →
      ∀ source : Source, directory[source.name]? = some source.index →
        e.collection.catalog.Knows source) :
    e.collection.cache.Appends (e.access a).collection.cache := by
  have meets := e.meets_access a
  cases called : e.cacheCall? a with
  | none =>
      rw [called] at meets
      refine .of_eq ?_
      rw [show (e.access a).collection.cache = _ from meets]
  | some call =>
      rw [called] at meets
      cases call with
      | get now names directory =>
          rw [show (e.access a).collection = _ from meets]
          exact Collection.appends_get consistent now names
            (Engine.knows_of_get consistent resolves called)
      | invalidate source =>
          rw [show (e.access a).collection.cache = _ from meets]
          exact .of_sublist (Cache.recency_discardAll_sublist _ _)
      | sweep now =>
          rw [Engine.eq_sweep_of_call called] at other
          cases other

/-! ## Every history -/

namespace History

variable {config : Config} {h : History}

theorem Reached.accessible (reached : h.Reached config) : h.run.Accessible config := by
  induction reached with
  | start created => exact .start created
  | step _ permitted ih => exact ih.step permitted

structure Ordered (h : History) : Prop where
  sorted : h.run.cache.recency.Pairwise fun x y => h.placed x ≤ h.placed y
  bounded : ∀ item, h.placed item ≤ h.step

theorem ordered_ofEngine {e : Engine} (created : Engine.create config = .ok e) :
    (ofEngine e).Ordered := by
  rw [Engine.create_eq_ok created]
  exact ⟨List.Pairwise.nil, fun _ => Nat.le_refl 0⟩

private theorem sorted_append {stamp stamp' : Intersection → Nat} {old new : List Intersection}
    {latest : Nat} (sorted : old.Pairwise fun x y => stamp x ≤ stamp y)
    (same : ∀ item ∈ old, stamp' item = stamp item) (stamped : ∀ item ∈ new, stamp' item = latest)
    (bounded : ∀ item, stamp' item ≤ latest) :
    (old ++ new).Pairwise fun x y => stamp' x ≤ stamp' y := by
  rw [List.pairwise_append]
  refine ⟨?_, ?_, fun x _ y inside => ?_⟩
  · refine sorted.imp_of_mem fun insideX insideY earlier => ?_
    rwa [same _ insideX, same _ insideY]
  · refine List.pairwise_of_forall_mem_list fun x insideX y insideY => ?_
    exact Nat.le_of_eq ((stamped x insideX).trans (stamped y insideY).symm)
  · rw [stamped y inside]
    exact bounded x

section Access

variable (consistent : h.run.Consistent) {a : Access} (permitted : h.run.Permits a)

theorem bounded_access (ordered : h.Ordered) (item : Intersection) :
    (h.access a).placed item ≤ h.step + 1 := by
  unfold access
  dsimp only
  split
  · exact Nat.le_refl _
  · exact Nat.le_succ_of_le (ordered.bounded item)

include consistent

theorem placed_access_of_mem {item : Intersection} (tracked : item ∈ h.run.cache.recency)
    (passed : ∀ now ∈ a.sweep?, item ∉ (h.run.cache.division now).kept) :
    (h.access a).placed item = h.placed item := by
  refine if_neg ?_
  rintro (⟨unbuilt, -⟩ | ⟨now, sweeps, kept⟩)
  · exact unbuilt ((consistent.collection.cache.tracked item).mp tracked)
  · exact passed now sweeps kept

include permitted

theorem placed_access_of_new {item : Intersection} (absent : item ∉ h.run.cache.recency)
    (tracked : item ∈ (h.access a).run.cache.recency) :
    (h.access a).placed item = h.step + 1 := by
  have after := Run.consistent_access consistent permitted
  refine if_pos (.inl ⟨?_, (after.collection.cache.tracked item).mp tracked⟩)
  exact fun built => absent ((consistent.collection.cache.tracked item).mpr built)

theorem ordered_access (ordered : h.Ordered) : (h.access a).Ordered := by
  refine ⟨?_, bounded_access ordered⟩
  cases sweeps : a.sweep? with
  | none =>
      obtain ⟨kept, added, whole, sublist, fresh⟩ :
          h.run.cache.Appends (h.access a).run.cache :=
        h.run.engine.appends_access consistent.collection a sweeps (consistent.resolves permitted)
      have stays : ∀ item ∈ kept, (h.access a).placed item = h.placed item := fun item inside =>
        placed_access_of_mem consistent (sublist.subset inside) (by simp [sweeps])
      have new : ∀ item ∈ added, (h.access a).placed item = h.step + 1 := fun item inside =>
        placed_access_of_new consistent permitted (fresh item inside)
          (whole ▸ List.mem_append_right kept inside)
      rw [whole]
      exact sorted_append (ordered.sorted.sublist sublist) stays new (bounded_access ordered)
  | some now =>
      obtain rfl : a = .call (.sweep now) := Access.sweep?_eq_some.mp sweeps
      have views : h.run.cache.Consistent := consistent.collection.cache
      obtain ⟨reached, whole, divided⟩ := h.run.cache.exists_reached now
      have order : (h.access (.call (.sweep now))).run.cache.recency =
          (h.run.cache.division now).unreached ++ (h.run.cache.division now).kept :=
        Cache.recency_sweep views now
      have sorted := ordered.sorted
      have distinct := views.nodup
      rw [whole] at sorted distinct
      have stays : ∀ item ∈ (h.run.cache.division now).unreached,
          (h.access (.call (.sweep now))).placed item = h.placed item := by
        intro item inside
        refine placed_access_of_mem consistent (whole ▸ List.mem_append_right reached inside) ?_
        intro now' sweeps kept
        cases sweeps
        -- What is kept was reached, and the list has nothing twice.
        have gone : item ∈ reached := divided.mem_iff.mpr (List.mem_append_right _ kept)
        exact (List.nodup_append.mp distinct).2.2 item gone item inside rfl
      have new : ∀ item ∈ (h.run.cache.division now).kept,
          (h.access (.call (.sweep now))).placed item = h.step + 1 := fun item kept =>
        if_pos (.inr ⟨now, rfl, kept⟩)
      rw [order]
      exact sorted_append (sorted.sublist (List.sublist_append_right _ _)) stays new
        (bounded_access ordered)

end Access

theorem Reached.ordered (reached : h.Reached config) : h.Ordered := by
  induction reached with
  | start created => exact ordered_ofEngine created
  | step before permitted ih =>
      exact ordered_access before.accessible.consistent permitted ih

theorem Reached.foldl (reached : h.Reached config) {accesses : List Access}
    (permitted : ∀ a ∈ accesses, ∀ r : Run, r.Permits a) :
    (accesses.foldl access h).Reached config := by
  induction accesses generalizing h with
  | nil => exact reached
  | cons a accesses ih =>
      have once := reached.step (permitted a List.mem_cons_self h.run)
      exact ih once fun other inside => permitted other (List.mem_cons_of_mem _ inside)

/-- What a sweep evicts was not placed later than any stale intersection that it
leaves.  So it was not used later either, unless a hit has used it since it was
placed, or a sweep has placed the other since it was used. -/
theorem evicts_in_order (reached : h.Reached config) (now : Millis) {x y : Intersection}
    (built : h.run.cache.HasBuilt x)
    (evicted : ¬ (h.run.access (.call (.sweep now))).cache.HasBuilt x)
    (stale : h.run.cache.isStale (h.run.cache.cutoff now) y = true)
    (left : (h.run.access (.call (.sweep now))).cache.HasBuilt y) :
    h.placed x ≤ h.placed y ∧
      (h.used x ≤ h.placed x → h.placed y ≤ h.used y → h.used x ≤ h.used y) := by
  have views : h.run.cache.Consistent := reached.accessible.consistent.collection.cache
  have swept : (h.run.access (.call (.sweep now))).cache.Consistent :=
    Cache.consistent_sweep views now
  have order : (h.run.access (.call (.sweep now))).cache.recency =
      (h.run.cache.division now).unreached ++ (h.run.cache.division now).kept :=
    Cache.recency_sweep views now
  obtain ⟨passed, whole, -⟩ := h.run.cache.exists_reached now
  have tracked := (views.tracked x).mpr built
  rw [← swept.tracked, order, List.mem_append, not_or] at evicted
  rw [← swept.tracked, order, List.mem_append] at left
  rw [whole] at tracked
  have first : x ∈ passed := (List.mem_append.mp tracked).resolve_right evicted.1
  have second : y ∈ (h.run.cache.division now).unreached := by
    refine left.resolve_right fun kept => ?_
    have fresh := Cache.fresh_of_kept kept
    rw [stale] at fresh
    cases fresh
  have sorted := reached.ordered.sorted
  rw [whole] at sorted
  have earlier := (List.pairwise_append.mp sorted).2.2 x first y second
  exact ⟨earlier, fun useX useY => by omega⟩

/-! Two intersections are built one after the other, with room for one eviction in
a sweep. -/

private def tight : Config := { cacheMaxEvictionsPerSweep := 1 }

private def ab : Intersection := ⟨"a&b", [⟨"a", ⟨0⟩⟩, ⟨"b", ⟨1⟩⟩], ⟨4⟩⟩

private def cd : Intersection := ⟨"c&d", [⟨"c", ⟨2⟩⟩, ⟨"d", ⟨3⟩⟩], ⟨5⟩⟩

private def queried (now : Millis) (names : List String) : Access :=
  .call (.execute now { sort := "s", indexes := names })

private def bothBuilt : List Access :=
  [.call (.createIndex "a"), .call (.createIndex "b"), .call (.createIndex "c"),
    .call (.createIndex "d"), .call (.createSort "s"), queried 0 ["a", "b"],
    queried 1 ["c", "d"]]

theorem evicts_in_order_of_pairs :
    ∃ (h : History) (x y : Intersection), h.Reached tight ∧ x.key = "a&b" ∧ y.key = "c&d" ∧
      h.placed x ≤ h.placed y ∧ h.used x ≤ h.used y := by
  obtain ⟨e, created, built, evicted, stale, left, unhit, used⟩ :
      ∃ e, Engine.create tight = .ok e ∧
        let h := bothBuilt.foldl access (ofEngine e)
        let swept := (h.run.access (.call (.sweep 400000))).cache
        h.run.cache.HasBuilt ab ∧ ¬ swept.HasBuilt ab ∧
          h.run.cache.isStale (h.run.cache.cutoff 400000) cd = true ∧ swept.HasBuilt cd ∧
          h.used ab ≤ h.placed ab ∧ h.placed cd ≤ h.used cd :=
    ⟨_, rfl, by decide +kernel⟩
  have reached : (bothBuilt.foldl access (ofEngine e)).Reached tight :=
    (Reached.start created).foldl (by simp [bothBuilt, queried, Run.Permits, Run.Allows])
  obtain ⟨placed, order⟩ := evicts_in_order reached 400000 built evicted stale left
  exact ⟨_, ab, cd, reached, rfl, rfl, placed, order unhit used⟩

/-- The first of the two is hit once more, and evicted all the same. -/
theorem not_evicts_least_recently_used :
    ¬ ∀ (config : Config) (h : History), h.Reached config → ∀ (now : Millis) (x y : Intersection),
      h.run.cache.HasBuilt x →
      ¬ (h.run.access (.call (.sweep now))).cache.HasBuilt x →
      h.run.cache.isStale (h.run.cache.cutoff now) y = true →
      (h.run.access (.call (.sweep now))).cache.HasBuilt y → h.used x ≤ h.used y := by
  intro leastRecent
  obtain ⟨e, created, built, evicted, stale, left, later⟩ :
      ∃ e, Engine.create tight = .ok e ∧
        let h := (bothBuilt ++ [queried 2 ["a", "b"]]).foldl access (ofEngine e)
        let swept := (h.run.access (.call (.sweep 400000))).cache
        h.run.cache.HasBuilt ab ∧ ¬ swept.HasBuilt ab ∧
          h.run.cache.isStale (h.run.cache.cutoff 400000) cd = true ∧ swept.HasBuilt cd ∧
          h.used cd < h.used ab :=
    ⟨_, rfl, by decide +kernel⟩
  have reached : ((bothBuilt ++ [queried 2 ["a", "b"]]).foldl access (ofEngine e)).Reached
      tight :=
    (Reached.start created).foldl (by simp [bothBuilt, queried, Run.Permits, Run.Allows])
  have order := leastRecent _ _ reached 400000 ab cd built evicted stale left
  omega

end History

end RankedQuery
