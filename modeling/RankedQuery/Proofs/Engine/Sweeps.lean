import RankedQuery.Proofs.Cache.Limits
import RankedQuery.Proofs.Engine.CacheCalls

/-!
# Sweeps in every run

The staleness window and the limit of a sweep are those of the configuration
throughout a run.  So every sweep removes as many stale and abandoned entries as
the configuration lets it, and enough of them remove all.

In a run a build follows its request at once.  A queue may delay it, and what is
said of a sweep holds whichever of the waiting entries have their builds queued.
-/

namespace RankedQuery

/-! ## Settings -/

theorem Cache.settings_track (c : Cache) (item : Intersection) :
    (c.track item).settings = c.settings := by
  unfold track
  split <;> rfl

namespace Collection

theorem settings_requestBuild (c : Collection) (now : Millis) (item : Intersection) :
    (c.requestBuild now item).cache.settings = c.cache.settings := by
  unfold requestBuild
  dsimp only
  split
  next =>
    rcases ((c.onCache _).count _).build_cases now item with same | ⟨change, failed⟩ |
      ⟨members, change, built⟩
    · rw [same]
      rfl
    · rw [failed]
      rfl
    · rw [built]
      exact Cache.settings_track _ item
  next => rfl

theorem settings_get (c : Collection) (now : Millis) (names : List String)
    (directory : Directory) :
    (c.get now names directory).2.cache.settings = c.cache.settings := by
  have step := c.afterGet now names directory
  generalize (c.get now names directory).2 = c' at step ⊢
  cases step with
  | hit => rfl
  | queued => rfl
  | waits found waiting => exact settings_requestBuild _ now _
  | unresolved => rfl
  | enters absent resolved => exact settings_requestBuild _ now _

end Collection

theorem Cache.Consistent.settings_sweep {c : Cache} (consistent : c.Consistent) (now : Millis) :
    (c.sweep now).2.settings = c.settings := by
  obtain ⟨_, -, -, -, -, loses⟩ := loses_sweep consistent now
  exact loses.settings

theorem Engine.settings_access (e : Engine) (consistent : e.collection.Consistent) (a : Access) :
    (e.access a).collection.cache.settings = e.collection.cache.settings := by
  have meets := e.meets_access a
  cases called : e.cacheCall? a with
  | none =>
      rw [called] at meets
      rw [show (e.access a).collection.cache = _ from meets]
      rfl
  | some call =>
      rw [called] at meets
      cases call with
      | get now names directory =>
          rw [show (e.access a).collection = _ from meets]
          exact e.collection.settings_get now names directory
      | invalidate source =>
          rw [show (e.access a).collection.cache = _ from meets]
          exact Cache.settings_discardAll _ _
      | sweep now =>
          rw [show (e.access a).collection.cache = _ from meets]
          exact consistent.cache.settings_sweep now

theorem Cache.Idle.withQueued_none {c : Cache} (idle : c.Idle) :
    c.withQueued (fun _ => false) = c := by
  refine congrArg (fun lookup => { c with lookup }) (Std.ExtTreeMap.ext_getElem? fun {key} => ?_)
  rw [Std.ExtTreeMap.getElem?_map]
  cases found : c.lookup[key]? with
  | none => rfl
  | some entry => exact congrArg some (Entry.withQueued_false (idle key entry found))

namespace Run

variable {config : Config} {r : Run}

theorem Accessible.settings (accessible : r.Accessible config) :
    r.cache.settings = (config.staleness, config.cacheMaxEvictionsPerSweep.toNat) := by
  induction accessible with
  | start created =>
      rw [Engine.create_eq_ok created]
      rfl
  | step earlier _ ih =>
      exact ((Engine.settings_access _ earlier.consistent.collection _).trans ih)

theorem Accessible.cutoff (accessible : r.Accessible config) (now : Millis) :
    r.cache.cutoff now = saturate (now.toInt - config.staleness.toInt) := by
  rw [Cache.cutoff, show r.cache.staleness = config.staleness from
    congrArg Prod.fst accessible.settings]

theorem Accessible.sweepLimit (accessible : r.Accessible config) :
    r.cache.sweepLimit = config.cacheMaxEvictionsPerSweep.toNat :=
  congrArg Prod.snd accessible.settings

/-! ## What sweeps remove -/

/-- In every run, and whichever waiting entries have a queued build, a sweep removes
stale entries from the coldest on and then abandoned ones, as many as there are or
as the configuration lets it, and leaves everything else as it is.  Sweeping again
at the same time removes them all, and not before the limit has been used up. -/
theorem sweep_within_limit (accessible : r.Accessible config) (queued : Intersection → Bool)
    (now : Millis) :
    let c := r.cache.withQueued queued
    let cutoff := saturate (now.toInt - config.staleness.toInt)
    let limit := config.cacheMaxEvictionsPerSweep.toNat
    let stale := c.staleItems cutoff
    let abandoned := c.abandonedItems cutoff
    let overdue := stale.length + abandoned.length
    r.cache.withQueued (fun _ => false) = r.cache ∧
    { r.collection with cache := c }.sweep now =
      ((c.sweep now).1, { r.collection with cache := (c.sweep now).2 }) ∧
    stale.Perm (c.itemsWhere (·.isStale cutoff)) ∧
    c.Swept cutoff limit (c.sweep now).1 (c.sweep now).2 ∧
    (∀ times, (c.sweeps now times).1 = min (times * limit) overdue) ∧
    (0 < limit →
      let times := (overdue + limit - 1) / limit
      (c.sweeps now times).1 = overdue ∧
      ∀ (key : String) (entry : Entry),
        (c.sweeps now times).2.lookup[key]? = some entry ↔
          c.lookup[key]? = some entry ∧ entry.isOverdue cutoff = false) := by
  intro c cutoff limit stale abandoned overdue
  have consistent : c.Consistent := accessible.consistent.collection.cache.withQueued queued
  have window : c.cutoff now = cutoff := accessible.cutoff now
  have room : c.sweepLimit = limit := accessible.sweepLimit
  have swept := Cache.swept_sweep consistent now
  have total := Cache.length_overdueItems cutoff c
  rw [← (consistent.perm_staleItems cutoff).length_eq] at total
  have removes : ∀ times, (c.sweeps now times).1 = min (times * limit) overdue := by
    intro times
    obtain ⟨-, removed, -⟩ := Cache.sweeps_removes consistent now times
    rwa [window, room, total] at removed
  rw [window, room] at swept
  refine ⟨accessible.idle.withQueued_none, rfl, consistent.perm_staleItems cutoff, swept, removes,
    fun some => ?_⟩
  intro times
  have covers : overdue ≤ times * limit := by
    have parts := Nat.div_add_mod' (overdue + limit - 1) limit
    have rest := Nat.mod_lt (overdue + limit - 1) some
    change times * limit + _ = _ at parts
    omega
  refine ⟨?_, fun key entry => ?_⟩
  · rw [removes, Nat.min_eq_right covers]
  · have left := Cache.lookup_sweeps consistent now times
    rw [window, room, total] at left
    exact left covers key entry

/-! Two intersections are built; two more wait, and the build of one of these is
queued.  There is room for two in a sweep. -/

private def upToTwo : Config := { cacheMaxEvictionsPerSweep := 2 }

private def selecting (now : Millis) (names : List String) : Access :=
  .call (.execute now { sort := "s", indexes := names })

private def twoBuiltTwoWaiting : List Access :=
  [.call (.createIndex "a"), .call (.createIndex "b"), .call (.createIndex "c"),
    .call (.createIndex "d"), .call (.createSort "s"), selecting 0 ["a", "b"],
    selecting 1 ["c", "d"], .call (.takeBuilds false), selecting 2 ["a", "c"],
    selecting 3 ["b", "d"]]

private def waitsInQueue (item : Intersection) : Bool := item.key = "b&d"

theorem sweep_within_limit_of_queued :
    ∃ r : Run, r.Accessible upToTwo ∧ r.cache.size = 4 ∧
      let c := r.cache.withQueued waitsInQueue
      (c.sweep 400000).1 = 2 ∧ (c.sweeps 400000 2).1 = 3 ∧
      ((c.sweeps 400000 2).2.lookup["b&d"]?).isSome = true := by
  obtain ⟨e, created, size, stale, abandoned, waits⟩ :
      ∃ e, Engine.create upToTwo = .ok e ∧
        let r := twoBuiltTwoWaiting.foldl access (ofEngine e)
        let c := r.cache.withQueued waitsInQueue
        let cutoff := saturate ((400000 : Millis).toInt - upToTwo.staleness.toInt)
        r.cache.size = 4 ∧ (c.staleItems cutoff).length = 2 ∧
        (c.abandonedItems cutoff).length = 1 ∧
        c.lookup["b&d"]?.any (!·.isOverdue cutoff) = true :=
    ⟨_, rfl, by decide +kernel⟩
  have accessible : (twoBuiltTwoWaiting.foldl access (ofEngine e)).Accessible upToTwo :=
    (Accessible.start created).foldl (by simp [twoBuiltTwoWaiting, selecting, Permits, Allows])
  obtain ⟨-, -, -, swept, -, all⟩ := sweep_within_limit accessible waitsInQueue 400000
  obtain ⟨entry, found, kept⟩ := (Option.any_eq_true _ _).mp waits
  have limit : upToTwo.cacheMaxEvictionsPerSweep.toNat = 2 := rfl
  have number := swept.number
  simp only [stale, abandoned, limit, Nat.reduceAdd, Nat.reduceSub, Nat.reduceDiv] at number all
  obtain ⟨removed, left⟩ := all (by decide)
  have spared := (left "b&d" entry).mpr ⟨found, by simpa using kept⟩
  refine ⟨_, accessible, size, number, removed, ?_⟩
  rw [spared]
  rfl

end Run

end RankedQuery
