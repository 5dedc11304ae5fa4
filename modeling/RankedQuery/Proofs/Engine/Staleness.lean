import RankedQuery.Proofs.Engine.Sweeps

/-!
# The staleness window

A sweep leaves what was seen within the staleness window: a built entry that was
used or built in it, and a waiting one that was created in it.  So a wider window
never costs more entries.

The seconds of the window are unsigned, but read as signed.  From 2 ^ 63 on they
are a window of negative length, and a sweep then takes what was seen just now.
-/

namespace RankedQuery

def Entry.lastSeen (e : Entry) : Millis := if e.isBuilt then e.promoted else e.created

theorem Entry.lastSeen_lt {e : Entry} {cutoff : Millis}
    (overdue : e.isOverdue cutoff = true) : e.lastSeen < cutoff := by
  simp only [isOverdue, isStale, isAbandoned] at overdue
  unfold lastSeen
  cases built : e.isBuilt <;> simp [built] at overdue
  · exact overdue.2
  · exact overdue

theorem Entry.isOverdue_mono {e : Entry} {cutoff later : Millis} (ordered : cutoff ≤ later)
    (overdue : e.isOverdue cutoff = true) : e.isOverdue later = true := by
  simp only [isOverdue, isStale, isAbandoned] at overdue ⊢
  cases built : e.isBuilt <;> simp [built] at overdue ⊢
  · exact ⟨overdue.1, Int64.lt_of_lt_of_le overdue.2 ordered⟩
  · exact Int64.lt_of_lt_of_le overdue ordered

theorem Entry.lastSeen_withQueued (queued : Bool) (e : Entry) :
    (e.withQueued queued).lastSeen = e.lastSeen := by
  unfold withQueued
  split
  next waiting => simp [lastSeen, isBuilt, waiting]
  next => rfl

/-! ## The length of the window -/

namespace Config

def window (config : Config) : Int := config.cacheStalenessSecs.toNat * 1000

theorem toInt_staleness {config : Config} (signed : config.cacheStalenessSecs.toNat < 2 ^ 63) :
    config.staleness.toInt = min config.window Int64.maxValue.toInt := by
  have least := Int64.toInt_minValue
  have greatest := Int64.toInt_maxValue
  -- Fewer than 2 ^ 63 seconds are read as they are.
  have seconds : config.cacheStalenessSecs.toInt64.toInt = config.cacheStalenessSecs.toNat := by
    have wraps : config.cacheStalenessSecs.toInt64.toInt =
        Int.bmod config.cacheStalenessSecs.toNat (2 ^ 64) :=
      BitVec.toInt_eq_toNat_bmod config.cacheStalenessSecs.toBitVec
    rw [wraps, Int.bmod_eq_of_le] <;> omega
  rw [staleness, seconds, toInt_saturate, window]
  omega

end Config

namespace Cache

variable {c : Cache}

theorem cutoff_le {now seen : Millis} (window : now.toInt - seen.toInt ≤ c.staleness.toInt) :
    c.cutoff now ≤ seen := by
  have least := Int64.toInt_minValue
  have above := seen.le_toInt
  rw [Int64.le_iff_toInt_le, cutoff, toInt_saturate]
  omega

theorem cutoff_anti {staleness : Millis} (wider : c.staleness.toInt ≤ staleness.toInt)
    (now : Millis) : { c with staleness }.cutoff now ≤ c.cutoff now := by
  simp only [Int64.le_iff_toInt_le, cutoff, toInt_saturate]
  omega

theorem length_itemsWhere_mono {test other : Entry → Bool}
    (passes : ∀ e, test e = true → other e = true) :
    (c.itemsWhere test).length ≤ (c.itemsWhere other).length := by
  simp only [itemsWhere, List.length_map, ← List.countP_eq_length_filter]
  exact List.countP_mono_left fun e _ => passes e

section Widening

variable (consistent : c.Consistent) (now : Millis)

include consistent

theorem spared_sweep {key : String} {entry : Entry} (found : c.lookup[key]? = some entry)
    (recent : now.toInt - entry.lastSeen.toInt ≤ c.staleness.toInt) :
    (c.sweep now).2.lookup[key]? = some entry := by
  have kept : entry.isOverdue (c.cutoff now) = false := by
    by_contra overdue
    have seen := Entry.lastSeen_lt (Bool.not_eq_false _ ▸ overdue)
    exact absurd seen (Int64.not_lt.mpr (cutoff_le recent))
  exact ((swept_sweep consistent now).spared key entry kept).mpr found

theorem number_sweep :
    (c.sweep now).1 = min c.sweepLimit (c.overdueItems (c.cutoff now)).length := by
  have total := length_overdueItems (c.cutoff now) c
  rw [← (consistent.perm_staleItems _).length_eq] at total
  rw [(swept_sweep consistent now).number, total]

theorem number_sweep_anti {staleness : Millis} (wider : c.staleness.toInt ≤ staleness.toInt) :
    ({ c with staleness }.sweep now).1 ≤ (c.sweep now).1 := by
  have widened : { c with staleness }.Consistent := consistent.of_sameViews rfl rfl rfl
  have overdue : ({ c with staleness }.overdueItems ({ c with staleness }.cutoff now)).length ≤
      (c.overdueItems (c.cutoff now)).length :=
    length_itemsWhere_mono (c := c) fun _ => Entry.isOverdue_mono (cutoff_anti wider now)
  have limit : { c with staleness }.sweepLimit = c.sweepLimit := rfl
  rw [number_sweep consistent, number_sweep widened]
  omega

end Widening

end Cache

/-! ## Every run -/

namespace Run

/-- In every run whose window is less than 2 ^ 63 seconds, and whichever waiting
entries have a queued build, a sweep leaves each entry that was last seen within the
window, as far as the clock can measure it.  With a wider window the same sweep has
no more overdue before it and removes no more. -/
theorem window_protects {config : Config} {r : Run} (accessible : r.Accessible config)
    (signed : config.cacheStalenessSecs.toNat < 2 ^ 63) (now : Millis) :
    (∀ (key : String) (entry : Entry), r.cache.lookup[key]? = some entry →
      now.toInt - entry.lastSeen.toInt ≤ min config.window Int64.maxValue.toInt →
      (r.access (.call (.sweep now))).cache.lookup[key]? = some entry ∧
      ∀ queued, ((r.cache.withQueued queued).sweep now).2.lookup[key]? =
        some (entry.withQueued (queued entry.item))) ∧
    ∀ wider : Config, config.cacheStalenessSecs ≤ wider.cacheStalenessSecs →
      wider.cacheStalenessSecs.toNat < 2 ^ 63 →
        let widened := { r.cache with staleness := wider.staleness }
        (widened.sweep now).1 ≤ (r.cache.sweep now).1 ∧
        (∀ queued, ((widened.withQueued queued).sweep now).1 ≤
          ((r.cache.withQueued queued).sweep now).1) ∧
        ∀ e : Entry, e.isOverdue (widened.cutoff now) = true →
          e.isOverdue (r.cache.cutoff now) = true := by
  have consistent : r.cache.Consistent := accessible.consistent.collection.cache
  have window : r.cache.staleness = config.staleness := congrArg Prod.fst accessible.settings
  have length := Config.toInt_staleness signed
  constructor
  · intro key entry found recent
    rw [← length, ← window] at recent
    refine ⟨Cache.spared_sweep consistent now found recent, fun queued => ?_⟩
    refine Cache.spared_sweep (consistent.withQueued queued) now ?_ ?_
    · rw [Cache.getElem?_withQueued, found, Option.map_some]
    · rwa [Entry.lastSeen_withQueued]
  · intro wider ordered signedWider widened
    have longer : r.cache.staleness.toInt ≤ wider.staleness.toInt := by
      have seconds := UInt64.le_iff_toNat_le.mp ordered
      rw [window, length, Config.toInt_staleness signedWider, Config.window, Config.window]
      omega
    exact ⟨Cache.number_sweep_anti consistent now longer,
      fun queued => Cache.number_sweep_anti (consistent.withQueued queued) now longer,
      fun _ => Entry.isOverdue_mono (Cache.cutoff_anti longer now)⟩

/-! A pair is built at time 0. -/

private def pairBuilt : List Access :=
  [.call (.createIndex "a"), .call (.createIndex "b"), .call (.createSort "s"),
    .call (.execute 0 { sort := "s", indexes := ["a", "b"] })]

private theorem accessible_pairBuilt {config : Config} {e : Engine}
    (created : Engine.create config = .ok e) :
    (pairBuilt.foldl access (ofEngine e)).Accessible config :=
  (Accessible.start created).foldl (by simp [pairBuilt, Permits, Allows])

theorem window_protects_of_pair :
    ∃ (r : Run) (entry : Entry), r.Accessible {} ∧ entry.isBuilt = true ∧
      (r.access (.call (.sweep 300000))).cache.lookup["a&b"]? = some entry ∧
      ({ r.cache with staleness := Config.staleness { cacheStalenessSecs := 301 } }.sweep
        300001).1 ≤ (r.cache.sweep 300001).1 := by
  obtain ⟨e, created, cached⟩ : ∃ e, Engine.create {} = .ok e ∧
      ((pairBuilt.foldl access (ofEngine e)).cache.lookup["a&b"]?.any fun entry =>
        entry.isBuilt ∧ entry.lastSeen = 0) = true :=
    ⟨_, rfl, by decide +kernel⟩
  have accessible := accessible_pairBuilt created
  obtain ⟨entry, found, passes⟩ := (Option.any_eq_true _ _).mp cached
  obtain ⟨built, seen⟩ := of_decide_eq_true passes
  have recent := (window_protects accessible (by decide) 300000).1 "a&b" entry found
    (by rw [seen]; decide)
  have wider := (window_protects accessible (by decide) 300001).2 { cacheStalenessSecs := 301 }
    (by decide) (by decide)
  exact ⟨_, entry, accessible, built, recent.1, wider.1⟩

/-- The widest window takes the pair at the very time of its build. -/
theorem not_widest_window_protects :
    ¬ ∀ (config : Config) (r : Run), r.Accessible config →
      ∀ (now : Millis) (key : String) (entry : Entry), r.cache.lookup[key]? = some entry →
        now.toInt - entry.lastSeen.toInt ≤ config.window →
        (r.access (.call (.sweep now))).cache.lookup[key]? = some entry := by
  intro protects
  obtain ⟨e, created, cached, swept⟩ :
      ∃ e, Engine.create { cacheStalenessSecs := 18446744073709551615 } = .ok e ∧
        let r := pairBuilt.foldl access (ofEngine e)
        (r.cache.lookup["a&b"]?.any (·.lastSeen = 0)) = true ∧
          ((r.access (.call (.sweep 0))).cache.lookup["a&b"]?).isNone = true :=
    ⟨_, rfl, by decide +kernel⟩
  obtain ⟨entry, found, passes⟩ := (Option.any_eq_true _ _).mp cached
  have seen : entry.lastSeen = 0 := of_decide_eq_true passes
  have kept := protects _ _ (accessible_pairBuilt created) 0 "a&b" entry found
    (by rw [seen]; decide)
  rw [kept] at swept
  cases swept

end Run

end RankedQuery
