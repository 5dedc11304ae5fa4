import RankedQuery.Proofs.Cache.Counting
import RankedQuery.Proofs.Engine.CacheCalls

/-!
# Accounts of the cache

A ledger counts, from outside, what is asked of the cache along a run and what
comes of it: gets and those that fail, entries that are made, what invalidations
say they removed, and the intersections that are built.  The counters that the
cache keeps by itself agree with the ledger at every point of the run.
-/

namespace RankedQuery

/-! ## Tallies -/

structure Tally where
  gets : Nat := 0
  /-- The gets that failed. -/
  refused : Nat := 0
  /-- The entries that were ever made. -/
  entered : Nat := 0
  /-- What all invalidations say that they removed. -/
  invalidated : Nat := 0
  /-- The intersections whose builds were accepted, in the order of their builds. -/
  builds : List Intersection := []

namespace Collection

def enters (c : Collection) (names : List String) (directory : Directory) : Bool :=
  c.cache.lookup[canonicalKey names]?.isNone && (directory.resolve (canonicalNames names)).isOk

/-- The intersection that a get of these names has built, if any: that of an entry
that waits, or of a new one. -/
def builds? (c : Collection) (names : List String) (directory : Directory) :
    Option Intersection :=
  if c.cache.accepting then
    match c.cache.lookup[canonicalKey names]? with
    | some entry => if entry.isBuilt then none else some entry.item
    | none =>
        match directory.resolve (canonicalNames names) with
        | .ok sources => some (c.catalog.addIntersection (canonicalKey names) sources).1
        | .error _ => none
  else none

end Collection

def Tally.after (t : Tally) (c : Collection) : CacheCall → Tally
  | .get now names directory =>
      { t with
        gets := t.gets + 1
        refused := t.refused + if (c.get now names directory).1.isOk then 0 else 1
        entered := t.entered + if c.enters names directory then 1 else 0
        builds := t.builds ++ (c.builds? names directory).toList }
  | .invalidate source =>
      { t with invalidated := t.invalidated + (c.cache.invalidate source).1 }
  | .sweep _ => t

namespace Collection

/-- The counters of the cache agree with a tally, but for misses whose builds are
still to be requested.  The builds were of different intersections, and are those
of the built entries that are left. -/
structure Balanced (c : Collection) (t : Tally) (due : Nat) : Prop where
  gets : c.cache.counters.hits + c.cache.counters.misses = t.gets
  misses : c.cache.counters.misses =
    t.refused + c.cache.counters.enqueued + c.cache.counters.dropped + due
  outcomes : c.cache.counters.enqueued = c.cache.counters.completed + c.cache.counters.failed
  entries : t.entered =
    c.cache.size + c.cache.counters.evictions + c.cache.counters.failed + t.invalidated
  counted : t.builds.length = c.cache.counters.enqueued
  distinct : t.builds.Nodup
  known : ∀ item ∈ t.builds, c.catalog.indexes.Has item.result
  current : ∀ (key : String) (entry : Entry), c.cache.lookup[key]? = some entry →
    (entry.item ∈ t.builds ↔ entry.isBuilt = true)

variable {c c' : Collection} {t : Tally} {due : Nat}

theorem balanced_left (dropped evicted invalidated : Nat) (balanced : c.Balanced t (due + dropped))
    (becomes : c.catalog.Becomes c'.catalog)
    (left : ∀ (key : String) (entry : Entry), c'.cache.lookup[key]? = some entry →
      c.cache.lookup[key]? = some entry)
    (size : c'.cache.size + evicted + invalidated = c.cache.size)
    (counters : c'.cache.counters =
      { c.cache.counters with
        dropped := c.cache.counters.dropped + dropped
        evictions := c.cache.counters.evictions + evicted }) :
    c'.Balanced { t with invalidated := t.invalidated + invalidated } due where
  gets := by
    rw [counters]
    exact balanced.gets
  misses := by
    have misses := balanced.misses
    simp only [counters]
    omega
  outcomes := by
    rw [counters]
    exact balanced.outcomes
  entries := by
    have entries := balanced.entries
    simp only [counters]
    omega
  counted := by
    rw [counters]
    exact balanced.counted
  distinct := balanced.distinct
  known item built := becomes.has _ (balanced.known item built)
  current key entry found := balanced.current key entry (left key entry found)

theorem balanced_missed (balanced : c.Balanced t 0) :
    c.missed.Balanced { t with gets := t.gets + 1 } 1 where
  gets := congrArg (· + 1) balanced.gets
  misses := congrArg (· + 1) balanced.misses
  outcomes := balanced.outcomes
  entries := balanced.entries
  counted := balanced.counted
  distinct := balanced.distinct
  known := balanced.known
  current := balanced.current

theorem balanced_hit (balanced : c.Balanced t 0) {key : String} {entry : Entry}
    (found : c.cache.lookup[key]? = some entry) (built : entry.isBuilt = true) (now : Millis) :
    ((c.onCache (·.setStage key (.built now))).count
      fun n => { n with hits := n.hits + 1 }).Balanced { t with gets := t.gets + 1 } 0 where
  gets := by
    have gets := balanced.gets
    show c.cache.counters.hits + 1 + c.cache.counters.misses = t.gets + 1
    omega
  misses := balanced.misses
  outcomes := balanced.outcomes
  entries := by
    have size : (c.cache.setStage key (.built now)).size = c.cache.size :=
      Std.ExtTreeMap.size_modify
    have entries := balanced.entries
    rw [← size] at entries
    exact entries
  counted := balanced.counted
  distinct := balanced.distinct
  known := balanced.known
  current other entry' found' := by
    replace found' : (c.cache.setStage key (.built now)).lookup[other]? = some entry' := found'
    rw [Cache.getElem?_setStage] at found'
    split at found'
    next here =>
      subst here
      rw [found] at found'
      cases found'
      exact iff_of_true ((balanced.current key entry found).mpr built) rfl
    next => exact balanced.current other entry' found'

theorem balanced_refused (balanced : c.Balanced t 1) :
    c.Balanced { t with refused := t.refused + 1 } 0 where
  gets := balanced.gets
  misses := by
    have misses := balanced.misses
    show _ = t.refused + 1 + _ + _ + 0
    omega
  outcomes := balanced.outcomes
  entries := balanced.entries
  counted := balanced.counted
  distinct := balanced.distinct
  known := balanced.known
  current := balanced.current

theorem balanced_enter (balanced : c.Balanced t due) {key : String}
    (absent : c.cache.lookup[key]? = none) (now : Millis) (sources : List Source) :
    (c.enter now key sources).2.Balanced { t with entered := t.entered + 1 } due where
  gets := balanced.gets
  misses := balanced.misses
  outcomes := balanced.outcomes
  entries := by
    have unlisted : key ∉ c.cache.lookup := by
      simp [Std.ExtTreeMap.mem_iff_isSome_getElem?, absent]
    have size : (c.enter now key sources).2.cache.size = c.cache.size + 1 :=
      Std.ExtTreeMap.size_insert.trans (if_neg unlisted)
    have entries := balanced.entries
    rw [size]
    show t.entered + 1 = c.cache.size + 1 + c.cache.counters.evictions +
      c.cache.counters.failed + t.invalidated
    omega
  counted := balanced.counted
  distinct := balanced.distinct
  known item built := (c.catalog.becomes_addIndex _).has _ (balanced.known item built)
  current other entry found := by
    rw [getElem?_enter] at found
    split at found
    next here =>
      cases found
      refine iff_of_false (fun built => ?_) (by simp [Entry.isBuilt])
      exact c.catalog.indexes.not_has_next (balanced.known _ built)
    next => exact balanced.current other entry found

private theorem balanced_build (balanced : c.Balanced t 1) (becomes : c.catalog.Becomes c'.catalog)
    {item : Intersection} (known : c.catalog.indexes.Has item.result)
    (unbuilt : item ∉ t.builds) {done lost : Nat} (one : done + lost = 1)
    (counters : c'.cache.counters =
      { c.cache.counters with
        enqueued := c.cache.counters.enqueued + 1
        completed := c.cache.counters.completed + done
        failed := c.cache.counters.failed + lost })
    (size : c'.cache.size + lost = c.cache.size)
    (origin : ∀ (key : String) (entry' : Entry), c'.cache.lookup[key]? = some entry' →
      entry'.item = item ∧ entry'.isBuilt = true ∨
        entry'.item ≠ item ∧ c.cache.lookup[key]? = some entry') :
    c'.Balanced { t with builds := t.builds ++ [item] } 0 where
  gets := by
    rw [counters]
    exact balanced.gets
  misses := by
    have misses := balanced.misses
    simp only [counters]
    omega
  outcomes := by
    have outcomes := balanced.outcomes
    simp only [counters]
    omega
  entries := by
    have entries := balanced.entries
    simp only [counters]
    omega
  counted := by
    rw [counters, List.length_append, balanced.counted]
    rfl
  distinct := List.nodup_append.mpr ⟨balanced.distinct, List.nodup_singleton item,
    fun other before last inside same =>
      unbuilt (List.mem_singleton.mp inside ▸ same ▸ before)⟩
  known other inside := by
    rcases List.mem_append.mp inside with before | last
    · exact becomes.has _ (balanced.known other before)
    · rw [List.mem_singleton.mp last]
      exact becomes.has _ known
  current key entry' found' := by
    rw [List.mem_append, List.mem_singleton]
    rcases origin key entry' found' with ⟨same, built⟩ | ⟨apart, found⟩
    · exact iff_of_true (.inr same) built
    · rw [or_iff_left apart]
      exact balanced.current key entry' found

theorem balanced_requestBuild (balanced : c.Balanced t 1) (consistent : c.Consistent)
    {item : Intersection} (awaits : c.cache.Awaits item) (now : Millis) :
    (c.requestBuild now item).Balanced
      { t with builds := t.builds ++ if c.cache.accepting then [item] else [] } 0 := by
  have live := awaits.isLive
  have becomes := (continues_requestBuild consistent awaits now).catalog
  have step := afterRequest awaits now
  obtain ⟨entry, found, rfl, stage⟩ := awaits
  have known : c.catalog.indexes.Has entry.item.result :=
    (consistent.sound _ entry found).hidden.has
  have unbuilt : entry.item ∉ t.builds := fun built => by
    simpa [Entry.isBuilt_of_waiting stage] using (balanced.current _ entry found).mp built
  have elsewhere : ∀ {other : String} {entry' : Entry},
      c.cache.lookup[other]? = some entry' → entry.item.key ≠ other → entry'.item ≠ entry.item := by
    rintro other entry' found' apart same
    exact apart (same ▸ consistent.cache.keyed other entry' found')
  generalize c.requestBuild now entry.item = c' at step becomes ⊢
  cases step with
  | dropped refuses counters lookup =>
      simp only [refuses, Bool.false_eq_true, if_false, List.append_nil]
      refine balanced_left 1 0 0 balanced becomes (fun _ _ found' => lookup ▸ found') ?_ counters
      rw [Cache.size, lookup]
      rfl
  | failed accepts _ counters lookup =>
      simp only [accepts, if_true]
      refine balanced_build balanced becomes known unbuilt (Nat.zero_add 1) counters ?_ ?_
      · rw [← Cache.size_evict live, Cache.size, lookup]
        rfl
      · intro other entry' found'
        rw [lookup] at found'
        obtain ⟨before, stays⟩ := (c.cache.getElem?_evict entry.item).mp found'
        refine .inr ⟨fun same => stays ⟨?_, same⟩, before⟩
        rw [← same]
        exact consistent.cache.keyed other entry' before
  | completed accepts counters lookup =>
      simp only [accepts, if_true]
      refine balanced_build balanced becomes known unbuilt (Nat.add_zero 1) counters ?_ ?_
      · rw [Cache.size, lookup]
        exact Std.ExtTreeMap.size_modify
      · intro other entry' found'
        rw [lookup, Cache.getElem?_setStage] at found'
        split at found'
        next here =>
          subst here
          rw [found] at found'
          cases found'
          exact .inl ⟨rfl, rfl⟩
        next apart => exact .inr ⟨elsewhere found' apart, found'⟩

/-! ## Gets -/

theorem isOk_get (c : Collection) (now : Millis) (names : List String) (directory : Directory) :
    (c.get now names directory).1.isOk =
      (c.cache.lookup[canonicalKey names]?.isSome ||
        (directory.resolve (canonicalNames names)).isOk) := by
  unfold get canonicalKey
  dsimp only
  split
  next found =>
    rw [found]
    split <;> rfl
  next absent =>
    rw [absent]
    split
    next fails => rw [fails]; rfl
    next resolved => rw [resolved]; rfl

theorem balanced_get (balanced : c.Balanced t 0) (consistent : c.Consistent)
    (idle : c.cache.Idle) (now : Millis) (names : List String) {directory : Directory}
    (known : ∀ source : Source, directory[source.name]? = some source.index →
      c.catalog.Knows source) :
    (c.get now names directory).2.Balanced (t.after c (.get now names directory)) 0 := by
  have missed := balanced_missed balanced
  have missedConsistent : c.missed.Consistent := (continues_count consistent _).consistent
  have step := c.afterGet now names directory
  rw [Tally.after, isOk_get]
  generalize (c.get now names directory).2 = c' at step ⊢
  cases step with
  | hit found built =>
      simp only [enters, builds?, found, built, if_true, ite_self, Option.isSome_some,
        Option.isNone_some, Bool.true_or, Bool.false_and, Bool.false_eq_true, if_false,
        Option.toList_none, List.append_nil]
      exact balanced_hit balanced found built now
  | queued found queued =>
      have unqueued := idle _ _ found
      rw [Entry.isQueued, queued] at unqueued
      cases unqueued
  | @waits entry found waiting =>
      have awaits := Cache.awaits_of_found found (consistent.cache.keyed _ _ found) waiting
      have requested := balanced_requestBuild missed missedConsistent awaits now
      have builds : (c.builds? names directory).toList =
          if c.cache.accepting then [entry.item] else [] := by
        simp only [builds?, found, Entry.isBuilt_of_waiting waiting]
        split <;> rfl
      simp only [enters, builds, found, if_true, Option.isSome_some, Option.isNone_some,
        Bool.true_or, Bool.false_and, Bool.false_eq_true, if_false]
      exact requested
  | unresolved absent fails =>
      simp only [enters, builds?, absent, fails, ite_self, Option.isSome_none, Option.isNone_none,
        Option.toList_none, List.append_nil]
      exact balanced_refused missed
  | @enters sources absent resolved =>
      have entered := balanced_enter missed absent now sources
      have continues := continues_enterResolved missedConsistent absent resolved known now
      have requested := balanced_requestBuild entered continues.consistent
        (c.missed.awaits_enter now _ sources) now
      have isOk : (directory.resolve (canonicalNames names)).isOk = true := by
        rw [resolved]
        rfl
      have builds : (c.builds? names directory).toList =
          if c.cache.accepting then [(c.missed.enter now (canonicalKey names) sources).1]
          else [] := by
        simp only [builds?, absent, resolved]
        split <;> rfl
      simp only [enters, builds, absent, isOk, if_true, Option.isSome_none, Option.isNone_none,
        Bool.or_true, Bool.and_self]
      exact requested

theorem balanced_call (balanced : c.Balanced t 0) (consistent : c.Consistent)
    (idle : c.cache.Idle) (becomes : c.catalog.Becomes c'.catalog) {call : CacheCall}
    (meets : c.Meets c' (some call))
    (resolves : ∀ now names directory, call = .get now names directory →
      ∀ source : Source, directory[source.name]? = some source.index → c.catalog.Knows source) :
    c'.Balanced (t.after c call) 0 := by
  cases call with
  | get now names directory =>
      obtain rfl : c' = _ := meets
      exact balanced_get balanced consistent idle now names (resolves now names directory rfl)
  | invalidate source =>
      have cache : c'.cache = (c.cache.invalidate source).2 := meets
      have sheds : c.cache.Sheds c'.cache := cache ▸ Cache.sheds_discardAll _ _
      refine balanced_left 0 0 _ balanced becomes sheds.entries ?_ ?_
      · rw [cache]
        exact consistent.cache.size_invalidate source
      · rw [cache]
        exact Cache.counters_discardAll _ _
  | sweep now =>
      have cache : c'.cache = (c.cache.sweep now).2 := meets
      have sheds : c.cache.Sheds c'.cache := cache ▸ c.cache.sheds_sweep now
      refine balanced_left 0 (c.cache.sweep now).1 0 balanced becomes sheds.entries ?_ ?_
      · rw [cache]
        exact consistent.cache.size_sweep now
      · rw [cache]
        exact c.cache.counters_sweep now

end Collection

/-! ## Ledgers -/

structure Ledger where
  run : Run
  tally : Tally := {}

namespace Ledger

def access (l : Ledger) (a : Access) : Ledger where
  run := l.run.access a
  tally :=
    match l.run.engine.cacheCall? a with
    | some call => l.tally.after l.run.collection call
    | none => l.tally

inductive Reached (config : Config) : Ledger → Prop
  | start {e : Engine} : Engine.create config = .ok e → Reached config { run := .ofEngine e }
  | step {l : Ledger} {a : Access} :
      Reached config l → l.run.Permits a → Reached config (l.access a)

variable {config : Config} {l : Ledger}

theorem Reached.foldl (reached : l.Reached config) {accesses : List Access}
    (permitted : ∀ a ∈ accesses, ∀ r : Run, r.Permits a) :
    (accesses.foldl access l).Reached config := by
  induction accesses generalizing l with
  | nil => exact reached
  | cons a accesses ih =>
      have once := reached.step (permitted a List.mem_cons_self l.run)
      exact ih once fun other inside => permitted other (List.mem_cons_of_mem _ inside)

theorem Reached.accessible (reached : l.Reached config) : l.run.Accessible config := by
  induction reached with
  | start created => exact .start created
  | step _ permitted ih => exact ih.step permitted

theorem balanced_access (consistent : l.run.Consistent) (idle : l.run.cache.Idle) {a : Access}
    (permitted : l.run.Permits a) (balanced : l.run.collection.Balanced l.tally 0) :
    (l.access a).run.collection.Balanced (l.access a).tally 0 := by
  have meets := l.run.engine.meets_access a
  have becomes := (Run.continues_access consistent permitted).catalog
  cases asked : l.run.engine.cacheCall? a with
  | none =>
      rw [asked] at meets
      have lookup := congrArg Cache.lookup meets
      have counters := congrArg Cache.counters meets
      simp only [access, asked]
      exact Collection.balanced_left 0 0 0 balanced becomes (fun _ _ found => lookup ▸ found)
        (congrArg Std.ExtTreeMap.size lookup) counters
  | some call =>
      rw [asked] at meets
      simp only [access, asked]
      refine Collection.balanced_call balanced consistent.collection idle becomes meets ?_
      rintro now names directory rfl
      exact Engine.knows_of_get consistent.collection (consistent.resolves permitted) asked

theorem Reached.balanced (reached : l.Reached config) :
    l.run.collection.Balanced l.tally 0 := by
  induction reached with
  | start created =>
      obtain rfl := Engine.create_eq_ok created
      constructor
      · rfl
      · rfl
      · rfl
      · rfl
      · rfl
      · exact List.nodup_nil
      · exact fun _ built => absurd built List.not_mem_nil
      · intro key entry found
        simp [Run.collection, Run.ofEngine, Collection.ofConfig, Cache.ofConfig] at found
  | step earlier permitted ih =>
      exact balanced_access earlier.accessible.consistent earlier.accessible.idle permitted ih

/-- In every run, the cache counts each get as a hit or a miss, each miss as refused
or as a build that was accepted or dropped, and each accepted build as completed or
failed.  Every entry that was made is still there, or was evicted, failed or
invalidated.  Each accepted build was of another intersection, and what is built was
built by one of them. -/
theorem cache_accounts (reached : l.Reached config) :
    let n := l.run.cache.counters
    n.hits + n.misses = l.tally.gets ∧
    n.misses = l.tally.refused + n.enqueued + n.dropped ∧
    n.enqueued = n.completed + n.failed ∧
    l.tally.entered = l.run.cache.size + n.evictions + n.failed + l.tally.invalidated ∧
    l.tally.builds.Nodup ∧ l.tally.builds.length = n.enqueued ∧
    ∀ item, l.run.cache.HasBuilt item → item ∈ l.tally.builds := by
  have balanced := reached.balanced
  refine ⟨balanced.gets, balanced.misses, balanced.outcomes, balanced.entries,
    balanced.distinct, balanced.counted, ?_⟩
  rintro item ⟨entry, found, rfl, built⟩
  exact (balanced.current _ entry found).mpr built

/-! An intersection is built and hit, a get is refused, a source is dropped, and after
the shutdown one more intersection is asked for. -/

private def mixedAccesses : List Access :=
  [.call (.createIndex "a"), .call (.createIndex "b"), .call (.createIndex "c"),
    .call (.createSort "s"), .call (.execute 0 { sort := "s", indexes := ["a", "b"] }),
    .call (.execute 1 { sort := "s", indexes := ["b", "a"] }), .call (.get 2 ["a"] ∅),
    .call (.dropIndex "b"), .call .shutdown,
    .call (.execute 3 { sort := "s", indexes := ["a", "c"] })]

theorem cache_accounts_of_mixed :
    ∃ l : Ledger, l.Reached {} ∧ l.tally.gets = 4 ∧ l.tally.refused = 1 ∧
      l.tally.entered = 2 ∧ l.tally.invalidated = 1 ∧
      l.run.cache.counters.hits + l.run.cache.counters.misses = 4 ∧
      l.run.cache.size + l.run.cache.counters.evictions + l.run.cache.counters.failed = 1 ∧
      l.tally.builds.length = l.run.cache.counters.enqueued := by
  obtain ⟨e, created, gets, refused, entered, invalidated⟩ :
      ∃ e, Engine.create {} = .ok e ∧
        let l := mixedAccesses.foldl access { run := .ofEngine e }
        l.tally.gets = 4 ∧ l.tally.refused = 1 ∧ l.tally.entered = 2 ∧
          l.tally.invalidated = 1 :=
    ⟨_, rfl, by decide +kernel⟩
  have reached : (mixedAccesses.foldl access { run := .ofEngine e }).Reached {} :=
    (Reached.start created).foldl (by simp [mixedAccesses, Run.Permits, Run.Allows])
  obtain ⟨counted, -, -, entries, -, builds, -⟩ := cache_accounts reached
  refine ⟨_, reached, gets, refused, entered, invalidated, counted.trans gets, ?_, builds⟩
  omega

end Ledger

end RankedQuery
