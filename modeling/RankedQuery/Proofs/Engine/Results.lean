import RankedQuery.Proofs.Cache.Invalidation
import RankedQuery.Proofs.Engine.Builds
import RankedQuery.Proofs.Engine.Recency
import RankedQuery.Proofs.Engine.Seclusion

/-!
# Results that left the cache

Whoever got the result of an entry may keep it for longer than the cache keeps the
entry.  While the entry lasts its result follows the sources; afterwards nothing
changes it any more.  The cache may enter the same names again, but then with a new
result, filled from what the sources hold at that time.
-/

namespace RankedQuery

/-! ## Entries and their results -/

theorem Engine.item_access (e : Engine) (consistent : e.collection.Consistent) (a : Access)
    {key : String} {entry' : Entry}
    (found' : (e.access a).collection.cache.lookup[key]? = some entry') :
    (∃ entry, e.collection.cache.lookup[key]? = some entry ∧ entry.item = entry'.item) ∨
      ¬ e.collection.catalog.indexes.Has entry'.item.result := by
  have meets := e.meets_access a
  cases called : e.cacheCall? a with
  | none =>
      rw [called] at meets
      rw [show (e.access a).collection.cache = _ from meets] at found'
      exact .inl ⟨entry', found', rfl⟩
  | some call =>
      rw [called] at meets
      cases call with
      | get now names directory =>
          rw [show (e.access a).collection = _ from meets] at found'
          exact Collection.item_get consistent found'
      | invalidate source =>
          rw [show (e.access a).collection.cache = _ from meets] at found'
          exact .inl ⟨entry', (Cache.sheds_discardAll _ _).entries key entry' found', rfl⟩
      | sweep now =>
          rw [show (e.access a).collection.cache = _ from meets] at found'
          exact .inl ⟨entry', (Cache.sheds_sweep _ now).entries key entry' found', rfl⟩

namespace Collection

/-- The result of the intersection belongs to no other one, and to no name. -/
structure Owns (c : Collection) (item : Intersection) : Prop where
  hidden : c.catalog.Hides item.result
  alone : ∀ (key : String) (entry : Entry), c.cache.lookup[key]? = some entry →
    entry.item.result = item.result → entry.item = item

structure Detaches (c : Collection) (index : Handle Index) : Prop where
  hidden : c.catalog.Hides index
  unused : ∀ (key : String) (entry : Entry), c.cache.lookup[key]? = some entry →
    entry.item.result ≠ index

variable {c : Collection}

theorem Consistent.owns (consistent : c.Consistent) {key : String} {entry : Entry}
    (found : c.cache.lookup[key]? = some entry) : c.Owns entry.item where
  hidden := (consistent.sound key entry found).hidden
  alone key' entry' found' shared := by
    rw [consistent.item_eq found' found shared]

theorem Owns.detaches {item : Intersection} (owns : c.Owns item)
    (gone : ∀ (key : String) (entry : Entry), c.cache.lookup[key]? = some entry →
      entry.item ≠ item) : c.Detaches item.result where
  hidden := owns.hidden
  unused key entry found shared := gone key entry found (owns.alone key entry found shared)

theorem Detaches.secludes {index : Handle Index} (detaches : c.Detaches index) :
    c.Secludes index where
  hidden := detaches.hidden
  idle key entry found shared := absurd shared (detaches.unused key entry found)

end Collection

/-! ## Runs from a run -/

namespace Run

variable {kind : Access → Prop} {r r' : Run}

inductive ProceedsBy (kind : Access → Prop) (r : Run) : Run → Prop
  | refl : ProceedsBy kind r r
  | step {r' : Run} {a : Access} :
      ProceedsBy kind r r' → kind a → r'.Permits a → ProceedsBy kind r (r'.access a)

theorem ProceedsBy.foldl (proceeds : r.ProceedsBy kind r') {accesses : List Access}
    (permitted : ∀ a ∈ accesses, kind a ∧ ∀ r : Run, r.Permits a) :
    r.ProceedsBy kind (accesses.foldl access r') := by
  induction accesses generalizing r' with
  | nil => exact proceeds
  | cons a accesses ih =>
      obtain ⟨⟨is, permits⟩, others⟩ := List.forall_mem_cons.mp permitted
      exact ih (proceeds.step is (permits r')) others

theorem ProceedsBy.consistent (proceeds : r.ProceedsBy kind r') (consistent : r.Consistent) :
    r'.Consistent := by
  induction proceeds with
  | refl => exact consistent
  | step _ _ permitted ih => exact consistent_access ih permitted

section Access

variable (consistent : r.Consistent) {a : Access} (permitted : r.Permits a)

include consistent permitted

theorem owns_access {item : Intersection} (owns : r.collection.Owns item) :
    (r.access a).collection.Owns item where
  hidden := (continues_access consistent permitted).catalog.hides _ owns.hidden
  alone key entry' found' shared := by
    rcases r.engine.item_access consistent.collection a found' with ⟨entry, found, same⟩ | fresh
    · rw [← same]
      exact owns.alone key entry found (same ▸ shared)
    · exact absurd owns.hidden.has (shared ▸ fresh)

theorem detaches_access {index : Handle Index} (detaches : r.collection.Detaches index) :
    (r.access a).collection.Detaches index where
  hidden := (continues_access consistent permitted).catalog.hides _ detaches.hidden
  unused key entry' found' shared := by
    rcases r.engine.item_access consistent.collection a found' with ⟨entry, found, same⟩ | fresh
    · exact detaches.unused key entry found (same ▸ shared)
    · exact fresh (shared ▸ detaches.hidden.has)

end Access

theorem ProceedsBy.owns (proceeds : r.ProceedsBy kind r') (consistent : r.Consistent)
    {item : Intersection} (owns : r.collection.Owns item) : r'.collection.Owns item := by
  induction proceeds with
  | refl => exact owns
  | step earlier _ permitted ih => exact owns_access (earlier.consistent consistent) permitted ih

theorem ProceedsBy.detaches {index : Handle Index}
    (proceeds : r.ProceedsBy (·.Spares index) r') (consistent : r.Consistent)
    (detaches : r.collection.Detaches index) :
    r'.collection.Detaches index ∧
      r'.catalog.indexes.read index = r.catalog.indexes.read index := by
  induction proceeds with
  | refl => exact ⟨detaches, rfl⟩
  | step earlier spares permitted ih =>
      obtain ⟨still, same⟩ := ih
      have before := earlier.consistent consistent
      refine ⟨detaches_access before permitted still, ?_⟩
      exact (Engine.read_access _ before.collection still.secludes spares).trans same

theorem Builds.holds {a : Access} {item : Intersection} (builds : r.Builds a item)
    (consistent : r.Consistent) (permitted : r.Permits a) (id : DocId) :
    (r.access a).catalog.holds item.result id =
      (!item.sources.isEmpty && r.catalog.allHold item.sources id) := by
  obtain ⟨unbuilt, built⟩ := builds
  have unshed : ∀ {c : Cache}, r.cache.Sheds c → ¬ c.HasBuilt item := by
    rintro c sheds ⟨entry, found, same, isBuilt⟩
    exact unbuilt ⟨entry, sheds.entries _ entry found, same, isBuilt⟩
  have meets := r.engine.meets_access a
  cases called : r.engine.cacheCall? a with
  | none =>
      rw [called] at meets
      exact absurd ((Cache.hasBuilt_congr (congrArg Cache.lookup meets)).mp built) unbuilt
  | some call =>
      rw [called] at meets
      cases call with
      | get now names directory =>
          have got : (r.access a).collection = (r.collection.get now names directory).2 := meets
          have known : ∀ source : Source, directory[source.name]? = some source.index →
              r.catalog.Knows source :=
            Engine.knows_of_get consistent.collection (consistent.resolves permitted) called
          rw [cache, show (r.access a).engine.collection = _ from got] at built
          rw [catalog, show (r.access a).engine.collection = _ from got]
          exact Collection.holds_of_get consistent.collection known unbuilt built id
      | invalidate source =>
          rw [cache, show (r.access a).engine.collection.cache = _ from meets] at built
          exact absurd built (unshed (Cache.sheds_discardAll _ _))
      | sweep now =>
          rw [cache, show (r.access a).engine.collection.cache = _ from meets] at built
          exact absurd built (unshed (Cache.sheds_sweep _ now))

/-! ## Precise removal -/

/-- Other entries follow reports as if there had been no invalidation. -/
theorem holds_report_invalidate (consistent : r.Consistent) (source : String)
    {key : String} {entry : Entry}
    (left : (r.access (.call (.invalidate source))).cache.lookup[key]? = some entry)
    (name : String) (id : DocId) (added : Bool) (other : DocId) :
    ((r.access (.call (.invalidate source))).access (.report name id added)).catalog.holds
        entry.item.result other =
      (r.access (.report name id added)).catalog.holds entry.item.result other := by
  have before := consistent.collection
  have after : (r.access (.call (.invalidate source))).collection.Consistent :=
    (Collection.continues_invalidate before source).consistent
  obtain ⟨found, apart⟩ :=
    ((Cache.invalidated_invalidate before.cache source).lookup key entry).mp left
  have still : (r.access (.call (.invalidate source))).cache.HasBuilt entry.item ↔
      r.cache.HasBuilt entry.item :=
    (Cache.hasBuilt_invalidate before.cache source).trans (and_iff_left apart)
  by_cases follows : r.cache.HasBuilt entry.item ∧ entry.item.IsOver name
  · have first := Collection.holds_changed after (still.mpr follows.1) follows.2 id added other
    exact first.trans
      (Collection.holds_changed before follows.1 follows.2 id added other).symm
  · have unfollowed : ∀ item, r.cache.HasBuilt item → item.IsOver name →
        item.result ≠ entry.item.result := by
      intro item built isOver shared
      have same : item = entry.item := by
        obtain ⟨held, foundHeld, rfl, -⟩ := built
        exact (before.owns found).alone _ held foundHeld shared
      exact follows (same ▸ ⟨built, isOver⟩)
    have first := Collection.read_changed after (fun item built isOver =>
      unfollowed item ((Cache.hasBuilt_invalidate before.cache source).mp built).1 isOver) id added
    have second := Collection.read_changed before unfollowed id added
    exact congrArg (Index.contains · other) (first.trans second.symm)

/-- In every run, an invalidation removes exactly the entries over the source; the
others stay as they are, in their order, and go on following their sources.  The
result of an entry that has left the lookup never changes again, unless someone
changes it by its handle; and what is built later has another result, which holds
then what its sources hold. -/
theorem removes_and_freezes {config : Config} {r : Run} (accessible : r.Accessible config) :
    (∀ source : String,
      let r' := r.access (.call (.invalidate source))
      r.cache.Invalidated source (r.collection.invalidate source).1 r'.cache ∧
      r'.catalog = r.catalog ∧
      ∀ (key : String) (entry : Entry), r'.cache.lookup[key]? = some entry →
        ∀ (name : String) (id : DocId) (added : Bool) (other : DocId),
          (r'.access (.report name id added)).catalog.holds entry.item.result other =
            (r.access (.report name id added)).catalog.holds entry.item.result other) ∧
    (∀ (now : Millis) (names : List String) (directory : Directory) (index : Handle Index),
      (r.collection.get now names directory).1 = .ok (some index) →
        ∃ (key : String) (entry : Entry),
          r.cache.lookup[key]? = some entry ∧ entry.item.result = index) ∧
    ∀ (key : String) (entry : Entry), r.cache.lookup[key]? = some entry →
      ∀ r' : Run, r.ProceedsBy (fun _ => True) r' →
      (∀ (key' : String) (left : Entry), r'.cache.lookup[key']? = some left →
        left.item ≠ entry.item) →
      ∀ r'' : Run, r'.ProceedsBy (·.Spares entry.item.result) r'' →
        r''.catalog.indexes.read entry.item.result =
          r'.catalog.indexes.read entry.item.result ∧
        ∀ (a : Access) (item : Intersection), r''.Permits a → r''.Builds a item →
          item.result ≠ entry.item.result ∧
          ∀ id, (r''.access a).catalog.holds item.result id =
            (!item.sources.isEmpty && r''.catalog.allHold item.sources id) := by
  have consistent := accessible.consistent
  refine ⟨fun source => ⟨?_, rfl, ?_⟩, ?_, ?_⟩
  · exact Cache.invalidated_invalidate consistent.collection.cache source
  · exact fun key entry left => holds_report_invalidate consistent source left
  · intro now names directory index hit
    obtain ⟨entry, found, -, result⟩ := Collection.get_hit hit
    exact ⟨_, entry, found, result⟩
  · intro key entry found r' first gone r'' second
    have middle := first.consistent consistent
    have detaches : r'.collection.Detaches entry.item.result :=
      (first.owns consistent (consistent.collection.owns found)).detaches gone
    obtain ⟨still, same⟩ := second.detaches middle detaches
    refine ⟨same, fun a item permitted builds => ?_⟩
    have last := second.consistent middle
    refine ⟨?_, builds.holds last permitted⟩
    obtain ⟨built, foundBuilt, rfl, -⟩ := builds.2
    exact (detaches_access last permitted still).unused _ built foundBuilt

/-! A pair is built, invalidated and built again with one document more. -/

private def pairHolding : List Access :=
  [.call (.createIndex "a"), .call (.createIndex "b"), .call (.createSort "s"),
    .call (.add "a" 1), .call (.add "b" 1),
    .call (.execute 0 { sort := "s", indexes := ["a", "b"] })]

private def fullerPair : List Access := [.call (.add "a" 7), .call (.add "b" 7)]

private def queriedAgain : Access := .call (.execute 1 { sort := "s", indexes := ["a", "b"] })

private def rebuilt : Intersection := ⟨"a&b", [⟨"a", ⟨0⟩⟩, ⟨"b", ⟨1⟩⟩], ⟨3⟩⟩

theorem removes_and_freezes_of_pair :
    ∃ (r r' : Run) (entry : Entry), r.Accessible {} ∧
      r.cache.lookup["a&b"]? = some entry ∧ entry.isBuilt = true ∧
      (r.collection.invalidate "b").1 = 1 ∧
      r'.catalog.indexes.read entry.item.result = r.catalog.indexes.read entry.item.result ∧
      rebuilt.result ≠ entry.item.result ∧
      (r'.access queriedAgain).catalog.holds rebuilt.result 7 = true := by
  obtain ⟨e, created, cached, number, emptied, builds, holds⟩ :
      ∃ e, Engine.create {} = .ok e ∧
        let r := pairHolding.foldl access (ofEngine e)
        let r' := r.access (.call (.invalidate "b"))
        let r'' := fullerPair.foldl access r'
        (r.cache.lookup["a&b"]?.any fun entry => entry.isBuilt ∧ entry.item.IsOver "b") = true ∧
          (r.cache.itemsOver "b").length = 1 ∧ r'.cache.lookup.isEmpty = true ∧
          r''.Builds queriedAgain rebuilt ∧ r''.catalog.allHold rebuilt.sources 7 = true :=
    ⟨_, rfl, by decide +kernel⟩
  have accessible : (pairHolding.foldl access (ofEngine e)).Accessible {} :=
    (Accessible.start created).foldl (by simp [pairHolding, Permits, Allows])
  generalize pairHolding.foldl access (ofEngine e) = r at *
  have invalidates : r.ProceedsBy (fun _ => True) (r.access (.call (.invalidate "b"))) :=
    .step .refl trivial trivial
  obtain ⟨removes, -, freezes⟩ := removes_and_freezes accessible
  obtain ⟨entry, found, passes⟩ := (Option.any_eq_true _ _).mp cached
  obtain ⟨built, -⟩ := of_decide_eq_true passes
  obtain ⟨invalidated, sameCatalog, -⟩ := removes "b"
  have gone : ∀ (key : String) (left : Entry),
      (r.access (.call (.invalidate "b"))).cache.lookup[key]? = some left →
        left.item ≠ entry.item := by
    intro key left foundLeft
    rw [Std.ExtTreeMap.isEmpty_iff.mp emptied] at foundLeft
    simp at foundLeft
  have fills : (r.access (.call (.invalidate "b"))).ProceedsBy (·.Spares entry.item.result)
      (fullerPair.foldl access (r.access (.call (.invalidate "b")))) :=
    ProceedsBy.refl.foldl (by simp [fullerPair, Access.Spares, Permits, Allows])
  obtain ⟨frozen, later⟩ := freezes "a&b" entry found _ invalidates gone _ fills
  obtain ⟨apart, members⟩ := later queriedAgain rebuilt trivial builds
  refine ⟨r, fullerPair.foldl access (r.access (.call (.invalidate "b"))), entry, accessible,
    found, built, invalidated.number.trans number, ?_, apart, ?_⟩
  · rw [frozen, sameCatalog]
  · rw [members, holds]
    rfl

end Run

end RankedQuery
