import RankedQuery.Proofs.Cache.Transparency

/-!
# What a get leaves alone

A get stamps the entry that it hits.  On a miss it enters one intersection of
registered indexes, or offers the build of the entry under its key once more, if
that was dropped before.  Everything else stays as it was: the names, the sorts,
every index and every entry but the one that is built then.
-/

namespace RankedQuery

/-- The build of the entry was dropped, and a request would be taken now. -/
def Cache.Outstanding (c : Cache) (entry : Entry) : Prop :=
  c.accepting = true ∧ entry.isBuilt = false

/-- No build is outstanding: entries wait only where no requests are taken. -/
def Cache.Settled (c : Cache) : Prop :=
  ∀ (key : String) (entry : Entry), c.lookup[key]? = some entry → ¬ c.Outstanding entry

theorem Cache.accepting_track (c : Cache) (item : Intersection) :
    (c.track item).accepting = c.accepting := by
  unfold track
  split <;> rfl

namespace Collection

/-- The entry is under the key of the names and its build is outstanding, so that a
get of these names offers the build again. -/
def Reoffers (c : Collection) (names : List String) (entry : Entry) : Prop :=
  c.cache.lookup[canonicalKey names]? = some entry ∧ c.cache.Outstanding entry

/-- What the second collection has from the first, and what may be new in it: an
intersection of the named indexes, all of them registered.  A build that is offered
again may be done, or fail at a retired source. -/
structure Undisturbed (c : Collection) (names : List String) (c' : Collection) : Prop where
  directory : c'.catalog.directory = c.catalog.directory
  sorts : c'.catalog.sorts = c.catalog.sorts
  rankings : c'.catalog.rankings = c.catalog.rankings
  indexes : ∀ index, c.catalog.indexes.Has index →
    (∀ entry, c.Reoffers names entry → entry.item.result ≠ index) →
    c'.catalog.indexes.read index = c.catalog.indexes.read index
  entries : ∀ (key : String) (entry : Entry), c.cache.lookup[key]? = some entry →
    ¬ c.Reoffers names entry →
    (∃ entry', c'.cache.lookup[key]? = some entry' ∧ entry'.item = entry.item ∧
      entry'.isBuilt = entry.isBuilt) ∧
    c'.catalog.indexes.read entry.item.result = c.catalog.indexes.read entry.item.result
  reoffered : ∀ entry, c.Reoffers names entry →
    (∃ entry', c'.cache.lookup[canonicalKey names]? = some entry' ∧
      entry'.item = entry.item ∧
      (entry'.isBuilt = true ∧ entry.item.Current c'.catalog ∨ entry' = entry ∧
        c'.catalog.indexes.read entry.item.result =
          c.catalog.indexes.read entry.item.result)) ∨
    c'.cache.lookup[canonicalKey names]? = none ∧
      ∃ source ∈ entry.item.sources, (c.catalog.indexes.read source.index).retired = true
  added : ∀ (key : String) (entry' : Entry), c'.cache.lookup[key]? = some entry' →
    c.cache.lookup[key]? = none →
    key = canonicalKey names ∧
      (entry'.item.sources.map (·.name)).Perm (canonicalNames names) ∧
      ∀ source ∈ entry'.item.sources, c.catalog.directory[source.name]? = some source.index

namespace Undisturbed

variable {c c' : Collection} {names : List String}

theorem of_sameViews (catalog : c'.catalog = c.catalog)
    (lookup : c'.cache.lookup = c.cache.lookup) : c.Undisturbed names c' where
  directory := congrArg Catalog.directory catalog
  sorts := congrArg Catalog.sorts catalog
  rankings := congrArg Catalog.rankings catalog
  indexes index _ _ := by rw [catalog]
  entries key entry found _ := by
    rw [lookup, catalog]
    exact ⟨⟨entry, found, rfl, rfl⟩, rfl⟩
  reoffered entry offered := by
    rw [lookup, catalog]
    exact .inl ⟨entry, offered.1, rfl, .inr ⟨rfl, rfl⟩⟩
  added key entry found absent := by
    rw [lookup, absent] at found
    cases found

theorem of_count {change : Counters → Counters}
    (undisturbed : (c.count change).Undisturbed names c') : c.Undisturbed names c' :=
  ⟨undisturbed.directory, undisturbed.sorts, undisturbed.rankings, undisturbed.indexes,
    undisturbed.entries, undisturbed.reoffered, undisturbed.added⟩

theorem of_canonicalNames (undisturbed : c.Undisturbed (canonicalNames names) c') :
    c.Undisturbed names c' := by
  have same : canonicalKey (canonicalNames names) = canonicalKey names :=
    canonicalKey_congr fun _ => mem_canonicalNames
  obtain ⟨directory, sorts, rankings, indexes, entries, reoffered, added⟩ := undisturbed
  simp only [Reoffers, same, canonicalNames_idem] at indexes entries reoffered added
  exact ⟨directory, sorts, rankings, indexes, entries, reoffered, added⟩

end Undisturbed

/-! ## Builds -/

section Build

variable (c : Collection) (now : Millis) (item : Intersection)

theorem names_requestBuild :
    (c.requestBuild now item).catalog.directory = c.catalog.directory ∧
      (c.requestBuild now item).catalog.sorts = c.catalog.sorts ∧
      (c.requestBuild now item).catalog.rankings = c.catalog.rankings := by
  unfold requestBuild build
  dsimp only
  split
  · split
    · split <;> exact ⟨rfl, rfl, rfl⟩
    · exact ⟨rfl, rfl, rfl⟩
  · exact ⟨rfl, rfl, rfl⟩

theorem read_requestBuild {index : Handle Index} (apart : item.result ≠ index) :
    (c.requestBuild now item).catalog.indexes.read index = c.catalog.indexes.read index := by
  unfold requestBuild build
  dsimp only
  split
  · split
    · split
      · rfl
      · exact Store.read_update_of_ne apart _
    · rfl
  · rfl

variable {c item}

theorem getElem?_requestBuild_of_ne (awaits : c.cache.Awaits item) {other : String}
    (apart : item.key ≠ other) :
    (c.requestBuild now item).cache.lookup[other]? = c.cache.lookup[other]? := by
  have step := afterRequest awaits now
  generalize c.requestBuild now item = c' at step ⊢
  cases step with
  | dropped _ _ lookup => rw [lookup]
  | failed _ _ _ lookup =>
      rw [lookup]
      ext entry
      simp [Cache.getElem?_evict, apart]
  | completed _ _ lookup => rw [lookup, Cache.getElem?_setStage, if_neg apart]

variable {now}

theorem item_requestBuild (awaits : c.cache.Awaits item) {key : String} {entry' : Entry}
    (found : (c.requestBuild now item).cache.lookup[key]? = some entry') :
    ∃ entry, c.cache.lookup[key]? = some entry ∧ entry.item = entry'.item := by
  have step := afterRequest awaits now
  generalize c.requestBuild now item = c' at step found
  cases step with
  | dropped _ _ lookup =>
      rw [lookup] at found
      exact ⟨entry', found, rfl⟩
  | failed _ _ _ lookup =>
      rw [lookup] at found
      exact ⟨entry', ((c.cache.getElem?_evict item).mp found).1, rfl⟩
  | completed _ _ lookup =>
      rw [lookup] at found
      exact Cache.item_setStage found

theorem accepting_requestBuild :
    (c.requestBuild now item).cache.accepting = c.cache.accepting := by
  unfold requestBuild build
  dsimp only
  split
  · split
    · split
      · rfl
      · exact Cache.accepting_track _ item
    · rfl
  · rfl

theorem settled_requestBuild (awaits : c.cache.Awaits item)
    (others : ∀ (key : String) (entry : Entry), c.cache.lookup[key]? = some entry →
      item.key ≠ key → ¬ c.cache.Outstanding entry) :
    (c.requestBuild now item).cache.Settled := by
  rintro key entry' found ⟨accepts, waiting⟩
  rw [accepting_requestBuild] at accepts
  have step := afterRequest awaits now
  generalize c.requestBuild now item = c' at step found
  cases step with
  | dropped refuses => simp [refuses] at accepts
  | failed _ _ _ lookup =>
      rw [lookup] at found
      obtain ⟨before, stays⟩ := (c.cache.getElem?_evict item).mp found
      apply others key entry' before
      · rintro rfl
        obtain ⟨held, foundHeld, same, -⟩ := awaits
        rw [before, Option.some.injEq] at foundHeld
        subst foundHeld
        exact stays ⟨rfl, same⟩
      · exact ⟨accepts, waiting⟩
  | completed _ _ lookup =>
      rw [lookup, Cache.getElem?_setStage] at found
      split at found
      next =>
        obtain ⟨entry, -, rfl⟩ := Option.map_eq_some_iff.mp found
        cases waiting
      next apart => exact others key entry' found apart ⟨accepts, waiting⟩

end Build

/-! ## Gets -/

section Get

variable {c : Collection} {names : List String}

theorem undisturbed_touch {entry : Entry}
    (found : c.cache.lookup[canonicalKey names]? = some entry) (built : entry.isBuilt = true)
    (now : Millis) :
    c.Undisturbed names (c.onCache (·.setStage (canonicalKey names) (.built now))) := by
  refine ⟨rfl, rfl, rfl, fun _ _ _ => rfl, ?_, ?_, ?_⟩
  · intro other entry' found' _
    by_cases here : canonicalKey names = other
    · subst here
      rw [found, Option.some.injEq] at found'
      subst found'
      refine ⟨⟨{ entry with stage := .built now }, ?_, rfl, built.symm⟩, rfl⟩
      simp [onCache, Cache.getElem?_setStage, found]
    · refine ⟨⟨entry', ?_, rfl, rfl⟩, rfl⟩
      simp [onCache, Cache.getElem?_setStage, here, found']
  · rintro other ⟨found', -, waiting⟩
    rw [found, Option.some.injEq] at found'
    rw [found', waiting] at built
    cases built
  · intro other entry' found' absent
    simp [onCache, Cache.getElem?_setStage, absent] at found'

private theorem reoffered_requestBuild (coherent : c.Coherent) {key : String} {entry : Entry}
    (found : c.cache.lookup[key]? = some entry) (waiting : entry.stage = .waiting false)
    (accepts : c.cache.accepting = true) (now : Millis) :
    (∃ entry', (c.requestBuild now entry.item).cache.lookup[key]? = some entry' ∧
      entry'.item = entry.item ∧
      (entry'.isBuilt = true ∧ entry.item.Current (c.requestBuild now entry.item).catalog ∨
        entry' = entry ∧ (c.requestBuild now entry.item).catalog.indexes.read entry.item.result =
          c.catalog.indexes.read entry.item.result)) ∨
    (c.requestBuild now entry.item).cache.lookup[key]? = none ∧
      ∃ source ∈ entry.item.sources, (c.catalog.indexes.read source.index).retired = true := by
  have keyed := coherent.keyed key entry found
  have awaits := Cache.awaits_of_found found keyed waiting
  have current := (becomes_requestBuild coherent awaits now).coherent.current
  have step := afterRequest awaits now
  generalize c.requestBuild now entry.item = c' at step current ⊢
  cases step with
  | dropped refuses => simp [refuses] at accepts
  | failed _ retired _ lookup =>
      refine .inr ⟨?_, retired⟩
      rw [lookup, Option.eq_none_iff_forall_ne_some]
      intro entry' left
      obtain ⟨before, stays⟩ := (c.cache.getElem?_evict entry.item).mp left
      obtain rfl : entry = entry' := Option.some.inj (found.symm.trans before)
      exact stays ⟨keyed, rfl⟩
  | completed _ _ lookup =>
      let entry' := { entry with stage := .built now }
      have built : c'.cache.lookup[key]? = some entry' := by
        rw [lookup, Cache.getElem?_setStage, if_pos keyed, found, Option.map_some]
      exact .inl ⟨entry', built, rfl, .inl ⟨rfl, current key entry' built rfl⟩⟩

theorem undisturbed_requestBuild (coherent : c.Coherent) {entry : Entry}
    (found : c.cache.lookup[canonicalKey names]? = some entry)
    (waiting : entry.stage = .waiting false) (now : Millis) :
    c.Undisturbed names (c.requestBuild now entry.item) := by
  have keyed := coherent.keyed _ entry found
  have awaits := Cache.awaits_of_found found keyed waiting
  cases accepts : c.cache.accepting with
  | false =>
      rw [requestBuild_of_refuses accepts awaits]
      exact .of_sameViews rfl rfl
  | true =>
      have reoffers : c.Reoffers names entry :=
        ⟨found, accepts, Entry.isBuilt_of_waiting waiting⟩
      obtain ⟨directory, sorts, rankings⟩ := names_requestBuild c now entry.item
      refine ⟨directory, sorts, rankings, ?_, ?_, ?_, ?_⟩
      · intro index _ apart
        exact read_requestBuild c now _ (apart entry reoffers)
      · intro other entry' found' settled
        have apart : entry ≠ entry' := by
          rintro rfl
          exact settled reoffers
        constructor
        · refine ⟨entry', ?_, rfl, rfl⟩
          rw [getElem?_requestBuild_of_ne now awaits, found']
          rw [keyed]
          rintro rfl
          exact apart (Option.some.inj (found.symm.trans found'))
        · apply read_requestBuild
          intro shared
          exact apart (coherent.item_eq found found' shared)
      · rintro other ⟨found', -⟩
        obtain rfl : entry = other := Option.some.inj (found.symm.trans found')
        exact reoffered_requestBuild coherent found waiting accepts now
      · intro other entry' found' absent
        obtain ⟨before, present, -⟩ := item_requestBuild awaits found'
        rw [absent] at present
        cases present

theorem undisturbed_enter (coherent : c.Coherent)
    (absent : c.cache.lookup[canonicalKey names]? = none) {sources : List Source}
    (resolved : c.catalog.directory.resolve (canonicalNames names) = .ok sources)
    (now : Millis) :
    c.Undisturbed names ((c.enter now (canonicalKey names) sources).2.requestBuild now
      (c.enter now (canonicalKey names) sources).1) := by
  obtain ⟨sameNames, registered⟩ := Directory.resolve_eq_ok.mp resolved
  have awaits := c.awaits_enter now (canonicalKey names) sources
  obtain ⟨directory, sorts, rankings⟩ := names_requestBuild
    (c.enter now (canonicalKey names) sources).2 now (c.enter now (canonicalKey names) sources).1
  have indexes : ∀ index, c.catalog.indexes.Has index →
      ((c.enter now (canonicalKey names) sources).2.requestBuild now
        (c.enter now (canonicalKey names) sources).1).catalog.indexes.read index =
          c.catalog.indexes.read index := by
    intro index has
    rw [read_requestBuild]
    · exact c.catalog.read_addIndex _ has
    · rintro rfl
      exact c.catalog.indexes.not_has_next has
  refine ⟨directory, sorts, rankings, fun index has _ => indexes index has, ?_, ?_, ?_⟩
  · intro key entry found _
    have apart : canonicalKey names ≠ key := by
      rintro rfl
      simp [absent] at found
    refine ⟨⟨entry, ?_, rfl, rfl⟩, indexes _ (coherent.sound key entry found).hidden.has⟩
    rw [getElem?_requestBuild_of_ne now awaits apart, getElem?_enter, if_neg apart, found]
  · rintro entry ⟨found, -⟩
    rw [absent] at found
    cases found
  · intro key entry' found' none
    obtain ⟨entry, found, same⟩ := item_requestBuild awaits found'
    rw [getElem?_enter] at found
    split at found
    next here =>
      cases found
      have perm : entry'.item.sources.Perm sources := by
        rw [← same]
        exact perm_sortStable _ sources
      refine ⟨here.symm, ?_, fun source inside => registered source (perm.mem_iff.mp inside)⟩
      rw [← sameNames]
      exact perm.map _
    next =>
      rw [none] at found
      cases found

theorem undisturbed_get (coherent : c.Coherent) (now : Millis) :
    c.Undisturbed names (c.get now names c.catalog.directory).2 := by
  have missed : c.Becomes c.missed := becomes_count coherent _
  have step := c.afterGet now names c.catalog.directory
  generalize (c.get now names c.catalog.directory).2 = c' at step ⊢
  cases step with
  | hit found built =>
      have touched : c.Undisturbed names _ := undisturbed_touch found built now
      exact ⟨rfl, rfl, rfl, touched.indexes, touched.entries, touched.reoffered, touched.added⟩
  | queued => exact .of_sameViews rfl rfl
  | waits found waiting =>
      exact (undisturbed_requestBuild missed.coherent found waiting now).of_count
  | unresolved => exact .of_sameViews rfl rfl
  | enters absent resolved =>
      exact (undisturbed_enter missed.coherent absent resolved now).of_count

theorem settled_get (settled : c.cache.Settled) (now : Millis) (names : List String)
    (directory : Directory) : (c.get now names directory).2.cache.Settled := by
  have step := c.afterGet now names directory
  generalize (c.get now names directory).2 = c' at step ⊢
  cases step with
  | hit =>
      rintro key entry' found' ⟨accepts, waiting⟩
      simp only [count, onCache, Cache.count, Cache.getElem?_setStage] at found'
      split at found'
      next =>
        obtain ⟨entry, -, rfl⟩ := Option.map_eq_some_iff.mp found'
        cases waiting
      next => exact settled key entry' found' ⟨accepts, waiting⟩
  | queued => exact settled
  | waits found waiting =>
      -- The entry may wait only because requests are refused.
      rintro key entry' - ⟨accepts, -⟩
      rw [accepting_requestBuild] at accepts
      exact settled _ _ found ⟨accepts, Entry.isBuilt_of_waiting waiting⟩
  | unresolved => exact settled
  | enters absent resolved =>
      apply settled_requestBuild
      · exact awaits_enter ..
      · intro key entry found apart
        rw [getElem?_enter] at found
        split at found
        next here => exact absurd here apart
        next => exact settled key entry found

end Get

end Collection

end RankedQuery
