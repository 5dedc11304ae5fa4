import RankedQuery.Proofs.Engine.Answers
import RankedQuery.Proofs.Engine.Calls

/-!
# Page by page

Gets, sweeps, invalidations, builds and queries change the cache, but no answer.
So a query that is executed page after page, with any of these in between, goes
once through its matches, even if its pages are found in different ways.
-/

namespace RankedQuery

/-! ## Quiet operations -/

/-- What changes neither the indexes nor the sorts. -/
def Operation.IsQuiet : Operation → Prop
  | .get _ _ _ | .invalidate _ | .sweep _ | .takeBuilds _ | .shutdown => True
  | .openQuery _ | .closeQuery _ | .execute _ _ | .closeResult _ => True
  | _ => False

namespace Catalog.SameAnswers

variable {c c' : Catalog}

theorem matching (same : c.SameAnswers c') (query : Query) :
    query.matching c' = query.matching c := by
  have conditions : ∀ id, Condition.holds c' id = Condition.holds c id :=
    fun id => funext fun condition => same.condition condition id
  simp only [Query.matching, Catalog.listing, sort?, same.sorts, same.rankings, same.member,
    conditions]

theorem registeredQuery (same : c.SameAnswers c') {query : Query}
    (registered : query.Registered c) : query.Registered c' where
  sort := by
    rw [sort?, same.sorts]
    exact registered.sort
  indexes := by
    simp only [index?, same.directory]
    exact registered.indexes
  filters filter listed := same.registered (registered.filters filter listed)

end Catalog.SameAnswers

theorem Engine.sameAnswers_after (e : Engine) (coherent : e.collection.Coherent)
    {op : Operation} (quiet : op.IsQuiet)
    (resolves : ∀ now names directory, op = .get now names directory →
      ∀ source : Source, directory[source.name]? = some source.index →
        e.collection.catalog.Knows source) :
    e.collection.catalog.SameAnswers (e.after op).collection.catalog := by
  cases op with
  | get now names directory =>
      exact Collection.sameAnswers_get coherent now names (resolves now names directory rfl)
  | execute now query =>
      show e.collection.catalog.SameAnswers (e.execute now query).2.collection.catalog
      rcases e.collection_execute now query with same | same
      · rw [same]
        exact .refl _
      · rw [same]
        exact Collection.sameAnswers_get coherent now _ coherent.catalog.known
  | invalidate | sweep | takeBuilds | shutdown => exact .refl _
  | openQuery | closeQuery | closeResult => exact .refl _
  | _ => cases quiet

namespace Run

theorem sameAnswers_after {r : Run} (coherent : r.Coherent) {op : Operation}
    (quiet : op.IsQuiet) (allowed : r.Allows op) :
    r.catalog.SameAnswers (r.after op).catalog := by
  apply r.engine.sameAnswers_after coherent.collection quiet
  rintro now names directory rfl source registered
  obtain ⟨earlier, listed, registered⟩ := allowed source.name source.index registered
  exact coherent.known earlier listed source registered

theorem LeadsBy.sameAnswers {r r' : Run} (coherent : r.Coherent)
    (leads : r.LeadsBy Operation.IsQuiet r') : r.catalog.SameAnswers r'.catalog := by
  induction leads with
  | refl => exact .refl _
  | step before quiet allowed ih =>
      have coherentBefore := (becomes_of_leadsTo coherent before.leadsTo).1
      exact ih.trans (sameAnswers_after coherentBefore quiet allowed)

end Run

/-! ## Pages -/

def Query.onPage (q : Query) (size : UInt64) (number : Nat) : Query :=
  { q with limit := some size, offset := .ofNat (number * size.toNat) }

def pageCount (length : Nat) (size : UInt64) : Nat :=
  max 1 ((length + size.toNat - 1) / size.toNat)

theorem succ_lt_pageCount {length number : Nat} {size : UInt64} (positive : 0 < size) :
    number + 1 < pageCount length size ↔ (number + 1) * size.toNat < length := by
  have room : 0 < size.toNat := UInt64.lt_iff_toNat_lt.mp positive
  have ceiling : number + 1 < (length + size.toNat - 1) / size.toNat ↔
      (number + 1) * size.toNat < length := by
    rw [← Nat.succ_le_iff, Nat.le_div_iff_mul_le room, Nat.succ_mul]
    omega
  rw [pageCount, ← ceiling]
  omega

theorem length_le_pageCount {length : Nat} {size : UInt64} (positive : 0 < size) :
    length ≤ pageCount length size * size.toNat := by
  obtain ⟨last, isLast⟩ : ∃ last, pageCount length size = last + 1 :=
    Nat.exists_eq_succ_of_ne_zero (by unfold pageCount; omega)
  apply Nat.le_of_not_lt
  intro more
  rw [isLast, ← succ_lt_pageCount positive, isLast] at more
  exact Nat.lt_irrefl _ more

theorem flatMap_slices {α : Type} (list : List α) (size : Nat) {count : Nat}
    (covers : list.length ≤ count * size) :
    (List.range count).flatMap (fun number => (list.drop (number * size)).take size) =
      list := by
  have prefixes : ∀ count, (List.range count).flatMap
      (fun number => (list.drop (number * size)).take size) = list.take (count * size) := by
    intro count
    induction count with
    | zero => simp
    | succ count ih =>
        rw [List.range_succ, List.flatMap_append, ih, Nat.succ_mul, List.take_add,
          List.flatMap_singleton]
  rw [prefixes, List.take_of_length_le covers]

namespace Run

/-- A query is executed for one page after the other, with quiet operations before
and between. -/
structure Reading (r : Run) (query : Query) (size : UInt64) where
  /-- The run in which each page is asked for. -/
  run : Nat → Run
  now : Nat → Millis
  starts : r.LeadsBy Operation.IsQuiet (run 0)
  continues : ∀ number,
    ((run number).after (.execute (now number) (query.onPage size number))).LeadsBy
      Operation.IsQuiet (run (number + 1))

namespace Reading

variable {config : Config} {r : Run} {query : Query} {size : UInt64}

def answer (reading : r.Reading query size) (number : Nat) : Except Error ResultSet :=
  ((reading.run number).engine.execute (reading.now number) (query.onPage size number)).1

theorem sameAnswers (reading : r.Reading query size) (reached : r.Reached config)
    (number : Nat) : (reading.run number).Reached config ∧
      r.catalog.SameAnswers (reading.run number).catalog := by
  induction number with
  | zero =>
      exact ⟨reached.leadsTo reading.starts.leadsTo, reading.starts.sameAnswers reached.coherent⟩
  | succ number ih =>
      obtain ⟨before, same⟩ := ih
      have executed : (reading.run number).LeadsBy Operation.IsQuiet ((reading.run number).after
          (.execute (reading.now number) (query.onPage size number))) :=
        LeadsBy.refl.step trivial trivial
      have coherent := (before.leadsTo executed.leadsTo).coherent
      have next := reading.continues number
      exact ⟨(before.leadsTo executed.leadsTo).leadsTo next.leadsTo,
        same.trans ((executed.sameAnswers before.coherent).trans (next.sameAnswers coherent))⟩

theorem answer_eq (reading : r.Reading query size) (reached : r.Reached config)
    (separable : r.collection.Separable) (valid : query.fault? config = none)
    (registered : query.Registered r.catalog) (within : size ≤ config.maxLimit) {number : Nat}
    (inside : number * size.toNat ≤ (query.matching r.catalog).length) :
    ∃ result, reading.answer number = .ok result ∧
      result.ids = ((query.matching r.catalog).drop (number * size.toNat)).take size.toNat ∧
      (result.hasMore = true ↔
        (number + 1) * size.toNat < (query.matching r.catalog).length) := by
  obtain ⟨here, same⟩ := reading.sameAnswers reached number
  obtain ⟨sameConfig, clean⟩ := here.engine
  have separableHere : (reading.run number).collection.Separable := by
    intro name index known
    exact separable name index (same.directory ▸ known)
  have registeredHere := same.registeredQuery registered
  obtain ⟨result, answered, shows⟩ := (reading.run number).engine.execute_shows clean
    here.coherent.collection separableHere (reading.now number) (query.onPage size number)
    (by rw [sameConfig]; exact valid)
    ⟨registeredHere.sort, registeredHere.indexes, registeredHere.filters⟩
  have matching : (query.onPage size number).matching
      (reading.run number).engine.collection.catalog = query.matching r.catalog :=
    same.matching query
  have few := length_le_of_nodup (query.nodup_matching r.catalog)
  have offset : (UInt64.ofNat (number * size.toNat)).toNat = number * size.toNat :=
    UInt64.toNat_ofNat_of_lt' (by rw [UInt64.size]; omega)
  have limit : min size config.maxLimit = size := if_pos within
  rw [sameConfig, matching] at shows
  have ids := shows.ids
  have hasMore := shows.hasMore
  simp only [Query.page, Query.onPage, Option.getD_some, limit, offset] at ids hasMore
  refine ⟨result, answered, ids, ?_⟩
  rw [hasMore, decide_eq_true_eq]
  simp only [Page.wanted, addSaturating, maxWord, offset, Nat.succ_mul]
  omega

end Reading

/-- In every run, a valid query over registered names is read in as many pages as
its matches take: each is answered, all but the last announce more, and together
they are the matches, none of which occurs twice. -/
theorem pages_tile {config : Config} {r : Run} (reached : r.Reached config)
    (separable : r.collection.Separable) {query : Query} (valid : query.fault? config = none)
    (registered : query.Registered r.catalog) {size : UInt64} (positive : 0 < size)
    (within : size ≤ config.maxLimit) (reading : r.Reading query size) :
    ∃ pages : List ResultSet,
      pages.length = pageCount (query.matching r.catalog).length size ∧
      (∀ (number : Nat) (page : ResultSet), pages[number]? = some page →
        reading.answer number = .ok page ∧
        (page.hasMore = true ↔ number + 1 < pages.length)) ∧
      pages.flatMap (·.ids) = query.matching r.catalog ∧
      (query.matching r.catalog).Nodup := by
  let found := query.matching r.catalog
  let count := pageCount found.length size
  have started : ∀ number < count, number * size.toNat ≤ found.length := by
    intro number inside
    cases number with
    | zero => omega
    | succ number =>
        have before := (succ_lt_pageCount positive).mp inside
        omega
  have answered : ∀ number : Nat, ∃ page : ResultSet, number < count →
      reading.answer number = .ok page ∧
      page.ids = (found.drop (number * size.toNat)).take size.toNat ∧
      (page.hasMore = true ↔ number + 1 < count) := by
    intro number
    by_cases inside : number < count
    · obtain ⟨page, answers, ids, hasMore⟩ := reading.answer_eq reached separable valid
        registered within (started number inside)
      exact ⟨page, fun _ => ⟨answers, ids, hasMore.trans (succ_lt_pageCount positive).symm⟩⟩
    · exact ⟨{}, fun given => absurd given inside⟩
  choose page answers using answered
  refine ⟨(List.range count).map page, by simp [count, found], ?_, ?_,
    query.nodup_matching r.catalog⟩
  · intro number result listed
    rw [List.getElem?_map] at listed
    obtain ⟨_, inRange, rfl⟩ := Option.map_eq_some_iff.mp listed
    obtain ⟨inside, rfl⟩ := List.getElem?_eq_some_iff.mp inRange
    rw [List.length_range] at inside
    rw [List.getElem_range, List.length_map, List.length_range]
    obtain ⟨answered, -, hasMore⟩ := answers number inside
    exact ⟨answered, hasMore⟩
  · have slices : ∀ number ∈ List.range count,
        (page number).ids = (found.drop (number * size.toNat)).take size.toNat := by
      intro number inside
      exact (answers number (List.mem_range.mp inside)).2.1
    rw [List.flatMap_map, List.flatMap_congr slices]
    apply flatMap_slices
    exact length_le_pageCount positive

private def trioScored : List Operation :=
  [.createSort "s", .setScore "s" 1 5, .setScore "s" 2 3, .setScore "s" 3 4,
    .createIndex "a", .createIndex "b", .add "a" 1, .add "a" 2, .add "a" 3,
    .add "b" 1, .add "b" 2, .add "b" 3]

private def trioQuery : Query := { sort := "s", indexes := ["a", "b"] }

private def trioRun (r : Run) : Nat → Run
  | 0 => r
  | number + 1 => ([.shutdown, .invalidate "a"] : List Operation).foldl after
      ((trioRun r number).after (.execute 0 (trioQuery.onPage 2 number)))

theorem pages_tile_of_trio :
    ∃ (r : Run) (reading : r.Reading trioQuery 2) (pages : List ResultSet), r.Reached {} ∧
      pages.length = 2 ∧ (∀ (number : Nat) (page : ResultSet), pages[number]? = some page →
        reading.answer number = .ok page) ∧ pages.flatMap (·.ids) = [2, 3, 1] := by
  obtain ⟨e, created, free, registered, matching⟩ : ∃ e, Engine.create {} = .ok e ∧
      (∀ name ∈ (trioScored.foldl after (ofEngine e)).catalog.indexNames,
        HasNoSeparator name) ∧
      trioQuery.Registered (trioScored.foldl after (ofEngine e)).catalog ∧
      trioQuery.matching (trioScored.foldl after (ofEngine e)).catalog = [2, 3, 1] :=
    ⟨_, rfl, by decide +kernel, by decide +kernel, by decide +kernel⟩
  have reached : (trioScored.foldl after (ofEngine e)).Reached {} :=
    ⟨e, created, LeadsTo.refl.foldl (by simp [trioScored, Allows])⟩
  let reading : (trioScored.foldl after (ofEngine e)).Reading trioQuery 2 :=
    { run := trioRun (trioScored.foldl after (ofEngine e))
      now := fun _ => 0
      starts := .refl
      continues := fun _ => LeadsBy.refl.foldl (by simp [Allows, Operation.IsQuiet]) }
  obtain ⟨pages, length, answers, tiles, -⟩ := pages_tile reached
    (Collection.separable_of_indexNames free) (by decide +kernel) registered (by decide)
    (by decide) reading
  rw [matching] at length tiles
  exact ⟨_, reading, pages, reached, by rw [length]; decide,
    fun number page listed => (answers number page listed).1, tiles⟩

end Run

end RankedQuery
