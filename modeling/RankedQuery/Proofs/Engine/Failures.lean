import RankedQuery.Proofs.Condition.Mentions
import RankedQuery.Proofs.Engine.Answers
import RankedQuery.Proofs.Engine.Calls

/-!
# Failures of queries

A query fails if it is malformed, and else with the first name it mentions that
is not registered, whether or not the cache knows the selected indexes.  A scan
that was planned never fails.  Whatever happens, a query leaves the collection
as a get does, and goes back to its pool.
-/

namespace RankedQuery

/-! ## Malformed queries -/

namespace Query

variable (q : Query) (config : Config)

def IsMalformed : Prop :=
  q.sort = "" ∨ .union [] ∈ q.filters ∨
    config.maxIndexesPerQuery.toNat <
      q.indexes.length + (q.filters.flatMap (·.mentions)).length ∨
    "" ∈ q.indexes

instance : Decidable (q.IsMalformed config) :=
  inferInstanceAs (Decidable (_ ∨ _ ∨ _ ∨ _))

theorem references_eq :
    q.references = q.indexes.length + (q.filters.flatMap (·.mentions)).length := by
  have counted : ∀ (filters : List Condition) (start : Nat),
      filters.foldl (fun referenced filter => referenced + filter.references) start =
        start + (filters.flatMap (·.mentions)).length := by
    intro filters
    induction filters with
    | nil => simp
    | cons filter filters ih =>
        intro start
        rw [List.foldl_cons, ih, List.flatMap_cons, List.length_append,
          filter.length_mentions]
        omega
  exact counted q.filters q.indexes.length

variable {q config}

theorem fault?_eq_none : q.fault? config = none ↔ ¬ q.IsMalformed config := by
  unfold fault? IsMalformed
  rw [← references_eq]
  split
  next sort => simp [sort]
  next sort =>
    split
    next union => simp_all
    next union =>
      split
      next many => simp [many]
      next many => simp_all

theorem kind_of_fault {error : Error} (fault : q.fault? config = some error) :
    error.kind = .invalidInput := by
  unfold fault? at fault
  repeat' split at fault
  all_goals cases fault
  all_goals rfl

/-- What a query refers to, in the order in which it is resolved: the sort, the
selected indexes sorted and without repetition, the filters. -/
def mentions (q : Query) : List Reference :=
  [.sort q.sort] ++ (canonicalNames q.indexes).map .index ++ q.filters.flatMap (·.mentions)

end Query

/-! ## Missing names -/

theorem Catalog.SameAnswers.firstMissing {c c' : Catalog} (same : c.SameAnswers c')
    (references : List Reference) : c'.firstMissing references = c.firstMissing references := by
  have each : ∀ reference : Reference,
      reference.isRegistered c' = reference.isRegistered c := by
    intro reference
    cases reference with
    | sort name => simp only [Reference.isRegistered, sort?, same.sorts]
    | index name => simp only [Reference.isRegistered, index?, same.directory]
  simp only [Catalog.firstMissing, each]

namespace Collection

variable {c : Collection}

theorem reports_bindSelected (coherent : c.Coherent) {names : List String}
    (canonical : canonicalNames names = names) (now : Millis) :
    ∃ missing, Reports (c.bindSelected now names).1 missing ∧
      (c.Recognizes names → missing = c.catalog.firstMissing (names.map .index)) := by
  unfold bindSelected
  split
  next => exact ⟨none, ⟨[], rfl⟩, fun _ => rfl⟩
  next name => exact ⟨_, (c.catalog.reports_resolve [name]).map _, fun _ => rfl⟩
  next notNone notOne =>
    have same := sameAnswers_get coherent now names coherent.catalog.known
    cases got : c.get now names c.catalog.directory with
    | mk answer after =>
        have answered : (c.get now names c.catalog.directory).1 = answer := by rw [got]
        rw [got] at same
        cases answer with
        | error error =>
            have resolves := get_error answered
            rw [canonical] at resolves
            have reports := c.catalog.reports_resolve names
            rw [resolves] at reports
            exact ⟨_, reports.map fun _ => [], fun _ => rfl⟩
        | ok hit =>
            cases hit with
            | none =>
                exact ⟨_, (after.catalog.reports_resolve names).map _,
                  fun _ => same.firstMissing _⟩
            | some index =>
                refine ⟨none, ⟨_, rfl⟩, fun recognizes => ?_⟩
                have several : 2 ≤ (canonicalNames names).length := by
                  rw [canonical]
                  exact two_le_length notNone notOne
                obtain ⟨item, -, current, listed⟩ :=
                  sources_of_hit coherent recognizes several answered
                symm
                apply (c.catalog.firstMissing_eq_none).mpr
                intro reference inside
                obtain ⟨name, selected, rfl⟩ := List.mem_map.mp inside
                obtain ⟨source, member, rfl⟩ := List.mem_map.mp ((listed name).mp selected)
                exact Option.isSome_of_eq_some (current.registered source member)

theorem prepare_fst (c : Collection) (config : Config) (now : Millis) (query : Query) :
    (c.prepare config now query).1 = do
      let sort ← c.catalog.findSort query.sort
      let selected ← (c.bindSelected now (canonicalNames query.indexes)).1
      let after := (c.bindSelected now (canonicalNames query.indexes)).2
      let filters ← Condition.bindAll after.catalog query.filters
      let conditions := Planner.order (selected ++ filters)
      let length := (after.catalog.rankings.read sort).size
      return { sort, conditions, plan := config.planner.plan conditions (.ofNat length) } := by
  unfold prepare
  cases c.catalog.findSort query.sort with
  | error => rfl
  | ok sort =>
      cases c.bindSelected now (canonicalNames query.indexes) with
      | mk answer after =>
          cases answer with
          | error => rfl
          | ok selected =>
              simp only [bind, Except.bind]
              cases Condition.bindAll after.catalog query.filters <;> rfl

theorem reports_prepare (coherent : c.Coherent) (config : Config) (now : Millis)
    (query : Query) :
    ∃ missing, Reports (c.prepare config now query).1 missing ∧
      (c.Recognizes query.indexes → missing = c.catalog.firstMissing query.mentions) := by
  obtain ⟨missing, reports, first⟩ :=
    reports_bindSelected coherent (canonicalNames_idem query.indexes) now
  have same := sameAnswers_bindSelected coherent now (canonicalNames query.indexes)
  refine ⟨(c.catalog.firstMissing [.sort query.sort]).or (missing.or
    (c.catalog.firstMissing (query.filters.flatMap (·.mentions)))), ?_, fun recognizes => ?_⟩
  · rw [prepare_fst]
    apply (c.catalog.reports_findSort query.sort).bind
    intro sort _
    apply reports.bind
    intro selected _
    rw [← same.firstMissing]
    exact (Condition.reports_bindAll _ query.filters).map _
  · rw [Query.mentions, Catalog.firstMissing_append, Catalog.firstMissing_append,
      Option.or_assoc, first recognizes.canonical]

/-! ## Scans that were planned -/

theorem bindSelected_ok {now : Millis} {names : List String} {selected : List BoundCondition}
    {after : Collection} (binds : c.bindSelected now names = (.ok selected, after)) :
    ∃ criteria : List Criterion, selected = criteria.map (·.boundIn after.catalog) ∧
      ((∀ id, criteria.all (·.holds after.catalog id) =
          names.all (after.catalog.member · id)) ∨
        ∃ index, (c.get now names c.catalog.directory).1 = .ok (some index) ∧
          after.catalog = c.catalog ∧ criteria = [.set index]) := by
  have each : ∀ {d : Catalog} {bound : List BoundCondition},
      (do let sources ← d.directory.resolve names
          return (d.bySize sources).map fun source => BoundCondition.ofIndex d source.index) =
        Except.ok bound →
      ∃ criteria : List Criterion, bound = criteria.map (·.boundIn d) ∧
        ∀ id, criteria.all (·.holds d id) = names.all (d.member · id) := by
    intro d bound binds
    cases resolved : d.directory.resolve names with
    | error => simp [resolved, bind, Except.bind] at binds
    | ok sources =>
        obtain ⟨criteria, answers, -, meaning⟩ := bindEach_spec resolved
        exact ⟨criteria, Except.ok.inj (binds.symm.trans answers), meaning⟩
  unfold bindSelected at binds
  split at binds
  next =>
    cases binds
    exact ⟨[], rfl, .inl fun _ => rfl⟩
  next =>
    obtain ⟨bound, rfl⟩ := Prod.mk.inj binds
    obtain ⟨criteria, same, meaning⟩ := each bound
    exact ⟨criteria, same, .inl meaning⟩
  next =>
    split at binds
    next => cases binds
    next index found answered =>
      have hit : (c.get now names c.catalog.directory).1 = .ok (some index) := by rw [answered]
      have same := get_hit_catalog hit
      rw [answered] at same
      cases binds
      exact ⟨[.set index], rfl, .inr ⟨index, hit, same, rfl⟩⟩
    next =>
      obtain ⟨bound, rfl⟩ := Prod.mk.inj binds
      obtain ⟨criteria, same, meaning⟩ := each bound
      exact ⟨criteria, same, .inl meaning⟩

theorem prepare_inv {config : Config} {now : Millis} {query : Query} {prepared : Prepared}
    {after : Collection} (prepares : c.prepare config now query = (.ok prepared, after)) :
    ∃ selected filters : List BoundCondition,
      c.catalog.sort? query.sort = some prepared.sort ∧
      c.bindSelected now (canonicalNames query.indexes) = (.ok selected, after) ∧
      Condition.bindAll after.catalog query.filters = .ok filters ∧
      prepared.conditions = Planner.order (selected ++ filters) ∧
      prepared.plan = config.planner.plan prepared.conditions
        (.ofNat (after.catalog.rankings.read prepared.sort).size) := by
  unfold prepare at prepares
  split at prepares
  next => cases prepares
  next sort found =>
    split at prepares
    next => cases prepares
    next selected bound binds =>
      split at prepares
      next => cases prepares
      next filters bindFilters =>
        cases prepares
        exact ⟨selected, filters, Catalog.findSort_eq_ok.mp found, binds, bindFilters, rfl, rfl⟩

theorem prepare_ok {config : Config} {now : Millis} {query : Query} {prepared : Prepared}
    {after : Collection} (prepares : c.prepare config now query = (.ok prepared, after)) :
    ∃ (criteria : List Criterion) (length : UInt64),
      prepared.conditions = criteria.map (·.boundIn after.catalog) ∧
      prepared.plan = config.planner.plan prepared.conditions length := by
  obtain ⟨selected, filters, -, binds, bindFilters, ordered, planned⟩ := prepare_inv prepares
  obtain ⟨criteria, rfl, -⟩ := bindSelected_ok binds
  obtain ⟨criteria', rfl, -⟩ := Condition.bindAll_spec bindFilters
  obtain ⟨arranged, -, same⟩ := Planner.order_boundIn after.catalog (criteria ++ criteria')
  rw [← List.map_append, same] at ordered
  exact ⟨arranged, _, ordered, planned⟩

end Collection

/-! ## Executed queries -/

namespace Engine

variable (e : Engine) (now : Millis) (query : Query)

theorem execute_of_fault {error : Error} (fault : query.fault? e.config = some error) :
    e.execute now query = (.error error, e.closeQuery query) := by
  unfold execute
  rw [fault]

theorem execute_of_malformed (malformed : query.IsMalformed e.config) :
    ∃ error, (e.execute now query).1 = .error error ∧ error.kind = .invalidInput := by
  cases fault : query.fault? e.config with
  | none => exact absurd malformed (Query.fault?_eq_none.mp fault)
  | some error =>
      refine ⟨error, ?_, Query.kind_of_fault fault⟩
      rw [e.execute_of_fault now query fault]

theorem execute_of_prepared (clean : e.results.Clean) (valid : query.fault? e.config = none)
    {prepared : Prepared} {after : Collection}
    (prepares : e.collection.prepare e.config now query = (.ok prepared, after)) :
    ∃ result, (e.execute now query).1 = .ok result := by
  obtain ⟨criteria, length, bound, planned⟩ := Collection.prepare_ok prepares
  obtain ⟨result, scans, -⟩ := e.config.planner.execute_plan after.catalog
    (after.catalog.rankings.read prepared.sort) criteria (query.page e.config) length
  rw [← bound, ← planned] at scans
  exact ⟨result, e.execute_fst clean valid prepares scans⟩

theorem execute_of_unprepared (valid : query.fault? e.config = none) {error : Error}
    {after : Collection}
    (fails : e.collection.prepare e.config now query = (.error error, after)) :
    e.execute now query = (.error error, { e with collection := after }.closeQuery query) := by
  unfold execute
  simp only [valid, fails]

theorem reports_execute (clean : e.results.Clean) (coherent : e.collection.Coherent)
    (valid : query.fault? e.config = none) :
    ∃ missing, Reports (e.execute now query).1 missing ∧
      (e.collection.Recognizes query.indexes →
        missing = e.collection.catalog.firstMissing query.mentions) := by
  obtain ⟨missing, reports, first⟩ := Collection.reports_prepare coherent e.config now query
  refine ⟨missing, ?_, first⟩
  cases prepares : e.collection.prepare e.config now query with
  | mk answer after =>
      rw [prepares] at reports
      cases answer with
      | error error =>
          rw [e.execute_of_unprepared now query valid prepares]
          exact reports.map fun _ => {}
      | ok prepared =>
          rw [reports.eq_none]
          exact e.execute_of_prepared now query clean valid prepares

theorem undisturbed_execute (coherent : e.collection.Coherent) :
    e.collection.Undisturbed query.indexes (e.execute now query).2.collection := by
  rcases e.collection_execute now query with same | same
  · rw [same]
    exact .of_sameViews rfl rfl
  · rw [same]
    exact (Collection.undisturbed_get coherent now).of_canonicalNames

theorem queries_execute :
    (e.execute now query).2.queries = e.queries.release query := by
  unfold execute
  split
  next => rfl
  next =>
    split
    next => rfl
    next =>
      simp only [fill, closeQuery]
      split <;> rfl

theorem results_of_error (clean : e.results.Clean) {error : Error}
    (fails : (e.execute now query).1 = .error error) :
    (e.execute now query).2.results = e.results := by
  cases fault : query.fault? e.config with
  | some error => rw [e.execute_of_fault now query fault, closeQuery]
  | none =>
      cases prepares : e.collection.prepare e.config now query with
      | mk answer after =>
          cases answer with
          | error error => rw [e.execute_of_unprepared now query fault prepares, closeQuery]
          | ok prepared =>
              obtain ⟨result, succeeds⟩ := e.execute_of_prepared now query clean fault prepares
              rw [succeeds] at fails
              cases fails

end Engine

namespace Run

private def singleIndexed : List Operation :=
  [.createSort "s", .setScore "s" 1 5, .createIndex "a", .add "a" 1]

private def threeBuilt : List Operation :=
  [.createSort "s", .createIndex "a", .createIndex "b", .createIndex "c",
    .execute 0 { sort := "s", indexes := ["a", "b", "c"] }]

private def pairDropped : List Operation :=
  [.createSort "s", .createIndex "a", .createIndex "b", .takeBuilds false,
    .execute 0 { sort := "s", indexes := ["a", "b"] }, .takeBuilds true]

end Run

end RankedQuery
