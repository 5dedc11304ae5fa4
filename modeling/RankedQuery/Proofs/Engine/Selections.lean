import RankedQuery.Proofs.Engine.Lending

/-!
# Selections

The names that a query selects are looked up as a set: what is bound, what the cache
is asked for and which missing name is reported do not depend on the order in which
they were selected, nor on how often each was.  Only the allowance of a query counts
every selection.  So requests that select the same names have the same outcome, unless
one of them repeats itself beyond the allowance.  Nor does it matter when they are
executed.
-/

namespace RankedQuery

/-! ## Requests and what they select -/

def Query.Clause.selected? : Clause → Option String
  | .whereIndex name => some name
  | .filter (.set name) => some name
  | _ => none

namespace Query

variable (q : Query)

theorem extend_of_selected {clause : Clause} {name : String}
    (selects : clause.selected? = some name) (indexes : List String) :
    { q with indexes }.extend clause = { q with indexes := indexes ++ [name] } := by
  unfold Clause.selected? at selects
  split at selects <;> cases selects <;> rfl

theorem extend_of_selects_none {clause : Clause} (none : clause.selected? = none)
    (indexes : List String) :
    { q with indexes }.extend clause = { q.extend clause with indexes } := by
  cases clause with
  | whereIndex => cases none
  | filter condition =>
      cases condition with
      | set => cases none
      | ranked | union => rfl
  | limit | offset | desc | includeTotal => rfl

theorem foldl_extend (clauses : List Clause) (indexes : List String) :
    clauses.foldl extend { q with indexes } =
      { (clauses.filter (·.selected?.isNone)).foldl extend q with
        indexes := indexes ++ clauses.filterMap (·.selected?) } := by
  induction clauses generalizing q indexes with
  | nil => simp
  | cons clause clauses ih =>
      rw [List.foldl_cons]
      cases selects : clause.selected? with
      | none =>
          rw [q.extend_of_selects_none selects, ih]
          simp [selects]
      | some name =>
          rw [q.extend_of_selected selects, ih]
          simp [selects]

end Query

namespace Request

def selections (r : Request) : List String := r.clauses.filterMap (·.selected?)

def bare (r : Request) : Request :=
  { r with clauses := r.clauses.filter (·.selected?.isNone) }

theorem query_eq (r : Request) : r.query = { r.bare.query with indexes := r.selections } :=
  Query.foldl_extend { sort := r.sort } r.clauses []

theorem indexes_query (r : Request) : r.query.indexes = r.selections := by rw [query_eq]

/-- The requests say the same, in the same order, apart from their selections, and
select the same names, in any order and each any number of times. -/
structure SelectsAlike (r' r : Request) : Prop where
  bare : r'.bare = r.bare
  names : ∀ name, name ∈ r'.selections ↔ name ∈ r.selections

theorem SelectsAlike.query_eq {r' r : Request} (alike : r'.SelectsAlike r) :
    r'.query = { r.query with indexes := r'.selections } := by
  rw [r'.query_eq, alike.bare, r.query_eq]

theorem SelectsAlike.references_of_perm {r' r : Request} (alike : r'.SelectsAlike r)
    (perm : r'.selections.Perm r.selections) : r'.query.references = r.query.references := by
  have filters : r'.query.filters = r.query.filters := by rw [alike.query_eq]
  rw [Query.references_eq, Query.references_eq, r'.indexes_query, r.indexes_query,
    perm.length_eq, filters]

end Request

/-! ## Malformed queries -/

namespace Query

variable {q : Query} {config : Config} {indexes : List String}

theorem fault?_congr (names : ∀ name, name ∈ indexes ↔ name ∈ q.indexes)
    (counts : { q with indexes }.references = q.references ∨
      { q with indexes }.references ≤ config.maxIndexesPerQuery.toNat ∧
        q.references ≤ config.maxIndexesPerQuery.toNat) :
    { q with indexes }.fault? config = q.fault? config := by
  have empty : indexes.any (· = "") = q.indexes.any (· = "") := by
    rw [Bool.eq_iff_iff, List.any_eq_true, List.any_eq_true]
    simp only [names]
  unfold fault?
  rw [empty]
  rcases counts with same | ⟨within, within'⟩
  · rw [same]
  · rw [if_neg (Nat.not_lt.mpr within), if_neg (Nat.not_lt.mpr within')]

/-- A query that says too little is not asked how much it selects. -/
theorem fault?_of_too_little (little : q.sort = "" ∨ .union [] ∈ q.filters) :
    { q with indexes }.fault? config = q.fault? config := by
  unfold fault?
  rcases little with sort | union
  · rw [if_pos sort, if_pos sort]
  · have any : q.filters.any (· = .union []) = true := by
      rw [List.any_eq_true]
      exact ⟨_, union, decide_eq_true rfl⟩
    simp only [any, if_true]

theorem fault?_of_too_many (sort : q.sort ≠ "") (unions : .union [] ∉ q.filters)
    (many : config.maxIndexesPerQuery.toNat < q.references) :
    q.fault? config = some (.tooManyIndexes q.references config.maxIndexesPerQuery) := by
  have none : ¬ q.filters.any (· = .union []) = true := by
    simpa [List.any_eq_true] using unions
  unfold fault?
  rw [if_neg sort, if_neg none, if_pos many]

end Query

/-! ## The time of execution -/

namespace Collection

section Build

variable {c c' : Collection} {item : Intersection} (catalog : c.catalog = c'.catalog)
  (live : c.cache.isLive item = c'.cache.isLive item)

include catalog live

/-- What a build does to indexes depends on the indexes alone, if it is to be done. -/
theorem catalog_build (now now' : Millis) :
    (c.build now item).catalog = (c'.build now' item).catalog := by
  unfold build
  rw [live]
  split
  next =>
    dsimp only [onCache]
    rw [catalog]
    split <;> rfl
  next => exact catalog

theorem catalog_requestBuild (accepting : c.cache.accepting = c'.cache.accepting)
    (now now' : Millis) :
    (c.requestBuild now item).catalog = (c'.requestBuild now' item).catalog := by
  unfold requestBuild
  dsimp only [onCache, Cache.claim]
  rw [show (c.cache.setStage item.key (.waiting true)).accepting =
    (c'.cache.setStage item.key (.waiting true)).accepting from accepting]
  split
  next =>
    refine catalog_build ?_ ?_ now now'
    · exact catalog
    · exact ((Cache.isLive_setStage ..).trans live).trans (Cache.isLive_setStage ..).symm
  next => exact catalog

end Build

variable (c : Collection) (now now' : Millis)

theorem enter_fst (key : String) (sources : List Source) :
    (c.enter now key sources).1 = (c.catalog.addIntersection key sources).1 := rfl

theorem catalog_enter (key : String) (sources : List Source) :
    (c.enter now key sources).2.catalog = (c.catalog.addIntersection key sources).2 := rfl

theorem accepting_enter (key : String) (sources : List Source) :
    (c.enter now key sources).2.cache.accepting = c.cache.accepting := rfl

theorem catalog_requestBuild_enter (key : String) (sources : List Source) :
    ((c.enter now key sources).2.requestBuild now (c.enter now key sources).1).catalog =
      ((c.enter now' key sources).2.requestBuild now' (c.enter now' key sources).1).catalog := by
  have live := (c.awaits_enter now key sources).isLive
  have live' := (c.awaits_enter now' key sources).isLive
  rw [enter_fst] at live live' ⊢
  rw [enter_fst]
  apply catalog_requestBuild
  · rw [catalog_enter, catalog_enter]
  · rw [live, live']
  · rw [accepting_enter, accepting_enter]

theorem get_time (names : List String) (directory : Directory) :
    (c.get now names directory).1 = (c.get now' names directory).1 ∧
      (c.get now names directory).2.catalog = (c.get now' names directory).2.catalog := by
  unfold get
  dsimp only
  split
  next =>
    split
    next => exact ⟨rfl, rfl⟩
    next =>
      refine ⟨rfl, ?_⟩
      split
      next => rfl
      next => exact catalog_requestBuild rfl rfl rfl now now'
  next =>
    split
    next => exact ⟨rfl, rfl⟩
    next => exact ⟨rfl, c.missed.catalog_requestBuild_enter now now' _ _⟩

theorem bindSelected_time (names : List String) :
    (c.bindSelected now names).1 = (c.bindSelected now' names).1 ∧
      (c.bindSelected now names).2.catalog = (c.bindSelected now' names).2.catalog := by
  obtain ⟨answer, catalog⟩ := c.get_time now now' names c.catalog.directory
  unfold bindSelected
  split
  next => exact ⟨rfl, rfl⟩
  next => exact ⟨rfl, rfl⟩
  next =>
    cases got : c.get now names c.catalog.directory with
    | mk hit after =>
        cases got' : c.get now' names c.catalog.directory with
        | mk hit' after' =>
            simp only [got, got'] at answer catalog
            subst answer
            cases hit with
            | error => exact ⟨rfl, catalog⟩
            | ok found => cases found <;> simp only [catalog, and_self]

theorem prepare_time (config : Config) (q : Query) :
    (c.prepare config now q).1 = (c.prepare config now' q).1 ∧
      (c.prepare config now q).2.catalog = (c.prepare config now' q).2.catalog := by
  obtain ⟨answer, catalog⟩ := c.bindSelected_time now now' (canonicalNames q.indexes)
  constructor
  · simp only [prepare_fst, answer, catalog]
  · rw [prepare_snd_eq, prepare_snd_eq]
    split
    next => exact catalog
    next => rfl

end Collection

/-! ## Outcomes -/

namespace Engine

variable (e : Engine)

theorem fill_fst_congr {c c' : Collection} (catalog : c.catalog = c'.catalog) (q : Query)
    (prepared : Prepared) :
    (fill { e with collection := c } q prepared).1 =
      (fill { e with collection := c' } q prepared).1 := by
  unfold fill
  dsimp only
  rw [catalog]
  split <;> rfl

theorem execute_time (now now' : Millis) (q : Query) :
    (e.execute now q).1 = (e.execute now' q).1 := by
  obtain ⟨answer, catalog⟩ := e.collection.prepare_time now now' e.config q
  unfold execute
  split
  next => rfl
  next =>
    cases prepares : e.collection.prepare e.config now q with
    | mk ready after =>
        cases prepares' : e.collection.prepare e.config now' q with
        | mk ready' after' =>
            simp only [prepares, prepares'] at answer catalog
            subst answer
            cases ready with
            | error => rfl
            | ok prepared => exact e.fill_fst_congr catalog q prepared

/-- Selections enter into what a query does by the set of their names, and else only
into whether it is at fault. -/
theorem execute_congr (now : Millis) {q : Query} {indexes : List String}
    (names : ∀ name, name ∈ indexes ↔ name ∈ q.indexes)
    (fault : { q with indexes }.fault? e.config = q.fault? e.config) :
    e.execute now { q with indexes } = e.execute now q := by
  have prepares : e.collection.prepare e.config now { q with indexes } =
      e.collection.prepare e.config now q := by
    unfold Collection.prepare
    rw [canonicalNames_congr names]
  unfold execute
  rw [fault, prepares]
  -- The query is reset as it goes back, so its pool cannot tell the two apart either.
  split <;> rfl

/-- Whenever the two queries are executed the answers are the same, and at the same
time they also leave the same engine. -/
structure SameOutcome (q q' : Query) : Prop where
  answer : ∀ now now', (e.execute now q).1 = (e.execute now' q').1
  engine : ∀ now, (e.execute now q).2 = (e.execute now q').2

theorem sameOutcome_of_fault {q : Query} {indexes : List String}
    (names : ∀ name, name ∈ indexes ↔ name ∈ q.indexes)
    (fault : { q with indexes }.fault? e.config = q.fault? e.config) :
    e.SameOutcome { q with indexes } q where
  answer now now' := by rw [e.execute_congr now names fault, e.execute_time now now']
  engine now := by rw [e.execute_congr now names fault]

/-- In every state, requests that differ only in the order of their selections have
the same outcome.  Requests that also select names more than once have the same
outcome if both stay within the allowance, which counts every selection, or are
refused before it is looked at.  Any other request beyond the allowance is refused for
that. -/
theorem outcome_of_selections {r' r : Request} (alike : r'.SelectsAlike r) :
    (r'.selections.Perm r.selections → e.SameOutcome r'.query r.query) ∧
    (r'.query.references ≤ e.config.maxIndexesPerQuery.toNat →
      r.query.references ≤ e.config.maxIndexesPerQuery.toNat →
      e.SameOutcome r'.query r.query) ∧
    (r.query.sort = "" ∨ .union [] ∈ r.query.filters → e.SameOutcome r'.query r.query) ∧
    (r'.query.sort ≠ "" → .union [] ∉ r'.query.filters →
      e.config.maxIndexesPerQuery.toNat < r'.query.references →
      ∀ now, e.execute now r'.query =
        (.error (.tooManyIndexes r'.query.references e.config.maxIndexesPerQuery),
          e.closeQuery r'.query)) := by
  have names : ∀ name, name ∈ r'.selections ↔ name ∈ r.query.indexes := by
    rw [r.indexes_query]
    exact alike.names
  refine ⟨fun perm => ?_, fun within' within => ?_, fun little => ?_,
    fun sort unions many now => ?_⟩
  · have counts := alike.references_of_perm perm
    rw [alike.query_eq] at counts ⊢
    exact e.sameOutcome_of_fault names (Query.fault?_congr names (.inl counts))
  · rw [alike.query_eq] at within' ⊢
    exact e.sameOutcome_of_fault names (Query.fault?_congr names (.inr ⟨within', within⟩))
  · rw [alike.query_eq]
    exact e.sameOutcome_of_fault names (Query.fault?_of_too_little little)
  · exact e.execute_of_fault now r'.query (Query.fault?_of_too_many sort unions many)

end Engine

namespace Run

private def pairSelected : List Operation :=
  [.createSort "s", .setScore "s" 1 5, .setScore "s" 2 3, .createIndex "a", .createIndex "b",
    .add "a" 1, .add "a" 2, .add "b" 1]

private def selectedOnce : Request :=
  { sort := "s", clauses := [.whereIndex "a", .filter (.ranked "s" (.lessThan 9)),
      .whereIndex "b"] }

private def selectedAgain : Request :=
  { sort := "s", clauses := [.filter (.set "b"), .whereIndex "a",
      .filter (.ranked "s" (.lessThan 9)), .whereIndex "b"] }

theorem outcome_of_selections_of_pair :
    ∃ (r : Run) (result : ResultSet), r.Reached {} ∧ selectedAgain.SelectsAlike selectedOnce ∧
      selectedAgain.selections = ["b", "a", "b"] ∧ selectedOnce.selections = ["a", "b"] ∧
      (r.engine.execute 0 selectedAgain.query).1 = .ok result ∧ result.ids = [1] ∧
      (r.engine.execute 7 selectedOnce.query).1 = .ok result ∧
      (r.engine.execute 0 selectedAgain.query).2 =
        (r.engine.execute 0 selectedOnce.query).2 := by
  obtain ⟨e, created, free, registered, matching⟩ : ∃ e, Engine.create {} = .ok e ∧
      (∀ name ∈ (pairSelected.foldl after (ofEngine e)).catalog.indexNames,
        HasNoSeparator name) ∧
      selectedAgain.query.Registered (pairSelected.foldl after (ofEngine e)).catalog ∧
      selectedAgain.query.matching (pairSelected.foldl after (ofEngine e)).catalog = [1] :=
    ⟨_, rfl, by decide +kernel, by decide +kernel, by decide +kernel⟩
  have reached : (pairSelected.foldl after (ofEngine e)).Reached {} :=
    ⟨e, created, LeadsTo.refl.foldl (by simp [pairSelected, Allows])⟩
  have names : ∀ name, name ∈ ["b", "a", "b"] ↔ name ∈ ["a", "b"] := by
    intro name
    simp only [List.mem_cons, List.not_mem_nil, or_false]
    tauto
  have alike : selectedAgain.SelectsAlike selectedOnce := ⟨by decide, names⟩
  have allowed := reached.engine.1
  obtain ⟨-, repeats, -⟩ :=
    (pairSelected.foldl after (ofEngine e)).engine.outcome_of_selections alike
  have outcome := repeats (by rw [allowed]; decide +kernel) (by rw [allowed]; decide +kernel)
  obtain ⟨result, answered, shows⟩ := reached.execute_shows
    (Collection.separable_of_indexNames free) 0 (by decide +kernel) registered
  have ids := shows.ids
  rw [matching] at ids
  exact ⟨_, result, reached, alike, rfl, rfl, answered, ids.trans (by decide +kernel),
    (outcome.answer 0 7).symm.trans answered, outcome.engine 0⟩

private def roomForTwo : Config := { maxIndexesPerQuery := 2 }

private def aloneOnce : Request := { sort := "s", clauses := [.whereIndex "a"] }

private def aloneThrice : Request :=
  { sort := "s", clauses := List.replicate 3 (.whereIndex "a") }

theorem not_outcome_of_repetition :
    ¬ ∀ (config : Config) (r : Run), r.Reached config → ∀ q' q : Request, q'.SelectsAlike q →
      ∀ now, (r.engine.execute now q'.query).1 = (r.engine.execute now q.query).1 := by
  intro insensitive
  obtain ⟨e, created, free, registered⟩ : ∃ e, Engine.create roomForTwo = .ok e ∧
      (∀ name ∈ (pairSelected.foldl after (ofEngine e)).catalog.indexNames,
        HasNoSeparator name) ∧
      aloneOnce.query.Registered (pairSelected.foldl after (ofEngine e)).catalog :=
    ⟨_, rfl, by decide +kernel, by decide +kernel⟩
  have reached : (pairSelected.foldl after (ofEngine e)).Reached roomForTwo :=
    ⟨e, created, LeadsTo.refl.foldl (by simp [pairSelected, Allows])⟩
  have alike : aloneThrice.SelectsAlike aloneOnce :=
    ⟨by decide, fun name => by simp [Request.selections, aloneThrice, aloneOnce]⟩
  have fault : aloneThrice.query.fault? roomForTwo = some (.tooManyIndexes 3 2) := by
    decide +kernel
  rw [← reached.engine.1] at fault
  obtain ⟨result, answered, -⟩ := reached.execute_shows
    (Collection.separable_of_indexNames free) 0 (by decide +kernel) registered
  have same := insensitive roomForTwo _ reached aloneThrice aloneOnce alike 0
  rw [Engine.execute_of_fault _ 0 _ fault, answered] at same
  cases same

end Run

end RankedQuery
