import RankedQuery.Proofs.Cache.Transparency
import RankedQuery.Proofs.Engine.Run
import RankedQuery.Proofs.Plan
import RankedQuery.Proofs.Pool
import RankedQuery.Proofs.Ranking.Scores

/-!
# Answers

What a query asks for can be said by names alone: the documents of its sort that
are members of the selected indexes and satisfy the filters.  An engine finds
them in many ways, through one index or several, through the cache or past it,
by listing or by walking.  In every run all of these give the same answer.
-/

namespace RankedQuery

/-! ## The answer by names -/

/-- The documents of a ranking, read off its map of scores if it is dynamic and
off its positions if it is static. -/
def Ranking.listing (r : Ranking) : List DocId :=
  match r.order with
  | .dynamic d => ScoreMap.inOrder d.scores
  | .static s => s.toList

theorem Ranking.ids_eq_listing : ∀ r : Ranking, r.ids = r.listing
  | ⟨_, .dynamic d⟩ => d.ids_eq_inOrder
  | ⟨_, .static _⟩ => rfl

def Catalog.listing (c : Catalog) (sort : String) : List DocId :=
  match c.sort? sort with
  | some handle => (c.rankings.read handle).listing
  | none => []

namespace Query

def matching (q : Query) (c : Catalog) : List DocId :=
  (q.direction.arrange (c.listing q.sort)).filter fun id =>
    q.indexes.all (c.member · id) && q.filters.all (·.holds c id)

theorem nodup_matching (q : Query) (c : Catalog) : (q.matching c).Nodup := by
  have listed : (c.listing q.sort).Nodup := by
    unfold Catalog.listing
    split
    · rw [← Ranking.ids_eq_listing]
      exact Ranking.nodup_ids _
    · exact List.nodup_nil
  exact (Direction.nodup_arrange listed).filter _

structure Registered (q : Query) (c : Catalog) : Prop where
  sort : (c.sort? q.sort).isSome = true
  indexes : ∀ name ∈ q.indexes, (c.index? name).isSome = true
  filters : ∀ filter ∈ q.filters, filter.Registered c

instance (q : Query) (c : Catalog) : Decidable (q.Registered c) :=
  decidable_of_iff ((c.sort? q.sort).isSome = true ∧
      (∀ name ∈ q.indexes, (c.index? name).isSome = true) ∧
      ∀ filter ∈ q.filters, filter.Registered c)
    ⟨fun ⟨sort, indexes, filters⟩ => ⟨sort, indexes, filters⟩,
      fun ⟨sort, indexes, filters⟩ => ⟨sort, indexes, filters⟩⟩

end Query

/-! ## Selected indexes -/

namespace Collection

/-- No registered index has the separator of keys in its name. -/
def Separable (c : Collection) : Prop :=
  ∀ (name : String) (index : Handle Index), c.catalog.directory[name]? = some index →
    HasNoSeparator name

theorem separable_of_indexNames {c : Collection}
    (free : ∀ name ∈ c.catalog.indexNames, HasNoSeparator name) : c.Separable := by
  intro name index known
  apply free
  rw [Catalog.indexNames, Std.ExtTreeMap.mem_keys, Std.ExtTreeMap.mem_iff_isSome_getElem?]
  exact Option.isSome_of_eq_some known

variable {c : Collection} {names : List String}

theorem bindEach_spec {d : Catalog} {sources : List Source}
    (resolved : d.directory.resolve names = .ok sources) :
    ∃ criteria : List Criterion,
      (do let sources ← d.directory.resolve names
          return (d.bySize sources).map fun source =>
            BoundCondition.ofIndex d source.index) =
        Except.ok (criteria.map (·.boundIn d)) ∧
      criteria.length = names.length ∧
      ∀ id, criteria.all (·.holds d id) = names.all (d.member · id) := by
  obtain ⟨rfl, placed⟩ := Directory.resolve_eq_ok.mp resolved
  have perm : (d.bySize sources).Perm sources := perm_sortStable _ sources
  refine ⟨(d.bySize sources).map fun source => .set source.index, ?_, ?_, fun id => ?_⟩
  · simp only [resolved, bind, Except.bind, pure, Except.pure, List.map_map]
    rfl
  · simp [perm.length_eq]
  · rw [List.all_map, List.all_map, perm.all_eq]
    rw [Bool.eq_iff_iff, List.all_eq_true, List.all_eq_true]
    refine forall_congr' fun source => forall_congr' fun inside => ?_
    simp [Criterion.holds, Catalog.member_of_registered (placed source inside)]

/-- What is built under the key of several names is of these names. -/
def Recognizes (c : Collection) (names : List String) : Prop :=
  2 ≤ (canonicalNames names).length →
    ∀ entry, c.cache.lookup[canonicalKey names]? = some entry → entry.isBuilt = true →
      ∀ name, name ∈ names ↔ name ∈ entry.item.sources.map (·.name)

theorem Recognizes.canonical (recognizes : c.Recognizes names) :
    c.Recognizes (canonicalNames names) := by
  have same : canonicalKey (canonicalNames names) = canonicalKey names :=
    canonicalKey_congr fun _ => mem_canonicalNames
  simp only [Recognizes, same, canonicalNames_idem, mem_canonicalNames]
  exact recognizes

theorem recognizes_of_free (coherent : c.Coherent) (separable : c.Separable)
    (free : ∀ name ∈ names, HasNoSeparator name) : c.Recognizes names := by
  intro several entry found built
  have current := coherent.current _ entry found built
  have keyed : canonicalKey names = canonicalKey (entry.item.sources.map (·.name)) := by
    rw [← coherent.keyed _ entry found]
    exact (coherent.sound _ entry found).key
  have freeSources : ∀ name ∈ entry.item.sources.map (·.name), HasNoSeparator name := by
    intro name listed
    obtain ⟨source, inside, rfl⟩ := List.mem_map.mp listed
    exact separable source.name source.index (current.registered source inside)
  exact canonicalKey_inj free freeSources several keyed

theorem sources_of_hit (coherent : c.Coherent) (recognizes : c.Recognizes names)
    (several : 2 ≤ (canonicalNames names).length) {now : Millis} {directory : Directory}
    {index : Handle Index} (hit : (c.get now names directory).1 = .ok (some index)) :
    ∃ item : Intersection, item.result = index ∧ item.Current c.catalog ∧
      ∀ name, name ∈ names ↔ name ∈ item.sources.map (·.name) := by
  obtain ⟨entry, found, built, rfl⟩ := get_hit hit
  exact ⟨entry.item, rfl, coherent.current _ entry found built,
    recognizes several entry found built⟩

theorem Separable.free_of_registered (separable : c.Separable)
    (registered : ∀ name ∈ names, (c.catalog.directory[name]?).isSome = true) :
    ∀ name ∈ names, HasNoSeparator name := by
  intro name listed
  obtain ⟨index, known⟩ := Option.isSome_iff_exists.mp (registered name listed)
  exact separable name index known

theorem holds_of_hit (coherent : c.Coherent) (separable : c.Separable)
    (registered : ∀ name ∈ names, (c.catalog.directory[name]?).isSome = true)
    (several : 2 ≤ (canonicalNames names).length) {now : Millis} {directory : Directory}
    {index : Handle Index} (hit : (c.get now names directory).1 = .ok (some index))
    (id : DocId) : c.catalog.holds index id = names.all (c.catalog.member · id) := by
  have recognizes := recognizes_of_free coherent separable
    (separable.free_of_registered registered)
  obtain ⟨item, rfl, current, same⟩ := sources_of_hit coherent recognizes several hit
  have any : item.sources ≠ [] := by
    intro none
    obtain ⟨name, listed⟩ := List.exists_mem_of_length_pos (by omega :
      0 < (canonicalNames names).length)
    have source := (same name).mp (mem_canonicalNames.mp listed)
    rw [none] at source
    cases source
  rw [current.members any, Catalog.allHold, Bool.eq_iff_iff, List.all_eq_true,
    List.all_eq_true]
  constructor
  · intro all name listed
    obtain ⟨source, inside, rfl⟩ := List.mem_map.mp ((same name).mp listed)
    rw [Catalog.member_of_registered (current.registered source inside)]
    exact all source inside
  · intro all source inside
    rw [← Catalog.member_of_registered (current.registered source inside)]
    exact all source.name ((same source.name).mpr (List.mem_map_of_mem inside))

theorem get_hit_catalog {now : Millis} {directory : Directory} {index : Handle Index}
    (hit : (c.get now names directory).1 = .ok (some index)) :
    (c.get now names directory).2.catalog = c.catalog := by
  unfold get at hit ⊢
  dsimp only at hit ⊢
  split at hit
  next =>
    split at hit
    next => rfl
    next => cases hit
  next =>
    split at hit
    next => cases hit
    next => cases hit

theorem get_error {now : Millis} {directory : Directory} {error : Error}
    (fails : (c.get now names directory).1 = .error error) :
    directory.resolve (canonicalNames names) = .error error := by
  unfold get at fails
  dsimp only at fails
  split at fails
  next =>
    split at fails
    next => cases fails
    next => cases fails
  next =>
    split at fails
    next resolves =>
      cases fails
      exact resolves
    next => cases fails

theorem get_registered (coherent : c.Coherent) (separable : c.Separable)
    (canonical : canonicalNames names = names) (several : 2 ≤ names.length)
    (registered : ∀ name ∈ names, (c.catalog.directory[name]?).isSome = true)
    (now : Millis) :
    (∃ index, (c.get now names c.catalog.directory).1 = .ok (some index) ∧
      ∀ id, (c.get now names c.catalog.directory).2.catalog.holds index id =
        names.all (c.catalog.member · id)) ∨
    (c.get now names c.catalog.directory).1 = .ok none := by
  cases got : (c.get now names c.catalog.directory).1 with
  | error error =>
      obtain ⟨sources, resolved⟩ := Directory.exists_resolve registered
      have fails := get_error got
      rw [canonical, resolved] at fails
      cases fails
  | ok hit =>
      cases hit with
      | none => exact .inr rfl
      | some index =>
          refine .inl ⟨index, rfl, fun id => ?_⟩
          rw [get_hit_catalog got]
          rw [← canonical] at several
          exact holds_of_hit coherent separable registered several got id

theorem sameAnswers_bindSelected (coherent : c.Coherent) (now : Millis)
    (names : List String) : c.catalog.SameAnswers (c.bindSelected now names).2.catalog := by
  rcases c.bindSelected_snd now names with same | same
  · rw [same]
    exact .refl _
  · rw [same]
    exact sameAnswers_get coherent now names coherent.catalog.known

theorem two_le_length (notNone : names ≠ []) (notOne : ∀ name, names ≠ [name]) :
    2 ≤ names.length := by
  match names, notNone, notOne with
  | [], notNone, _ => exact absurd rfl notNone
  | [name], _, notOne => exact absurd rfl (notOne name)
  | _ :: _ :: _, _, _ => simp

/-- Whatever way the selected indexes are bound, a document satisfies what was
bound exactly if it is a member of all of them. -/
theorem bindSelected_spec (coherent : c.Coherent) (separable : c.Separable)
    (canonical : canonicalNames names = names)
    (registered : ∀ name ∈ names, (c.catalog.directory[name]?).isSome = true)
    (now : Millis) :
    ∃ criteria : List Criterion,
      (c.bindSelected now names).1 =
        .ok (criteria.map (·.boundIn (c.bindSelected now names).2.catalog)) ∧
      (criteria = [] ↔ names = []) ∧
      ∀ id, criteria.all (·.holds (c.bindSelected now names).2.catalog id) =
        names.all (c.catalog.member · id) := by
  have each : ∀ {criteria : List Criterion}, criteria.length = names.length →
      (criteria = [] ↔ names = []) := by
    intro criteria length
    rw [← List.length_eq_zero_iff, length, List.length_eq_zero_iff]
  unfold bindSelected
  split
  next => exact ⟨[], rfl, by simp, fun _ => rfl⟩
  next =>
    obtain ⟨sources, resolved⟩ := Directory.exists_resolve registered
    obtain ⟨criteria, binds, length, meaning⟩ := bindEach_spec resolved
    exact ⟨criteria, binds, each length, meaning⟩
  next notNone notOne =>
    have several := two_le_length notNone notOne
    have same := sameAnswers_get coherent now names coherent.catalog.known
    have answers := get_registered coherent separable canonical several registered now
    cases got : c.get now names c.catalog.directory with
    | mk answer after =>
        simp only [got] at same answers
        rcases answers with ⟨index, rfl, meaning⟩ | rfl
        · refine ⟨[.set index], rfl, iff_of_false (by simp) notNone, fun id => ?_⟩
          rw [List.all_cons, List.all_nil, Bool.and_true]
          exact meaning id
        · -- The miss may have added a result, but no name that was asked for sees it.
          have registeredAfter : ∀ name ∈ names,
              (after.catalog.directory[name]?).isSome = true := by
            rw [same.directory]
            exact registered
          obtain ⟨sources, resolved⟩ := Directory.exists_resolve registeredAfter
          obtain ⟨criteria, binds, length, meaning⟩ := bindEach_spec resolved
          refine ⟨criteria, binds, each length, fun id => ?_⟩
          simp only [meaning, same.member]

/-! ## Prepared queries -/

/-- A query whose names are registered is prepared, with conditions that say what
it says by name. -/
theorem prepare_spec (coherent : c.Coherent) (separable : c.Separable) {query : Query}
    (registered : query.Registered c.catalog) (config : Config) (now : Millis) :
    ∃ (sort : Handle Ranking) (criteria : List Criterion) (after : Collection),
      c.catalog.sort? query.sort = some sort ∧
      c.catalog.SameAnswers after.catalog ∧
      c.prepare config now query = (.ok {
        sort
        conditions := criteria.map (·.boundIn after.catalog)
        plan := config.planner.plan (criteria.map (·.boundIn after.catalog))
          (.ofNat (after.catalog.rankings.read sort).size) }, after) ∧
      (criteria = [] ↔ query.indexes = [] ∧ query.filters = []) ∧
      ∀ id, criteria.all (·.holds after.catalog id) =
        (query.indexes.all (c.catalog.member · id) &&
          query.filters.all (·.holds c.catalog id)) := by
  obtain ⟨sort, known⟩ := Option.isSome_iff_exists.mp registered.sort
  have same := sameAnswers_bindSelected coherent now (canonicalNames query.indexes)
  obtain ⟨selected, binds, none, meaning⟩ := bindSelected_spec coherent separable
    (canonicalNames_idem query.indexes)
    (fun name listed => registered.indexes name (mem_canonicalNames.mp listed)) now
  cases bound : c.bindSelected now (canonicalNames query.indexes) with
  | mk answer after =>
      simp only [bound] at same binds meaning
      subst binds
      obtain ⟨_, bindFilters⟩ := Condition.exists_bindAll (c := after.catalog)
        fun filter listed => same.registered (registered.filters filter listed)
      obtain ⟨filters, rfl, length, filterMeaning⟩ := Condition.bindAll_spec bindFilters
      obtain ⟨criteria, perm, ordered⟩ :=
        Planner.order_boundIn after.catalog (selected ++ filters)
      refine ⟨sort, criteria, after, known, same, ?_, ?_, fun id => ?_⟩
      · unfold prepare
        simp only [Catalog.findSort_eq_ok.mpr known, bound, bindFilters, ← List.map_append,
          ordered]
      · have noFilters : filters = [] ↔ query.filters = [] := by
          rw [← List.length_eq_zero_iff, length, List.length_eq_zero_iff]
        calc
          criteria = [] ↔ selected ++ filters = [] := by
            rw [← List.length_eq_zero_iff, perm.length_eq, List.length_eq_zero_iff]
          _ ↔ selected = [] ∧ filters = [] := List.append_eq_nil_iff
          _ ↔ query.indexes = [] ∧ query.filters = [] :=
            and_congr (none.trans canonicalNames_eq_nil) noFilters
      · rw [perm.all_eq, List.all_append, meaning, filterMeaning, all_canonicalNames]
        rw [show Condition.holds after.catalog id = Condition.holds c.catalog id from
          funext fun filter => same.condition filter id]

end Collection

/-! ## Executed queries -/

namespace Engine

theorem results_fill (e : Engine) (clean : e.results.Clean) (query : Query)
    (prepared : Prepared) : (e.fill query prepared).2.results.Clean := by
  have lent := Pool.clean_checkout clean
  unfold fill
  dsimp only
  split
  · exact lent
  · exact Pool.clean_release lent (ResultSet.reset_eq _)

theorem results_execute (e : Engine) (clean : e.results.Clean) (now : Millis)
    (query : Query) : (e.execute now query).2.results.Clean := by
  unfold execute
  split
  next => exact clean
  next =>
    split
    next => exact clean
    next ready collection _ => exact results_fill { e with collection } clean query ready

theorem results_after (e : Engine) (clean : e.results.Clean) (op : Operation) :
    (e.after op).results.Clean := by
  cases op with
  | execute now query => exact e.results_execute clean now query
  | closeResult result => exact Pool.clean_release clean (ResultSet.reset_eq result)
  | _ => exact clean

theorem config_fill (e : Engine) (query : Query) (prepared : Prepared) :
    (e.fill query prepared).2.config = e.config := by
  unfold fill
  dsimp only
  split <;> rfl

theorem config_after (e : Engine) (op : Operation) : (e.after op).config = e.config := by
  cases op with
  | execute now query =>
      show (e.execute now query).2.config = e.config
      unfold execute
      split
      next => rfl
      next =>
        split
        next => rfl
        next ready collection _ => exact config_fill { e with collection } query ready
  | _ => rfl

theorem fill_fst (e : Engine) (clean : e.results.Clean) (query : Query)
    (prepared : Prepared) {result : ResultSet}
    (scans : prepared.plan.execute e.collection.catalog
      (e.collection.catalog.rankings.read prepared.sort) prepared.conditions
      (query.page e.config) {} = .ok result) :
    (e.fill query prepared).1 = .ok result := by
  have lent : e.results.checkout.1 = {} := Pool.checkout_eq_fresh clean
  unfold fill
  dsimp only
  rw [lent, scans]

theorem execute_fst (e : Engine) (clean : e.results.Clean) {now : Millis} {query : Query}
    (valid : query.fault? e.config = none) {prepared : Prepared} {after : Collection}
    (prepares : e.collection.prepare e.config now query = (.ok prepared, after))
    {result : ResultSet}
    (scans : prepared.plan.execute after.catalog (after.catalog.rankings.read prepared.sort)
      prepared.conditions (query.page e.config) {} = .ok result) :
    (e.execute now query).1 = .ok result := by
  unfold execute
  rw [valid]
  simp only [prepares]
  exact fill_fst { e with collection := after } clean query prepared scans

theorem execute_shows (e : Engine) (clean : e.results.Clean) (coherent : e.collection.Coherent)
    (separable : e.collection.Separable) (now : Millis) (query : Query)
    (valid : query.fault? e.config = none)
    (registered : query.Registered e.collection.catalog) :
    ∃ result, (e.execute now query).1 = .ok result ∧
      result.ShowsPage (query.page e.config) (query.matching e.collection.catalog) := by
  obtain ⟨sort, criteria, after, known, same, prepared, -, meaning⟩ :=
    Collection.prepare_spec coherent separable registered e.config now
  obtain ⟨result, scans, shows, -⟩ := e.config.planner.execute_plan after.catalog
    (after.catalog.rankings.read sort) criteria (query.page e.config)
    (.ofNat (after.catalog.rankings.read sort).size)
  have listing : (after.catalog.rankings.read sort).ids =
      e.collection.catalog.listing query.sort := by
    rw [Ranking.ids_eq_listing, same.rankings, Catalog.listing, known]
  have matching : Scan.matching after.catalog (after.catalog.rankings.read sort) criteria
      query.direction = query.matching e.collection.catalog := by
    rw [Scan.matching, listing, Query.matching]
    exact List.filter_congr fun id _ => meaning id
  rw [← matching]
  exact ⟨result, e.execute_fst clean valid prepared scans, shows⟩

end Engine

namespace Run

theorem Reached.engine {config : Config} {r : Run} (reached : r.Reached config) :
    r.engine.config = config ∧ r.engine.results.Clean := by
  obtain ⟨e, created, leads⟩ := reached
  induction leads with
  | refl =>
      rw [Engine.create_eq_ok created]
      exact ⟨rfl, Pool.clean_ofCapacity _⟩
  | step _ _ ih =>
      obtain ⟨same, clean⟩ := ih
      exact ⟨(Engine.config_after _ _).trans same, Engine.results_after _ clean _⟩

theorem Reached.execute_shows {config : Config} {r : Run} (reached : r.Reached config)
    (separable : r.collection.Separable) (now : Millis) {query : Query}
    (valid : query.fault? config = none) (registered : query.Registered r.catalog) :
    ∃ result, (r.engine.execute now query).1 = .ok result ∧
      result.ShowsPage (query.page config) (query.matching r.catalog) := by
  obtain ⟨rfl, clean⟩ := reached.engine
  exact r.engine.execute_shows clean reached.coherent.collection separable now query valid
    registered

/-- In every run, a valid query over registered names answers with the page of
what it asks for by name, whatever way the engine takes. -/
theorem execute_eq_matching {config : Config} {r : Run} (reached : r.Reached config)
    (separable : r.collection.Separable) (now : Millis) {query : Query}
    (valid : query.fault? config = none) (registered : query.Registered r.catalog) :
    ∃ result, (r.engine.execute now query).1 = .ok result ∧
      result.ids = ((query.matching r.catalog).drop query.offset.toNat).take
        (min (query.limit.getD config.defaultLimit) config.maxLimit).toNat ∧
      result.hasMore = decide (query.offset.toNat +
        (min (query.limit.getD config.defaultLimit) config.maxLimit).toNat <
          (query.matching r.catalog).length) ∧
      result.total = if query.includeTotal then
        some (if query.indexes = [] ∧ query.filters = [] then
            (query.matching r.catalog).length
          else min (query.matching r.catalog).length config.maxTotal.toNat) else none := by
  obtain ⟨rfl, clean⟩ := reached.engine
  obtain ⟨sort, criteria, after, known, same, prepared, empty, meaning⟩ :=
    Collection.prepare_spec reached.coherent.collection separable registered
      r.engine.config now
  have listing : (after.catalog.rankings.read sort).ids = r.catalog.listing query.sort := by
    rw [Ranking.ids_eq_listing, same.rankings, Catalog.listing,
      show r.catalog.sort? query.sort = some sort from known]
    rfl
  have matching : Scan.matching after.catalog (after.catalog.rankings.read sort) criteria
      query.direction = query.matching r.catalog := by
    rw [Scan.matching, listing, Query.matching]
    exact List.filter_congr fun id _ => meaning id
  have few := Scan.length_matching_le after.catalog (after.catalog.rankings.read sort)
    criteria query.direction
  obtain ⟨result, scans, shows, total⟩ := r.engine.config.planner.execute_plan after.catalog
    (after.catalog.rankings.read sort) criteria (query.page r.engine.config)
    (.ofNat (after.catalog.rankings.read sort).size)
  have ids := shows.ids
  have hasMore := shows.hasMore
  simp only [Query.page, matching] at few ids hasMore total
  refine ⟨result, ?_, ids, ?_, ?_⟩
  · exact r.engine.execute_fst clean valid prepared scans
  · rw [hasMore, decide_eq_decide]
    simp only [Page.wanted, addSaturating, maxWord]
    omega
  · rw [total]
    simp only [empty]

private def pairScored : List Operation :=
  [.createSort "s", .setScore "s" 1 5, .setScore "s" 2 3, .setScore "s" 3 4,
    .createIndex "a", .createIndex "b", .add "a" 1, .add "a" 2, .add "b" 1, .add "b" 3]

private def pairQuery : Query :=
  { sort := "s", indexes := ["b", "a"],
    filters := [.ranked "s" (.lessThan 9), .union ["a", "b"]], includeTotal := true }

theorem execute_eq_matching_of_pair :
    ∃ (r : Run) (result : ResultSet), r.Reached {} ∧
      (r.engine.execute 0 pairQuery).1 = .ok result ∧ result.ids = [1] ∧
      result.total = some 1 := by
  obtain ⟨e, created, free, registered, matching⟩ : ∃ e, Engine.create {} = .ok e ∧
      (∀ name ∈ (pairScored.foldl after (ofEngine e)).catalog.indexNames,
        HasNoSeparator name) ∧
      pairQuery.Registered (pairScored.foldl after (ofEngine e)).catalog ∧
      pairQuery.matching (pairScored.foldl after (ofEngine e)).catalog = [1] :=
    ⟨_, rfl, by decide +kernel, by decide +kernel, by decide +kernel⟩
  have reached : (pairScored.foldl after (ofEngine e)).Reached {} :=
    ⟨e, created, LeadsTo.refl.foldl (by simp [pairScored, Allows])⟩
  obtain ⟨result, answered, ids, -, total⟩ := execute_eq_matching reached
    (Collection.separable_of_indexNames free) 0 (by decide +kernel) registered
  rw [matching] at ids total
  exact ⟨_, result, reached, answered, by rw [ids]; decide +kernel,
    by rw [total]; decide +kernel⟩

end Run

end RankedQuery
