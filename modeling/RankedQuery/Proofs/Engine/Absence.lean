import RankedQuery.Proofs.Engine.Documents
import RankedQuery.Proofs.Engine.Failures
import RankedQuery.Proofs.Engine.Results

/-!
# Documents that are out of reach

A document that is in no registered index, in the result of no built entry and in
no dynamic sort is shown by no query that asks for members of an index or follows a
dynamic sort.  Removing a document puts it out of reach in every run, and it leaves
every other document where it was.
-/

namespace RankedQuery

/-! ## Restrictions -/

/-- The condition asks for members of indexes, or for scores in a dynamic sort. -/
def Condition.Restricts (c : Catalog) : Condition → Prop
  | ranked sort _ =>
      ∃ handle, c.sort? sort = some handle ∧ (c.rankings.read handle).isStatic = false
  | set _ => True
  | union _ => True

def Query.Restricts (q : Query) (c : Catalog) : Prop :=
  q.indexes ≠ [] ∨ (∃ filter ∈ q.filters, filter.Restricts c) ∨
    ∃ sort, c.sort? q.sort = some sort ∧ (c.rankings.read sort).isStatic = false

namespace Collection

structure Lacks (c : Collection) (id : DocId) : Prop where
  members : ∀ (name : String) (index : Handle Index), c.catalog.directory[name]? = some index →
    c.catalog.holds index id = false
  results : ∀ item, c.cache.HasBuilt item → c.catalog.holds item.result id = false
  sorts : ∀ (name : String) (sort : Handle Ranking), c.catalog.sorts[name]? = some sort →
    (c.catalog.rankings.read sort).isStatic = false →
      (c.catalog.rankings.read sort).score? id = none

namespace Lacks

variable {c : Collection} {id : DocId} (lacks : c.Lacks id)

include lacks

theorem member (name : String) : c.catalog.member name id = false := by
  unfold Catalog.member Catalog.index?
  cases registered : c.catalog.directory[name]? with
  | none => rfl
  | some index => exact lacks.members name index registered

theorem condition {condition : Condition} (restricts : condition.Restricts c.catalog) :
    condition.holds c.catalog id = false := by
  cases condition with
  | ranked sort test =>
      obtain ⟨handle, registered, free⟩ := restricts
      simp [Condition.holds, Catalog.scoreIn, registered, lacks.sorts sort handle registered free]
  | set index => exact lacks.member index
  | union indexes => simp [Condition.holds, lacks.member]

theorem prepared (coherent : c.Coherent) {config : Config} {now : Millis} {query : Query}
    {prepared : Prepared} {after : Collection}
    (prepares : c.prepare config now query = (.ok prepared, after))
    (restricts : query.Restricts c.catalog) :
    ∃ (criteria : List Criterion) (length : UInt64),
      prepared.conditions = criteria.map (·.boundIn after.catalog) ∧
      prepared.plan = config.planner.plan prepared.conditions length ∧
      (id ∈ (after.catalog.rankings.read prepared.sort).ids →
        criteria.all (·.holds after.catalog id) = false) := by
  obtain ⟨selected, filters, sorted, binds, bindFilters, ordered, planned⟩ :=
    prepare_inv prepares
  have same := sameAnswers_bindSelected coherent now (canonicalNames query.indexes)
  rw [binds] at same
  obtain ⟨criteria, rfl, meaning⟩ := bindSelected_ok binds
  obtain ⟨criteria', rfl, -, meaning'⟩ := Condition.bindAll_spec bindFilters
  obtain ⟨arranged, perm, arrangedSame⟩ :=
    Planner.order_boundIn after.catalog (criteria ++ criteria')
  rw [← List.map_append, arrangedSame] at ordered
  refine ⟨arranged, _, ordered, planned, fun ranked => ?_⟩
  rw [perm.all_eq, List.all_append]
  rcases restricts with selects | ⟨filter, listed, restricts⟩ | ⟨sort, registered, free⟩
  · have selected : criteria.all (·.holds after.catalog id) = false := by
      rcases meaning with byName | ⟨index, hit, unchanged, rfl⟩
      · obtain ⟨name, others, names⟩ :=
          List.exists_cons_of_ne_nil (mt canonicalNames_eq_nil.mp selects)
        rw [byName, names, List.all_cons, same.member, lacks.member, Bool.false_and]
      · -- A hit may be the result of an entry over other names, with the same key.
        obtain ⟨entry, found, built, rfl⟩ := get_hit hit
        have keyed := coherent.keyed _ entry found
        rw [unchanged, List.all_cons, List.all_nil, Bool.and_true]
        exact lacks.results entry.item ⟨entry, keyed ▸ found, rfl, built⟩
    rw [selected, Bool.false_and]
  · have fails : filter.holds after.catalog id = false :=
      (same.condition filter id).trans (lacks.condition restricts)
    have unsatisfied : query.filters.all (Condition.holds after.catalog id) = false :=
      List.all_eq_false.mpr ⟨filter, listed, by simp [fails]⟩
    rw [meaning', unsatisfied, Bool.and_false]
  · obtain rfl := Option.some.inj (registered.symm.trans sorted)
    rw [same.rankings, Ranking.mem_ids, lacks.sorts _ _ registered free] at ranked
    cases ranked

end Lacks

end Collection

theorem Engine.not_mem_execute (e : Engine) (clean : e.results.Clean)
    (coherent : e.collection.Coherent) {id : DocId} (lacks : e.collection.Lacks id)
    {now : Millis} {query : Query} {result : ResultSet}
    (answers : (e.execute now query).1 = .ok result)
    (restricts : query.Restricts e.collection.catalog) : id ∉ result.ids := by
  cases valid : query.fault? e.config with
  | some error =>
      rw [e.execute_of_fault now query valid] at answers
      cases answers
  | none =>
      cases prepares : e.collection.prepare e.config now query with
      | mk answer after =>
          cases answer with
          | error error =>
              rw [e.execute_of_unprepared now query valid prepares] at answers
              cases answers
          | ok prepared =>
              obtain ⟨criteria, length, bound, planned, unsatisfied⟩ :=
                lacks.prepared coherent prepares restricts
              obtain ⟨shown, scans, shows, -⟩ := e.config.planner.execute_plan after.catalog
                (after.catalog.rankings.read prepared.sort) criteria (query.page e.config) length
              rw [← bound, ← planned] at scans
              have same := e.execute_fst clean valid prepares scans
              obtain rfl : result = shown := Except.ok.inj (answers.symm.trans same)
              intro inside
              obtain ⟨ranked, satisfied⟩ := List.mem_filter.mp (shows.sublist.subset inside)
              rw [unsatisfied (Direction.mem_arrange.mp ranked)] at satisfied
              cases satisfied

namespace Run

variable {config : Config} {r : Run}

theorem Reached.accessible (reached : r.Reached config) : r.Accessible config := by
  obtain ⟨e, created, leads⟩ := reached
  induction leads with
  | refl => exact .start created
  | step _ allowed ih => exact ih.step (a := .call _) allowed

theorem Reached.not_holds_of_vacant (reached : r.Reached config) {item : Intersection}
    (built : r.cache.HasBuilt item) (vacant : item.sources = []) (id : DocId) :
    r.catalog.holds item.result id = false := by
  obtain ⟨e, created, leads⟩ := reached
  induction leads with
  | refl =>
      obtain ⟨entry, found, -⟩ := built
      rw [Engine.create_eq_ok created] at found
      simp [cache, ofEngine, Collection.ofConfig, Cache.ofConfig] at found
  | @step r op leads allowed ih =>
      -- Built now, the entry is filled from no sources.  Built before, it is out of reach.
      have consistent := (Reached.accessible ⟨e, created, leads⟩).consistent
      by_cases before : r.cache.HasBuilt item
      · have empty := ih before
        obtain ⟨entry, found, rfl, isBuilt⟩ := before
        have secludes : r.collection.Secludes entry.item.result := by
          refine ⟨(consistent.collection.sound _ entry found).hidden, ?_⟩
          intro key other foundOther shared
          obtain rfl := consistent.collection.item_eq foundOther found shared
          exact ⟨isBuilt, vacant⟩
        have same := r.engine.read_access consistent.collection secludes (a := .call op) trivial
        exact (congrArg (Index.contains · id) same).trans empty
      · have holds := Builds.holds (a := .call op) ⟨before, built⟩ consistent allowed id
        rw [vacant] at holds
        exact holds

theorem lacks_of_clears {c c' : Collection} {id : DocId}
    (clears : c.Clears id c.Exposes c.Ranks c') : c'.Lacks id where
  members name index registered := by
    rw [clears.same.directory] at registered
    exact clears.not_holds (.inl ⟨name, registered⟩)
  results item built := by
    rw [Cache.HasBuilt, clears.cache] at built
    exact clears.not_holds (.inr ⟨item, built, rfl⟩)
  sorts name sort registered free := by
    rw [clears.sorts] at registered
    rw [clears.without sort ⟨name, registered⟩] at free ⊢
    rw [Ranking.isStatic_without] at free
    exact Ranking.score?_without_self free id

/-- In every run, removing a document succeeds and comes to the same in whatever
order the registered indexes and sorts are gone through.  Afterwards the document is
out of reach, of restricted queries too; other documents are in the same indexes and
cached results and have the same scores in the same order; nothing else changes, nor
does anything the second time. -/
theorem removes_document_everywhere (reached : r.Reached config) (id : DocId) :
    let r' := r.after (.removeDocument id)
    (∀ (indexes : List (Handle Index)) (sorts : List (Handle Ranking)),
      (∀ index, index ∈ indexes ↔ ∃ name : String, r.catalog.directory[name]? = some index) →
      (∀ sort, sort ∈ sorts ↔ ∃ name : String, r.catalog.sorts[name]? = some sort) →
        r.collection.removeInOrder id indexes sorts = .ok r'.collection) ∧
    r'.collection.Lacks id ∧
    (∀ (now : Millis) (query : Query) (result : ResultSet),
      (r'.engine.execute now query).1 = .ok result → query.Restricts r'.catalog →
        id ∉ result.ids) ∧
    r.collection.Clears id r.collection.Exposes r.collection.Ranks r'.collection ∧
    (∀ other, other ≠ id →
      (∀ index, r'.catalog.holds index other = r.catalog.holds index other) ∧
      ∀ sort, (r'.catalog.rankings.read sort).score? other =
        (r.catalog.rankings.read sort).score? other) ∧
    (∀ sort, (r'.catalog.rankings.read sort).ids.filter (· ≠ id) =
        (r.catalog.rankings.read sort).ids.filter (· ≠ id) ∧
      ((r.catalog.rankings.read sort).isStatic = true →
        r'.catalog.rankings.read sort = r.catalog.rankings.read sort)) ∧
    r'.collection.removeDocument id = r'.collection := by
  intro r'
  have coherent := reached.coherent.collection
  have consistent := reached.accessible.consistent.collection
  have vacant : ∀ item, r.cache.HasBuilt item → item.sources = [] →
      r.catalog.holds item.result id = false :=
    fun item built vacant => reached.not_holds_of_vacant built vacant id
  have clears := Collection.clears_removeDocument coherent consistent id vacant
  have lacks := lacks_of_clears clears
  have reached' : r'.Reached config := reached.leadsTo (.step .refl trivial)
  refine ⟨?_, lacks, ?_, clears, ?_, ?_, ?_⟩
  · intro indexes sorts allIndexes allSorts
    exact Collection.removeInOrder_eq coherent consistent id vacant allIndexes allSorts
  · intro now query result answers restricts
    exact r'.engine.not_mem_execute reached'.engine.2 reached'.coherent.collection lacks answers
      restricts
  · exact fun other apart =>
      ⟨fun index => clears.holds_of_ne index apart, fun sort => clears.score?_of_ne sort apart⟩
  · exact fun sort => ⟨clears.others_ids sort, clears.read_of_static⟩
  · have second := Collection.clears_removeDocument reached'.coherent.collection
      reached'.accessible.consistent.collection id fun item built vacant =>
        reached'.not_holds_of_vacant built vacant id
    exact second.unique (clears.again.congr (fun index _ => (clears.exposes index).symm)
      fun sort => (clears.ranks sort).symm)

private theorem exists_ok_of_any {answer : Except Error ResultSet} {test : ResultSet → Bool}
    (passes : answer.toOption.any test = true) :
    ∃ result, answer = .ok result ∧ test result = true := by
  cases answer with
  | error => cases passes
  | ok result => exact ⟨result, rfl, passes⟩

/-! Two documents are in two indexes with a cached intersection, in a dynamic sort and
in a static one; one of them is removed. -/

private def twoShared : List Operation :=
  [.createSort "s", .setScore "s" 7 5, .setScore "s" 8 3, .loadStaticSort "t" [7, 8],
    .createIndex "a", .createIndex "b", .add "a" 7, .add "a" 8, .add "b" 7, .add "b" 8,
    .execute 0 { sort := "s", indexes := ["a", "b"] }]

private def sharedPair : Intersection := ⟨"a&b", [⟨"a", ⟨0⟩⟩, ⟨"b", ⟨1⟩⟩], ⟨2⟩⟩

private def sharedInStatic : Query := { sort := "t", indexes := ["a", "b"] }

theorem removes_document_everywhere_of_shared :
    ∃ (r : Run) (result : ResultSet), r.Reached {} ∧
      r.cache.HasBuilt sharedPair ∧ r.catalog.holds sharedPair.result 7 = true ∧
      r.collection.removeInOrder 7 r.catalog.directory.values.reverse
        r.catalog.sorts.values.reverse = .ok (r.after (.removeDocument 7)).collection ∧
      (r.after (.removeDocument 7)).catalog.holds sharedPair.result 7 = false ∧
      (r.after (.removeDocument 7)).catalog.holds sharedPair.result 8 = true ∧
      ((r.after (.removeDocument 7)).engine.execute 1 sharedInStatic).1 = .ok result ∧
      8 ∈ result.ids ∧ 7 ∉ result.ids := by
  obtain ⟨e, created, built, held, kept, shows⟩ : ∃ e, Engine.create {} = .ok e ∧
      let r := twoShared.foldl after (ofEngine e)
      r.cache.HasBuilt sharedPair ∧ r.catalog.holds sharedPair.result 7 = true ∧
        r.catalog.holds sharedPair.result 8 = true ∧
        (((r.after (.removeDocument 7)).engine.execute 1 sharedInStatic).1.toOption.any
          (8 ∈ ·.ids)) = true :=
    ⟨_, rfl, by decide +kernel⟩
  have reached : (twoShared.foldl after (ofEngine e)).Reached {} :=
    ⟨e, created, LeadsTo.refl.foldl (by simp [twoShared, Allows])⟩
  generalize twoShared.foldl after (ofEngine e) = r at *
  obtain ⟨inOrder, lacks, hides, clears, others, -⟩ := removes_document_everywhere reached 7
  obtain ⟨result, answered, listed⟩ := exists_ok_of_any shows
  have still : (r.after (.removeDocument 7)).cache.HasBuilt sharedPair :=
    (Cache.hasBuilt_congr (congrArg Cache.lookup clears.cache)).mpr built
  refine ⟨r, result, reached, built, held, ?_, lacks.results sharedPair still, ?_, answered,
    of_decide_eq_true listed, ?_⟩
  · exact inOrder _ _ (fun _ => List.mem_reverse.trans mem_values)
      fun _ => List.mem_reverse.trans mem_values
  · rw [(others 8 (by decide)).1, kept]
  · exact hides 1 sharedInStatic result answered (.inl (by decide))

end Run

end RankedQuery
