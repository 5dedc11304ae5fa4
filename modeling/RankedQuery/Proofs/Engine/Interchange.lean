import RankedQuery.Engine
import RankedQuery.Proofs.Engine.Run
import RankedQuery.Proofs.Ranking.Alike

/-!
# Sorts of either kind are interchangeable

Nothing that reads sorts through handles can tell rankings apart that are alike:
neither bound conditions nor scans nor whole queries.  So a static sort may stand
wherever a dynamic one with the same scores might, and the other way round.
-/

namespace RankedQuery

/-! ## Other rankings behind the same handles -/

def Catalog.withRankings (c : Catalog) (rankings : Store Ranking) : Catalog :=
  { c with rankings }

def Collection.withRankings (c : Collection) (rankings : Store Ranking) : Collection :=
  { c with catalog := c.catalog.withRankings rankings }

def Engine.withRankings (e : Engine) (rankings : Store Ranking) : Engine :=
  { e with collection := e.collection.withRankings rankings }

section

variable {r r' : Ranking} {R R' : Store Ranking}

/-! ## Bound conditions -/

theorem Ranking.Alike.positions (alike : r.Alike r') (window : Option (Score × Score)) :
    r.positions window = r'.positions window := by
  cases window with
  | none => rfl
  | some window => simp only [Ranking.positions, alike.firstPosition, alike.lastPosition]

variable (alike : ∀ sort, (R.read sort).Alike (R'.read sort)) (c : Catalog)

namespace BoundCondition

include alike

theorem ofSort_alike (key : String) (sort : Handle Ranking) (test : ScoreTest) :
    ofSort (c.withRankings R) key sort test = ofSort (c.withRankings R') key sort test := by
  simp only [ofSort, Catalog.withRankings, (alike sort).positions]

theorem score?_alike (condition : BoundCondition) (id : DocId) :
    condition.score? (c.withRankings R) id = condition.score? (c.withRankings R') id := by
  unfold score?
  split
  · simp only [Catalog.withRankings, (alike _).score?]
  · rfl
  · rfl

theorem list_alike (condition : BoundCondition) (direction : Direction) :
    condition.list (c.withRankings R) direction =
      condition.list (c.withRankings R') direction := by
  unfold list
  split
  next sort _ start stop _ =>
    exact congrArg Except.ok (((alike sort).cursor direction).window start stop).rest
  · rfl
  · rfl

end BoundCondition

include alike

theorem acceptsAll_alike (conditions : List BoundCondition) :
    acceptsAll (c.withRankings R) conditions = acceptsAll (c.withRankings R') conditions := by
  funext id
  simp only [acceptsAll, BoundCondition.accepts, BoundCondition.score?_alike alike]

theorem Condition.bind_alike (condition : Condition) :
    condition.bind (c.withRankings R) = condition.bind (c.withRankings R') := by
  cases condition with
  | ranked name test =>
      simp only [Condition.bind, BoundCondition.ofSort_alike alike]
      rfl
  | set name => rfl
  | union names => rfl

theorem Condition.bindAll_alike (conditions : List Condition) :
    bindAll (c.withRankings R) conditions = bindAll (c.withRankings R') conditions := by
  induction conditions with
  | nil => rfl
  | cons condition conditions ih => simp only [bindAll, Condition.bind_alike alike, ih]

/-! ## Scans -/

omit alike in
theorem Scan.sort_alike (same : r.Alike r') (page : Page) (result : ResultSet) :
    sort r page result = sort r' page result := by
  have taken := ((same.cursor page.direction).offset page.offset.toNat).take page.limit.toNat
  simp only [sort, taken.1, taken.2.next.1, same.size]

theorem Scan.survivors_alike (same : r.Alike r') (conditions : List BoundCondition)
    (listed : List DocId) :
    survivors (c.withRankings R) r conditions listed =
      survivors (c.withRankings R') r' conditions listed := by
  simp only [survivors, acceptsAll_alike alike, same.rank?]

theorem Plan.execute_alike (same : r.Alike r') (plan : Plan) (conditions : List BoundCondition)
    (page : Page) (result : ResultSet) :
    plan.execute (c.withRankings R) r conditions page result =
      plan.execute (c.withRankings R') r' conditions page result := by
  cases plan with
  | sort => exact congrArg Except.ok (Scan.sort_alike same page result)
  | indexDriven =>
      cases conditions with
      | nil => exact congrArg Except.ok (Scan.sort_alike same page result)
      | cons driver others =>
          simp only [execute, Scan.indexDriven, BoundCondition.list_alike alike,
            Scan.survivors_alike alike c same]
  | sortDriven =>
      simp only [execute, Scan.sortDriven, acceptsAll_alike alike,
        (same.cursor page.direction).rest]

end

/-! ## Queries -/

namespace Collection

variable (c : Collection) (R R' : Store Ranking) (now : Millis)

theorem build_withRankings (item : Intersection) :
    (c.withRankings R).build now item = (c.build now item).withRankings R := by
  unfold build
  rw [apply_ite (withRankings · R), apply_ite (withRankings · R)]
  rfl

theorem requestBuild_withRankings (item : Intersection) :
    (c.withRankings R).requestBuild now item = (c.requestBuild now item).withRankings R := by
  unfold requestBuild
  rw [apply_ite (withRankings · R), ← build_withRankings]
  rfl

theorem get_withRankings (names : List String) (directory : Directory) :
    (c.withRankings R).get now names directory =
      ((c.get now names directory).1, (c.get now names directory).2.withRankings R) := by
  unfold get
  dsimp only
  have lookup : (c.withRankings R).cache.lookup = c.cache.lookup := rfl
  rw [lookup]
  split
  next entry found =>
    split
    next => rfl
    next =>
      refine congrArg (Prod.mk _) ?_
      rw [apply_ite (withRankings · R), ← requestBuild_withRankings]
      rfl
  next =>
    split
    next => rfl
    next sources _ =>
      exact congrArg (Prod.mk _) (requestBuild_withRankings
        ((c.count _).enter now _ sources).2 R now ((c.count _).enter now _ sources).1)

theorem bindSelected_withRankings (names : List String) :
    (c.withRankings R).bindSelected now names =
      ((c.bindSelected now names).1, (c.bindSelected now names).2.withRankings R) := by
  unfold bindSelected
  split
  next => rfl
  next => rfl
  next =>
    have got := get_withRankings c R now names c.catalog.directory
    rw [show (c.withRankings R).catalog.directory = c.catalog.directory from rfl, got]
    cases c.get now names c.catalog.directory with
    | mk answer after =>
        cases answer with
        | error => rfl
        | ok hit =>
            cases hit with
            | none => rfl
            | some index => rfl

variable {R R'}

theorem prepare_alike (alike : ∀ sort, (R.read sort).Alike (R'.read sort)) (config : Config)
    (q : Query) :
    ∃ after : Collection,
      (c.withRankings R).prepare config now q =
        (((c.withRankings R').prepare config now q).1, after.withRankings R) ∧
      ((c.withRankings R').prepare config now q).2 = after.withRankings R' := by
  unfold prepare
  have found : ∀ R, (c.withRankings R).catalog.findSort q.sort = c.catalog.findSort q.sort :=
    fun _ => rfl
  rw [found, found]
  cases c.catalog.findSort q.sort with
  | error error => exact ⟨c, rfl, rfl⟩
  | ok sort =>
      rw [bindSelected_withRankings, bindSelected_withRankings]
      cases c.bindSelected now (canonicalNames q.indexes) with
      | mk answer after =>
          refine ⟨after, ?_⟩
          cases answer with
          | error error => exact ⟨rfl, rfl⟩
          | ok selected =>
              have bound : Condition.bindAll (after.withRankings R).catalog q.filters =
                  Condition.bindAll (after.withRankings R').catalog q.filters :=
                Condition.bindAll_alike alike after.catalog q.filters
              have size : ((after.withRankings R).catalog.rankings.read sort).size =
                  ((after.withRankings R').catalog.rankings.read sort).size :=
                (alike sort).size
              dsimp only
              rw [bound]
              cases Condition.bindAll (after.withRankings R').catalog q.filters with
              | error error => exact ⟨rfl, rfl⟩
              | ok filters => exact ⟨by simp only [size], rfl⟩

end Collection

namespace Engine

def answers : List (Millis × Query) → Engine → List (Except Error ResultSet)
  | [], _ => []
  | (now, q) :: queries, e => (e.execute now q).1 :: answers queries (e.execute now q).2

def withSort (e : Engine) (sort : Handle Ranking) (ranking : Ranking) : Engine :=
  { e with collection := e.collection.putSort sort ranking }

section

variable {R R' : Store Ranking} (alike : ∀ sort, (R.read sort).Alike (R'.read sort))

include alike

theorem fill_alike (e : Engine) (q : Query) (prepared : Prepared) :
    ∃ (answer : Except Error ResultSet) (after : Engine),
      (e.withRankings R).fill q prepared = (answer, after.withRankings R) ∧
      (e.withRankings R').fill q prepared = (answer, after.withRankings R') := by
  have scanned := Plan.execute_alike alike e.collection.catalog (alike prepared.sort)
    prepared.plan prepared.conditions (q.page e.config) e.results.checkout.1
  unfold fill
  dsimp only [withRankings, Collection.withRankings]
  rw [show (e.collection.catalog.withRankings R).rankings = R from rfl,
    show (e.collection.catalog.withRankings R').rankings = R' from rfl, scanned]
  split
  next result _ => exact ⟨.ok result, { e with results := e.results.checkout.2 }, rfl, rfl⟩
  next error _ =>
    exact ⟨.error error,
      { e with results := e.results.checkout.2 }.closeResult e.results.checkout.1, rfl, rfl⟩

theorem execute_alike (e : Engine) (now : Millis) (q : Query) :
    ∃ (answer : Except Error ResultSet) (after : Engine),
      (e.withRankings R).execute now q = (answer, after.withRankings R) ∧
      (e.withRankings R').execute now q = (answer, after.withRankings R') := by
  unfold execute
  rw [show (e.withRankings R).config = e.config from rfl,
    show (e.withRankings R').config = e.config from rfl]
  cases q.fault? e.config with
  | some error => exact ⟨.error error, e.closeQuery q, rfl, rfl⟩
  | none =>
      obtain ⟨after, prepared, common⟩ := e.collection.prepare_alike now alike e.config q
      dsimp only [withRankings]
      rw [prepared]
      cases step : (e.collection.withRankings R').prepare e.config now q with
      | mk answer after' =>
          obtain rfl : after' = after.withRankings R' := by rw [step] at common; exact common
          cases answer with
          | error error =>
              exact ⟨.error error, { e with collection := after }.closeQuery q, rfl, rfl⟩
          | ok prepared =>
              obtain ⟨answer, filled, first, second⟩ :=
                fill_alike alike { e with collection := after } q prepared
              refine ⟨answer, filled.closeQuery q, ?_, ?_⟩
              · exact congrArg (fun step => (step.1, step.2.closeQuery q)) first
              · exact congrArg (fun step => (step.1, step.2.closeQuery q)) second

theorem answers_alike (e : Engine) (queries : List (Millis × Query)) :
    (e.withRankings R).answers queries = (e.withRankings R').answers queries := by
  induction queries generalizing e with
  | nil => rfl
  | cons first queries ih =>
      obtain ⟨now, q⟩ := first
      obtain ⟨answer, after, step, step'⟩ := execute_alike alike e now q
      rw [answers, answers, step, step']
      exact congrArg (answer :: ·) (ih after)

end

end Engine

/-! ## Interchange -/

theorem Store.read_update_alike {r r' : Ranking} (alike : r.Alike r') (R : Store Ranking)
    (sort other : Handle Ranking) :
    ((R.update sort fun _ => r).read other).Alike ((R.update sort fun _ => r').read other) := by
  simp only [Store.read, Store.update, Array.getElem?_modify]
  split
  next =>
    cases R.cells[other.slot]? with
    | none => exact .refl _
    | some _ => exact alike
  next => exact .refl _

/-- Whatever is asked of one ranking, of a cursor over it, or of conditions and
queries that reach it through a handle, the other gives the same answer. -/
structure Ranking.Interchangeable (r r' : Ranking) : Prop where
  size : r.size = r'.size
  contains : ∀ id, r.contains id = r'.contains id
  rank? : ∀ id, r.rank? id = r'.rank? id
  score? : ∀ id, r.score? id = r'.score? id
  lowerBound : ∀ score, r.lowerBound score = r'.lowerBound score
  upperBound : ∀ score, r.upperBound score = r'.upperBound score
  firstPosition : ∀ score, r.firstPosition score = r'.firstPosition score
  lastPosition : ∀ score, r.lastPosition score = r'.lastPosition score
  cursor : ∀ direction actions,
    (r.cursor direction).answers actions = (r'.cursor direction).answers actions
  bound : ∀ (c : Catalog) (sort : Handle Ranking) (key : String) (test : ScoreTest),
    let read := c.updateSort sort fun _ => r
    let read' := c.updateSort sort fun _ => r'
    let condition := BoundCondition.ofSort read key sort test
    condition = .ofSort read' key sort test ∧
      (∀ id, condition.score? read id = condition.score? read' id) ∧
      (∀ id, condition.accepts read id = condition.accepts read' id) ∧
      ∀ direction, condition.list read direction = condition.list read' direction
  queries : ∀ (e : Engine) (sort : Handle Ranking) (queries : List (Millis × Query)),
    (e.withSort sort r).answers queries = (e.withSort sort r').answers queries

theorem Ranking.Alike.interchangeable {r r' : Ranking} (alike : r.Alike r') :
    r.Interchangeable r' where
  size := alike.size
  contains := alike.contains
  rank? := alike.rank?
  score? := alike.score?
  lowerBound := alike.lowerBound
  upperBound := alike.upperBound
  firstPosition := alike.firstPosition
  lastPosition := alike.lastPosition
  cursor direction := (alike.cursor direction).answers
  bound c sort key test := by
    have stores := Store.read_update_alike alike c.rankings sort
    refine ⟨BoundCondition.ofSort_alike stores c key sort test, fun id => ?_, fun id => ?_,
      fun direction => ?_⟩
    · exact BoundCondition.score?_alike stores c _ id
    · exact congrArg Option.isSome (BoundCondition.score?_alike stores c _ id)
    · exact BoundCondition.list_alike stores c _ direction
  queries e sort queries :=
    Engine.answers_alike (Store.read_update_alike alike e.collection.catalog.rankings sort)
      e queries

/-- A static ranking, loaded and pushed to in any way, may stand for a dynamic one
whose documents were given their positions as scores in any order, whatever heights
were drawn for them. -/
theorem Ranking.static_interchangeable (name name' : String) (ids : List DocId)
    (pushes : List Push) (maxLevel : Nat) (draws : DocId → Nat) {placed : List (DocId × Nat)}
    (perm : placed.Perm (Push.allToList name pushes ids.eraseDups).2.zipIdx) :
    ∃ r r' : Ranking,
      Push.allToRanking pushes (.static name ids) =
        some ((Push.allToList name pushes ids.eraseDups).1, r) ∧
      r.ids = (Push.allToList name pushes ids.eraseDups).2 ∧
      ScoreChange.allToRanking (ScoreChange.ofPositions draws placed)
          (.dynamic name' maxLevel) =
        .ok ((ScoreChange.allToMap (ScoreChange.ofPositions draws placed) ∅).1, r') ∧
      r.Interchangeable r' := by
  obtain ⟨s, pushed, list⟩ := Push.allToRanking_static pushes name (.load ids)
  rw [StaticRanking.toList_load] at pushed list
  rw [← list] at perm
  obtain ⟨r', scored, alike⟩ := s.alike_dynamic name name' maxLevel draws perm
  exact ⟨⟨name, .static s⟩, r', pushed, list, scored, alike.interchangeable⟩

theorem Ranking.static_interchangeable_of_quartet :
    ∃ r r' : Ranking,
      Push.allToRanking [.append 5, .append 1, .prepend 4] (.static "s" [3, 1, 3]) =
        some ([none, some (.staticMove "s" 1), none], r) ∧
      r.ids = [4, 3, 1, 5] ∧
      ScoreChange.allToRanking [.set 5 3 1, .set 4 0, .set 1 2, .set 3 1 2] (.dynamic "d" 2) =
        .ok ([true, true, true, true], r') ∧
      r.Interchangeable r' := by
  have perm : List.Perm [(5, 3), (4, 0), (1, 2), (3, 1)]
      (Push.allToList "s" [.append 5, .append 1, .prepend 4] [3, 1, 3].eraseDups).2.zipIdx := by
    decide
  exact static_interchangeable "s" "d" [3, 1, 3] [.append 5, .append 1, .prepend 4] 2
    (fun id => if id = 5 then 1 else if id = 3 then 2 else 0) perm

end RankedQuery
