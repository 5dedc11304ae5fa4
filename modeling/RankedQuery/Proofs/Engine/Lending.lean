import RankedQuery.Proofs.Engine.Consistency
import RankedQuery.Proofs.Engine.Failures

/-!
# What callers hold

A session is an engine with the queries that callers have opened and the results
that they hold, each on loan from its pool.  Queries are extended, executed or
abandoned and results closed, in any order, and anything else may be done to the
engine meanwhile.  Whatever was lent before, a query says what its own caller
said and nothing else, a result answers its own query, and both pools have
accounted for every loan.
-/

namespace RankedQuery

/-! ## Requests -/

inductive Query.Clause where
  | whereIndex (name : String)
  | filter (condition : Condition)
  | limit (limit : UInt64)
  | offset (offset : UInt64)
  | desc
  | includeTotal
  deriving DecidableEq, Repr

def Query.extend (q : Query) : Clause → Query
  | .whereIndex name => q.whereIndex name
  | .filter condition => q.filter condition
  | .limit limit => { q with limit := some limit }
  | .offset offset => { q with offset }
  | .desc => { q with direction := .desc }
  | .includeTotal => { q with includeTotal := true }

structure Request where
  sort : String
  clauses : List Query.Clause := []
  deriving DecidableEq, Repr

/-- The query of a request, as if no other had ever been made. -/
def Request.query (r : Request) : Query := r.clauses.foldl Query.extend { sort := r.sort }

/-! ## Engines that differ in their pools -/

namespace Engine

def withNewPools (e : Engine) : Engine :=
  { e with
    queries := .ofCapacity e.config.queryPoolSize
    results := .ofCapacity e.config.resultPoolSize }

variable {e e' : Engine}

theorem openQuery_fst (clean : e.queries.Clean) (sort : String) :
    (e.openQuery sort).1 = { sort } := by
  have lent : e.queries.checkout.1 = {} := Pool.checkout_eq_fresh clean
  simp only [openQuery, lent, String.empty_append]

theorem execute_fst_congr (clean : e.results.Clean) (clean' : e'.results.Clean)
    (config : e.config = e'.config) (collection : e.collection = e'.collection)
    (now : Millis) (query : Query) : (e.execute now query).1 = (e'.execute now query).1 := by
  have lent : e.results.checkout.1 = {} := Pool.checkout_eq_fresh clean
  have lent' : e'.results.checkout.1 = {} := Pool.checkout_eq_fresh clean'
  unfold execute
  rw [config, collection]
  split
  next => rfl
  next =>
    split
    next => rfl
    next prepared after _ =>
      simp only [fill, lent, lent']
      split <;> rfl

theorem execute_withNewPools (clean : e.results.Clean) (now : Millis) (query : Query) :
    (e.withNewPools.execute now query).1 = (e.execute now query).1 := by
  have clean' : e.withNewPools.results.Clean := Pool.clean_ofCapacity _
  exact execute_fst_congr clean' clean rfl rfl now query

theorem results_of_ok {now : Millis} {query : Query} {result : ResultSet}
    (answers : (e.execute now query).1 = .ok result) :
    (e.execute now query).2.results = e.results.checkout.2 := by
  unfold execute at answers ⊢
  split at answers
  next => cases answers
  next valid =>
    split at answers
    next => cases answers
    next prepared after prepares =>
      simp only [fill, closeQuery] at answers ⊢
      split at answers
      next => rfl
      next => cases answers

end Engine

/-! ## Sessions -/

structure OpenQuery where
  request : Request
  query : Query
  deriving DecidableEq, Repr

def OpenQuery.extend (opened : OpenQuery) (clause : Query.Clause) : OpenQuery where
  request := { opened.request with clauses := opened.request.clauses ++ [clause] }
  query := opened.query.extend clause

structure Session where
  engine : Engine
  opened : List OpenQuery := []
  held : List ResultSet := []
  /-- The largest number of queries that were open at one time. -/
  mostOpened : Nat := 0
  /-- The largest number of results that were held at one time. -/
  mostHeld : Nat := 0

/-- What neither lends anything nor takes it back. -/
def Access.sparesPools : Access → Bool
  | .call (.openQuery _) | .call (.closeQuery _) | .call (.execute _ _)
  | .call (.closeResult _) => false
  | _ => true

namespace Session

inductive Act where
  | openQuery (sort : String)
  | extend (opened : OpenQuery) (clause : Query.Clause)
  | abandon (opened : OpenQuery)
  | execute (now : Millis) (opened : OpenQuery)
  /-- The holder of a result changes it. -/
  | alter (result altered : ResultSet)
  | close (result : ResultSet)
  | other (a : Access)

def after (s : Session) : Act → Session
  | .openQuery sort =>
      let (query, engine) := s.engine.openQuery sort
      { s with
        engine
        opened := ⟨{ sort }, query⟩ :: s.opened
        mostOpened := max s.mostOpened (s.opened.length + 1) }
  | .extend opened clause =>
      { s with opened := opened.extend clause :: s.opened.erase opened }
  | .abandon opened =>
      { s with engine := s.engine.closeQuery opened.query, opened := s.opened.erase opened }
  | .execute now opened =>
      let (answer, engine) := s.engine.execute now opened.query
      let s := { s with engine, opened := s.opened.erase opened }
      match answer with
      | .ok result =>
          { s with
            held := result :: s.held
            mostHeld := max s.mostHeld (s.held.length + 1) }
      | .error _ => s
  | .alter result altered => { s with held := altered :: s.held.erase result }
  | .close result =>
      { s with engine := s.engine.closeResult result, held := s.held.erase result }
  | .other a => { s with engine := s.engine.access a }

def Allows (s : Session) : Act → Prop
  | .openQuery _ => True
  | .extend opened _ | .abandon opened | .execute _ opened => opened ∈ s.opened
  | .alter result _ | .close result => result ∈ s.held
  | .other a => a.sparesPools = true

instance (s : Session) : (act : Act) → Decidable (s.Allows act)
  | .openQuery _ => isTrue trivial
  | .extend opened _ | .abandon opened | .execute _ opened =>
      inferInstanceAs (Decidable (opened ∈ s.opened))
  | .alter result _ | .close result => inferInstanceAs (Decidable (result ∈ s.held))
  | .other a => inferInstanceAs (Decidable (a.sparesPools = true))

inductive Reached (config : Config) : Session → Prop
  | start {e : Engine} : Engine.create config = .ok e → Reached config { engine := e }
  | step {s : Session} {act : Act} :
      Reached config s → s.Allows act → Reached config (s.after act)

def lentQueries : Act → Nat
  | .openQuery _ => 1
  | _ => 0

def lentResults (s : Session) : Act → Nat
  | .execute now opened => if (s.engine.execute now opened.query).1.isOk then 1 else 0
  | _ => 0

structure Accounted (config : Config) (s : Session) : Prop where
  own : ∀ opened ∈ s.opened, opened.query = opened.request.query
  queries : s.engine.queries.Accounts config.queryPoolSize s.opened.length s.mostOpened
  results : s.engine.results.Accounts config.resultPoolSize s.held.length s.mostHeld

variable {config : Config} {s : Session}

theorem accounted_start {e : Engine} (created : Engine.create config = .ok e) :
    Accounted config { engine := e } := by
  obtain rfl := Engine.create_eq_ok created
  exact ⟨fun _ inside => absurd inside List.not_mem_nil, Pool.accounts_ofCapacity _,
    Pool.accounts_ofCapacity _⟩

theorem pools_of_spares {e : Engine} {a : Access} (spares : a.sparesPools = true) :
    (e.access a).queries = e.queries ∧ (e.access a).results = e.results := by
  cases a with
  | call op => cases op <;> first | exact ⟨rfl, rfl⟩ | cases spares
  | _ => exact ⟨rfl, rfl⟩

theorem accounted_openQuery (accounted : s.Accounted config) (sort : String) :
    (s.after (.openQuery sort)).Accounted config where
  own opened inside := by
    rcases List.mem_cons.mp inside with rfl | before
    · exact s.engine.openQuery_fst accounted.queries.clean sort
    · exact accounted.own opened before
  queries := accounted.queries.checkout
  results := accounted.results

theorem accounted_extend (accounted : s.Accounted config) {opened : OpenQuery}
    (isOpen : opened ∈ s.opened) (clause : Query.Clause) :
    (s.after (.extend opened clause)).Accounted config where
  own other inside := by
    rcases List.mem_cons.mp inside with rfl | before
    · have own := accounted.own opened isOpen
      simp only [OpenQuery.extend, own, Request.query, List.foldl_append, List.foldl_cons,
        List.foldl_nil]
    · exact accounted.own other (List.mem_of_mem_erase before)
  queries := by
    have same : (opened.extend clause :: s.opened.erase opened).length = s.opened.length := by
      rw [List.length_cons, List.length_erase_add_one isOpen]
    simp only [after, same]
    exact accounted.queries
  results := accounted.results

theorem accounts_closed (accounted : s.Accounted config) {opened : OpenQuery}
    (isOpen : opened ∈ s.opened) :
    (s.engine.queries.release opened.query).Accounts config.queryPoolSize
      (s.opened.erase opened).length s.mostOpened := by
  rw [List.length_erase_of_mem isOpen]
  exact accounted.queries.release (List.length_pos_of_mem isOpen) (Query.reset_eq _)

theorem accounted_execute (accounted : s.Accounted config) {opened : OpenQuery}
    (isOpen : opened ∈ s.opened) (now : Millis) :
    (s.after (.execute now opened)).Accounted config := by
  have own : ∀ other ∈ s.opened.erase opened, other.query = other.request.query :=
    fun other inside => accounted.own other (List.mem_of_mem_erase inside)
  have closed := accounts_closed accounted isOpen
  rw [← s.engine.queries_execute now opened.query] at closed
  cases answers : (s.engine.execute now opened.query).1 with
  | error =>
      have untouched := s.engine.results_of_error now opened.query accounted.results.clean answers
      have results := accounted.results
      rw [← untouched] at results
      simp only [after, answers]
      exact ⟨own, closed, results⟩
  | ok result =>
      have results := accounted.results.checkout
      rw [← Engine.results_of_ok answers] at results
      simp only [after, answers]
      exact ⟨own, closed, results⟩

theorem accounted_after (accounted : s.Accounted config) {act : Act} (allowed : s.Allows act) :
    (s.after act).Accounted config := by
  cases act with
  | openQuery sort => exact accounted_openQuery accounted sort
  | extend opened clause => exact accounted_extend accounted allowed clause
  | abandon opened =>
      exact ⟨fun other inside => accounted.own other (List.mem_of_mem_erase inside),
        accounts_closed accounted allowed, accounted.results⟩
  | execute now opened => exact accounted_execute accounted allowed now
  | alter result altered =>
      have same : (altered :: s.held.erase result).length = s.held.length := by
        rw [List.length_cons, List.length_erase_add_one allowed]
      refine ⟨accounted.own, accounted.queries, ?_⟩
      simpa only [after, same] using accounted.results
  | close result =>
      refine ⟨accounted.own, accounted.queries, ?_⟩
      simp only [after, List.length_erase_of_mem allowed]
      exact accounted.results.release (List.length_pos_of_mem allowed) (ResultSet.reset_eq result)
  | other a =>
      obtain ⟨queries, results⟩ := pools_of_spares (e := s.engine) allowed
      refine ⟨accounted.own, ?_, ?_⟩
      · simpa [after, queries] using accounted.queries
      · simpa [after, results] using accounted.results

def Follows : Session → List Act → Prop
  | _, [] => True
  | s, act :: acts => s.Allows act ∧ (s.after act).Follows acts

instance decidableFollows : (s : Session) → (acts : List Act) → Decidable (s.Follows acts)
  | _, [] => isTrue trivial
  | s, act :: acts =>
      have := decidableFollows (s.after act) acts
      inferInstanceAs (Decidable (s.Allows act ∧ (s.after act).Follows acts))

theorem Reached.follow (reached : s.Reached config) {acts : List Act} (follows : s.Follows acts) :
    (acts.foldl after s).Reached config := by
  induction acts generalizing s with
  | nil => exact reached
  | cons act acts ih => exact ih (reached.step follows.1) follows.2

theorem Reached.accounted (reached : s.Reached config) : s.Accounted config := by
  induction reached with
  | start created => exact accounted_start created
  | step _ allowed accounted => exact accounted_after accounted allowed

/-! ## What each act lends -/

theorem lends_queries {act : Act} (allowed : s.Allows act) :
    s.engine.queries.Lends (lentQueries act) (s.after act).engine.queries := by
  cases act with
  | openQuery sort => exact s.engine.queries.lends_checkout
  | abandon opened => exact s.engine.queries.lends_release opened.query
  | execute now opened =>
      have released := s.engine.queries.lends_release opened.query
      rw [← s.engine.queries_execute now opened.query] at released
      cases answers : (s.engine.execute now opened.query).1 <;>
        simpa only [after, lentQueries, answers] using released
  | other a =>
      simp only [after, (pools_of_spares (e := s.engine) allowed).1]
      exact s.engine.queries.lends_none
  | _ => exact s.engine.queries.lends_none

theorem lends_results (accounted : s.Accounted config) {act : Act} (allowed : s.Allows act) :
    s.engine.results.Lends (s.lentResults act) (s.after act).engine.results := by
  cases act with
  | execute now opened =>
      cases answers : (s.engine.execute now opened.query).1 with
      | error =>
          have untouched :=
            s.engine.results_of_error now opened.query accounted.results.clean answers
          simp only [after, lentResults, answers, untouched]
          exact s.engine.results.lends_none
      | ok result =>
          simp only [after, lentResults, answers, Engine.results_of_ok answers]
          exact s.engine.results.lends_checkout
  | close result => exact s.engine.results.lends_release result
  | other a =>
      simp only [after, (pools_of_spares (e := s.engine) allowed).2]
      exact s.engine.results.lends_none
  | _ => exact s.engine.results.lends_none

/-- In every session, what the pools lend is as new: an open query says what its own
request says, and is answered as in an engine whose pools were never used.  With so
many queries open, or results held, each pool has its capacity, at least what of it
is not on loan and at most all of it at rest, all of it if nothing is on loan, and
has made no value of its own unless more were once on loan than it has room for.
It makes one just when it lends and has none at rest. -/
theorem pools_balance (reached : s.Reached config) :
    (s.engine.queries.checkout.1 = {} ∧ s.engine.results.checkout.1 = {}) ∧
    (∀ opened ∈ s.opened, opened.query = opened.request.query ∧
      ∀ now, (s.engine.execute now opened.query).1 =
        (s.engine.withNewPools.execute now opened.request.query).1) ∧
    s.engine.queries.Accounts config.queryPoolSize s.opened.length s.mostOpened ∧
    s.engine.results.Accounts config.resultPoolSize s.held.length s.mostHeld ∧
    (s.opened = [] → s.engine.queries.available = s.engine.queries.capacity) ∧
    (s.held = [] → s.engine.results.available = s.engine.results.capacity) ∧
    ∀ act, s.Allows act →
      s.engine.queries.Lends (lentQueries act) (s.after act).engine.queries ∧
      s.engine.results.Lends (s.lentResults act) (s.after act).engine.results := by
  have accounted := reached.accounted
  obtain ⟨own, queries, results⟩ := id accounted
  refine ⟨⟨Pool.checkout_eq_fresh queries.clean, Pool.checkout_eq_fresh results.clean⟩, ?_,
    queries, results, ?_, ?_, fun act allowed =>
      ⟨lends_queries allowed, lends_results accounted allowed⟩⟩
  · intro opened isOpen
    refine ⟨own opened isOpen, fun now => ?_⟩
    rw [← own opened isOpen, Engine.execute_withNewPools results.clean]
  · intro noneOpen
    rw [noneOpen] at queries
    exact queries.available_eq
  · intro noneHeld
    rw [noneHeld] at results
    exact results.available_eq

/-! With room for one query and one result in the pools, two queries over one
document are open at a time and both results are held. -/

private def narrow : Config := { queryPoolSize := 1, resultPoolSize := 1 }

private def scored : List Act :=
  [.other (.call (.createSort "n")), .other (.call (.setScore "n" 1 1))]

private def asked (clauses : List Query.Clause) : OpenQuery :=
  let request : Request := { sort := "n", clauses }
  ⟨request, request.query⟩

private def twoAtOnce : List Act :=
  scored ++ [.openQuery "n", .extend (asked []) .desc, .openQuery "n",
    .execute 0 (asked [.desc])]

theorem pools_balance_of_two :
    ∃ s : Session, s.Reached narrow ∧ s.Allows (.execute 0 (asked [])) ∧
      s.engine.results.available = 0 ∧
      (s.after (.execute 0 (asked []))).engine.results.transient =
        s.engine.results.transient + 1 ∧
      (s.engine.execute 0 (asked []).query).1 =
        (s.engine.withNewPools.execute 0 { sort := "n" }).1 := by
  obtain ⟨e, created, followed, isOpen, empty, lends⟩ :
      ∃ e, Engine.create narrow = .ok e ∧
        let s := twoAtOnce.foldl after { engine := e }
        Follows { engine := e } twoAtOnce ∧ asked [] ∈ s.opened ∧
          s.engine.results.available = 0 ∧ s.lentResults (.execute 0 (asked [])) = 1 :=
    ⟨_, rfl, by decide +kernel⟩
  have reached := (Reached.start created).follow followed
  obtain ⟨-, own, -, -, -, -, lent⟩ := pools_balance reached
  have transient := (lent (.execute 0 (asked [])) isOpen).2.transient
  rw [lends, if_pos empty] at transient
  exact ⟨_, reached, isOpen, empty, transient, (own _ isOpen).2 0⟩

end Session

end RankedQuery
