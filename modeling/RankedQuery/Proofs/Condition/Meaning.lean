import RankedQuery.Condition.Bound
import RankedQuery.Proofs.Ranking.Walk
import RankedQuery.Proofs.Registration

/-!
# What conditions mean

A condition is a test on documents that reads the registered indexes and sorts
by name; a criterion is the same test on indexes and sorts known by handle.  A
criterion bound in a catalog accepts, in the same catalog, the documents for
which it holds, and a driver lists all of them.  Binding a condition binds a
criterion of the same meaning.
-/

namespace RankedQuery

/-! ## Tests on scores and their windows -/

private theorem toInt_sub_one {value : Score} (above : value ≠ Int64.minValue) :
    (value - 1).toInt = value.toInt - 1 := by
  have least := value.le_toInt
  have greatest := value.toInt_lt
  have apart : value.toInt ≠ -2 ^ 63 := fun same =>
    above (Int64.toInt_inj.mp (same.trans Int64.toInt_minValue.symm))
  rw [Int64.toInt_sub, Int64.toInt_one, Int.bmod_eq_of_le] <;> omega

private theorem toInt_add_one {value : Score} (below : value ≠ Int64.maxValue) :
    (value + 1).toInt = value.toInt + 1 := by
  have least := value.le_toInt
  have greatest := value.toInt_lt
  have apart : value.toInt ≠ 2 ^ 63 - 1 := fun same =>
    below (Int64.toInt_inj.mp (same.trans Int64.toInt_maxValue.symm))
  rw [Int64.toInt_add, Int64.toInt_one, Int.bmod_eq_of_le] <;> omega

/-- A score passes a test exactly when it lies in the window of the test. -/
theorem ScoreTest.holds_eq_window (test : ScoreTest) (score : Score) :
    test.holds score = test.window?.any fun (low, high) => low ≤ score && score ≤ high := by
  have least := score.le_toInt
  have greatest := score.toInt_lt
  have minimum := Int64.toInt_minValue
  have maximum := Int64.toInt_maxValue
  cases test with
  | equal value =>
      rw [Bool.eq_iff_iff]
      simp only [holds, window?, Option.any_some, Bool.and_eq_true, decide_eq_true_eq,
        Int64.le_iff_toInt_le, ← Int64.toInt_inj]
      omega
  | between low high =>
      rw [Bool.eq_iff_iff]
      by_cases order : low ≤ high
      · simp [holds, window?, order]
      · simp only [holds, window?, order, if_false, Option.any_none, Bool.and_eq_true,
          decide_eq_true_eq, Bool.false_eq_true, iff_false]
        simp only [Int64.le_iff_toInt_le] at order ⊢
        omega
  | lessThan value =>
      rw [Bool.eq_iff_iff]
      by_cases bottom : value = Int64.minValue
      · simp [holds, window?, bottom]
      · simp only [holds, window?, bottom, if_false, Option.any_some, Bool.and_eq_true,
          decide_eq_true_eq, Int64.le_iff_toInt_le, Int64.lt_iff_toInt_lt,
          toInt_sub_one bottom]
        omega
  | lessThanOrEqual value =>
      rw [Bool.eq_iff_iff]
      simp only [holds, window?, Option.any_some, Bool.and_eq_true, decide_eq_true_eq,
        Int64.le_iff_toInt_le]
      omega
  | greaterThan value =>
      rw [Bool.eq_iff_iff]
      by_cases top : value = Int64.maxValue
      · simp [holds, window?, top]
      · simp only [holds, window?, top, if_false, Option.any_some, Bool.and_eq_true,
          decide_eq_true_eq, Int64.le_iff_toInt_le, Int64.lt_iff_toInt_lt,
          toInt_add_one top]
        omega
  | greaterThanOrEqual value =>
      rw [Bool.eq_iff_iff]
      simp only [holds, window?, Option.any_some, Bool.and_eq_true, decide_eq_true_eq,
        Int64.le_iff_toInt_le]
      omega

/-! ## Meaning by name -/

namespace Catalog

def member (c : Catalog) (name : String) (id : DocId) : Bool :=
  (c.index? name).any (c.holds · id)

def scoreIn (c : Catalog) (sort : String) (id : DocId) : Option Score :=
  (c.sort? sort).bind fun handle => (c.rankings.read handle).score? id

end Catalog

namespace Condition

def holds (c : Catalog) (id : DocId) : Condition → Bool
  | ranked sort test => (c.scoreIn sort id).any test.holds
  | set index => c.member index id
  | union indexes => indexes.any (c.member · id)

end Condition

/-- A condition whose names are resolved. -/
inductive Criterion where
  | ranked (key : String) (sort : Handle Ranking) (test : ScoreTest)
  | set (index : Handle Index)
  | union (key : String) (members : List (Handle Index))
  deriving DecidableEq, Repr

namespace Criterion

def holds (c : Catalog) (id : DocId) : Criterion → Bool
  | ranked _ sort test => ((c.rankings.read sort).score? id).any test.holds
  | set index => c.holds index id
  | union _ members => members.any (c.holds · id)

def boundIn (c : Catalog) : Criterion → BoundCondition
  | ranked key sort test => .ofSort c key sort test
  | set index => .ofIndex c index
  | union key members => .ofUnion c key members

end Criterion

/-! ## Meaning of bound conditions -/

namespace BoundCondition

variable (c : Catalog)

theorem accepts_ofIndex (handle : Handle Index) (id : DocId) :
    (ofIndex c handle).accepts c id = c.holds handle id := by
  simp only [accepts, score?, ofIndex]
  cases c.holds handle id <;> rfl

theorem accepts_ofSort (key : String) (handle : Handle Ranking) (test : ScoreTest)
    (id : DocId) :
    (ofSort c key handle test).accepts c id =
      ((c.rankings.read handle).score? id).any test.holds := by
  simp only [accepts, score?, ofSort]
  cases ((c.rankings.read handle).score? id) with
  | none => cases test.window? <;> rfl
  | some score =>
      rw [Option.any_some, ScoreTest.holds_eq_window]
      cases test.window? with
      | none => rfl
      | some window => simp [Option.isSome_filter]

theorem accepts_ofUnion (key : String) (members : List (Handle Index)) (id : DocId) :
    (ofUnion c key members).accepts c id = members.any (c.holds · id) := by
  simp only [accepts, score?, ofUnion]
  cases members.any (c.holds · id) <;> rfl

theorem positions_some (r : Ranking) (low high : Score) :
    r.positions (some (low, high)) = (r.lowerBound low, r.upperBound high) := by
  simp [Ranking.positions, Ranking.firstPosition, Ranking.lastPosition]

/-- A ranked condition lists exactly the documents whose score passes its test. -/
theorem list_ofSort (key : String) (handle : Handle Ranking) (test : ScoreTest)
    (direction : Direction) :
    (ofSort c key handle test).list c direction =
      .ok (direction.arrange
        (((c.rankings.read handle).entries.filter (test.holds ·.score)).map (·.id))) := by
  have sameTest : ∀ r : Ranking, r.entries.filter (test.holds ·.score) =
      r.entries.filter fun e =>
        test.window?.any fun (low, high) => low ≤ e.score && e.score ≤ high := fun r =>
    List.filter_congr fun e _ => test.holds_eq_window e.score
  simp only [list, ofSort, Ranking.rest_window, sameTest]
  cases test.window? with
  | none => simp [Ranking.positions, Direction.arrange]
  | some window =>
      obtain ⟨low, high⟩ := window
      rw [positions_some, Ranking.ids_eq, ← List.map_take, ← List.map_drop,
        Ranking.slice_entries]
      rfl

end BoundCondition

namespace Criterion

variable (c : Catalog)

theorem accepts_boundIn (criterion : Criterion) (id : DocId) :
    (criterion.boundIn c).accepts c id = criterion.holds c id := by
  cases criterion with
  | ranked key sort test => exact BoundCondition.accepts_ofSort c key sort test id
  | set index => exact BoundCondition.accepts_ofIndex c index id
  | union key members => exact BoundCondition.accepts_ofUnion c key members id

/-- A bound condition reads the contents of now, whenever it was bound. -/
theorem accepts_boundIn_since (earlier now : Catalog) (criterion : Criterion) (id : DocId) :
    (criterion.boundIn earlier).accepts now id = criterion.holds now id := by
  rw [← accepts_boundIn now criterion id]
  cases criterion <;> rfl

/-- A driver lists every document that satisfies it. -/
theorem list_boundIn {criterion : Criterion}
    (drives : (criterion.boundIn c).canIterate = true) :
    ∃ listed, (criterion.boundIn c).list c .asc = .ok listed ∧
      ∀ id, criterion.holds c id = true → id ∈ listed := by
  cases criterion with
  | ranked key sort test =>
      refine ⟨_, BoundCondition.list_ofSort c key sort test .asc, fun id satisfied => ?_⟩
      obtain ⟨score, scored, passes⟩ := (Option.any_eq_true _ _).mp satisfied
      refine List.mem_map.mpr ⟨⟨score, id⟩, ?_, rfl⟩
      exact List.mem_filter.mpr ⟨Ranking.mem_entries.mpr scored, passes⟩
  | set index => exact ⟨_, rfl, fun id satisfied => Index.mem_ids.mpr satisfied⟩
  | union key members => cases drives

end Criterion

/-! ## Binding keeps the meaning -/

namespace Condition

theorem bind_ranked {c : Catalog} {name : String} {sort : Handle Ranking}
    (registered : c.sort? name = some sort) (test : ScoreTest) :
    (ranked name test).bind c = .ok (.ofSort c (ranked name test).key sort test) := by
  simp only [bind, Catalog.findSort_eq_ok.mpr registered, Bind.bind, Except.bind, pure,
    Except.pure]

/-- Whether a document now satisfies a condition whose names were resolved in an
earlier catalog. -/
def holdsSince (earlier now : Catalog) (id : DocId) : Condition → Bool
  | ranked sort test =>
      (earlier.sort? sort).any fun handle =>
        ((now.rankings.read handle).score? id).any test.holds
  | set index => (earlier.index? index).any (now.holds · id)
  | union indexes => indexes.any fun name => (earlier.index? name).any (now.holds · id)

theorem holdsSince_self (c : Catalog) (id : DocId) (condition : Condition) :
    condition.holdsSince c c id = condition.holds c id := by
  cases condition with
  | ranked sort test =>
      simp only [holdsSince, holds, Catalog.scoreIn]
      cases c.sort? sort <;> rfl
  | set index => rfl
  | union indexes => rfl

theorem bind_since {earlier : Catalog} {condition : Condition} {bound : BoundCondition}
    (binds : condition.bind earlier = .ok bound) :
    ∃ criterion : Criterion, bound = criterion.boundIn earlier ∧
      ∀ now id, criterion.holds now id = condition.holdsSince earlier now id := by
  cases condition with
  | ranked name test =>
      simp only [bind, Bind.bind, Except.bind, pure, Except.pure] at binds
      cases found : earlier.findSort name with
      | error error => simp [found] at binds
      | ok handle =>
          simp only [found, Except.ok.injEq] at binds
          have known := Catalog.findSort_eq_ok.mp found
          refine ⟨.ranked _ handle test, binds.symm, fun now id => ?_⟩
          simp [holdsSince, Criterion.holds, known]
  | set name =>
      simp only [bind, Bind.bind, Except.bind, pure, Except.pure] at binds
      cases found : earlier.findIndex name with
      | error error => simp [found] at binds
      | ok handle =>
          simp only [found, Except.ok.injEq] at binds
          have known := Catalog.findIndex_eq_ok.mp found
          refine ⟨.set handle, binds.symm, fun now id => ?_⟩
          simp [holdsSince, Criterion.holds, known]
  | union names =>
      simp only [bind, Bind.bind, Except.bind, pure, Except.pure] at binds
      cases resolved : earlier.directory.resolve names with
      | error error => simp [resolved] at binds
      | ok sources =>
          simp only [resolved, Except.ok.injEq] at binds
          refine ⟨.union (union names).key (sources.map Source.index), binds.symm,
            fun now id => ?_⟩
          obtain ⟨rfl, registered⟩ := Directory.resolve_eq_ok.mp resolved
          rw [Criterion.holds, holdsSince, List.any_map, List.any_map]
          rw [Bool.eq_iff_iff, List.any_eq_true, List.any_eq_true]
          refine exists_congr fun source => and_congr_right fun inside => ?_
          simp [Catalog.index?, registered source inside]

theorem bind_spec {c : Catalog} {condition : Condition} {bound : BoundCondition}
    (binds : condition.bind c = .ok bound) :
    ∃ criterion : Criterion, bound = criterion.boundIn c ∧
      ∀ id, criterion.holds c id = condition.holds c id := by
  obtain ⟨criterion, same, meaning⟩ := bind_since binds
  exact ⟨criterion, same, fun id => (meaning c id).trans (holdsSince_self c id condition)⟩

theorem bindAll_spec {c : Catalog} {conditions : List Condition}
    {bound : List BoundCondition} (binds : bindAll c conditions = .ok bound) :
    ∃ criteria : List Criterion, bound = criteria.map (·.boundIn c) ∧
      criteria.length = conditions.length ∧
      ∀ id, criteria.all (·.holds c id) = conditions.all (holds c id) := by
  induction conditions generalizing bound with
  | nil =>
      cases binds
      exact ⟨[], rfl, rfl, fun _ => rfl⟩
  | cons condition conditions ih =>
      simp only [bindAll, Bind.bind, Except.bind, pure, Except.pure] at binds
      cases first : condition.bind c with
      | error error => simp [first] at binds
      | ok b =>
          cases others : bindAll c conditions with
          | error error => simp [first, others] at binds
          | ok rest =>
              simp only [first, others, Except.ok.injEq] at binds
              subst binds
              obtain ⟨criterion, rfl, meaning⟩ := bind_spec first
              obtain ⟨criteria, rfl, length, meanings⟩ := ih others
              refine ⟨criterion :: criteria, rfl, congrArg (· + 1) length, fun id => ?_⟩
              rw [List.all_cons, List.all_cons, meaning, meanings]

def Registered (c : Catalog) : Condition → Prop
  | ranked sort _ => (c.sort? sort).isSome = true
  | set index => (c.index? index).isSome = true
  | union indexes => ∀ name ∈ indexes, (c.index? name).isSome = true

instance (c : Catalog) : (condition : Condition) → Decidable (condition.Registered c)
  | ranked sort _ => inferInstanceAs (Decidable ((c.sort? sort).isSome = true))
  | set index => inferInstanceAs (Decidable ((c.index? index).isSome = true))
  | union indexes =>
      inferInstanceAs (Decidable (∀ name ∈ indexes, (c.index? name).isSome = true))

theorem exists_bind {c : Catalog} {condition : Condition}
    (registered : condition.Registered c) : ∃ bound, condition.bind c = .ok bound := by
  cases condition with
  | ranked sort test =>
      obtain ⟨handle, known⟩ := Option.isSome_iff_exists.mp registered
      exact ⟨_, bind_ranked known test⟩
  | set index =>
      obtain ⟨handle, known⟩ := Option.isSome_iff_exists.mp registered
      refine ⟨.ofIndex c handle, ?_⟩
      simp only [bind, Catalog.findIndex_eq_ok.mpr known, Bind.bind, Except.bind, pure,
        Except.pure]
  | union indexes =>
      obtain ⟨sources, resolved⟩ := Directory.exists_resolve registered
      refine ⟨.ofUnion c (key (union indexes)) (sources.map (·.index)), ?_⟩
      simp only [bind, resolved, Bind.bind, Except.bind, pure, Except.pure]

theorem exists_bindAll {c : Catalog} {conditions : List Condition}
    (registered : ∀ condition ∈ conditions, condition.Registered c) :
    ∃ bound, bindAll c conditions = .ok bound := by
  induction conditions with
  | nil => exact ⟨[], rfl⟩
  | cons condition conditions ih =>
      obtain ⟨first, binds⟩ := exists_bind (registered condition List.mem_cons_self)
      obtain ⟨others, bindOthers⟩ := ih fun other inside =>
        registered other (List.mem_cons_of_mem _ inside)
      refine ⟨first :: others, ?_⟩
      simp only [bindAll, binds, bindOthers, Bind.bind, Except.bind, pure, Except.pure]

end Condition

end RankedQuery
