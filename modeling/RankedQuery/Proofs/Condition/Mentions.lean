import RankedQuery.Proofs.Condition.Meaning

/-!
# Missing names

Conditions refer to sorts and indexes by name, and binding them resolves the
names in the order in which they are mentioned.  The first name that is not
registered is the one that the failure is about.
-/

namespace RankedQuery

inductive Reference where
  | sort (name : String)
  | index (name : String)
  deriving DecidableEq, Repr

namespace Reference

def name : Reference → String
  | sort name => name
  | index name => name

def isRegistered (c : Catalog) : Reference → Bool
  | sort name => (c.sort? name).isSome
  | index name => (c.index? name).isSome

end Reference

/-- What a condition refers to, in the order in which it is resolved. -/
def Condition.mentions : Condition → List Reference
  | ranked sort _ => [.sort sort]
  | set index => [.index index]
  | union indexes => indexes.map .index

theorem Condition.length_mentions (condition : Condition) :
    condition.mentions.length = condition.references := by
  cases condition with
  | ranked sort test => rfl
  | set index => rfl
  | union indexes => exact List.length_map _

namespace Catalog

variable (c : Catalog)

def firstMissing (references : List Reference) : Option String :=
  (references.find? fun reference => !reference.isRegistered c).map (·.name)

theorem firstMissing_cons (reference : Reference) (references : List Reference) :
    c.firstMissing (reference :: references) =
      if reference.isRegistered c then c.firstMissing references
      else some reference.name := by
  unfold firstMissing
  rw [List.find?_cons]
  cases reference.isRegistered c <;> rfl

theorem firstMissing_append (first second : List Reference) :
    c.firstMissing (first ++ second) =
      (c.firstMissing first).or (c.firstMissing second) := by
  rw [firstMissing, List.find?_append, Option.map_or, firstMissing, firstMissing]

theorem firstMissing_eq_none {references : List Reference} :
    c.firstMissing references = none ↔
      ∀ reference ∈ references, reference.isRegistered c = true := by
  simp [firstMissing]

end Catalog

/-! ## Reports -/

/-- The answer fails with the missing name, and succeeds if none is missing. -/
def Reports {α : Type} (answer : Except Error α) : (missing : Option String) → Prop
  | some name => answer = .error (.unknownReference name)
  | none => ∃ value, answer = .ok value

namespace Reports

variable {α β : Type} {answer : Except Error α} {missing : Option String}

theorem bind {next : α → Except Error β} {missingNext : Option String}
    (reports : Reports answer missing)
    (reportsNext : ∀ value, answer = .ok value → Reports (next value) missingNext) :
    Reports (answer >>= next) (missing.or missingNext) := by
  cases missing with
  | none =>
      obtain ⟨value, succeeds⟩ := reports
      subst succeeds
      exact reportsNext value rfl
  | some name =>
      obtain rfl : answer = .error (.unknownReference name) := reports
      rfl

theorem map (reports : Reports answer missing) (f : α → β) :
    Reports (do return f (← answer)) missing := by
  rw [← Option.or_none (o := missing)]
  apply reports.bind
  intro value _
  exact ⟨f value, rfl⟩

theorem kind_of_error {error : Error} (reports : Reports answer missing)
    (fails : answer = .error error) : error.kind = .unknownReference := by
  subst fails
  cases missing with
  | none =>
      obtain ⟨value, succeeds⟩ := reports
      cases succeeds
  | some name =>
      cases reports
      rfl

theorem eq_none {value : α} (reports : Reports (.ok value : Except Error α) missing) :
    missing = none := by
  cases missing with
  | none => rfl
  | some name => cases reports

end Reports

/-! ## What is resolved -/

theorem Catalog.reports_findSort (c : Catalog) (name : String) :
    Reports (c.findSort name) (c.firstMissing [.sort name]) := by
  rw [firstMissing_cons, findSort, Reference.isRegistered]
  cases c.sort? name with
  | none => rfl
  | some handle => exact ⟨handle, rfl⟩

theorem Catalog.reports_findIndex (c : Catalog) (name : String) :
    Reports (c.findIndex name) (c.firstMissing [.index name]) := by
  rw [firstMissing_cons, findIndex, Reference.isRegistered]
  cases c.index? name with
  | none => rfl
  | some handle => exact ⟨handle, rfl⟩

theorem Catalog.reports_resolve (c : Catalog) (names : List String) :
    Reports (c.directory.resolve names) (c.firstMissing (names.map .index)) := by
  induction names with
  | nil => exact ⟨[], rfl⟩
  | cons name names ih =>
      rw [List.map_cons, firstMissing_cons, Directory.resolve, Reference.isRegistered, index?]
      cases c.directory[name]? with
      | none => rfl
      | some index => exact ih.map _

namespace Condition

theorem reports_bind (c : Catalog) (condition : Condition) :
    Reports (condition.bind c) (c.firstMissing condition.mentions) := by
  cases condition with
  | ranked sort test => exact (c.reports_findSort sort).map _
  | set index => exact (c.reports_findIndex index).map _
  | union indexes => exact (c.reports_resolve indexes).map _

theorem reports_bindAll (c : Catalog) (conditions : List Condition) :
    Reports (bindAll c conditions) (c.firstMissing (conditions.flatMap mentions)) := by
  induction conditions with
  | nil => exact ⟨[], rfl⟩
  | cons condition conditions ih =>
      rw [List.flatMap_cons, c.firstMissing_append]
      apply (reports_bind c condition).bind
      intro bound _
      exact ih.map _

end Condition

end RankedQuery
