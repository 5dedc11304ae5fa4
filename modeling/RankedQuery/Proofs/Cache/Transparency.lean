import RankedQuery.Proofs.Cache.Building
import RankedQuery.Proofs.Condition.Meaning

/-!
# Gets go unnoticed

A get may enter an intersection and build it, but changes nothing that a name
refers to.  Whatever is asked of the catalog by name has the same answer before
and after.
-/

namespace RankedQuery

namespace Catalog

structure SameAnswers (c c' : Catalog) : Prop where
  directory : c'.directory = c.directory
  sorts : c'.sorts = c.sorts
  rankings : c'.rankings = c.rankings
  member : ∀ name id, c'.member name id = c.member name id

theorem member_of_registered {c : Catalog} {name : String} {index : Handle Index}
    (registered : c.directory[name]? = some index) (id : DocId) :
    c.member name id = c.holds index id := by
  rw [member, index?, registered, Option.any_some]

namespace SameAnswers

variable {c c' c'' : Catalog}

theorem refl (c : Catalog) : c.SameAnswers c :=
  ⟨rfl, rfl, rfl, fun _ _ => rfl⟩

theorem trans (first : c.SameAnswers c') (second : c'.SameAnswers c'') :
    c.SameAnswers c'' where
  directory := second.directory.trans first.directory
  sorts := second.sorts.trans first.sorts
  rankings := second.rankings.trans first.rankings
  member name id := (second.member name id).trans (first.member name id)

theorem of_holds (directory : c'.directory = c.directory) (sorts : c'.sorts = c.sorts)
    (rankings : c'.rankings = c.rankings)
    (holds : ∀ (name : String) (index : Handle Index), c.directory[name]? = some index →
      ∀ id, c'.holds index id = c.holds index id) : c.SameAnswers c' where
  directory := directory
  sorts := sorts
  rankings := rankings
  member name id := by
    unfold Catalog.member index?
    rw [directory]
    cases registered : c.directory[name]? with
    | none => rfl
    | some index => exact holds name index registered id

theorem condition (same : c.SameAnswers c') (condition : Condition) (id : DocId) :
    condition.holds c' id = condition.holds c id := by
  cases condition with
  | ranked sort test =>
      simp only [Condition.holds, scoreIn, sort?, same.sorts, same.rankings]
  | set index => exact same.member index id
  | union indexes => simp only [Condition.holds, same.member]

theorem registered (same : c.SameAnswers c') {condition : Condition}
    (given : condition.Registered c) : condition.Registered c' := by
  cases condition with
  | ranked sort test =>
      simp only [Condition.Registered, sort?, same.sorts] at given ⊢
      exact given
  | set index =>
      simp only [Condition.Registered, index?, same.directory] at given ⊢
      exact given
  | union indexes =>
      simp only [Condition.Registered, index?, same.directory] at given ⊢
      exact given

end SameAnswers

theorem sameAnswers_addIndex {c : Catalog} (sound : c.Sound) (index : Index) :
    c.SameAnswers (c.addIndex index).2 :=
  .of_holds rfl rfl rfl fun name handle registered =>
    c.holds_addIndex index (sound.known ⟨name, handle⟩ registered).has

theorem sameAnswers_updateIndex {c : Catalog} {index : Handle Index}
    (hidden : c.Hides index) (change : Index → Index) :
    c.SameAnswers (c.updateIndex index change) :=
  .of_holds rfl rfl rfl fun name handle registered id => by
    rw [holds_updateIndex hidden.has, if_neg]
    rintro rfl
    exact hidden.unnamed name registered

end Catalog

namespace Collection

variable {c : Collection} {key : String} {entry : Entry}

theorem sameAnswers_requestBuild (coherent : c.Coherent)
    (found : c.cache.lookup[key]? = some entry) (now : Millis) :
    c.catalog.SameAnswers (c.requestBuild now entry.item).catalog := by
  have hidden := (coherent.sound key entry found).hidden
  unfold requestBuild build
  dsimp only
  split
  · split
    · split
      · exact .refl _
      · exact Catalog.sameAnswers_updateIndex hidden _
    · exact .refl _
  · exact .refl _

theorem sameAnswers_get (coherent : c.Coherent) (now : Millis) (names : List String)
    {directory : Directory}
    (known : ∀ source : Source, directory[source.name]? = some source.index →
      c.catalog.Knows source) :
    c.catalog.SameAnswers (c.get now names directory).2.catalog := by
  have missed : c.Becomes c.missed := becomes_count coherent _
  have step := c.afterGet now names directory
  generalize (c.get now names directory).2 = c' at step ⊢
  cases step with
  | hit => exact .refl _
  | queued => exact .refl _
  | waits found => exact sameAnswers_requestBuild missed.coherent found now
  | unresolved => exact .refl _
  | enters absent resolved =>
      have entered := becomes_enterResolved missed.coherent absent resolved known now
      have built := sameAnswers_requestBuild entered.coherent (lookup_enter ..) now
      exact (Catalog.sameAnswers_addIndex coherent.catalog _).trans built

end Collection

end RankedQuery
