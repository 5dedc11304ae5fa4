import RankedQuery.Proofs.Cache.Frame
import RankedQuery.Proofs.Engine.Run

/-!
# Runs of some kinds of operations

A run may be confined to operations of one kind.  Where it has calls only, so
that the queue of builds never fills up, requests to build are either all taken
or, without workers, all dropped; so no build is ever outstanding.
-/

namespace RankedQuery

/-- What a caller does, as opposed to what happens to the queue of builds. -/
def Operation.IsCall : Operation → Prop
  | .takeBuilds _ => False
  | _ => True

namespace Run

variable {kind : Operation → Prop} {config : Config} {r r' r'' : Run}

inductive LeadsBy (kind : Operation → Prop) (r : Run) : Run → Prop
  | refl : LeadsBy kind r r
  | step {r' : Run} {op : Operation} :
      LeadsBy kind r r' → kind op → r'.Allows op → LeadsBy kind r (r'.after op)

def ReachedBy (kind : Operation → Prop) (config : Config) (r : Run) : Prop :=
  ∃ e, Engine.create config = .ok e ∧ (ofEngine e).LeadsBy kind r

theorem LeadsTo.trans (first : r.LeadsTo r') (second : r'.LeadsTo r'') : r.LeadsTo r'' := by
  induction second with
  | refl => exact first
  | step _ allowed ih => exact ih.step allowed

theorem LeadsBy.foldl (leads : r.LeadsBy kind r') {ops : List Operation}
    (allowed : ∀ op ∈ ops, kind op ∧ ∀ r : Run, r.Allows op) :
    r.LeadsBy kind (ops.foldl after r') := by
  induction ops generalizing r' with
  | nil => exact leads
  | cons op ops ih =>
      obtain ⟨is, allows⟩ := allowed op List.mem_cons_self
      have once := leads.step is (allows r')
      exact ih once fun other inside => allowed other (List.mem_cons_of_mem _ inside)

theorem LeadsBy.leadsTo (leads : r.LeadsBy kind r') : r.LeadsTo r' := by
  induction leads with
  | refl => exact .refl
  | step _ _ allowed ih => exact ih.step allowed

theorem ReachedBy.reached (reached : r.ReachedBy kind config) : r.Reached config := by
  obtain ⟨e, created, leads⟩ := reached
  exact ⟨e, created, leads.leadsTo⟩

theorem Reached.leadsTo (reached : r.Reached config) (leads : r.LeadsTo r') :
    r'.Reached config := by
  obtain ⟨e, created, before⟩ := reached
  exact ⟨e, created, before.trans leads⟩

end Run

/-! ## Calls leave no build outstanding -/

theorem Cache.Settled.of_sheds {c c' : Cache} (settled : c.Settled) (sheds : c.Sheds c') :
    c'.Settled := by
  rintro key entry found ⟨accepts, waiting⟩
  exact settled key entry (sheds.entries key entry found) ⟨sheds.accepting accepts, waiting⟩

namespace Collection

variable {c : Collection}

/-! Changes of indexes and sorts reach the cache only through the catalog. -/

theorem cache_addTo (name : String) (index : Handle Index) (id : DocId) :
    (c.addTo name index id).2.cache = c.cache := by
  unfold addTo
  split <;> rfl

theorem cache_removeFrom (name : String) (index : Handle Index) (id : DocId) :
    (c.removeFrom name index id).2.cache = c.cache := by
  unfold removeFrom
  split <;> rfl

theorem cache_add (name : String) (id : DocId) :
    (c.orKeep (c.add name id)).cache = c.cache := by
  unfold add
  cases c.catalog.findIndex name with
  | error => rfl
  | ok index => exact cache_addTo name index id

theorem cache_remove (name : String) (id : DocId) :
    (c.orKeep (c.remove name id)).cache = c.cache := by
  unfold remove
  cases c.catalog.findIndex name with
  | error => rfl
  | ok index => exact cache_removeFrom name index id

theorem cache_setScore (sort : String) (id : DocId) (score : Score) (draws : Nat) :
    (c.orKeep (c.setScore sort id score draws)).cache = c.cache := by
  unfold setScore
  cases c.catalog.findSort sort with
  | error => rfl
  | ok handle =>
      simp only [bind, Except.bind]
      cases (c.catalog.rankings.read handle).set id score draws <;> rfl

theorem cache_removeScore (sort : String) (id : DocId) :
    (c.orKeep (c.removeScore sort id)).cache = c.cache := by
  unfold removeScore
  cases c.catalog.findSort sort with
  | error => rfl
  | ok handle =>
      simp only [bind, Except.bind]
      cases (c.catalog.rankings.read handle).remove id <;> rfl

theorem cache_append (sort : Handle Ranking) (id : DocId) :
    (c.orKeepSort (c.append? sort id)).cache = c.cache := by
  unfold append?
  cases (c.catalog.rankings.read sort).append? id with
  | none => rfl
  | some appended => cases appended <;> rfl

theorem cache_prepend (sort : Handle Ranking) (id : DocId) :
    (c.orKeepSort (c.prepend? sort id)).cache = c.cache := by
  unfold prepend?
  cases (c.catalog.rankings.read sort).prepend? id with
  | none => rfl
  | some prepended => cases prepended <;> rfl

theorem cache_removeFromSort (sort : Handle Ranking) (id : DocId) :
    (c.removeFromSort sort id).cache = c.cache := by
  unfold removeFromSort
  split <;> rfl

private theorem cache_foldl {α : Type} {change : Collection → α → Collection}
    (each : ∀ c a, (change c a).cache = c.cache) (list : List α) (c : Collection) :
    (list.foldl change c).cache = c.cache := by
  induction list generalizing c with
  | nil => rfl
  | cons first list ih => exact (ih _).trans (each c first)

theorem cache_removeDocument (id : DocId) : (c.removeDocument id).cache = c.cache := by
  unfold removeDocument
  rw [cache_foldl fun _ _ => cache_removeFromSort _ _]
  exact cache_foldl (fun _ _ => cache_removeFrom _ _ _) _ _

theorem cache_dropIndex {name : String} {c' : Collection} (drops : c.dropIndex name = .ok c') :
    c'.cache = (c.cache.invalidate name).2 := by
  unfold dropIndex at drops
  split at drops
  next => cases drops
  next =>
    cases drops
    rfl

theorem sheds_dropIndex {name : String} {c' : Collection} (drops : c.dropIndex name = .ok c') :
    c.cache.Sheds c'.cache := by
  rw [cache_dropIndex drops]
  exact Cache.sheds_discardAll c.cache _

end Collection

theorem Engine.settled_execute (e : Engine) (settled : e.collection.cache.Settled)
    (now : Millis) (query : Query) :
    (e.execute now query).2.collection.cache.Settled := by
  rcases e.collection_execute now query with same | same
  · rw [same]
    exact settled
  · rw [same]
    exact Collection.settled_get settled now _ _

theorem Engine.settled_after (e : Engine) (settled : e.collection.cache.Settled)
    {op : Operation} (call : op.IsCall) : (e.after op).collection.cache.Settled := by
  have unchanged : ∀ {c : Collection}, c.cache = e.collection.cache → c.cache.Settled :=
    fun same => same ▸ settled
  cases op with
  | createIndex name => exact unchanged rfl
  | dropIndex name =>
      rcases e.after_dropIndex name with same | drops
      · exact unchanged (congrArg Collection.cache same)
      · exact settled.of_sheds (Collection.sheds_dropIndex drops)
  | createSort name => exact unchanged rfl
  | loadStaticSort name ids => exact unchanged rfl
  | add name id => exact unchanged (Collection.cache_add name id)
  | remove name id => exact unchanged (Collection.cache_remove name id)
  | setScore sort id score draws =>
      exact unchanged (Collection.cache_setScore sort id score draws)
  | removeScore sort id => exact unchanged (Collection.cache_removeScore sort id)
  | append sort id => exact unchanged (Collection.cache_append sort id)
  | prepend sort id => exact unchanged (Collection.cache_prepend sort id)
  | removeDocument id => exact unchanged (Collection.cache_removeDocument id)
  | get now names directory => exact Collection.settled_get settled now names directory
  | invalidate source => exact settled.of_sheds (Cache.sheds_discardAll _ _)
  | sweep now => exact settled.of_sheds (Cache.sheds_sweep _ now)
  | takeBuilds taking => cases call
  | shutdown => exact settled.of_sheds ⟨nofun, fun _ _ => id⟩
  | openQuery sort => exact settled
  | closeQuery query => exact settled
  | execute now query => exact e.settled_execute settled now query
  | closeResult result => exact settled

theorem Run.ReachedBy.settled {config : Config} {r : Run}
    (reached : r.ReachedBy Operation.IsCall config) : r.cache.Settled := by
  obtain ⟨e, created, leads⟩ := reached
  induction leads with
  | refl =>
      rw [Engine.create_eq_ok created]
      intro key entry found
      simp [Run.cache, ofEngine, Collection.ofConfig, Cache.ofConfig] at found
  | step _ call _ ih => exact Engine.settled_after _ ih call

end RankedQuery
