import RankedQuery.Proofs.Engine.Failures

/-!
# Hits and dropped indexes

A hit is found by its key, without a look at the directory.  It shows members of
the registered indexes all the same, since dropping an index discards the entries
over it.  An index that is unregistered behind the cache's back leaves them, and
then they answer for an index that is gone, or for another of the same name.
-/

namespace RankedQuery

theorem Catalog.exists_firstMissing {c : Catalog} {references : List Reference}
    {reference : Reference} (listed : reference ∈ references)
    (unregistered : reference.isRegistered c = false) :
    ∃ missing ∈ references, missing.isRegistered c = false ∧
      c.firstMissing references = some missing.name := by
  cases found : references.find? fun reference => !reference.isRegistered c with
  | none =>
      have all := List.find?_eq_none.mp found reference listed
      simp [unregistered] at all
  | some missing =>
      refine ⟨missing, List.mem_of_find?_eq_some found, ?_, ?_⟩
      · simpa using List.find?_some found
      · rw [firstMissing, found, Option.map_some]

theorem Query.registered_of_firstMissing {q : Query} {c : Catalog}
    (none : c.firstMissing q.mentions = none) : q.Registered c := by
  have all := c.firstMissing_eq_none.mp none
  simp only [Query.mentions, List.mem_append, List.mem_singleton, List.mem_map,
    List.mem_flatMap] at all
  refine ⟨all (.sort q.sort) (.inl (.inl rfl)), fun name listed => ?_, fun filter listed => ?_⟩
  · exact all (.index name) (.inl (.inr ⟨name, mem_canonicalNames.mpr listed, rfl⟩))
  · have mentioned : ∀ reference ∈ filter.mentions, reference.isRegistered c = true :=
      fun reference inside => all reference (.inr ⟨filter, listed, inside⟩)
    cases filter with
    | ranked sort test => exact mentioned (.sort sort) (List.mem_singleton.mpr rfl)
    | set index => exact mentioned (.index index) (List.mem_singleton.mpr rfl)
    | union indexes =>
        intro name inside
        exact mentioned (.index name) (List.mem_map_of_mem inside)

namespace Run

/-- In every run, a valid query of a registered sort fails with a selected name
that is not registered, if there is one, and shows members of all the selected
indexes if it succeeds. -/
theorem execute_members {config : Config} {r : Run} (reached : r.Reached config)
    (separable : r.collection.Separable) (now : Millis) {query : Query}
    (valid : query.fault? config = none) (sorted : (r.catalog.sort? query.sort).isSome = true)
    (free : ∀ name ∈ query.indexes, HasNoSeparator name) :
    (∀ name ∈ query.indexes, r.catalog.index? name = none →
      ∃ missing ∈ query.indexes, r.catalog.index? missing = none ∧
        (r.engine.execute now query).1 = .error (.unknownReference missing)) ∧
    ∀ result, (r.engine.execute now query).1 = .ok result →
      ∀ id ∈ result.ids, ∀ name ∈ query.indexes, r.catalog.member name id = true := by
  obtain ⟨rfl, clean⟩ := reached.engine
  have coherent := reached.coherent.collection
  obtain ⟨missing, reports, first⟩ :=
    r.engine.reports_execute now query clean coherent valid
  obtain rfl := first (Collection.recognizes_of_free coherent separable free)
  constructor
  · intro name listed unregistered
    have here : Reference.index name ∈ (canonicalNames query.indexes).map Reference.index :=
      List.mem_map_of_mem (mem_canonicalNames.mpr listed)
    obtain ⟨reference, inside, missing, isFirst⟩ := Catalog.exists_firstMissing (c := r.catalog)
      here (by rw [Reference.isRegistered, unregistered, Option.isSome_none])
    obtain ⟨missingName, selected, rfl⟩ := List.mem_map.mp inside
    refine ⟨missingName, mem_canonicalNames.mp selected, ?_, ?_⟩
    · simpa [Reference.isRegistered] using missing
    · have present : (Reference.sort query.sort).isRegistered r.catalog = true := sorted
      have named : r.catalog.firstMissing query.mentions = some missingName := by
        rw [Query.mentions, List.append_assoc, List.singleton_append,
          Catalog.firstMissing_cons, if_pos present, Catalog.firstMissing_append, isFirst]
        rfl
      rw [show r.engine.collection.catalog.firstMissing query.mentions = some missingName
        from named] at reports
      exact reports
  · intro result answered id inside name listed
    rw [answered] at reports
    have registered := Query.registered_of_firstMissing reports.eq_none
    obtain ⟨shown, answers, shows⟩ :=
      r.engine.execute_shows clean coherent separable now query valid registered
    obtain rfl : result = shown := Except.ok.inj (answered.symm.trans answers)
    rw [shows.ids] at inside
    have matched := List.mem_of_mem_drop (List.mem_of_mem_take inside)
    rw [Query.matching, List.mem_filter, Bool.and_eq_true, List.all_eq_true] at matched
    exact matched.2.1 name listed

private def sharedQuery : Query := { sort := "s", indexes := ["a", "b"] }

private def sharedQueried : List Operation :=
  [.createSort "s", .setScore "s" 1 5, .createIndex "a", .createIndex "b", .add "a" 1,
    .add "b" 1, .execute 0 sharedQuery]

private def sharedDropped : List Operation := sharedQueried ++ [.dropIndex "b"]

theorem execute_members_of_dropped :
    ∃ r : Run, r.Reached {} ∧
      (r.engine.execute 0 sharedQuery).1 = .error (.unknownReference "b") := by
  obtain ⟨e, created, free, sorted, present, gone⟩ : ∃ e, Engine.create {} = .ok e ∧
      (∀ name ∈ (sharedDropped.foldl after (ofEngine e)).catalog.indexNames,
        HasNoSeparator name) ∧
      ((sharedDropped.foldl after (ofEngine e)).catalog.sort? "s").isSome = true ∧
      (sharedDropped.foldl after (ofEngine e)).catalog.index? "a" ≠ none ∧
      (sharedDropped.foldl after (ofEngine e)).catalog.index? "b" = none :=
    ⟨_, rfl, by decide +kernel, by decide +kernel, by decide +kernel, by decide +kernel⟩
  have reached : (sharedDropped.foldl after (ofEngine e)).Reached {} :=
    ⟨e, created, LeadsTo.refl.foldl (by simp [sharedDropped, sharedQueried, Allows])⟩
  have valid : sharedQuery.fault? {} = none := by decide +kernel
  obtain ⟨fails, -⟩ := execute_members reached (Collection.separable_of_indexNames free) 0
    valid sorted (by decide)
  obtain ⟨missing, selected, unregistered, answered⟩ := fails "b" (by decide) gone
  obtain rfl : missing = "b" := by
    rcases List.mem_cons.mp selected with rfl | last
    · exact absurd unregistered present
    · exact List.mem_singleton.mp last
  exact ⟨_, reached, answered⟩

/-- An index that was unregistered behind the cache's back still answers, also
when there is another one of its name. -/
theorem execute_shows_unregistered :
    ∃ (r : Run) (e : Engine), r.Reached {} ∧
      e = r.engine.onCollection (fun c => (c.unregisterIndex "b").2) ∧
      e.collection.catalog.index? "b" = none ∧
      (∃ result, (e.execute 0 sharedQuery).1 = .ok result ∧ 1 ∈ result.ids) ∧
      (e.after (.createIndex "b")).collection.catalog.member "b" 1 = false ∧
      ∃ result, ((e.after (.createIndex "b")).execute 0 sharedQuery).1 = .ok result ∧
        1 ∈ result.ids := by
  have shown : ∀ {answer : Except Error ResultSet},
      answer.toOption.any (1 ∈ ·.ids) = true → ∃ result, answer = .ok result ∧ 1 ∈ result.ids := by
    intro answer shows
    cases answer with
    | error => cases shows
    | ok result => exact ⟨result, rfl, of_decide_eq_true shows⟩
  obtain ⟨e, created⟩ : ∃ e, Engine.create {} = .ok e := ⟨_, rfl⟩
  refine ⟨sharedQueried.foldl after (ofEngine e), _,
    ⟨e, created, LeadsTo.refl.foldl (by simp [sharedQueried, Allows])⟩, rfl, ?_⟩
  rw [Engine.create_eq_ok created]
  exact ⟨by decide +kernel, shown (by decide +kernel), by decide +kernel,
    shown (by decide +kernel)⟩

end Run

end RankedQuery
