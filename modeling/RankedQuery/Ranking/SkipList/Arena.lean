import RankedQuery.Ranking.SkipList

/-!
# Changes of an arena

What single steps and whole passes over the levels do to the links and to the
other data of the nodes.  A step works on one level only, so that a pass does on
each level what one step would do on the arena as it was before the pass.
-/

namespace RankedQuery.SkipList.Arena

variable (arena : Arena)

def link? (slot level : Nat) : Option Link := arena[slot]?.bind (·.links[level]?)

def data? (slot : Nat) : Option (Scored × Nat) :=
  arena[slot]?.map fun node => (node.entry, node.prev)

variable {arena}

theorem link_eq_getD (arena : Arena) (slot level : Nat) :
    arena.link slot level = (arena.link? slot level).getD default := by
  simp only [Arena.link, node, link?]
  cases arena[slot]? <;> rfl

theorem link_eq {slot level : Nat} {link : Link} (held : arena.link? slot level = some link) :
    arena.link slot level = link := by
  rw [link_eq_getD, held, Option.getD_some]

theorem node_eq {slot prev : Nat} {entry : Scored}
    (held : arena.data? slot = some (entry, prev)) :
    (arena.node slot).entry = entry ∧ (arena.node slot).prev = prev := by
  obtain ⟨node, present, same⟩ := Option.map_eq_some_iff.mp held
  simpa [Arena.node, present] using same

theorem lt_size {slot : Nat} {data : Scored × Nat} (held : arena.data? slot = some data) :
    slot < arena.size := by
  obtain ⟨node, present, -⟩ := Option.map_eq_some_iff.mp held
  exact (Array.getElem?_eq_some_iff.mp present).1

/-! ## Single changes -/

theorem link?_setLink (slot level : Nat) (link : Link) (other n : Nat) :
    (arena.setLink slot level link).link? other n =
      if n = level ∧ other = slot then (arena.link? other n).map fun _ => link
      else arena.link? other n := by
  simp only [link?, setLink, Array.getElem?_modify]
  by_cases here : slot = other
  · subst here
    cases arena[slot]? with
    | none => simp
    | some node =>
        by_cases level : level = n
        · subst level
          simp [List.getElem?_set_self']
          rfl
        · simp [level, Ne.symm level, List.getElem?_set_ne]
  · simp [here, Ne.symm here]

theorem data?_setLink (slot level : Nat) (link : Link) (other : Nat) :
    (arena.setLink slot level link).data? other = arena.data? other := by
  simp only [data?, setLink, Array.getElem?_modify]
  split
  · cases arena[other]? <;> rfl
  · rfl

theorem isSome_setLink (slot level : Nat) (link : Link) (other n : Nat) :
    ((arena.setLink slot level link).link? other n).isSome = (arena.link? other n).isSome := by
  rw [link?_setLink]
  split
  · rw [Option.isSome_map]
  · rfl

theorem size_setLink (slot level : Nat) (link : Link) :
    (arena.setLink slot level link).size = arena.size :=
  Array.size_modify

theorem link?_setPrev (slot prev other n : Nat) :
    (arena.setPrev slot prev).link? other n = arena.link? other n := by
  simp only [link?, setPrev, Array.getElem?_modify]
  split
  · cases arena[other]? <;> rfl
  · rfl

theorem data?_setPrev (slot prev other : Nat) :
    (arena.setPrev slot prev).data? other =
      if other = slot then (arena.data? other).map fun data => (data.1, prev)
      else arena.data? other := by
  simp only [data?, setPrev, Array.getElem?_modify]
  by_cases here : slot = other
  · simp [here]
    rfl
  · simp [here, Ne.symm here]

theorem size_setPrev (slot prev : Nat) : (arena.setPrev slot prev).size = arena.size :=
  Array.size_modify

theorem link?_clear {slot other : Nat} (apart : other ≠ slot) (n : Nat) :
    (arena.clear slot).link? other n = arena.link? other n := by
  rw [link?, clear, Array.getElem?_modify, if_neg (Ne.symm apart), link?]

theorem data?_clear (slot other : Nat) : (arena.clear slot).data? other = arena.data? other := by
  simp only [data?, clear, Array.getElem?_modify]
  split
  · cases arena[other]? <;> rfl
  · rfl

theorem size_clear (slot : Nat) : (arena.clear slot).size = arena.size := Array.size_modify

/-! ## Passes over the levels -/

section

variable (arena : Arena) (step : Arena → Nat → Arena) (first count : Nat)

theorem eachLevel_keeps {β : Type} (view : Arena → β)
    (keeps : ∀ arena level, view (step arena level) = view arena) :
    view (arena.eachLevel step first count) = view arena := by
  induction count with
  | zero => rfl
  | succ count ih => rw [eachLevel, keeps, ih]

variable {step} in
theorem link?_eachLevel {effect : Nat → (Nat → Option Link) → Nat → Option Link}
    (acts : ∀ arena level slot n, (step arena level).link? slot n =
      if n = level then effect level (arena.link? · level) slot else arena.link? slot n)
    (slot n : Nat) :
    (arena.eachLevel step first count).link? slot n =
      if first ≤ n ∧ n < first + count then effect n (arena.link? · n) slot
      else arena.link? slot n := by
  induction count generalizing slot n with
  | zero =>
      rw [if_neg (by omega)]
      rfl
  | succ count ih =>
      rw [eachLevel, acts]
      by_cases last : n = first + count
      · have before : (fun slot => (arena.eachLevel step first count).link? slot n) =
            (arena.link? · n) := by
          funext slot
          rw [ih, if_neg (by omega)]
        rw [if_pos last, if_pos (by omega), ← last, before]
      · rw [if_neg last, ih]
        by_cases done : first ≤ n ∧ n < first + count
        · rw [if_pos done, if_pos (by omega)]
        · rw [if_neg done, if_neg (by omega)]

end

/-! ## Steps -/

/-! What a step does to the links of its level. -/

def opened (length : Nat) (links : Nat → Option Link) (other : Nat) : Option Link :=
  if other = head then (links other).map fun _ => ⟨tail, length + 1⟩ else links other

theorem link?_openLevel (length : Nat) (arena : Arena) (level other n : Nat) :
    (openLevel length arena level).link? other n =
      if n = level then opened length (arena.link? · level) other else arena.link? other n := by
  rw [openLevel, link?_setLink, opened]
  by_cases here : n = level
  · subst here
    by_cases first : other = head <;> simp [first]
  · simp [here]

def spliced (update : Nat → Place) (slot level : Nat) (links : Nat → Option Link)
    (other : Nat) : Option Link :=
  let skipped := (update 0).position - (update level).position
  if other = (update level).slot then (links other).map fun _ => ⟨slot, skipped + 1⟩
  else if other = slot then
    (links other).map fun _ =>
      let before := (links (update level).slot).getD default
      ⟨before.next, before.width - skipped⟩
  else links other

theorem link?_splice (update : Nat → Place) (slot : Nat) (arena : Arena) (level other n : Nat) :
    (splice update slot arena level).link? other n =
      if n = level then spliced update slot level (arena.link? · level) other
      else arena.link? other n := by
  simp only [splice, link?_setLink, spliced, link_eq_getD]
  by_cases here : n = level
  · subst here
    by_cases updated : other = (update n).slot
    · subst updated
      by_cases self : (update n).slot = slot <;> simp [self, Function.comp_def]
    · by_cases self : other = slot
      · subst self
        simp [updated]
      · simp [updated, self]
  · simp [here]

def widened (update : Nat → Place) (level : Nat) (links : Nat → Option Link)
    (other : Nat) : Option Link :=
  if other = (update level).slot then
    (links other).map fun link => { link with width := link.width + 1 }
  else links other

theorem link?_widen (update : Nat → Place) (arena : Arena) (level other n : Nat) :
    (widen update arena level).link? other n =
      if n = level then widened update level (arena.link? · level) other
      else arena.link? other n := by
  simp only [widen, link?_setLink, widened, link_eq_getD]
  by_cases here : n = level
  · subst here
    by_cases updated : other = (update n).slot
    · subst updated
      cases arena.link? (update n).slot n <;> simp
    · simp [updated]
  · simp [here]

theorem link?_weave (arena : Arena) (update : Nat → Place) (slot height : Nat) {level n : Nat}
    (bound : n < level) (other : Nat) :
    (arena.weave update slot height level).link? other n =
      if n < height then spliced update slot n (arena.link? · n) other
      else widened update n (arena.link? · n) other := by
  have first : ∀ other, (arena.eachLevel (splice update slot) 0 height).link? other n =
      if n < height then spliced update slot n (arena.link? · n) other
      else arena.link? other n := by
    intro other
    rw [link?_eachLevel arena 0 height (link?_splice update slot)]
    simp
  rw [weave, link?_eachLevel _ height (level - height) (link?_widen update)]
  by_cases low : n < height
  · rw [if_neg (by omega), first, if_pos low, if_pos low]
  · rw [if_pos (by omega), if_neg low]
    simp only [first, if_neg low]

def bypassed (update : Nat → Place) (slot level : Nat) (links : Nat → Option Link)
    (other : Nat) : Option Link :=
  if other = (update level).slot then
    (links other).map fun link =>
      if link.next = slot then
        let removed := (links slot).getD default
        ⟨removed.next, link.width + removed.width - 1⟩
      else { link with width := link.width - 1 }
  else links other

theorem link?_bypass (update : Nat → Place) (slot : Nat) (arena : Arena) (level other n : Nat) :
    (bypass update slot arena level).link? other n =
      if n = level then bypassed update slot level (arena.link? · level) other
      else arena.link? other n := by
  simp only [bypass, bypassed, link_eq_getD]
  by_cases here : n = level
  · subst here
    by_cases updated : other = (update n).slot
    · subst updated
      cases held : arena.link? (update n).slot n with
      | none => split <;> simp [link?_setLink, held]
      | some link =>
          by_cases reached : link.next = slot <;> simp [link?_setLink, held, reached]
    · split <;> simp [link?_setLink, updated]
  · split <;> simp [link?_setLink, here]

/-! ## What they leave alone -/

section

variable {β : Type} (view : Arena → β)
  (links : ∀ (arena : Arena) slot level link, view (arena.setLink slot level link) = view arena)
  (prevs : ∀ (arena : Arena) slot prev, view (arena.setPrev slot prev) = view arena)
  (arena : Arena) (update : Nat → Place) (slot height level : Nat)

include links

theorem weave_keeps : view (arena.weave update slot height level) = view arena := by
  rw [weave, eachLevel_keeps _ _ _ _ view, eachLevel_keeps _ _ _ _ view]
  · intro arena level
    rw [splice, links, links]
  · intro arena level
    rw [widen, links]

theorem bypass_keeps :
    view (arena.eachLevel (bypass update slot) 0 level) = view arena := by
  refine eachLevel_keeps _ _ _ _ view fun arena level => ?_
  rw [bypass]
  split <;> exact links ..

include prevs

theorem attach_keeps : view (arena.attach update slot height level) = view arena := by
  rw [attach, prevs, weave_keeps view links]

theorem detach_keeps : view (arena.detach update slot level) = view arena := by
  rw [detach, prevs, bypass_keeps view links]

end

end RankedQuery.SkipList.Arena
