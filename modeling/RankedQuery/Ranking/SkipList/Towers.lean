import RankedQuery.Ranking.SkipList

/-!
# Towers

The nodes of a skip list in order, the head first, seen as towers: a slot, a
document and a height.  On every level a tower is followed by the next one that
is higher than the level, and a search for a position stops at the last one up
to there.  Putting in a tower or taking one out moves the positions behind it,
and changes what follows only for the towers at which a search for it stops.
-/

namespace RankedQuery.SkipList

structure Tower where
  slot : Nat
  entry : Scored
  height : Nat

def slotOf (towers : List Tower) (position : Nat) : Nat := towers[position]?.elim tail (·.slot)

def heightOf (towers : List Tower) (position : Nat) : Nat := towers[position]?.elim 0 (·.height)

def documents (towers : List Tower) : List Scored := towers.tail.map (·.entry)

/-- No two towers have the same slot, and none has that of the tail. -/
def Distinct (towers : List Tower) : Prop :=
  ∀ p q, p < towers.length → q ≤ towers.length → slotOf towers p = slotOf towers q → p = q

/-- The link of the tower at `p` on a level leads to position `q`. -/
structure Follows (towers : List Tower) (level p q : Nat) : Prop where
  ahead : p < q
  within : q ≤ towers.length
  high : q < towers.length → level < heightOf towers q
  passed : ∀ r, p < r → r < q → heightOf towers r ≤ level

/-- A search for position `k` leaves the level at `p`. -/
structure Stops (towers : List Tower) (level k p : Nat) : Prop where
  le : p ≤ k
  high : level < heightOf towers p
  passed : ∀ r, p < r → r ≤ k → heightOf towers r ≤ level

theorem slotOf_eq {towers : List Tower} {p : Nat} {tower : Tower}
    (held : towers[p]? = some tower) : slotOf towers p = tower.slot := by
  simp [slotOf, held]

theorem heightOf_eq {towers : List Tower} {p : Nat} {tower : Tower}
    (held : towers[p]? = some tower) : heightOf towers p = tower.height := by
  simp [heightOf, held]

theorem mem_tail {towers : List Tower} {p : Nat} {tower : Tower}
    (held : towers[p + 1]? = some tower) : tower ∈ towers.tail :=
  List.mem_of_getElem? (List.getElem?_tail ▸ held)

theorem slotOf_length (towers : List Tower) : slotOf towers towers.length = tail := by
  simp [slotOf]

theorem lt_length_of_high {towers : List Tower} {level p : Nat}
    (high : level < heightOf towers p) : p < towers.length := by
  refine Nat.lt_of_not_le fun outside => ?_
  simp [heightOf, List.getElem?_eq_none outside] at high

theorem exists_follows (towers : List Tower) (level p : Nat) (inside : p < towers.length) :
    ∃ q, Follows towers level p q := by
  by_cases last : p + 1 = towers.length
  · exact ⟨p + 1, by omega, by omega, by omega, fun r _ _ => by omega⟩
  by_cases high : level < heightOf towers (p + 1)
  · exact ⟨p + 1, by omega, by omega, fun _ => high, fun r _ _ => by omega⟩
  obtain ⟨q, ahead, within, tall, passed⟩ :=
    exists_follows towers level (p + 1) (by omega)
  refine ⟨q, by omega, within, tall, fun r after before => ?_⟩
  by_cases next : r = p + 1
  · subst next
    omega
  · exact passed r (by omega) before
termination_by towers.length - p

variable {towers : List Tower} {level k p q : Nat}

theorem Stops.lt (stops : Stops towers level k p) (follows : Follows towers level p q)
    (inside : k < towers.length) : k < q := by
  refine Nat.lt_of_not_le fun short => ?_
  have low := stops.passed q follows.ahead short
  have high := follows.high (by omega)
  omega

theorem Stops.unique {p' : Nat} (stops : Stops towers level k p)
    (stops' : Stops towers level k p') : p = p' := by
  rcases Nat.lt_trichotomy p p' with before | same | after
  · have low := stops.passed p' before stops'.le
    have high := stops'.high
    omega
  · exact same
  · have low := stops'.passed p after stops.le
    have high := stops.high
    omega

/-! ## Putting in a tower -/

theorem insertIdx_eq {α : Type} (x : α) {list : List α} {k : Nat} (le : k ≤ list.length) :
    list.insertIdx k x = list.take k ++ x :: list.drop k := by
  induction k generalizing list with
  | zero => simp
  | succ k ih =>
      cases list with
      | nil => simp at le
      | cons first rest => simp [ih (Nat.le_of_succ_le_succ le)]

section

variable {new : Tower} (inside : k < towers.length)

theorem getElem?_insert_of_le (le : p ≤ k) :
    (towers.insertIdx (k + 1) new)[p]? = towers[p]? :=
  List.getElem?_insertIdx_of_lt (by omega)

theorem getElem?_insert_of_lt (lt : k < p) :
    (towers.insertIdx (k + 1) new)[p + 1]? = towers[p]? :=
  List.getElem?_insertIdx_of_gt (by omega)

theorem slotOf_insert_of_le (le : p ≤ k) :
    slotOf (towers.insertIdx (k + 1) new) p = slotOf towers p := by
  rw [slotOf, getElem?_insert_of_le le, slotOf]

theorem slotOf_insert_of_lt (lt : k < p) :
    slotOf (towers.insertIdx (k + 1) new) (p + 1) = slotOf towers p := by
  rw [slotOf, getElem?_insert_of_lt lt, slotOf]

theorem heightOf_insert_of_le (le : p ≤ k) :
    heightOf (towers.insertIdx (k + 1) new) p = heightOf towers p := by
  rw [heightOf, getElem?_insert_of_le le, heightOf]

theorem heightOf_insert_of_lt (lt : k < p) :
    heightOf (towers.insertIdx (k + 1) new) (p + 1) = heightOf towers p := by
  rw [heightOf, getElem?_insert_of_lt lt, heightOf]

include inside

theorem getElem?_insert_self : (towers.insertIdx (k + 1) new)[k + 1]? = some new := by
  rw [List.getElem?_insertIdx_self, if_pos (by omega)]

theorem slotOf_insert_self : slotOf (towers.insertIdx (k + 1) new) (k + 1) = new.slot :=
  slotOf_eq (getElem?_insert_self inside)

theorem heightOf_insert_self : heightOf (towers.insertIdx (k + 1) new) (k + 1) = new.height :=
  heightOf_eq (getElem?_insert_self inside)

theorem length_insert : (towers.insertIdx (k + 1) new).length = towers.length + 1 :=
  List.length_insertIdx_of_le_length (by omega) _

theorem mem_insert {tower : Tower} :
    tower ∈ towers.insertIdx (k + 1) new ↔ tower = new ∨ tower ∈ towers :=
  List.mem_insertIdx (by omega)

theorem mem_tail_insert {tower : Tower} :
    tower ∈ (towers.insertIdx (k + 1) new).tail ↔ tower = new ∨ tower ∈ towers.tail := by
  cases towers with
  | nil => simp at inside
  | cons first rest =>
      rw [List.insertIdx_succ_cons, List.tail_cons, List.tail_cons]
      exact List.mem_insertIdx (Nat.le_of_lt_succ inside)

theorem documents_insert :
    documents (towers.insertIdx (k + 1) new) =
      (documents towers).take k ++ new.entry :: (documents towers).drop k := by
  cases towers with
  | nil => simp at inside
  | cons first rest =>
      have le : k ≤ rest.length := Nat.le_of_lt_succ inside
      simp only [documents, List.insertIdx_succ_cons, List.tail_cons, insertIdx_eq new le,
        List.map_append, List.map_cons, List.map_take, List.map_drop]

theorem heights_insert
    (heights : ∀ p, 0 < p → p < towers.length →
      0 < heightOf towers p ∧ heightOf towers p ≤ level)
    (bounds : 0 < new.height ∧ new.height ≤ level) :
    ∀ p, 0 < p → p < (towers.insertIdx (k + 1) new).length →
      0 < heightOf (towers.insertIdx (k + 1) new) p ∧
        heightOf (towers.insertIdx (k + 1) new) p ≤ level := by
  intro p after inner
  rw [length_insert inside] at inner
  rcases Nat.lt_trichotomy p (k + 1) with before | rfl | behind
  · rw [heightOf_insert_of_le (by omega)]
    exact heights p after (by omega)
  · rw [heightOf_insert_self inside]
    exact bounds
  · obtain ⟨p, rfl⟩ : ∃ n, p = n + 1 := ⟨p - 1, by omega⟩
    rw [heightOf_insert_of_lt (by omega)]
    exact heights p (by omega) (by omega)

theorem distinct_insert (distinct : Distinct towers)
    (fresh : ∀ p ≤ towers.length, slotOf towers p ≠ new.slot) :
    Distinct (towers.insertIdx (k + 1) new) := by
  have length := @length_insert towers k new inside
  have self := @slotOf_insert_self towers k new inside
  -- every other position is that of an old tower or of the tail
  have old : ∀ p ≤ towers.length + 1, p ≠ k + 1 → ∃ q ≤ towers.length,
      slotOf (towers.insertIdx (k + 1) new) p = slotOf towers q ∧
        ((p = q ∧ q ≤ k) ∨ (p = q + 1 ∧ k < q)) := by
    intro p le apart
    by_cases before : p ≤ k
    · exact ⟨p, by omega, slotOf_insert_of_le before, .inl ⟨rfl, before⟩⟩
    · obtain ⟨q, rfl⟩ : ∃ n, p = n + 1 := ⟨p - 1, by omega⟩
      exact ⟨q, by omega, slotOf_insert_of_lt (by omega), .inr ⟨rfl, by omega⟩⟩
  intro p q insideP withinQ same
  rw [length] at insideP withinQ
  by_cases newP : p = k + 1
  · subst newP
    refine Eq.symm (Decidable.byContradiction fun apart => ?_)
    obtain ⟨q', le, slot, -⟩ := old q withinQ apart
    exact fresh q' le (slot.symm.trans (same.symm.trans self))
  obtain ⟨p', leP, slotP, placeP⟩ := old p (by omega) newP
  by_cases newQ : q = k + 1
  · subst newQ
    exact absurd (slotP.symm.trans (same.trans self)) (fresh p' leP)
  obtain ⟨q', leQ, slotQ, placeQ⟩ := old q withinQ newQ
  have here := distinct p' q' (by omega) leQ (slotP.symm.trans (same.trans slotQ))
  omega

/-- What follows a tower when another has been put in behind position `k`. -/
inductive FollowsInserted (towers : List Tower) (new : Tower) (level k : Nat) :
    (p q : Nat) → Prop where
  | before {p q : Nat} (follows : Follows towers level p q) (le : q ≤ k) :
      FollowsInserted towers new level k p q
  | onto {p : Nat} (stops : Stops towers level k p) (high : level < new.height) :
      FollowsInserted towers new level k p (k + 1)
  | across {p q : Nat} (stops : Stops towers level k p) (follows : Follows towers level p q)
      (low : new.height ≤ level) : FollowsInserted towers new level k p (q + 1)
  | onward {q : Nat} (high : level < new.height)
      (follows : ∀ p, Stops towers level k p → Follows towers level p q) :
      FollowsInserted towers new level k (k + 1) (q + 1)
  | behind {p q : Nat} (lt : k < p) (follows : Follows towers level p q) :
      FollowsInserted towers new level k (p + 1) (q + 1)

theorem Follows.of_insert (follows : Follows (towers.insertIdx (k + 1) new) level p q)
    (high : level < heightOf (towers.insertIdx (k + 1) new) p) :
    FollowsInserted towers new level k p q := by
  obtain ⟨ahead, within, tall, passed⟩ := follows
  rw [length_insert inside] at within tall
  have le {r : Nat} (le : r ≤ k) := @heightOf_insert_of_le towers k r new le
  have self := @heightOf_insert_self towers k new inside
  have lt {r : Nat} (lt : k < r) := @heightOf_insert_of_lt towers k r new lt
  have passedBefore : ∀ r, p < r → r < q → r ≤ k → heightOf towers r ≤ level :=
    fun r after before short => le short ▸ passed r after before
  have passedBehind : ∀ r, p < r + 1 → r + 1 < q → k < r → heightOf towers r ≤ level :=
    fun r after before far => lt far ▸ passed (r + 1) after before
  rcases Nat.lt_trichotomy p (k + 1) with before | rfl | behind
  · rw [le (by omega)] at high
    rcases Nat.lt_trichotomy q (k + 1) with short | rfl | far
    · refine .before ⟨ahead, by omega, fun _ => ?_, fun r after before => ?_⟩ (by omega)
      · exact le (show q ≤ k by omega) ▸ tall (by omega)
      · exact passedBefore r after before (by omega)
    · refine .onto ⟨by omega, high, fun r after before => ?_⟩ (self ▸ tall (by omega))
      exact passedBefore r after (by omega) before
    · obtain ⟨q, rfl⟩ : ∃ n, q = n + 1 := ⟨q - 1, by omega⟩
      refine .across ⟨by omega, high, fun r after short => ?_⟩
        ⟨by omega, by omega, fun more => ?_, fun r after before => ?_⟩ ?_
      · exact passedBefore r after (by omega) short
      · exact lt (show k < q by omega) ▸ tall (by omega)
      · by_cases short : r ≤ k
        · exact passedBefore r after (by omega) short
        · exact passedBehind r (by omega) (by omega) (by omega)
      · exact self ▸ passed (k + 1) before far
  · obtain ⟨q, rfl⟩ : ∃ n, q = n + 1 := ⟨q - 1, by omega⟩
    refine .onward (self ▸ high) fun p stops => ?_
    refine ⟨by have := stops.le; omega, by omega, fun more => ?_, fun r after before => ?_⟩
    · exact lt (show k < q by omega) ▸ tall (by omega)
    · by_cases short : r ≤ k
      · exact stops.passed r after short
      · exact passedBehind r (by omega) (by omega) (by omega)
  · obtain ⟨p, rfl⟩ : ∃ n, p = n + 1 := ⟨p - 1, by omega⟩
    obtain ⟨q, rfl⟩ : ∃ n, q = n + 1 := ⟨q - 1, by omega⟩
    refine .behind (by omega) ⟨by omega, by omega, fun more => ?_, fun r after before => ?_⟩
    · exact lt (show k < q by omega) ▸ tall (by omega)
    · exact passedBehind r (by omega) (by omega) (by omega)

end

/-! ## Taking out a tower -/

section

variable (inside : k + 1 < towers.length)

theorem getElem?_erase_of_le (le : p ≤ k) : (towers.eraseIdx (k + 1))[p]? = towers[p]? :=
  List.getElem?_eraseIdx_of_lt (by omega)

theorem getElem?_erase_of_lt (lt : k < p) :
    (towers.eraseIdx (k + 1))[p]? = towers[p + 1]? :=
  List.getElem?_eraseIdx_of_ge (by omega)

theorem slotOf_erase_of_le (le : p ≤ k) :
    slotOf (towers.eraseIdx (k + 1)) p = slotOf towers p := by
  rw [slotOf, getElem?_erase_of_le le, slotOf]

theorem slotOf_erase_of_lt (lt : k < p) :
    slotOf (towers.eraseIdx (k + 1)) p = slotOf towers (p + 1) := by
  rw [slotOf, getElem?_erase_of_lt lt, slotOf]

theorem heightOf_erase_of_le (le : p ≤ k) :
    heightOf (towers.eraseIdx (k + 1)) p = heightOf towers p := by
  rw [heightOf, getElem?_erase_of_le le, heightOf]

theorem heightOf_erase_of_lt (lt : k < p) :
    heightOf (towers.eraseIdx (k + 1)) p = heightOf towers (p + 1) := by
  rw [heightOf, getElem?_erase_of_lt lt, heightOf]

theorem tail_erase (towers : List Tower) (k : Nat) :
    (towers.eraseIdx (k + 1)).tail = towers.tail.eraseIdx k := by
  cases towers <;> rfl

theorem mem_tail_erase {tower : Tower} :
    tower ∈ (towers.eraseIdx (k + 1)).tail ↔ ∃ p, p ≠ k ∧ towers[p + 1]? = some tower := by
  rw [tail_erase, List.mem_eraseIdx_iff_getElem?]
  simp only [List.getElem?_tail]

theorem documents_erase_sublist (towers : List Tower) (k : Nat) :
    (documents (towers.eraseIdx (k + 1))).Sublist (documents towers) := by
  rw [documents, tail_erase]
  exact (List.eraseIdx_sublist _ _).map _

include inside

theorem length_erase : (towers.eraseIdx (k + 1)).length + 1 = towers.length := by
  rw [List.length_eraseIdx_of_lt inside]
  omega

theorem heights_erase
    (heights : ∀ p, 0 < p → p < towers.length →
      0 < heightOf towers p ∧ heightOf towers p ≤ level) :
    ∀ p, 0 < p → p < (towers.eraseIdx (k + 1)).length →
      0 < heightOf (towers.eraseIdx (k + 1)) p ∧
        heightOf (towers.eraseIdx (k + 1)) p ≤ level := by
  have length := length_erase inside
  intro p after inner
  by_cases before : p ≤ k
  · rw [heightOf_erase_of_le before]
    exact heights p after (by omega)
  · rw [heightOf_erase_of_lt (by omega)]
    exact heights (p + 1) (by omega) (by omega)

theorem distinct_erase (distinct : Distinct towers) :
    Distinct (towers.eraseIdx (k + 1)) := by
  have length := length_erase inside
  have old : ∀ p ≤ (towers.eraseIdx (k + 1)).length, ∃ q ≤ towers.length,
      slotOf (towers.eraseIdx (k + 1)) p = slotOf towers q ∧
        ((p = q ∧ p ≤ k) ∨ (q = p + 1 ∧ k < p)) := by
    intro p le
    by_cases before : p ≤ k
    · exact ⟨p, by omega, slotOf_erase_of_le before, .inl ⟨rfl, before⟩⟩
    · exact ⟨p + 1, by omega, slotOf_erase_of_lt (by omega), .inr ⟨rfl, by omega⟩⟩
  intro p q insideP withinQ same
  obtain ⟨p', leP, slotP, placeP⟩ := old p (by omega)
  obtain ⟨q', leQ, slotQ, placeQ⟩ := old q withinQ
  have here := distinct p' q' (by omega) leQ (slotP.symm.trans (same.trans slotQ))
  omega

theorem slotOf_erase_ne (distinct : Distinct towers) {p : Nat}
    (le : p ≤ (towers.eraseIdx (k + 1)).length) :
    slotOf (towers.eraseIdx (k + 1)) p ≠ slotOf towers (k + 1) := by
  have length := length_erase inside
  intro same
  by_cases before : p ≤ k
  · rw [slotOf_erase_of_le before] at same
    have here := distinct (k + 1) p inside (by omega) same.symm
    omega
  · rw [slotOf_erase_of_lt (by omega)] at same
    have here := distinct (k + 1) (p + 1) inside (by omega) same.symm
    omega

/-- What follows a tower when the one behind position `k` has been taken out. -/
inductive FollowsErased (towers : List Tower) (level k : Nat) : (p q : Nat) → Prop where
  | before {p q : Nat} (follows : Follows towers level p q) (le : q ≤ k) :
      FollowsErased towers level k p q
  | past {p q : Nat} (stops : Stops towers level k p) (link : Follows towers level p (k + 1))
      (follows : Follows towers level (k + 1) (q + 1))
      (high : level < heightOf towers (k + 1)) : FollowsErased towers level k p q
  | across {p q : Nat} (stops : Stops towers level k p) (lt : k < q)
      (follows : Follows towers level p (q + 1)) : FollowsErased towers level k p q
  | behind {p q : Nat} (lt : k < p) (follows : Follows towers level (p + 1) (q + 1)) :
      FollowsErased towers level k p q

theorem Follows.of_erase (follows : Follows (towers.eraseIdx (k + 1)) level p q)
    (high : level < heightOf (towers.eraseIdx (k + 1)) p) :
    FollowsErased towers level k p q := by
  obtain ⟨ahead, within, tall, passed⟩ := follows
  have length := length_erase inside
  have le {r : Nat} (le : r ≤ k) := @heightOf_erase_of_le towers k r le
  have lt {r : Nat} (lt : k < r) := @heightOf_erase_of_lt towers k r lt
  have passedBefore : ∀ r, p < r → r < q → r ≤ k → heightOf towers r ≤ level :=
    fun r after before short => le short ▸ passed r after before
  have passedBehind : ∀ r, p < r → r < q → k < r → heightOf towers (r + 1) ≤ level :=
    fun r after before far => lt far ▸ passed r after before
  by_cases behind : k < p
  · refine .behind behind ⟨by omega, by omega, fun more => ?_, fun r after before => ?_⟩
    · exact lt (show k < q by omega) ▸ tall (by omega)
    · obtain ⟨r, rfl⟩ : ∃ n, r = n + 1 := ⟨r - 1, by omega⟩
      exact passedBehind r (by omega) (by omega) (by omega)
  rw [le (by omega)] at high
  by_cases short : q ≤ k
  · refine .before ⟨ahead, by omega, fun _ => le short ▸ tall (by omega), fun r after before => ?_⟩
      short
    exact passedBefore r after before (by omega)
  have stops : Stops towers level k p :=
    ⟨by omega, high, fun r after short => passedBefore r after (by omega) short⟩
  have tallBehind : q + 1 < towers.length → level < heightOf towers (q + 1) :=
    fun more => lt (show k < q by omega) ▸ tall (by omega)
  by_cases reached : level < heightOf towers (k + 1)
  · refine .past stops ⟨by omega, by omega, fun _ => reached, fun r after before => ?_⟩
      ⟨by omega, by omega, tallBehind, fun r after before => ?_⟩ reached
    · exact stops.passed r after (by omega)
    · obtain ⟨r, rfl⟩ : ∃ n, r = n + 1 := ⟨r - 1, by omega⟩
      exact passedBehind r (by omega) (by omega) (by omega)
  · refine .across stops (by omega) ⟨by omega, by omega, tallBehind, fun r after before => ?_⟩
    by_cases short : r ≤ k
    · exact stops.passed r after short
    by_cases here : r = k + 1
    · subst here
      omega
    · obtain ⟨r, rfl⟩ : ∃ n, r = n + 1 := ⟨r - 1, by omega⟩
      exact passedBehind r (by omega) (by omega) (by omega)

end

end RankedQuery.SkipList
