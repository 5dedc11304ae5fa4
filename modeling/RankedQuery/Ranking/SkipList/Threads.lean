import RankedQuery.Ranking.SkipList.Arena
import RankedQuery.Ranking.SkipList.Towers

/-!
# The shape of a skip list

A skip list threads towers if its nodes hold their documents in order, every
link leads to the tower that follows on its level, with the right width, and the
slots of documents are those of the towers.  Reading such a list gives what the
row of its documents gives: a search whose test holds up to some position stops
there on the lowest level.
-/

namespace RankedQuery.SkipList

/-- The nodes carry the towers, linked on the levels below `level`. -/
structure Arena.Carries (arena : Arena) (towers : List Tower) (level : Nat) : Prop where
  data : ∀ p tower, towers[p]? = some tower →
    arena.data? tower.slot = some (tower.entry, slotOf towers (p - 1))
  links : ∀ n p q, n < level → n < heightOf towers p → Follows towers n p q →
    arena.link? (slotOf towers p) n = some ⟨slotOf towers q, q - p⟩

structure Threads (l : SkipList) (towers : List Tower) : Prop where
  carries : l.nodes.Carries towers l.level
  first : towers[0]? = some ⟨head, ⟨Int64.minValue, 0⟩, l.maxLevel⟩
  length : towers.length = l.length + 1
  level_pos : 0 < l.level
  level_le : l.level ≤ l.maxLevel
  heights : ∀ p, 0 < p → p < towers.length →
    0 < heightOf towers p ∧ heightOf towers p ≤ l.level
  distinct : Distinct towers
  ordered : (documents towers).Pairwise Scored.Before
  slots : ∀ id slot, l.slots[id]? = some slot ↔
    ∃ tower ∈ towers.tail, tower.entry.id = id ∧ tower.slot = slot
  room : tail < l.nodes.size
  openable : ∀ n < l.maxLevel, (l.nodes.link? head n).isSome
  free : ∀ slot ∈ l.free, slot < l.nodes.size ∧ slot ≠ tail ∧
    ∀ tower ∈ towers, tower.slot ≠ slot
  nodup_free : l.free.Nodup

def placeOf (towers : List Tower) (position : Nat) : Place := ⟨slotOf towers position, position⟩

/-- The test holds for the documents up to position `k` and for no later ones. -/
structure Splits (towers : List Tower) (test : Place → Bool) (k : Nat) : Prop where
  inside : k < towers.length
  iff : ∀ p, 0 < p → p < towers.length → (test (placeOf towers p) = true ↔ p ≤ k)

namespace Threads

variable {l : SkipList} {towers : List Tower} (threads : l.Threads towers)

include threads

theorem slotOf_zero : slotOf towers 0 = head := slotOf_eq threads.first

theorem heightOf_zero : heightOf towers 0 = l.maxLevel := heightOf_eq threads.first

theorem heightOf_pos {p : Nat} (inside : p < towers.length) : 0 < heightOf towers p := by
  have level_pos := threads.level_pos
  have level_le := threads.level_le
  cases p with
  | zero =>
      rw [threads.heightOf_zero]
      omega
  | succ p => exact (threads.heights _ (Nat.succ_pos p) inside).1

theorem slotOf_ne_tail {p : Nat} (inside : p < towers.length) : slotOf towers p ≠ tail := by
  intro same
  rw [← slotOf_length towers] at same
  have here := threads.distinct p towers.length inside (Nat.le_refl _) same
  omega

/-! ## Searches -/

theorem walk_eq {test : Place → Bool} {k n : Nat} (splits : Splits towers test k)
    (used : n < l.level) (fuel : Nat) {p : Nat} (le : p ≤ k) (high : n < heightOf towers p)
    (enough : k - p ≤ fuel) :
    ∃ s, l.nodes.walk test n fuel (placeOf towers p) = placeOf towers s ∧
      Stops towers n k s := by
  have inside := splits.inside
  induction fuel generalizing p with
  | zero => exact ⟨p, rfl, le, high, fun r _ _ => by omega⟩
  | succ fuel ih =>
      obtain ⟨q, follows⟩ := exists_follows towers n p (by omega)
      have ahead := follows.ahead
      have link := Arena.link_eq (threads.carries.links n p q used high follows)
      have further : p + (q - p) = q := by omega
      simp only [Arena.walk, placeOf, link, further]
      by_cases reached : q ≤ k
      · have inner : q < towers.length := by omega
        have passes := (splits.iff q (by omega) inner).mpr reached
        simp only [placeOf] at passes
        rw [if_pos ⟨threads.slotOf_ne_tail inner, passes⟩]
        exact ih reached (follows.high inner) (by omega)
      · rw [if_neg]
        · exact ⟨p, rfl, le, high, fun r after short => follows.passed r after (by omega)⟩
        · rintro ⟨notTail, passes⟩
          by_cases inner : q < towers.length
          · exact reached ((splits.iff q (by omega) inner).mp passes)
          · have last : q = towers.length := Nat.le_antisymm follows.within (by omega)
            exact notTail (last ▸ slotOf_length towers)

theorem trail_eq {test : Place → Bool} {k : Nat} (splits : Splits towers test k)
    (levels : Nat) (used : levels ≤ l.level) {p : Nat} (le : p ≤ k)
    (high : levels ≤ heightOf towers p) {fuel : Nat} (enough : k ≤ fuel) :
    (l.nodes.trail test fuel levels (placeOf towers p)).length = levels ∧
      ∀ n < levels, ∃ s, Stops towers n k s ∧
        (l.nodes.trail test fuel levels (placeOf towers p)).reverse[n]? =
          some (placeOf towers s) := by
  induction levels generalizing p with
  | zero => exact ⟨rfl, fun n below => absurd below (Nat.not_lt_zero n)⟩
  | succ level ih =>
      obtain ⟨s, walked, stops⟩ :=
        threads.walk_eq splits (n := level) (by omega) fuel le (by omega) (by omega)
      obtain ⟨length, below⟩ := ih (by omega) stops.le (Nat.le_of_lt stops.high)
      simp only [Arena.trail, walked, List.length_cons, length, List.reverse_cons, true_and]
      intro n bound
      by_cases top : n = level
      · subst top
        refine ⟨s, stops, ?_⟩
        rw [List.getElem?_append_right (by simp [length])]
        simp [length]
      · obtain ⟨s', stops', found⟩ := below n (by omega)
        refine ⟨s', stops', ?_⟩
        rw [List.getElem?_append_left (by rw [List.length_reverse, length]; omega), found]

theorem placeOf_zero : placeOf towers 0 = front := by
  rw [placeOf, threads.slotOf_zero, front]

theorem search_eq {test : Place → Bool} {k : Nat} (splits : Splits towers test k) :
    (l.search test).length = l.level ∧
      ∀ n < l.level, ∃ s, Stops towers n k s ∧
        (l.search test).reverse[n]? = some (placeOf towers s) := by
  have length := threads.length
  have inside := splits.inside
  have high : l.level ≤ heightOf towers 0 := threads.heightOf_zero ▸ threads.level_le
  rw [search, ← threads.placeOf_zero]
  exact threads.trail_eq splits l.level (Nat.le_refl _) (Nat.zero_le k) high (by omega)

/-- Where a search leaves a level, in use or not. -/
theorem left_search {test : Place → Bool} {k n : Nat} (splits : Splits towers test k)
    (bound : n < l.maxLevel) :
    ∃ s, left (l.search test) n = placeOf towers s ∧ Stops towers n k s := by
  have inside := splits.inside
  obtain ⟨length, stopped⟩ := threads.search_eq splits
  rw [left]
  by_cases used : n < l.level
  · obtain ⟨s, stops, found⟩ := stopped n used
    exact ⟨s, by rw [found, Option.getD_some], stops⟩
  · refine ⟨0, ?_, Nat.zero_le k, threads.heightOf_zero ▸ bound, fun r after short => ?_⟩
    · rw [List.getElem?_eq_none (by rw [List.length_reverse]; omega), Option.getD_none,
        threads.placeOf_zero]
    · have low := (threads.heights r after (by omega)).2
      omega

theorem stops_zero {k : Nat} (inside : k < towers.length) : Stops towers 0 k k :=
  ⟨Nat.le_refl k, threads.heightOf_pos inside, fun r _ _ => by omega⟩

theorem left_search_zero {test : Place → Bool} {k : Nat} (splits : Splits towers test k) :
    left (l.search test) 0 = placeOf towers k := by
  have level_pos := threads.level_pos
  have level_le := threads.level_le
  obtain ⟨s, found, stops⟩ := threads.left_search splits (n := 0) (by omega)
  rw [found, stops.unique (threads.stops_zero splits.inside)]

/-- A search that ends as soon as it meets its goal. -/
theorem find?_search {test goal : Place → Bool} {k : Nat} (splits : Splits towers test k)
    (only : ∀ p ≤ k, goal (placeOf towers p) = true ↔ p = k) :
    (l.search test).find? goal = some (placeOf towers k) := by
  obtain ⟨length, stopped⟩ := threads.search_eq splits
  cases found : (l.search test).find? goal with
  | none =>
      obtain ⟨s, stops, last⟩ := stopped 0 threads.level_pos
      rw [stops.unique (threads.stops_zero splits.inside)] at last
      have reached := List.mem_reverse.mp (List.mem_of_getElem? last)
      have missed := List.find?_eq_none.mp found _ reached
      exact absurd ((only k (Nat.le_refl k)).mpr rfl) missed
  | some place =>
      have met := List.mem_reverse.mpr (List.mem_of_find?_eq_some found)
      obtain ⟨n, here⟩ := List.getElem?_of_mem met
      have bound := (List.getElem?_eq_some_iff.mp here).1
      rw [List.length_reverse, length] at bound
      obtain ⟨s, stops, passed⟩ := stopped n bound
      obtain rfl := Option.some.inj (here.symm.trans passed)
      rw [(only s stops.le).mp (List.find?_some found)]

/-! ## Tests of documents -/

theorem entryAt_eq {p : Nat} {tower : Tower} (held : towers[p]? = some tower) :
    l.entryAt tower.slot = tower.entry :=
  (Arena.node_eq (threads.carries.data p tower held)).1

theorem entryAt_slotOf {p : Nat} (inside : p < (documents towers).length) :
    l.entryAt (slotOf towers (p + 1)) = (documents towers)[p] := by
  have inner : p + 1 < towers.length := by
    simp only [documents, List.length_map, List.length_tail] at inside
    omega
  have held := List.getElem?_eq_getElem inner
  rw [slotOf_eq held, threads.entryAt_eq held]
  simp [documents]

theorem length_documents : (documents towers).length = l.length := by
  simp [documents, threads.length]

theorem splits_countP {test : Scored → Bool}
    (initial : (documents towers).Pairwise fun a b => test b = true → test a = true) :
    Splits towers (fun place => test (l.entryAt place.slot)) ((documents towers).countP test) := by
  have length := threads.length
  have documented := threads.length_documents
  constructor
  · have le := (documents towers).countP_le_length (p := test)
    omega
  · intro p after inside
    obtain ⟨p, rfl⟩ : ∃ n, p = n + 1 := ⟨p - 1, by omega⟩
    rw [placeOf, threads.entryAt_slotOf (by omega), ← lt_countP_iff initial]
    exact Nat.succ_le_iff.symm

theorem initial_before (entry : Scored) :
    (documents towers).Pairwise fun a b =>
      decide (b.Before entry) = true → decide (a.Before entry) = true :=
  threads.ordered.imp fun earlier before => by
    simp only [decide_eq_true_eq] at *
    exact earlier.trans before

theorem splits_precedes (entry : Scored) :
    Splits towers (l.precedes entry) ((documents towers).countP (·.Before entry)) :=
  threads.splits_countP (threads.initial_before entry)

/-! ## Reading -/

theorem countWhile_eq {test : Score → Bool}
    (initial : (documents towers).Pairwise fun a b => test b.score = true → test a.score = true) :
    l.countWhile test = (documents towers).countP (test ·.score) := by
  rw [countWhile, threads.left_search_zero (threads.splits_countP initial), placeOf]

theorem follows_zero {p : Nat} (inside : p < towers.length) : Follows towers 0 p (p + 1) :=
  ⟨by omega, by omega, fun more => threads.heightOf_pos more, fun r _ _ => by omega⟩

theorem nextSlot?_eq {p : Nat} (inside : p < towers.length) :
    l.nextSlot? (slotOf towers p) =
      if p + 1 < towers.length then some (slotOf towers (p + 1)) else none := by
  have link := Arena.link_eq (threads.carries.links 0 p (p + 1) threads.level_pos
    (threads.heightOf_pos inside) (threads.follows_zero inside))
  rw [nextSlot?, link]
  by_cases more : p + 1 < towers.length
  · simp [more, threads.slotOf_ne_tail more]
  · have last : p + 1 = towers.length := by omega
    simp [last, slotOf_length]

theorem prevSlot?_eq {p : Nat} (inside : p + 1 < towers.length) :
    l.prevSlot? (slotOf towers (p + 1)) = if 0 < p then some (slotOf towers p) else none := by
  have held := List.getElem?_eq_getElem inside
  have prev := (Arena.node_eq (threads.carries.data _ _ held)).2
  rw [← slotOf_eq held, Nat.add_sub_cancel] at prev
  rw [prevSlot?, prev]
  by_cases first : 0 < p
  · have apart : slotOf towers p ≠ head := fun same => by
      have here := threads.distinct p 0 (by omega) (by omega)
        (same.trans threads.slotOf_zero.symm)
      omega
    simp [first, apart]
  · have here : p = 0 := by omega
    simp [here, threads.slotOf_zero]

theorem slotsFrom_eq (fuel p : Nat) (rest : p + 1 + fuel = towers.length) :
    l.slotsFrom fuel (slotOf towers p) = (towers.drop (p + 1)).map (·.slot) := by
  induction fuel generalizing p with
  | zero => simp [slotsFrom, List.drop_of_length_le (show towers.length ≤ p + 1 by omega)]
  | succ fuel ih =>
      have more : p + 1 < towers.length := by omega
      rw [slotsFrom, threads.nextSlot?_eq (by omega), if_pos more]
      dsimp only
      rw [List.drop_eq_getElem_cons more, List.map_cons, ih (p + 1) (by omega),
        slotOf_eq (List.getElem?_eq_getElem more)]

theorem chain_eq : l.chain = towers.tail.map (·.slot) := by
  have length := threads.length
  rw [chain, ← threads.slotOf_zero, threads.slotsFrom_eq l.length 0 (by omega), List.drop_one]

theorem entries_eq : l.entries = documents towers := by
  rw [entries, threads.chain_eq, List.map_map, documents]
  refine List.map_congr_left fun tower listed => ?_
  obtain ⟨p, held⟩ := List.getElem?_of_mem (List.mem_of_mem_tail listed)
  exact threads.entryAt_eq held

theorem getElem?_chain (position : Nat) :
    l.chain[position]? =
      if position < l.length then some (slotOf towers (position + 1)) else none := by
  have length := threads.length
  rw [threads.chain_eq, List.getElem?_map, List.getElem?_tail]
  by_cases inside : position < l.length
  · have held := List.getElem?_eq_getElem (show position + 1 < towers.length by omega)
    rw [if_pos inside, held, Option.map_some, slotOf_eq held]
  · rw [if_neg inside, List.getElem?_eq_none (by omega), Option.map_none]

theorem seek?_eq (position : Nat) : l.seek? position = l.chain[position]? := by
  have length := threads.length
  rw [threads.getElem?_chain, seek?]
  by_cases inside : position < l.length
  · have splits : Splits towers (·.position ≤ position + 1) (position + 1) :=
      ⟨by omega, fun p _ _ => decide_eq_true_iff⟩
    rw [if_neg (by omega), if_pos inside,
      threads.find?_search splits fun p _ => decide_eq_true_iff, Option.map_some, placeOf]
  · rw [if_pos (by omega), if_neg inside]

theorem nodup_chain : l.chain.Nodup := by
  rw [threads.chain_eq, List.Nodup, List.pairwise_map, List.pairwise_iff_getElem]
  intro i j insideI insideJ before same
  simp only [List.length_tail] at insideI insideJ
  simp only [List.getElem_tail] at same
  have here := threads.distinct (i + 1) (j + 1) (by omega) (by omega) (by
    rwa [slotOf_eq (List.getElem?_eq_getElem (by omega)),
      slotOf_eq (List.getElem?_eq_getElem (by omega))])
  omega

theorem nextSlot?_chain {position slot : Nat} (held : l.chain[position]? = some slot) :
    l.nextSlot? slot = l.chain[position + 1]? := by
  have length := threads.length
  rw [threads.getElem?_chain] at held ⊢
  obtain ⟨inside, ⟨⟩⟩ := Option.ite_none_right_eq_some.mp held
  rw [threads.nextSlot?_eq (by omega)]
  by_cases more : position + 1 < l.length
  · rw [if_pos more, if_pos (by omega)]
  · rw [if_neg more, if_neg (by omega)]

theorem prevSlot?_chain {position slot : Nat} (held : l.chain[position]? = some slot) :
    l.prevSlot? slot = if 0 < position then l.chain[position - 1]? else none := by
  have length := threads.length
  rw [threads.getElem?_chain] at held ⊢
  obtain ⟨inside, ⟨⟩⟩ := Option.ite_none_right_eq_some.mp held
  rw [threads.prevSlot?_eq (by omega)]
  by_cases first : 0 < position
  · rw [if_pos first, if_pos first, if_pos (by omega), Nat.sub_add_cancel first]
  · rw [if_neg first, if_neg first]

theorem exists_tower {id : DocId} {slot : Nat} (found : l.slots[id]? = some slot) :
    ∃ p tower, towers[p + 1]? = some tower ∧ tower.entry.id = id ∧ tower.slot = slot := by
  obtain ⟨tower, listed, sameId, sameSlot⟩ := (threads.slots id slot).mp found
  obtain ⟨p, held⟩ := List.getElem?_of_mem listed
  exact ⟨p, tower, by rwa [List.getElem?_tail] at held, sameId, sameSlot⟩

theorem place_unique {p q : Nat} {a b : Tower} (heldA : towers[p + 1]? = some a)
    (heldB : towers[q + 1]? = some b) (same : a.entry.id = b.entry.id) : p = q := by
  have insideA := (List.getElem?_eq_some_iff.mp heldA).1
  have insideB := (List.getElem?_eq_some_iff.mp heldB).1
  have foundA := (threads.slots a.entry.id a.slot).mpr ⟨a, mem_tail heldA, rfl, rfl⟩
  have foundB := (threads.slots b.entry.id b.slot).mpr ⟨b, mem_tail heldB, rfl, rfl⟩
  rw [same, foundB, Option.some.injEq, ← slotOf_eq heldA, ← slotOf_eq heldB] at foundA
  have here := threads.distinct (q + 1) (p + 1) insideB (Nat.le_of_lt insideA) foundA
  omega

theorem mem_documents {score : Score} {id : DocId} :
    ⟨score, id⟩ ∈ documents towers ↔ l.score? id = some score := by
  rw [score?, documents, List.mem_map]
  constructor
  · rintro ⟨tower, listed, same⟩
    obtain ⟨p, held⟩ := List.getElem?_of_mem (List.mem_of_mem_tail listed)
    have found := (threads.slots id tower.slot).mpr ⟨tower, listed, by rw [same], rfl⟩
    rw [found, Option.map_some, threads.entryAt_eq held, same]
  · intro scored
    obtain ⟨slot, found, same⟩ := Option.map_eq_some_iff.mp scored
    obtain ⟨p, tower, held, rfl, rfl⟩ := threads.exists_tower found
    rw [threads.entryAt_eq held] at same
    exact ⟨tower, List.mem_of_getElem? (List.getElem?_tail ▸ held), by rw [← same]⟩

theorem countP_before {p : Nat} {tower : Tower} (held : towers[p + 1]? = some tower) :
    (documents towers).countP (·.Before tower.entry) = p := by
  have here : (documents towers)[p]? = some tower.entry := by
    rw [documents, List.getElem?_map, List.getElem?_tail, held, Option.map_some]
  have nodup : (documents towers).Nodup := threads.ordered.imp fun earlier => earlier.ne
  have inside := (List.getElem?_eq_some_iff.mp here).1
  have counted := Scored.getElem?_countP_before threads.ordered (List.mem_of_getElem? here)
  exact ((List.getElem?_inj inside nodup).mp (here.trans counted.symm)).symm

theorem rank?_eq (id : DocId) :
    l.rank? id =
      (l.score? id).map fun score => (documents towers).countP (·.Before ⟨score, id⟩) := by
  rw [rank?, score?]
  cases found : l.slots[id]? with
  | none => rfl
  | some slot =>
      obtain ⟨p, tower, held, rfl, rfl⟩ := threads.exists_tower found
      have inside := (List.getElem?_eq_some_iff.mp held).1
      have here : slotOf towers (p + 1) = tower.slot := slotOf_eq held
      have only {q : Nat} (inner : q < towers.length) :
          slotOf towers q = tower.slot ↔ q = p + 1 := by
        rw [← here]
        refine ⟨threads.distinct q (p + 1) inner (by omega), fun same => by rw [same]⟩
      have before := threads.splits_precedes tower.entry
      rw [threads.countP_before held] at before
      have splits : Splits towers
          (fun place => place.slot = tower.slot || l.precedes tower.entry place) (p + 1) := by
        refine ⟨inside, fun q after inner => ?_⟩
        rw [Bool.or_eq_true, before.iff q after inner, decide_eq_true_eq, placeOf, only inner]
        omega
      simp only [bind, Option.bind, threads.entryAt_eq held, Option.map_some]
      rw [threads.find?_search splits fun q le => by
        rw [decide_eq_true_eq, placeOf, only (by omega)]]
      simp only [placeOf, Nat.add_sub_cancel, pure]
      rw [threads.countP_before held]

end Threads

end RankedQuery.SkipList
