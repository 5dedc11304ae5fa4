import RankedQuery.Ranking.SkipList.Threads

/-!
# Insertion

A new document gets a tower behind those of the documents before it.  The links
over its position are the ones at which the search for it left the levels: below
its height they lead to it and its own links lead to where they led, and above
they become wider by one.
-/

namespace RankedQuery.SkipList

/-! ## Levels -/

theorem raise_eq (l : SkipList) (height : Nat) :
    l.raise height =
      { l with
        nodes := l.nodes.eachLevel (Arena.openLevel l.length) l.level (height - l.level)
        level := max l.level height } := by
  rw [raise]
  split
  next higher => rw [Nat.max_eq_right (Nat.le_of_lt higher)]
  next covered =>
    have covered := Nat.le_of_not_lt covered
    rw [Nat.max_eq_left covered, Nat.sub_eq_zero_of_le covered]
    rfl

variable {l : SkipList} {towers : List Tower}

theorem Threads.raise (threads : l.Threads towers) {height : Nat} (bound : height ≤ l.maxLevel) :
    (l.raise height).Threads towers := by
  have level_pos := threads.level_pos
  have level_le := threads.level_le
  have keeps {β : Type} (view : Arena → β) := Arena.eachLevel_keeps l.nodes
    (Arena.openLevel l.length) l.level (height - l.level) view
  have links (slot n : Nat) := Arena.link?_eachLevel l.nodes l.level (height - l.level)
    (Arena.link?_openLevel l.length) slot n
  rw [raise_eq]
  refine { threads with carries := ⟨?_, ?_⟩, level_pos := ?_, level_le := ?_, heights := ?_,
                        room := ?_, openable := ?_, free := ?_ }
  · intro p tower held
    rw [keeps (·.data? tower.slot) fun _ _ => Arena.data?_setLink ..]
    exact threads.carries.data p tower held
  · intro n p q used high follows
    rw [links]
    by_cases new : l.level ≤ n
    · have low : ∀ r, 0 < r → ¬ n < heightOf towers r := fun r after high => by
        have low := threads.heights r after (lt_length_of_high high)
        omega
      obtain rfl : p = 0 := Nat.eq_zero_of_not_pos fun after => low p after high
      have last : q = towers.length := by
        refine Nat.le_antisymm follows.within (Nat.le_of_not_lt fun inner => ?_)
        exact low q follows.ahead (follows.high inner)
      obtain ⟨link, held⟩ := Option.isSome_iff_exists.mp
        (threads.openable n (Nat.lt_of_lt_of_le used (Nat.max_le.mpr ⟨level_le, bound⟩)))
      have below : n < max l.level height := used
      rw [if_pos (by omega), Arena.opened, if_pos threads.slotOf_zero, threads.slotOf_zero, held,
        last, slotOf_length, threads.length]
      rfl
    · rw [if_neg (by omega)]
      exact threads.carries.links n p q (by omega) high follows
  · show 0 < max l.level height
    omega
  · show max l.level height ≤ l.maxLevel
    omega
  · intro p after inside
    have low := threads.heights p after inside
    exact ⟨low.1, by show _ ≤ max l.level height; omega⟩
  · rw [keeps (·.size) fun _ _ => Arena.size_setLink ..]
    exact threads.room
  · intro n bound
    rw [keeps (fun arena => (arena.link? head n).isSome) fun _ _ => Arena.isSome_setLink ..]
    exact threads.openable n bound
  · rw [keeps (·.size) fun _ _ => Arena.size_setLink ..]
    exact threads.free

/-! ## Slots -/

structure Allocated (l : SkipList) (towers : List Tower) (node : Node) (slot : Nat)
    (nodes : Arena) (rest : List Nat) : Prop where
  here : nodes[slot]? = some node
  others : ∀ other, other ≠ slot → nodes[other]? = l.nodes[other]?
  fresh : ∀ p ≤ towers.length, slotOf towers p ≠ slot
  grown : l.nodes.size ≤ nodes.size
  free : ∀ other ∈ rest, other ∈ l.free ∧ other ≠ slot
  nodup : rest.Nodup

theorem Threads.alloc_eq (threads : l.Threads towers) (node : Node) :
    ∃ slot nodes free, l.alloc node = (slot, { l with nodes, free }) ∧
      Allocated l towers node slot nodes free := by
  have fresh {slot : Nat} (ne_tail : slot ≠ tail)
      (unused : ∀ tower ∈ towers, tower.slot ≠ slot) :
      ∀ p ≤ towers.length, slotOf towers p ≠ slot := by
    intro p le
    by_cases inside : p < towers.length
    · rw [slotOf_eq (List.getElem?_eq_getElem inside)]
      exact unused _ (List.getElem_mem inside)
    · rw [Nat.le_antisymm le (Nat.le_of_not_lt inside), slotOf_length]
      exact Ne.symm ne_tail
  unfold alloc
  cases recycled : l.free with
  | nil =>
      have room := threads.room
      refine ⟨l.nodes.size, l.nodes.push node, [], by simp only, by simp,
        fun other apart => ?_, fresh (by omega) ?_, by simp, by simp, List.nodup_nil⟩
      · rw [Array.getElem?_push, if_neg apart]
      · intro tower listed
        obtain ⟨p, held⟩ := List.getElem?_of_mem listed
        exact Nat.ne_of_lt (Arena.lt_size (threads.carries.data p tower held))
  | cons slot free =>
      obtain ⟨inside, ne_tail, unused⟩ := threads.free slot (by simp [recycled])
      have nodup := threads.nodup_free
      rw [recycled, List.nodup_cons] at nodup
      refine ⟨slot, l.nodes.setIfInBounds slot node, free, rfl, by simp [inside],
        fun other apart => ?_, fresh ne_tail unused, by simp,
        fun other listed => ⟨by simp [recycled, listed], ?_⟩, nodup.2⟩
      · rw [Array.getElem?_setIfInBounds_ne (Ne.symm apart)]
      · rintro rfl
        exact nodup.1 listed

/-! ## The arena -/

/-- The search for a new document leaves the levels at these places. -/
structure Updates (towers : List Tower) (level k : Nat) (update : Nat → Place) : Prop where
  inside : k < towers.length
  zero : update 0 = placeOf towers k
  stops : ∀ n < level, ∃ p, update n = placeOf towers p ∧ Stops towers n k p

namespace Updates

variable {level k n p : Nat} {update : Nat → Place} (updates : Updates towers level k update)
  (used : n < level)

include updates used

theorem eq_placeOf (stops : Stops towers n k p) : update n = placeOf towers p := by
  obtain ⟨s, left, stops'⟩ := updates.stops n used
  rw [left, stops.unique stops']

theorem slot_ne (distinct : Distinct towers) (inside : p < towers.length)
    (elsewhere : ¬ Stops towers n k p) : slotOf towers p ≠ (update n).slot := by
  obtain ⟨s, left, stops⟩ := updates.stops n used
  rw [left]
  intro same
  have le := stops.le
  have within := updates.inside
  exact elsewhere (distinct p s inside (by omega) same ▸ stops)

end Updates

section

variable {arena grown : Arena} {level k n : Nat} {update : Nat → Place} {new : Tower}
  (carries : arena.Carries towers level) (distinct : Distinct towers)
  (updates : Updates towers level k update)
  (fresh : ∀ p ≤ towers.length, slotOf towers p ≠ new.slot)
  (here : grown[new.slot]? =
    some ⟨new.entry, (update 0).slot, .replicate new.height default⟩)
  (others : ∀ other, other ≠ new.slot → grown[other]? = arena[other]?)

include distinct updates fresh others in
theorem link?_weave_elsewhere (used : n < level) {p : Nat} (inside : p < towers.length)
    (elsewhere : ¬ Stops towers n k p) :
    (grown.weave update new.slot new.height level).link? (slotOf towers p) n =
      arena.link? (slotOf towers p) n := by
  have apart := updates.slot_ne used distinct inside elsewhere
  have old := fresh p (Nat.le_of_lt inside)
  have kept : grown.link? (slotOf towers p) n = arena.link? (slotOf towers p) n := by
    rw [Arena.link?, others _ old, Arena.link?]
  rw [Arena.link?_weave grown update new.slot new.height used]
  split
  · rw [Arena.spliced, if_neg apart, if_neg old, kept]
  · rw [Arena.widened, if_neg apart, kept]

include updates fresh others in
theorem link?_weave_over (used : n < level) {s : Nat} (stops : Stops towers n k s)
    {link : Link} (held : arena.link? (slotOf towers s) n = some link) :
    (grown.weave update new.slot new.height level).link? (slotOf towers s) n =
      some (if n < new.height then ⟨new.slot, k - s + 1⟩
        else { link with width := link.width + 1 }) := by
  have left := updates.eq_placeOf used stops
  have inside := updates.inside
  have le := stops.le
  have kept : grown.link? (slotOf towers s) n = some link := by
    rw [Arena.link?, others _ (fresh s (by omega)), ← Arena.link?, held]
  rw [Arena.link?_weave grown update new.slot new.height used]
  split
  · simp [Arena.spliced, left, updates.zero, placeOf, kept]
  · simp [Arena.widened, left, placeOf, kept]

include updates fresh here others in
theorem link?_weave_new (used : n < level) (low : n < new.height) {s : Nat}
    (stops : Stops towers n k s) {link : Link}
    (held : arena.link? (slotOf towers s) n = some link) :
    (grown.weave update new.slot new.height level).link? new.slot n =
      some ⟨link.next, link.width - (k - s)⟩ := by
  have left := updates.eq_placeOf used stops
  have inside := updates.inside
  have le := stops.le
  have apart := fresh s (by omega)
  have kept : grown.link? (slotOf towers s) n = some link := by
    rw [Arena.link?, others _ apart, ← Arena.link?, held]
  have blank : grown.link? new.slot n = some default := by
    rw [Arena.link?, here]
    simp [low]
  rw [Arena.link?_weave grown update new.slot new.height used, if_pos low]
  simp [Arena.spliced, left, updates.zero, placeOf, kept, blank, Ne.symm apart]

include carries distinct updates fresh here others in
theorem link?_weave_insert {p q : Nat} (used : n < level)
    (high : n < heightOf (towers.insertIdx (k + 1) new) p)
    (follows : Follows (towers.insertIdx (k + 1) new) n p q) :
    (grown.weave update new.slot new.height level).link?
        (slotOf (towers.insertIdx (k + 1) new) p) n =
      some ⟨slotOf (towers.insertIdx (k + 1) new) q, q - p⟩ := by
  have inside := updates.inside
  cases follows.of_insert inside high with
  | before linked short =>
      have ahead := linked.ahead
      have low : p ≤ k := by omega
      have elsewhere : ¬ Stops towers n k p := fun stops => by
        have far := stops.lt linked inside
        omega
      rw [heightOf_insert_of_le low] at high
      rw [slotOf_insert_of_le low, slotOf_insert_of_le short,
        link?_weave_elsewhere distinct updates fresh others used (by omega) elsewhere]
      exact carries.links n p q used high linked
  | onto stops below =>
      have le := stops.le
      obtain ⟨after, linked⟩ := exists_follows towers n p (by omega)
      have link := carries.links n p after used stops.high linked
      have width : k - p + 1 = k + 1 - p := by omega
      rw [slotOf_insert_of_le le, slotOf_insert_self inside,
        link?_weave_over updates fresh others used stops link, if_pos below, width]
  | @across _ q stops linked above =>
      have le := stops.le
      have far := stops.lt linked inside
      have link := carries.links n p q used stops.high linked
      have width : q - p + 1 = q + 1 - p := by omega
      rw [slotOf_insert_of_le le, slotOf_insert_of_lt far,
        link?_weave_over updates fresh others used stops link, if_neg (by omega)]
      simp only [width]
  | @onward q below linked =>
      obtain ⟨s, -, stops⟩ := updates.stops n used
      have le := stops.le
      have far := stops.lt (linked s stops) inside
      have link := carries.links n s q used stops.high (linked s stops)
      have width : q - s - (k - s) = q + 1 - (k + 1) := by omega
      rw [slotOf_insert_self inside, slotOf_insert_of_lt far,
        link?_weave_new updates fresh here others used below stops link]
      simp only [width]
  | @behind p q lt linked =>
      have ahead := linked.ahead
      have within := linked.within
      have elsewhere : ¬ Stops towers n k p := fun stops => by
        have le := stops.le
        omega
      have width : q - p = q + 1 - (p + 1) := by omega
      rw [heightOf_insert_of_lt lt] at high
      rw [slotOf_insert_of_lt lt, slotOf_insert_of_lt (by omega),
        link?_weave_elsewhere distinct updates fresh others used (by omega) elsewhere,
        carries.links n p q used high linked, width]

include others in
theorem data?_weave (other : Nat) (old : other ≠ new.slot) :
    (grown.weave update new.slot new.height level).data? other = arena.data? other := by
  rw [Arena.weave_keeps (·.data? other) fun _ _ _ _ => Arena.data?_setLink .., Arena.data?,
    others _ old, Arena.data?]

include updates here in
theorem data?_weave_new :
    (grown.weave update new.slot new.height level).data? new.slot =
      some (new.entry, slotOf towers k) := by
  rw [Arena.weave_keeps (·.data? new.slot) fun _ _ _ _ => Arena.data?_setLink .., Arena.data?,
    here, updates.zero]
  rfl

include carries distinct updates fresh here others in
theorem data?_weave_insert {p : Nat} {tower : Tower}
    (held : (towers.insertIdx (k + 1) new)[p]? = some tower) :
    ((grown.weave update new.slot new.height level).setPrev (slotOf towers (k + 1))
        new.slot).data? tower.slot =
      some (tower.entry, slotOf (towers.insertIdx (k + 1) new) (p - 1)) := by
  have inside := updates.inside
  -- only the tower behind the new one gets another one in front of it
  have apart {p : Nat} {tower : Tower} (held : towers[p]? = some tower) (elsewhere : p ≠ k + 1) :
      tower.slot ≠ slotOf towers (k + 1) := by
    rw [← slotOf_eq held]
    intro same
    have inner := (List.getElem?_eq_some_iff.mp held).1
    exact elsewhere (distinct p (k + 1) inner (by omega) same)
  have old {p : Nat} {tower : Tower} (held : towers[p]? = some tower) :
      (grown.weave update new.slot new.height level).data? tower.slot =
        some (tower.entry, slotOf towers (p - 1)) := by
    have inner := (List.getElem?_eq_some_iff.mp held).1
    rw [data?_weave others tower.slot (slotOf_eq held ▸ fresh p (Nat.le_of_lt inner)),
      carries.data p tower held]
  rw [Arena.data?_setPrev]
  rcases Nat.lt_trichotomy p (k + 1) with before | rfl | behind
  · rw [getElem?_insert_of_le (by omega)] at held
    rw [if_neg (apart held (by omega)), old held, slotOf_insert_of_le (by omega)]
  · rw [getElem?_insert_self inside, Option.some.injEq] at held
    subst held
    rw [if_neg (Ne.symm (fresh (k + 1) (by omega))), data?_weave_new updates here,
      Nat.add_sub_cancel, slotOf_insert_of_le (Nat.le_refl k)]
  · obtain ⟨p, rfl⟩ : ∃ n, p = n + 1 := ⟨p - 1, by omega⟩
    rw [getElem?_insert_of_lt (by omega)] at held
    rw [old held, Nat.add_sub_cancel]
    by_cases first : p = k + 1
    · subst first
      rw [if_pos (slotOf_eq held).symm, slotOf_insert_self inside]
      rfl
    · obtain ⟨p, rfl⟩ : ∃ n, p = n + 1 := ⟨p - 1, by omega⟩
      rw [if_neg (apart held first), slotOf_insert_of_lt (by omega), Nat.add_sub_cancel]

variable (new) in
include carries distinct updates fresh here others in
theorem carries_attach (used : 0 < level) (low : 0 < new.height)
    (lowest : Stops towers 0 k k) (follows : Follows towers 0 k (k + 1)) :
    (grown.attach update new.slot new.height level).Carries (towers.insertIdx (k + 1) new)
      level := by
  have link := carries.links 0 k (k + 1) used lowest.high follows
  rw [Arena.attach,
    Arena.link_eq (link?_weave_new updates fresh here others used low lowest link)]
  constructor
  · intro p tower held
    exact data?_weave_insert carries distinct updates fresh here others held
  · intro n p q used high follows
    rw [Arena.link?_setPrev]
    exact link?_weave_insert carries distinct updates fresh here others used high follows

end

/-! ## The list -/

namespace Threads

variable (threads : l.Threads towers)

include threads

theorem height_bounds (draws : Nat) : 0 < l.height draws ∧ l.height draws ≤ l.maxLevel := by
  have level_pos := threads.level_pos
  have level_le := threads.level_le
  rw [height]
  omega

theorem updates {entry : Scored} {k : Nat}
    (count : (documents towers).countP (·.Before entry) = k) {level : Nat}
    (le : level ≤ l.maxLevel) :
    Updates towers level k (left (l.search (l.precedes entry))) := by
  have splits := count ▸ threads.splits_precedes entry
  exact ⟨splits.inside, threads.left_search_zero splits,
    fun n used => threads.left_search splits (by omega)⟩

/-- A new document comes behind all that are before it and in front of all others. -/
theorem ordered_insert {entry : Scored} (absent : l.slots[entry.id]? = none) {k : Nat}
    (count : (documents towers).countP (·.Before entry) = k) :
    ((documents towers).take k ++ entry :: (documents towers).drop k).Pairwise
      Scored.Before := by
  have initial := threads.initial_before entry
  have before : ∀ a ∈ (documents towers).take k, a.Before entry := by
    intro a listed
    rw [← count, take_countP_eq_filter initial, List.mem_filter] at listed
    simpa using listed.2
  have behind : ∀ b ∈ (documents towers).drop k, entry.Before b := by
    intro b listed
    rw [← count, drop_countP_eq_filter initial, List.mem_filter] at listed
    have apart : b ≠ entry := by
      rintro rfl
      have scored := threads.mem_documents.mp listed.1
      rw [score?, absent] at scored
      cases scored
    exact (Scored.before_or_before apart).resolve_left (by simpa using listed.2)
  refine List.pairwise_append.mpr ⟨threads.ordered.sublist (List.take_sublist _ _),
    List.pairwise_cons.mpr ⟨behind, threads.ordered.sublist (List.drop_sublist _ _)⟩, ?_⟩
  intro a earlier b later
  rcases List.mem_cons.mp later with rfl | later
  · exact before a earlier
  · exact (before a earlier).trans (behind b later)

theorem slots_insert (new : Tower) (absent : l.slots[new.entry.id]? = none) {k : Nat}
    (inside : k < towers.length) (id : DocId) (slot : Nat) :
    (l.slots.insert new.entry.id new.slot)[id]? = some slot ↔
      ∃ tower ∈ (towers.insertIdx (k + 1) new).tail, tower.entry.id = id ∧ tower.slot = slot := by
  have old := threads.slots id slot
  simp only [Std.ExtTreeMap.getElem?_insert, Std.LawfulEqCmp.compare_eq_iff_eq,
    mem_tail_insert inside]
  by_cases same : new.entry.id = id
  · subst same
    rw [absent] at old
    rw [if_pos rfl, Option.some.injEq]
    constructor
    · intro here
      exact ⟨_, .inl rfl, rfl, here⟩
    · rintro ⟨tower, rfl | listed, sameId, sameSlot⟩
      · exact sameSlot
      · exact absurd (old.mpr ⟨tower, listed, sameId, sameSlot⟩) (by simp)
  · rw [if_neg same, old]
    constructor
    · rintro ⟨tower, listed, found⟩
      exact ⟨tower, .inr listed, found⟩
    · rintro ⟨tower, rfl | listed, sameId, sameSlot⟩
      · exact absurd sameId same
      · exact ⟨tower, listed, sameId, sameSlot⟩

omit threads in
theorem insert_of_alloc {entry : Scored} {draws slot : Nat} {m : SkipList}
    (alloc : (l.raise (l.height draws)).alloc ⟨entry,
      (left (l.search (l.precedes entry)) 0).slot, .replicate (l.height draws) default⟩ =
        (slot, m)) :
    l.insert entry draws =
      { m with
        nodes := m.nodes.attach (left (l.search (l.precedes entry))) slot (l.height draws) m.level
        slots := m.slots.insert entry.id slot
        length := m.length + 1 } := by
  unfold SkipList.insert
  dsimp only
  rw [alloc]

theorem insert (entry : Scored) (absent : l.slots[entry.id]? = none) {k : Nat}
    (count : (documents towers).countP (·.Before entry) = k) (draws : Nat) :
    ∃ new, new.entry = entry ∧
      (l.insert entry draws).Threads (towers.insertIdx (k + 1) new) := by
  obtain ⟨tall, bound⟩ := threads.height_bounds draws
  have raised := threads.raise bound
  have maxLevel : (l.raise (l.height draws)).maxLevel = l.maxLevel := by rw [raise_eq]
  have slots : (l.raise (l.height draws)).slots = l.slots := by rw [raise_eq]
  have covered : l.height draws ≤ (l.raise (l.height draws)).level := by
    rw [raise_eq]
    exact Nat.le_max_right _ _
  have updates := threads.updates count (maxLevel ▸ raised.level_le)
  have ordered := threads.ordered_insert absent count
  obtain ⟨slot, nodes, rest, alloc, allocated⟩ := raised.alloc_eq
    ⟨entry, (left (l.search (l.precedes entry)) 0).slot, .replicate (l.height draws) default⟩
  refine ⟨⟨slot, entry, l.height draws⟩, rfl, ?_⟩
  rw [insert_of_alloc alloc]
  generalize l.raise (l.height draws) = r at *
  generalize left (l.search (l.precedes entry)) = update at *
  have inside := updates.inside
  have carries := carries_attach ⟨slot, entry, l.height draws⟩ raised.carries raised.distinct
    updates allocated.fresh allocated.here allocated.others raised.level_pos tall
    (raised.stops_zero inside) (raised.follows_zero inside)
  have length := @length_insert towers k ⟨slot, entry, l.height draws⟩ inside
  have apart : head ≠ slot := raised.slotOf_zero ▸ allocated.fresh 0 (Nat.zero_le _)
  have size : (nodes.attach update slot (l.height draws) r.level).size = nodes.size :=
    Arena.attach_keeps (·.size) (fun _ _ _ _ => Arena.size_setLink ..)
      (fun _ _ _ => Arena.size_setPrev ..) ..
  have openable (n : Nat) :
      ((nodes.attach update slot (l.height draws) r.level).link? head n).isSome =
        (nodes.link? head n).isSome :=
    Arena.attach_keeps (fun arena => (arena.link? head n).isSome)
      (fun _ _ _ _ => Arena.isSome_setLink ..)
      (fun _ _ _ => congrArg Option.isSome (Arena.link?_setPrev ..)) ..
  constructor
  case carries => exact carries
  case first =>
    rw [getElem?_insert_of_le (Nat.zero_le k)]
    exact raised.first
  case length => rw [length, raised.length]
  case level_pos => exact raised.level_pos
  case level_le => exact raised.level_le
  case heights => exact heights_insert inside raised.heights ⟨tall, covered⟩
  case distinct => exact distinct_insert inside raised.distinct allocated.fresh
  case ordered =>
    rw [documents_insert inside]
    exact ordered
  case slots =>
    rw [← slots] at absent
    exact raised.slots_insert ⟨slot, entry, l.height draws⟩ absent inside
  case room =>
    rw [size]
    exact Nat.lt_of_lt_of_le raised.room allocated.grown
  case openable =>
    intro n bound
    rw [openable, Arena.link?, allocated.others head apart]
    exact raised.openable n bound
  case free =>
    intro other listed
    obtain ⟨old, unused⟩ := allocated.free other listed
    obtain ⟨inner, ne_tail, free⟩ := raised.free other old
    refine ⟨by rw [size]; exact Nat.lt_of_lt_of_le inner allocated.grown, ne_tail, ?_⟩
    intro tower inserted
    rcases (mem_insert inside).mp inserted with rfl | older
    · exact Ne.symm unused
    · exact free tower older
  case nodup_free => exact allocated.nodup

theorem score?_insert (entry : Scored) (absent : l.slots[entry.id]? = none) (draws : Nat)
    (id : DocId) :
    (l.insert entry draws).score? id =
      if entry.id = id then some entry.score else l.score? id := by
  obtain ⟨new, rfl, inserted⟩ := threads.insert _ absent rfl draws
  have inside := (threads.splits_precedes new.entry).inside
  ext score
  rw [← inserted.mem_documents, documents_insert inside, List.mem_append, List.mem_cons,
    or_left_comm, ← List.mem_append, List.take_append_drop, threads.mem_documents]
  split
  next same =>
    subst same
    rw [score?, absent]
    simp [Scored.ext_iff, eq_comm]
  next apart => simp [Scored.ext_iff, Ne.symm apart]

end Threads

end RankedQuery.SkipList
