import RankedQuery.Ranking.SkipList.Insertion

/-!
# Removal

The links at which the search for a document leaves the levels are those that
lead to it or over it.  The former go on to where its own links led, the latter
become narrower by one, and levels that only it had reached go out of use.
-/

namespace RankedQuery.SkipList

variable {l : SkipList} {towers : List Tower}

/-! ## The arena -/

section

variable {arena : Arena} {level k n : Nat} {update : Nat → Place}
  (carries : arena.Carries towers level) (distinct : Distinct towers)
  (updates : Updates towers level k update) (inside : k + 1 < towers.length)

theorem link?_bypassed (slot : Nat) (used : n < level) (other : Nat) :
    (arena.eachLevel (Arena.bypass update slot) 0 level).link? other n =
      Arena.bypassed update slot n (arena.link? · n) other := by
  rw [Arena.link?_eachLevel arena 0 level (Arena.link?_bypass update slot), if_pos (by omega)]

include distinct updates in
theorem link?_bypass_elsewhere (slot : Nat) (used : n < level) {p : Nat}
    (inner : p < towers.length) (elsewhere : ¬ Stops towers n k p) :
    (arena.eachLevel (Arena.bypass update slot) 0 level).link? (slotOf towers p) n =
      arena.link? (slotOf towers p) n := by
  rw [link?_bypassed slot used, Arena.bypassed,
    if_neg (updates.slot_ne used distinct inner elsewhere)]

include updates in
theorem link?_bypass_over (slot : Nat) (used : n < level) {s : Nat}
    (stops : Stops towers n k s) {link : Link}
    (held : arena.link? (slotOf towers s) n = some link) :
    (arena.eachLevel (Arena.bypass update slot) 0 level).link? (slotOf towers s) n =
      some (if link.next = slot then
          ⟨(arena.link slot n).next, link.width + (arena.link slot n).width - 1⟩
        else { link with width := link.width - 1 }) := by
  have left := updates.eq_placeOf used stops
  rw [link?_bypassed slot used]
  simp [Arena.bypassed, left, placeOf, held, Arena.link_eq_getD]

include carries distinct updates inside in
theorem link?_bypass_erase {p q : Nat} (used : n < level)
    (high : n < heightOf (towers.eraseIdx (k + 1)) p)
    (follows : Follows (towers.eraseIdx (k + 1)) n p q) :
    (arena.eachLevel (Arena.bypass update (slotOf towers (k + 1))) 0 level).link?
        (slotOf (towers.eraseIdx (k + 1)) p) n =
      some ⟨slotOf (towers.eraseIdx (k + 1)) q, q - p⟩ := by
  cases follows.of_erase inside high with
  | before linked short =>
      have ahead := linked.ahead
      have low : p ≤ k := by omega
      have elsewhere : ¬ Stops towers n k p := fun stops => by
        have far := stops.lt linked (by omega)
        omega
      rw [heightOf_erase_of_le low] at high
      rw [slotOf_erase_of_le low, slotOf_erase_of_le short,
        link?_bypass_elsewhere distinct updates _ used (by omega) elsewhere]
      exact carries.links n p q used high linked
  | past stops linked further reached =>
      have le := stops.le
      have ahead := further.ahead
      have link := carries.links n p (k + 1) used stops.high linked
      have removed := carries.links n (k + 1) (q + 1) used reached further
      have width : k + 1 - p + (q + 1 - (k + 1)) - 1 = q - p := by omega
      rw [slotOf_erase_of_le le, slotOf_erase_of_lt (by omega),
        link?_bypass_over updates _ used stops link, if_pos rfl, Arena.link_eq removed]
      simp only [width]
  | across stops lt linked =>
      have le := stops.le
      have within := linked.within
      have link := carries.links n p (q + 1) used stops.high linked
      have apart : slotOf towers (q + 1) ≠ slotOf towers (k + 1) := fun same => by
        have here := distinct (k + 1) (q + 1) inside within same.symm
        omega
      have width : q + 1 - p - 1 = q - p := by omega
      rw [slotOf_erase_of_le le, slotOf_erase_of_lt lt,
        link?_bypass_over updates _ used stops link, if_neg apart]
      simp only [width]
  | behind lt linked =>
      have ahead := linked.ahead
      have within := linked.within
      have elsewhere : ¬ Stops towers n k (p + 1) := fun stops => by
        have le := stops.le
        omega
      have width : q + 1 - (p + 1) = q - p := by omega
      rw [heightOf_erase_of_lt lt] at high
      rw [slotOf_erase_of_lt lt, slotOf_erase_of_lt (by omega),
        link?_bypass_elsewhere distinct updates _ used (by omega) elsewhere,
        carries.links n (p + 1) (q + 1) used high linked, width]

include carries distinct inside in
theorem data?_erase {other : Tower} {p : Nat}
    (listed : (towers.eraseIdx (k + 1))[p]? = some other) :
    (arena.setPrev (slotOf towers (k + 2)) (slotOf towers k)).data? other.slot =
      some (other.entry, slotOf (towers.eraseIdx (k + 1)) (p - 1)) := by
  -- only the tower behind the one that leaves gets another one in front of it
  have apart {p : Nat} {other : Tower} (there : towers[p]? = some other)
      (elsewhere : p ≠ k + 2) : other.slot ≠ slotOf towers (k + 2) := by
    rw [← slotOf_eq there]
    intro same
    have inner := (List.getElem?_eq_some_iff.mp there).1
    exact elsewhere (distinct p (k + 2) inner (by omega) same)
  rw [Arena.data?_setPrev]
  by_cases before : p ≤ k
  · rw [getElem?_erase_of_le before] at listed
    rw [if_neg (apart listed (by omega)), carries.data p other listed,
      slotOf_erase_of_le (by omega)]
  · obtain ⟨p, rfl⟩ : ∃ n, p = n + 1 := ⟨p - 1, by omega⟩
    rw [getElem?_erase_of_lt (by omega)] at listed
    rw [carries.data (p + 1 + 1) other listed, Nat.add_sub_cancel, Nat.add_sub_cancel]
    by_cases first : p = k
    · subst first
      rw [if_pos (slotOf_eq listed).symm, slotOf_erase_of_le (Nat.le_refl p)]
      rfl
    · rw [if_neg (apart listed (by omega)), slotOf_erase_of_lt (by omega)]

include carries distinct updates inside in
theorem carries_detach {tower : Tower} (held : towers[k + 1]? = some tower) (used : 0 < level)
    (high : 0 < heightOf towers (k + 1)) (follows : Follows towers 0 (k + 1) (k + 2)) :
    (arena.detach update tower.slot level).Carries (towers.eraseIdx (k + 1)) level := by
  let bypassed := arena.eachLevel (Arena.bypass update tower.slot) 0 level
  have slot := slotOf_eq held
  have data (other : Nat) : bypassed.data? other = arena.data? other :=
    Arena.bypass_keeps (·.data? other) (fun _ _ _ _ => Arena.data?_setLink ..) ..
  have next : (bypassed.link tower.slot 0).next = slotOf towers (k + 2) := by
    have elsewhere : ¬ Stops towers 0 k (k + 1) := fun stops => by
      have le := stops.le
      omega
    have link : bypassed.link? (slotOf towers (k + 1)) 0 = _ :=
      link?_bypass_elsewhere distinct updates tower.slot used inside elsewhere
    rw [carries.links 0 (k + 1) (k + 2) used high follows, slot] at link
    rw [Arena.link_eq link]
  have prev : (bypassed.node tower.slot).prev = slotOf towers k :=
    (Arena.node_eq ((data _).trans (carries.data (k + 1) tower held))).2
  rw [Arena.detach, next, prev]
  constructor
  · intro p other listed
    rw [Arena.data?_setPrev, data, ← Arena.data?_setPrev]
    exact data?_erase carries distinct inside listed
  · intro n p q used high follows
    have links := link?_bypass_erase carries distinct updates inside used high follows
    rw [slot] at links
    rw [Arena.link?_setPrev]
    exact links

end

/-! ## Levels -/

theorem Arena.lowered_spec (arena : Arena) {level : Nat} (used : 0 < level) :
    0 < arena.lowered level ∧ arena.lowered level ≤ level ∧
      ∀ n, arena.lowered level ≤ n → n < level → (arena.link head n).next = tail := by
  match level with
  | 1 => exact ⟨Nat.one_pos, Nat.le_refl 1, fun n above below => by
      have above : 1 ≤ n := above
      omega⟩
  | level + 2 =>
      rw [lowered]
      split
      next empty =>
        obtain ⟨pos, le, above⟩ := arena.lowered_spec (show 0 < level + 1 by omega)
        refine ⟨pos, by omega, fun n bound below => ?_⟩
        by_cases top : n = level + 1
        · rw [top, empty]
        · exact above n bound (by omega)
      next => exact ⟨by omega, Nat.le_refl _, fun n above below => by omega⟩

/-- Levels that are not left in use have no towers. -/
theorem heights_lowered {arena : Arena} {level : Nat} (carries : arena.Carries towers level)
    (distinct : Distinct towers) (first : slotOf towers 0 = head)
    (heights : ∀ p, 0 < p → p < towers.length →
      0 < heightOf towers p ∧ heightOf towers p ≤ level)
    (used : 0 < level) (covered : level ≤ heightOf towers 0) :
    ∀ p, 0 < p → p < towers.length →
      0 < heightOf towers p ∧ heightOf towers p ≤ arena.lowered level := by
  intro p after inside
  obtain ⟨pos, le⟩ := heights p after inside
  refine ⟨pos, Nat.le_of_not_lt fun above => ?_⟩
  obtain ⟨n, tall⟩ : ∃ n, heightOf towers p = n + 1 := ⟨heightOf towers p - 1, by omega⟩
  obtain ⟨q, follows⟩ := exists_follows towers n 0 (by omega)
  have near : q ≤ p := Nat.le_of_not_lt fun far => by
    have low := follows.passed p after far
    omega
  have link := carries.links n 0 q (by omega) (by omega) follows
  have empty := (arena.lowered_spec used).2.2 n (by omega) (by omega)
  rw [first] at link
  rw [Arena.link_eq link, ← slotOf_length towers] at empty
  have here := distinct q towers.length (by omega) (Nat.le_refl _) empty
  omega

/-! ## The list -/

namespace Threads

variable (threads : l.Threads towers)

include threads

theorem mem_tail_erase_iff {k : Nat} {tower : Tower} (held : towers[k + 1]? = some tower)
    {other : Tower} :
    other ∈ (towers.eraseIdx (k + 1)).tail ↔
      tower.entry.id ≠ other.entry.id ∧ other ∈ towers.tail := by
  rw [mem_tail_erase]
  constructor
  · rintro ⟨p, elsewhere, there⟩
    exact ⟨fun same => elsewhere (threads.place_unique there held same.symm), mem_tail there⟩
  · rintro ⟨apart, inside⟩
    obtain ⟨p, there⟩ := List.getElem?_of_mem inside
    rw [List.getElem?_tail] at there
    refine ⟨p, fun here => ?_, there⟩
    subst here
    exact apart (congrArg (·.entry.id) (Option.some.inj (held.symm.trans there)))

theorem slots_erase {k : Nat} {tower : Tower} (held : towers[k + 1]? = some tower)
    (id : DocId) (slot : Nat) :
    (l.slots.erase tower.entry.id)[id]? = some slot ↔
      ∃ other ∈ (towers.eraseIdx (k + 1)).tail, other.entry.id = id ∧ other.slot = slot := by
  simp only [Std.ExtTreeMap.getElem?_erase, Std.LawfulEqCmp.compare_eq_iff_eq,
    threads.mem_tail_erase_iff held]
  split
  next same =>
    refine iff_of_false (by simp) ?_
    rintro ⟨other, ⟨apart, -⟩, rfl, -⟩
    exact apart same
  next apart =>
    rw [threads.slots]
    constructor
    · rintro ⟨other, listed, rfl, rfl⟩
      exact ⟨other, ⟨apart, listed⟩, rfl, rfl⟩
    · rintro ⟨other, ⟨-, listed⟩, found⟩
      exact ⟨other, listed, found⟩

theorem unlink {k : Nat} {tower : Tower} (held : towers[k + 1]? = some tower) :
    (l.unlink tower.slot).Threads (towers.eraseIdx (k + 1)) := by
  have inside := (List.getElem?_eq_some_iff.mp held).1
  have length := length_erase inside
  have updates := threads.updates (threads.countP_before held) threads.level_le
  have carries := carries_detach threads.carries threads.distinct updates inside held
    threads.level_pos (threads.heightOf_pos inside) (threads.follows_zero inside)
  unfold SkipList.unlink
  rw [threads.entryAt_eq held]
  dsimp only
  generalize left (l.search (l.precedes tower.entry)) = update at *
  have first : slotOf (towers.eraseIdx (k + 1)) 0 = head := by
    rw [slotOf_erase_of_le (Nat.zero_le k), threads.slotOf_zero]
  have size : ((l.nodes.detach update tower.slot l.level).clear tower.slot).size =
      l.nodes.size := by
    rw [Arena.size_clear]
    exact Arena.detach_keeps (·.size) (fun _ _ _ _ => Arena.size_setLink ..)
      (fun _ _ _ => Arena.size_setPrev ..) ..
  obtain ⟨lowered_pos, lowered_le, -⟩ :=
    (l.nodes.detach update tower.slot l.level).lowered_spec threads.level_pos
  have apart {p : Nat} (le : p ≤ (towers.eraseIdx (k + 1)).length) :
      slotOf (towers.eraseIdx (k + 1)) p ≠ tower.slot :=
    slotOf_eq held ▸ slotOf_erase_ne inside threads.distinct le
  constructor
  case carries =>
    constructor
    · intro p other listed
      rw [Arena.data?_clear]
      exact carries.data p other listed
    · intro n p q used high follows
      have inner := lt_length_of_high high
      rw [Arena.link?_clear (apart (Nat.le_of_lt inner))]
      exact carries.links n p q (Nat.lt_of_lt_of_le used lowered_le) high follows
  case first =>
    rw [getElem?_erase_of_le (Nat.zero_le k)]
    exact threads.first
  case length =>
    show _ = l.length - 1 + 1
    have old := threads.length
    omega
  case level_pos => exact lowered_pos
  case level_le => exact Nat.le_trans lowered_le threads.level_le
  case heights =>
    refine heights_lowered carries (distinct_erase inside threads.distinct) first
      (heights_erase inside threads.heights) threads.level_pos ?_
    rw [heightOf_erase_of_le (Nat.zero_le k), threads.heightOf_zero]
    exact threads.level_le
  case distinct => exact distinct_erase inside threads.distinct
  case ordered => exact threads.ordered.sublist (documents_erase_sublist towers k)
  case slots => exact threads.slots_erase held
  case room =>
    rw [size]
    exact threads.room
  case openable =>
    intro n bound
    rw [Arena.link?_clear (first ▸ apart (Nat.zero_le _)),
      Arena.detach_keeps (fun arena => (arena.link? head n).isSome)
        (fun _ _ _ _ => Arena.isSome_setLink ..)
        (fun _ _ _ => congrArg Option.isSome (Arena.link?_setPrev ..))]
    exact threads.openable n bound
  case free =>
    intro slot listed
    rw [size]
    rcases List.mem_cons.mp listed with rfl | older
    · refine ⟨Arena.lt_size (threads.carries.data (k + 1) tower held), ?_, ?_⟩
      · exact slotOf_eq held ▸ threads.slotOf_ne_tail inside
      · intro another left same
        obtain ⟨p, there⟩ := List.getElem?_of_mem left
        have inner := (List.getElem?_eq_some_iff.mp there).1
        exact apart (Nat.le_of_lt inner) ((slotOf_eq there).trans same)
    · obtain ⟨inner, ne_tail, unused⟩ := threads.free slot older
      exact ⟨inner, ne_tail, fun another left => unused another (List.mem_of_mem_eraseIdx left)⟩
  case nodup_free =>
    refine List.nodup_cons.mpr ⟨fun listed => ?_, threads.nodup_free⟩
    exact (threads.free tower.slot listed).2.2 tower (List.mem_of_getElem? held) rfl

theorem absent_unlink {k : Nat} {tower : Tower} (held : towers[k + 1]? = some tower) :
    (l.unlink tower.slot).slots[tower.entry.id]? = none := by
  unfold SkipList.unlink
  rw [threads.entryAt_eq held]
  simp

theorem score?_unlink {k : Nat} {tower : Tower} (held : towers[k + 1]? = some tower)
    (id : DocId) :
    (l.unlink tower.slot).score? id = if tower.entry.id = id then none else l.score? id := by
  have unlinked := threads.unlink held
  have listed {entry : Scored} : entry ∈ documents (towers.eraseIdx (k + 1)) ↔
      tower.entry.id ≠ entry.id ∧ entry ∈ documents towers := by
    simp only [documents, List.mem_map, threads.mem_tail_erase_iff held]
    constructor
    · rintro ⟨another, ⟨apart, inside⟩, rfl⟩
      exact ⟨apart, another, inside, rfl⟩
    · rintro ⟨apart, another, inside, rfl⟩
      exact ⟨another, ⟨apart, inside⟩, rfl⟩
  ext score
  rw [← unlinked.mem_documents, listed]
  split
  next same => simp [same]
  next apart => simp [apart, threads.mem_documents]

end Threads

end RankedQuery.SkipList
