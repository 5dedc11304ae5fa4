import Mathlib.Data.List.Nodup
import RankedQuery.Proofs.Condition.Meaning
import RankedQuery.Scan

/-!
# Scans and the matches they page through

The matches of a scan are the documents of its sort, in the direction of the
page, that satisfy every condition.  All scans show the same stretch of the
matches and agree on whether more follow.  They differ in how many matches they
see: listing a driver sees all, walking the sort stops once the page, and the
total if there is one, cannot change any more.
-/

namespace RankedQuery

namespace Direction

variable {α : Type}

theorem filter_arrange (direction : Direction) (list : List α) (test : α → Bool) :
    (direction.arrange list).filter test = direction.arrange (list.filter test) := by
  cases direction with
  | asc => rfl
  | desc => exact List.filter_reverse ..

@[simp] theorem length_arrange (direction : Direction) (list : List α) :
    (direction.arrange list).length = list.length := by
  cases direction with
  | asc => rfl
  | desc => exact List.length_reverse

theorem mem_arrange {direction : Direction} {list : List α} {a : α} :
    a ∈ direction.arrange list ↔ a ∈ list := by
  cases direction with
  | asc => rfl
  | desc => exact List.mem_reverse

theorem nodup_arrange {direction : Direction} {list : List α} (nodup : list.Nodup) :
    (direction.arrange list).Nodup := by
  cases direction with
  | asc => exact nodup
  | desc => exact List.pairwise_reverse.mpr (nodup.imp Ne.symm)

end Direction

theorem BoundCondition.nodup_list {catalog : Catalog} {c : BoundCondition}
    {direction : Direction} {listed : List DocId}
    (lists : c.list catalog direction = .ok listed) : listed.Nodup := by
  unfold list at lists
  cases target : c.target with
  | ranked sort window start stop =>
      simp only [target, Except.ok.injEq] at lists
      rw [← lists, Ranking.rest_window]
      have inside := (List.drop_sublist start _).trans
        (List.take_sublist stop (catalog.rankings.read sort).ids)
      exact Direction.nodup_arrange ((Ranking.nodup_ids _).sublist inside)
  | set index =>
      simp only [target, Except.ok.injEq] at lists
      exact lists ▸ Index.nodup_ids _
  | union members => simp [target] at lists

namespace Scan

/-! ## Listing a driver -/

theorem preorders_precedes : Preorders precedes where
  total a b := by
    simp only [precedes, Bool.or_eq_true, Bool.and_eq_true, decide_eq_true_eq]
    rcases Nat.lt_trichotomy a.1 b.1 with less | same | more
    · exact .inl (.inl less)
    · exact (UInt32.le_total a.2 b.2).imp (.inr ⟨same, ·⟩) (.inr ⟨same.symm, ·⟩)
    · exact .inr (.inl more)
  trans a b c := by
    simp only [precedes, Bool.or_eq_true, Bool.and_eq_true, decide_eq_true_eq]
    rintro (less | ⟨same, first⟩) (less' | ⟨same', second⟩)
    · exact .inl (Nat.lt_trans less less')
    · exact .inl (same' ▸ less)
    · exact .inl (same ▸ less')
    · exact .inr ⟨same.trans same', UInt32.le_trans first second⟩

def placesOf (keep : DocId → Bool) (ids : List DocId) : List (Nat × DocId) :=
  (ids.zipIdx.filter (keep ·.1)).map Prod.swap

theorem mem_placesOf {keep : DocId → Bool} {ids : List DocId} {position : Nat} {id : DocId} :
    (position, id) ∈ placesOf keep ids ↔ ids[position]? = some id ∧ keep id = true := by
  simp only [placesOf, List.mem_map, List.mem_filter, Prod.exists, Prod.swap_prod_mk,
    Prod.mk.injEq, List.mem_zipIdx_iff_getElem?]
  constructor
  · rintro ⟨_, _, ⟨held, passes⟩, rfl, rfl⟩
    exact ⟨held, passes⟩
  · rintro ⟨held, passes⟩
    exact ⟨id, position, ⟨held, passes⟩, rfl, rfl⟩

theorem map_placesOf (keep : DocId → Bool) (ids : List DocId) :
    (placesOf keep ids).map (·.2) = ids.filter keep := by
  rw [placesOf, List.map_map, show ((·.2) ∘ Prod.swap : DocId × Nat → DocId) = Prod.fst from rfl,
    show (fun pair : DocId × Nat => keep pair.1) = keep ∘ Prod.fst from rfl, ← List.filter_map,
    List.zipIdx_map_fst]

theorem pairwise_placesOf (keep : DocId → Bool) (ids : List DocId) :
    (placesOf keep ids).Pairwise fun a b => a.1 < b.1 := by
  refine List.pairwise_map.mpr (List.Pairwise.filter _ ?_)
  rw [List.pairwise_iff_getElem]
  intro i j _ _ earlier
  simpa using earlier

/-- Sorting documents by their positions puts them in the order of the sort. -/
theorem survivors_eq (catalog : Catalog) (ranking : Ranking)
    (conditions : List BoundCondition) {listed : List DocId} (distinct : listed.Nodup) :
    survivors catalog ranking conditions listed =
      ranking.ids.filter fun id => acceptsAll catalog conditions id && listed.contains id := by
  let keep := fun id => acceptsAll catalog conditions id && listed.contains id
  let placed := (listed.filter (acceptsAll catalog conditions)).filterMap fun id =>
    (ranking.rank? id).map (·, id)
  have nodupPlaced : placed.Nodup := by
    refine List.Nodup.filterMap (fun a b pair ofA ofB => ?_) (distinct.filter _)
    obtain ⟨_, -, rfl⟩ := Option.map_eq_some_iff.mp ofA
    obtain ⟨_, -, same⟩ := Option.map_eq_some_iff.mp ofB
    exact (congrArg Prod.snd same).symm
  have rising := pairwise_placesOf keep ranking.ids
  have nodupPlaces : (placesOf keep ranking.ids).Nodup := rising.imp fun {a b} less same => by
    rw [same] at less
    omega
  have perm : placed.Perm (placesOf keep ranking.ids) := by
    refine (List.perm_ext_iff_of_nodup nodupPlaced nodupPlaces).mpr fun ⟨position, id⟩ => ?_
    rw [mem_placesOf, List.mem_filterMap, Bool.and_eq_true, List.contains_iff_mem]
    constructor
    · rintro ⟨other, inside, ranks⟩
      obtain ⟨_, ranked, same⟩ := Option.map_eq_some_iff.mp ranks
      cases same
      obtain ⟨isListed, accepted⟩ := List.mem_filter.mp inside
      exact ⟨Ranking.rank?_eq_some.mp ranked, accepted, isListed⟩
    · rintro ⟨held, accepted, isListed⟩
      refine ⟨id, List.mem_filter.mpr ⟨isListed, accepted⟩, ?_⟩
      rw [Ranking.rank?_eq_some.mpr held, Option.map_some]
  -- Both lists rise by position, so that being permutations makes them equal.
  have sorted : sortStable precedes placed = placesOf keep ranking.ids := by
    refine ((perm_sortStable precedes placed).trans perm).eq_of_pairwise ?_
      (pairwise_sortStable preorders_precedes placed) (rising.imp fun {a b} less => ?_)
    · intro a b _ _ before after
      simp only [precedes, Bool.or_eq_true, Bool.and_eq_true, decide_eq_true_eq] at before after
      rcases before with less | ⟨same, first⟩
      · omega
      · exact Prod.ext same (UInt32.le_antisymm first (after.resolve_left (by omega)).2)
    · simp [precedes, less]
  exact (congrArg (List.map (·.2)) sorted).trans (map_placesOf keep ranking.ids)

/-! ## Walking the sort -/

def target (page : Page) : Nat :=
  if page.includeTotal then max (page.wanted + 1) page.maxTotal.toNat else page.wanted + 1

theorem wanted_lt_target (page : Page) : page.wanted < target page := by
  unfold target
  split <;> omega

theorem isEnough_eq (page : Page) (found : Nat) :
    isEnough page found = decide (target page ≤ found) := by
  unfold isEnough target
  rw [Bool.eq_iff_iff]
  cases page.includeTotal with
  | false =>
      simp only [Bool.not_false, Bool.true_or, Bool.and_true, decide_eq_true_eq,
        Bool.false_eq_true, if_false]
      omega
  | true =>
      simp only [Bool.not_true, Bool.false_or, Bool.and_eq_true, decide_eq_true_eq, if_true]
      omega

private theorem stretch_cons {α : Type} (a : α) (rest : List α) (skip room : Nat) :
    ((a :: rest).drop skip).take room =
      if skip = 0 ∧ 0 < room then a :: rest.take (room - 1)
      else (rest.drop (skip - 1)).take room := by
  cases skip with
  | zero => cases room <;> simp
  | succ skip => simp

/-- A walk that goes on after `found` matches sees matches up to its target and
takes those on the page. -/
theorem walk_eq (accept : DocId → Bool) (page : Page) (ids : List DocId) {found : Nat}
    (room : Nat) (goesOn : found < target page) :
    walk accept page ids found room =
      ⟨(((ids.filter accept).take (target page - found)).drop
          (page.offset.toNat - found)).take room,
        min (found + (ids.filter accept).length) (target page),
        target page ≤ found + (ids.filter accept).length⟩ := by
  -- Below the target the walk goes on, whatever room the page has left.
  induction ids generalizing found room with
  | nil => simp [walk, Nat.min_eq_left (Nat.le_of_lt goesOn), Nat.not_le.mpr goesOn]
  | cons id ids ih =>
      unfold walk
      by_cases accepted : accept id = true
      · obtain ⟨left, toTarget⟩ : ∃ left, target page - found = left + 1 :=
          ⟨target page - found - 1, by omega⟩
        have further : ∀ room, (if isEnough page (found + 1) then ⟨[], found + 1, true⟩
            else walk accept page ids (found + 1) room) =
              (⟨(((ids.filter accept).take left).drop (page.offset.toNat - found - 1)).take room,
                min (found + (ids.filter accept).length + 1) (target page),
                target page ≤ found + (ids.filter accept).length + 1⟩ : Walk) := by
          intro room
          simp only [isEnough_eq, decide_eq_true_eq]
          split
          next stops =>
            obtain rfl : left = 0 := by omega
            have atTarget : min (found + (ids.filter accept).length + 1) (target page) =
                found + 1 := by omega
            have reached : target page ≤ found + (ids.filter accept).length + 1 := by omega
            rw [atTarget]
            simp [reached]
          next goesOn =>
            have sameLeft : target page - (found + 1) = left := by omega
            rw [ih room (by omega), sameLeft, Nat.sub_sub, Nat.add_right_comm]
        simp only [accepted, if_true, further, List.filter_cons_of_pos, List.length_cons,
          toTarget, List.take_succ_cons, stretch_cons]
        by_cases taken : page.offset.toNat ≤ found ∧ 0 < room
        · have first : page.offset.toNat - found = 0 := by omega
          simp [taken, first, Nat.add_assoc]
        · have passed : ¬ (page.offset.toNat - found = 0 ∧ 0 < room) := by omega
          have notTaken : (decide (page.offset.toNat ≤ found) && decide (0 < room)) = false := by
            simpa using taken
          simp [notTaken, passed, Nat.add_assoc]
      · rw [if_neg accepted, List.filter_cons_of_neg accepted]
        exact ih room goesOn

/-! ## The matches -/

def accepted (c : Catalog) (ranking : Ranking) (conditions : List BoundCondition)
    (direction : Direction) : List DocId :=
  (direction.arrange ranking.ids).filter (acceptsAll c conditions)

theorem length_accepted_le (c : Catalog) (ranking : Ranking) (conditions : List BoundCondition)
    (direction : Direction) : (accepted c ranking conditions direction).length ≤ 2 ^ 32 := by
  have inside := List.length_filter_le (acceptsAll c conditions) (direction.arrange ranking.ids)
  have few := ranking.size_le
  rw [Direction.length_arrange, ← Ranking.size_eq] at inside
  exact Nat.le_trans inside few

theorem arrange_survivors (c : Catalog) (ranking : Ranking) (conditions : List BoundCondition)
    {listed : List DocId} (distinct : listed.Nodup) (direction : Direction) :
    direction.arrange (survivors c ranking conditions listed) =
      (accepted c ranking conditions direction).filter listed.contains := by
  rw [survivors_eq c ranking conditions distinct, ← Direction.filter_arrange, accepted,
    List.filter_filter]
  exact List.filter_congr fun id _ => Bool.and_comm ..

/-- The documents of a sort that satisfy all criteria, in one direction. -/
def matching (c : Catalog) (ranking : Ranking) (criteria : List Criterion)
    (direction : Direction) : List DocId :=
  (direction.arrange ranking.ids).filter fun id => criteria.all (·.holds c id)

theorem matching_nil (c : Catalog) (ranking : Ranking) (direction : Direction) :
    matching c ranking [] direction = direction.arrange ranking.ids := by
  simp [matching]

theorem acceptsAll_boundIn (c : Catalog) (criteria : List Criterion) :
    acceptsAll c (criteria.map (·.boundIn c)) = fun id => criteria.all (·.holds c id) := by
  funext id
  simp [acceptsAll, Function.comp_def, Criterion.accepts_boundIn]

theorem accepted_boundIn (c : Catalog) (ranking : Ranking) (criteria : List Criterion)
    (direction : Direction) :
    accepted c ranking (criteria.map (·.boundIn c)) direction =
      matching c ranking criteria direction := by
  rw [accepted, acceptsAll_boundIn, matching]

theorem length_matching_le (c : Catalog) (ranking : Ranking) (criteria : List Criterion)
    (direction : Direction) : (matching c ranking criteria direction).length ≤ 2 ^ 32 := by
  rw [← accepted_boundIn]
  exact length_accepted_le c ranking _ direction

/-- A driver that lists all it accepts hides nothing. -/
theorem filter_accepted_of_complete {c : Catalog} {driver : BoundCondition}
    {listed : List DocId} (complete : ∀ id, driver.accepts c id = true → id ∈ listed)
    (ranking : Ranking) (others : List BoundCondition) (direction : Direction) :
    (accepted c ranking (driver :: others) direction).filter listed.contains =
      accepted c ranking (driver :: others) direction := by
  refine List.filter_eq_self.mpr fun id inside => ?_
  have asked := List.all_eq_true.mp (List.mem_filter.mp inside).2 driver List.mem_cons_self
  exact List.contains_iff_mem.mpr (complete id asked)

theorem survivors_of_complete {c : Catalog} {first : Criterion} {listed : List DocId}
    (distinct : listed.Nodup) (complete : ∀ id, first.holds c id = true → id ∈ listed)
    (ranking : Ranking) (others : List Criterion) (direction : Direction) :
    direction.arrange
        (survivors c ranking ((first :: others).map (·.boundIn c)) listed) =
      matching c ranking (first :: others) direction := by
  have listsAccepted : ∀ id, (first.boundIn c).accepts c id = true → id ∈ listed := by
    intro id asked
    rw [Criterion.accepts_boundIn] at asked
    exact complete id asked
  rw [← accepted_boundIn, arrange_survivors c ranking _ distinct, List.map_cons,
    filter_accepted_of_complete listsAccepted]

end Scan

/-! ## Agreement of the scans -/

namespace ResultSet

variable (result : ResultSet) (page : Page) (total : Nat) (capped : Bool)

@[simp] theorem report_ids : (result.report page total capped).ids = result.ids := by
  unfold report
  split <;> rfl

@[simp] theorem report_found : (result.report page total capped).found = result.found := by
  unfold report
  split <;> rfl

@[simp] theorem report_hasMore :
    (result.report page total capped).hasMore = result.hasMore := by
  unfold report
  split <;> rfl

@[simp] theorem report_total : (result.report page total capped).total =
    if page.includeTotal then some total else result.total := by
  unfold report
  split <;> rfl

end ResultSet

/-- The result shows the page of the matches. -/
structure ResultSet.ShowsPage (result : ResultSet) (page : Page) (matching : List DocId) :
    Prop where
  ids : result.ids = (matching.drop page.offset.toNat).take page.limit.toNat
  hasMore : result.hasMore = decide (page.wanted < matching.length)

theorem ResultSet.ShowsPage.sublist {result : ResultSet} {page : Page} {matching : List DocId}
    (shows : result.ShowsPage page matching) : result.ids.Sublist matching := by
  rw [shows.ids]
  exact (List.take_sublist ..).trans (List.drop_sublist ..)

/-- The result shows the page of the matches, of which the scan saw `found`. -/
structure ResultSet.Answers (result : ResultSet) (page : Page) (matching : List DocId)
    (found : Nat) : Prop extends result.ShowsPage page matching where
  found : result.found = found
  total : result.total =
    if page.includeTotal then some (min matching.length page.maxTotal.toNat) else none

namespace Scan

variable (c : Catalog) (ranking : Ranking) (page : Page)

theorem sort_showsPage :
    (sort ranking page {}).ShowsPage page (page.direction.arrange ranking.ids) := by
  have walked := Cursor.take_eq
    (ranking.valid_offset page.direction page.offset.toNat) page.limit.toNat
  rw [Ranking.remaining_offset] at walked
  obtain ⟨taken, left, valid⟩ := walked
  have few := ranking.size_le
  rw [Ranking.size_eq] at few
  constructor
  · simpa [sort] using taken
  · simp only [sort, Cursor.next_fst valid, left, List.drop_drop]
    rw [Bool.eq_iff_iff]
    simp [Page.wanted, addSaturating, maxWord]
    omega

theorem stretch_take_target {page : Page} {ids : List DocId} (few : ids.length ≤ 2 ^ 32) :
    ((ids.take (target page)).drop page.offset.toNat).take page.limit.toNat =
      (ids.drop page.offset.toNat).take page.limit.toNat := by
  have beyond := wanted_lt_target page
  rw [List.drop_take, List.take_take, List.take_eq_take_iff, List.length_drop]
  simp only [Page.wanted, addSaturating, maxWord] at beyond
  omega

theorem sortDriven_accepted (conditions : List BoundCondition) :
    (sortDriven c ranking conditions page {}).Answers page
      (accepted c ranking conditions page.direction)
      (min (accepted c ranking conditions page.direction).length (target page)) := by
  have few := length_accepted_le c ranking conditions page.direction
  have beyond := wanted_lt_target page
  have walked := walk_eq (acceptsAll c conditions) page
    (page.direction.arrange ranking.ids) page.limit.toNat (Nat.zero_lt_of_lt beyond)
  rw [← accepted] at walked
  simp only [Nat.sub_zero, Nat.zero_add, stretch_take_target few] at walked
  unfold sortDriven
  simp only [Ranking.rest_cursor, List.length_nil, Nat.sub_zero, walked]
  constructor
  · constructor
    · simp [ResultSet.extend]
    · simp only [ResultSet.report_hasMore, decide_eq_decide]
      omega
  · simp
  · simp only [ResultSet.report_total]
    by_cases asked : page.includeTotal = true
    · have reaches : page.maxTotal.toNat ≤ target page := by
        simp only [target, asked, if_true]
        omega
      simp only [asked, if_true, Option.some.injEq]
      omega
    · simp [asked, ResultSet.extend]

theorem sortDriven_answers (criteria : List Criterion) :
    (sortDriven c ranking (criteria.map (·.boundIn c)) page {}).Answers page
      (matching c ranking criteria page.direction)
      (min (matching c ranking criteria page.direction).length (target page)) := by
  have answers := sortDriven_accepted c ranking page (criteria.map (·.boundIn c))
  rwa [accepted_boundIn] at answers

/-- Listing a driver answers with what it lists of the accepted documents. -/
theorem indexDriven_listed {driver : BoundCondition} {listed : List DocId}
    (lists : driver.list c .asc = .ok listed) (others : List BoundCondition) :
    let found := (accepted c ranking (driver :: others) page.direction).filter listed.contains
    ∃ result, indexDriven c ranking (driver :: others) page {} = .ok result ∧
      result.Answers page found found.length := by
  simp only [indexDriven, lists, bind, Except.bind, pure, Except.pure,
    arrange_survivors c ranking _ (BoundCondition.nodup_list lists)]
  refine ⟨_, rfl, ?_⟩
  constructor
  · constructor
    · simp [ResultSet.extend]
    · simp
  · simp
  · simp [ResultSet.extend]

theorem indexDriven_answers {first : Criterion}
    (drives : (first.boundIn c).canIterate = true) (others : List Criterion) :
    ∃ result, indexDriven c ranking ((first :: others).map (·.boundIn c)) page {} =
        .ok result ∧
      result.Answers page (matching c ranking (first :: others) page.direction)
        (matching c ranking (first :: others) page.direction).length := by
  obtain ⟨listed, lists, complete⟩ := first.list_boundIn c drives
  have answers := indexDriven_listed c ranking page lists (others.map (·.boundIn c))
  have distinct := BoundCondition.nodup_list lists
  rwa [← arrange_survivors c ranking _ distinct, ← List.map_cons,
    survivors_of_complete distinct complete] at answers

end Scan

end RankedQuery
