import RankedQuery.Proofs.Condition.Ranked
import RankedQuery.Proofs.Ranking.Reading
import RankedQuery.Proofs.Scan

/-!
# Scans on machine words

A scan once more, with every step that could fail on a machine: the positions of
its cursors, the positions and scores of documents, the count of its matches, and
the room that it sets aside for the documents of a driver, by a length that may be
out of date.  For conditions of a length that some binding gave, no step fails, whatever
has become of the catalog since.
-/

namespace RankedQuery

/-! ## Cursors and positions -/

namespace Cursor

def take? (c : Cursor) : (count : Nat) → Option (List DocId × Cursor)
  | 0 => some ([], c)
  | count + 1 =>
      c.next?.bind fun
        | (some id, c) => (c.take? count).map fun (ids, c) => (id :: ids, c)
        | (none, c) => some ([], c)

def rest? (c : Cursor) : Option (List DocId) := (c.take? c.ranking.size).map (·.1)

theorem take?_eq {c : Cursor} (valid : c.Valid) (count : Nat) :
    c.take? count = some (c.take count) := by
  induction count generalizing c with
  | zero => rfl
  | succ count ih =>
      have further := ih (valid_next valid)
      unfold take? take
      rw [next?_eq valid, Option.bind_some]
      cases next : c.next with
      | mk first c' =>
          rw [next] at further
          cases first with
          | none => rfl
          | some id => simp only [further, Option.map_some]

theorem rest?_eq {c : Cursor} (valid : c.Valid) : c.rest? = some c.rest := by
  rw [rest?, take?_eq valid, Option.map_some, rest]

end Cursor

namespace Ranking

/-- `rank?` with its arithmetic on words: in a static ranking the position is that
of the document's slot, counted from the first one. -/
def rankWord? (r : Ranking) (id : DocId) : Option (Option Nat) :=
  match r.order with
  | .dynamic d => some (d.rank? id)
  | .static s =>
      match s.slots[id]? with
      | none => some none
      | some slot => (subWords? slot s.start).map some

theorem rankWord?_eq (r : Ranking) (id : DocId) : r.rankWord? id = some (r.rank? id) := by
  obtain ⟨name, order⟩ := r
  cases order with
  | dynamic d => rfl
  | static s =>
      simp only [rankWord?, rank?, StaticRanking.rank?]
      cases taken : s.slots[id]? with
      | none => rfl
      | some slot => simp [subWords?_eq (StaticRanking.start_le_slot taken)]

def scoreWord? (r : Ranking) (id : DocId) : Option (Option Score) :=
  match r.order with
  | .dynamic d => some (d.score? id)
  | .static _ => (r.rankWord? id).map (·.map fun rank => Int64.ofNat rank)

theorem scoreWord?_eq (r : Ranking) (id : DocId) : r.scoreWord? id = some (r.score? id) := by
  unfold scoreWord? score?
  rw [rankWord?_eq, rank?]
  cases r.order <;> rfl

end Ranking

namespace BoundCondition

def accepts? (catalog : Catalog) (c : BoundCondition) (id : DocId) : Option Bool :=
  match c.target with
  | .ranked sort window _ _ =>
      match window with
      | none => some false
      | some (low, high) =>
          ((catalog.rankings.read sort).scoreWord? id).map
            (·.any fun score => low ≤ score && score ≤ high)
  | .set index => some (catalog.holds index id)
  | .union members => some (members.any (catalog.holds · id))

private theorem isSome_scored (held : Bool) :
    (if held then some (0 : Score) else none).isSome = held := by
  cases held <;> rfl

theorem accepts?_eq (catalog : Catalog) (c : BoundCondition) (id : DocId) :
    c.accepts? catalog id = some (c.accepts catalog id) := by
  unfold accepts? accepts score?
  cases c.target with
  | ranked sort window start stop =>
      cases window with
      | none => rfl
      | some ends =>
          simp only [Ranking.scoreWord?_eq, Option.map_some, Option.isSome_filter]
  | set index => simp only [isSome_scored]
  | union members => simp only [isSome_scored]

def list? (catalog : Catalog) (c : BoundCondition) (direction : Direction) :
    Option (Except Error (List DocId)) :=
  match c.target with
  | .ranked sort _ start stop =>
      (((catalog.rankings.read sort).cursor direction).window start stop).rest?.map .ok
  | .set index => some (.ok (catalog.indexes.read index).ids)
  | .union _ => some (.error (.illegalIteration c.key))

theorem list?_eq (catalog : Catalog) (c : BoundCondition) (direction : Direction) :
    c.list? catalog direction = some (c.list catalog direction) := by
  unfold list? list
  cases c.target with
  | ranked sort window start stop =>
      simp only [Cursor.rest?_eq (Ranking.valid_window _ direction start stop), Option.map_some]
  | set index => rfl
  | union members => rfl

end BoundCondition

/-! ## Scans -/

def acceptsAll? (catalog : Catalog) (conditions : List BoundCondition) (id : DocId) :
    Option Bool :=
  conditions.allM (·.accepts? catalog id)

theorem acceptsAll?_eq (catalog : Catalog) (conditions : List BoundCondition) (id : DocId) :
    acceptsAll? catalog conditions id = some (acceptsAll catalog conditions id) := by
  simp only [acceptsAll?, BoundCondition.accepts?_eq]
  exact List.allM_pure

namespace Scan

/-- Room for the positions of so many documents, at 16 bytes for each document;
there is none for more bytes than a signed word can count. -/
def reserve? (length : Nat) : Option Unit :=
  if 16 * length ≤ maxWord / 2 then some () else none

def sort? (ranking : Ranking) (page : Page) (result : ResultSet) : Option ResultSet := do
  let cursor := (ranking.cursor page.direction).offset page.offset.toNat
  let (ids, cursor) ← cursor.take? page.limit.toNat
  let (following, _) ← cursor.next?
  return { result with
    ids := result.ids ++ ids
    hasMore := following.isSome
    found := min ranking.size (addSaturating page.wanted 1)
    total := if page.includeTotal then some ranking.size else result.total }

def survivors? (catalog : Catalog) (ranking : Ranking) (conditions : List BoundCondition)
    (listed : List DocId) : Option (List DocId) := do
  let placed ← listed.mapM fun id => do
    if ← acceptsAll? catalog conditions id then
      return (← ranking.rankWord? id).map (·, id)
    else return none
  return (sortStable precedes (placed.filterMap id)).map (·.2)

def indexDriven? (catalog : Catalog) (ranking : Ranking) (conditions : List BoundCondition)
    (page : Page) (result : ResultSet) : Option (Except Error ResultSet) :=
  match conditions with
  | [] => (sort? ranking page result).map .ok
  | driver :: _ => do
      reserve? driver.length
      match ← driver.list? catalog .asc with
      | .error error => return .error error
      | .ok listed =>
          let ranked := page.direction.arrange (← survivors? catalog ranking conditions listed)
          let onPage := (ranked.drop page.offset.toNat).take page.limit.toNat
          let result := { result.extend onPage with
            found := ranked.length
            hasMore := page.wanted < ranked.length }
          return .ok (result.report page (min ranked.length page.maxTotal.toNat)
            (page.maxTotal.toNat < ranked.length))

def walk? (accept : DocId → Option Bool) (page : Page) :
    List DocId → (found room : Nat) → Option Walk
  | [], found, _ => some ⟨[], found, false⟩
  | id :: ids, found, room => do
      if ← accept id then
        let seen ← addWords? found 1
        let taken := page.offset.toNat ≤ found && 0 < room
        let further ←
          if isEnough page seen then some ⟨[], seen, true⟩
          else walk? accept page ids seen (if taken then room - 1 else room)
        return if taken then { further with ids := id :: further.ids } else further
      else walk? accept page ids found room

def sortDriven? (catalog : Catalog) (ranking : Ranking) (conditions : List BoundCondition)
    (page : Page) (result : ResultSet) : Option ResultSet := do
  let ids ← (ranking.cursor page.direction).rest?
  let walked ← walk? (acceptsAll? catalog conditions) page ids 0
    (page.limit.toNat - result.ids.length)
  let result := { result.extend walked.ids with
    found := walked.found
    hasMore := page.wanted < walked.found }
  return result.report page (min walked.found page.maxTotal.toNat)
    (page.maxTotal.toNat < walked.found ||
      (walked.stoppedEarly && page.maxTotal.toNat ≤ walked.found))

theorem reserve?_eq {length : Nat} (few : length ≤ 2 ^ 32) : reserve? length = some () := by
  have room : 16 * length ≤ maxWord / 2 := by
    simp only [maxWord]
    omega
  simp [reserve?, room]

theorem sort?_eq (ranking : Ranking) (page : Page) (result : ResultSet) :
    sort? ranking page result = some (sort ranking page result) := by
  have valid := ranking.valid_offset page.direction page.offset.toNat
  have further := (Cursor.take_eq valid page.limit.toNat).2.2
  simp only [sort?, Cursor.take?_eq valid, Option.bind_eq_bind, Option.bind_some,
    Cursor.next?_eq further]
  rfl

theorem survivors?_eq (catalog : Catalog) (ranking : Ranking) (conditions : List BoundCondition)
    (listed : List DocId) :
    survivors? catalog ranking conditions listed =
      some (survivors catalog ranking conditions listed) := by
  let place := fun id =>
    if acceptsAll catalog conditions id then (ranking.rank? id).map (·, id) else none
  have placed : (fun id => do
      if ← acceptsAll? catalog conditions id then
        return (← ranking.rankWord? id).map (·, id)
      else return none) = fun id => pure (f := Option) (place id) := by
    funext id
    simp only [acceptsAll?_eq, Ranking.rankWord?_eq, Option.bind_eq_bind, Option.bind_some, place]
    cases acceptsAll catalog conditions id <;> rfl
  rw [survivors?, placed, List.mapM_pure, survivors, List.filterMap_filter]
  simp only [Option.pure_def, Option.bind_eq_bind, Option.bind_some, List.filterMap_map,
    Function.id_comp, place]

theorem indexDriven?_eq (catalog : Catalog) (ranking : Ranking) {conditions : List BoundCondition}
    (few : ∀ c ∈ conditions, c.length ≤ 2 ^ 32) (page : Page) (result : ResultSet) :
    indexDriven? catalog ranking conditions page result =
      some (indexDriven catalog ranking conditions page result) := by
  cases conditions with
  | nil => simp only [indexDriven?, indexDriven, sort?_eq, Option.map_some]
  | cons driver others =>
      simp only [indexDriven?, indexDriven, reserve?_eq (few driver List.mem_cons_self),
        BoundCondition.list?_eq, Option.bind_eq_bind, Option.bind_some]
      cases driver.list catalog .asc with
      | error error => rfl
      | ok listed =>
          simp only [survivors?_eq, Option.bind_some]
          rfl

theorem walk?_eq {accept? : DocId → Option Bool} {accept : DocId → Bool}
    (same : ∀ id, accept? id = some (accept id)) (page : Page) (ids : List DocId) {found : Nat}
    (room : Nat) (fits : found + ids.length ≤ maxWord) :
    walk? accept? page ids found room = some (walk accept page ids found room) := by
  induction ids generalizing found room with
  | nil => rfl
  | cons id ids ih =>
      rw [List.length_cons] at fits
      unfold walk? walk
      rw [same, Option.bind_eq_bind, Option.bind_some]
      by_cases accepted : accept id = true
      · have seen : addWords? found 1 = some (found + 1) := addWords?_eq (by omega)
        simp only [accepted, if_true, seen, Option.bind_eq_bind, Option.bind_some,
          ih _ (show found + 1 + ids.length ≤ maxWord by omega)]
        split <;> rfl
      · simp only [accepted, if_false, Bool.false_eq_true]
        exact ih room (by omega)

theorem sortDriven?_eq (catalog : Catalog) (ranking : Ranking) (conditions : List BoundCondition)
    (page : Page) (result : ResultSet) :
    sortDriven? catalog ranking conditions page result =
      some (sortDriven catalog ranking conditions page result) := by
  have few := ranking.size_le
  rw [Ranking.size_eq] at few
  have fits : 0 + (ranking.cursor page.direction).rest.length ≤ maxWord := by
    rw [Ranking.rest_cursor, Direction.length_arrange]
    simp only [maxWord]
    omega
  simp only [sortDriven?, Cursor.rest?_eq (ranking.valid_cursor page.direction),
    Option.bind_eq_bind, Option.bind_some,
    walk?_eq (acceptsAll?_eq catalog conditions) page _ _ fits]
  rfl

end Scan

/-- `execute` with every step that could fail on a machine. -/
def Plan.execute? (plan : Plan) (catalog : Catalog) (ranking : Ranking)
    (conditions : List BoundCondition) (page : Page) (result : ResultSet) :
    Option (Except Error ResultSet) :=
  match plan with
  | .sort => (Scan.sort? ranking page result).map .ok
  | .indexDriven => Scan.indexDriven? catalog ranking conditions page result
  | .sortDriven => (Scan.sortDriven? catalog ranking conditions page result).map .ok

theorem Plan.execute?_eq (plan : Plan) (catalog : Catalog) (ranking : Ranking)
    {conditions : List BoundCondition} (few : ∀ c ∈ conditions, c.length ≤ 2 ^ 32)
    (page : Page) (result : ResultSet) :
    plan.execute? catalog ranking conditions page result =
      some (plan.execute catalog ranking conditions page result) := by
  cases plan with
  | sort => simp only [execute?, execute, Scan.sort?_eq, Option.map_some]
  | indexDriven => exact Scan.indexDriven?_eq catalog ranking few page result
  | sortDriven => simp only [execute?, execute, Scan.sortDriven?_eq, Option.map_some]

/-! ## Lengths -/

theorem Index.size_le (index : Index) : index.size ≤ 2 ^ 32 := by
  rw [← index.length_ids]
  exact length_le_of_nodup index.nodup_ids

theorem Criterion.length_boundIn_le (c : Catalog) (criterion : Criterion) :
    (criterion.boundIn c).length ≤ 2 ^ 32 := by
  cases criterion with
  | ranked key sort test =>
      have few := (c.rankings.read sort).size_le
      rw [Ranking.size_eq] at few
      rw [boundIn, BoundCondition.length_ofSort]
      exact Nat.le_trans (List.length_filter_le _ _) few
  | set index => exact (c.indexes.read index).size_le
  | union key members =>
      suffices ∀ longest ≤ 2 ^ 32, (members.map fun index =>
          (c.indexes.read index).size).foldl max longest ≤ 2 ^ 32 from this 0 (by omega)
      induction members with
      | nil => exact fun _ => id
      | cons first members ih =>
          intro longest few
          exact ih _ (Nat.max_le.mpr ⟨few, (c.indexes.read first).size_le⟩)

end RankedQuery
