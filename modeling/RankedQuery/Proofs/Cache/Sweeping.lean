import RankedQuery.Proofs.Cache.Consistency

/-!
# The order of a sweep

A sweep goes through the recency list from its cold end until it has no room
left.  What it evicts comes before what it does not reach, and what it finds
fresh goes behind that, in the old order.
-/

namespace RankedQuery

namespace Cache

/-! ## Division of a list -/

structure Division where
  evicted : List Intersection
  kept : List Intersection
  unreached : List Intersection

def divide (stale : Intersection → Bool) : List Intersection → (room : Nat) → Division
  | [], _ => ⟨[], [], []⟩
  | item :: items, 0 => ⟨[], [], item :: items⟩
  | item :: items, room + 1 =>
      if stale item then
        let rest := divide stale items room
        { rest with evicted := item :: rest.evicted }
      else
        let rest := divide stale items (room + 1)
        { rest with kept := item :: rest.kept }

section Divide

variable {stale stale' : Intersection → Bool} {items : List Intersection}

theorem divide_congr (same : ∀ item ∈ items, stale item = stale' item) (room : Nat) :
    divide stale items room = divide stale' items room := by
  induction items generalizing room with
  | nil => rfl
  | cons item items ih =>
      obtain ⟨first, others⟩ := List.forall_mem_cons.mp same
      cases room with
      | zero => rfl
      | succ room => simp only [divide, first, ih others]

theorem evicted_divide (stale : Intersection → Bool) (items : List Intersection) (room : Nat) :
    (divide stale items room).evicted = (items.filter stale).take room := by
  induction items generalizing room with
  | nil => simp [divide]
  | cons item items ih =>
      cases room with
      | zero => simp [divide]
      | succ room =>
          unfold divide
          split
          next isStale => simp [List.filter_cons_of_pos isStale, ih]
          next fresh => simp [List.filter_cons_of_neg fresh, ih]

theorem fresh_of_kept {room : Nat} {item : Intersection}
    (kept : item ∈ (divide stale items room).kept) : stale item = false := by
  induction items generalizing room with
  | nil => simp [divide] at kept
  | cons first items ih =>
      cases room with
      | zero => simp [divide] at kept
      | succ room =>
          unfold divide at kept
          split at kept
          next => exact ih kept
          next fresh =>
            rcases List.mem_cons.mp kept with rfl | later
            · simpa using fresh
            · exact ih later

theorem exists_reached_divide (stale : Intersection → Bool) (items : List Intersection)
    (room : Nat) :
    ∃ reached, items = reached ++ (divide stale items room).unreached ∧
      reached.Perm ((divide stale items room).evicted ++ (divide stale items room).kept) := by
  induction items generalizing room with
  | nil => exact ⟨[], rfl, .refl _⟩
  | cons item items ih =>
      cases room with
      | zero => exact ⟨[], rfl, .refl _⟩
      | succ room =>
          unfold divide
          split
          next =>
            obtain ⟨reached, whole, perm⟩ := ih room
            exact ⟨item :: reached, congrArg (item :: ·) whole, perm.cons item⟩
          next =>
            obtain ⟨reached, whole, perm⟩ := ih (room + 1)
            refine ⟨item :: reached, congrArg (item :: ·) whole, ?_⟩
            exact (perm.cons item).trans List.perm_middle.symm

end Divide

/-! ## A sweep -/

def isStale (c : Cache) (cutoff : Millis) (item : Intersection) : Bool :=
  c.lookup[item.key]?.any fun entry => entry.item = item ∧ entry.isStale cutoff

def division (c : Cache) (now : Millis) : Division :=
  divide (c.isStale (c.cutoff now)) c.recency c.sweepLimit

theorem exists_reached (c : Cache) (now : Millis) :
    ∃ reached, c.recency = reached ++ (c.division now).unreached ∧
      reached.Perm ((c.division now).evicted ++ (c.division now).kept) :=
  exists_reached_divide _ _ _

variable {c : Cache}

theorem isStale_eq_true {cutoff : Millis} {item : Intersection} :
    c.isStale cutoff item = true ↔
      ∃ entry, c.lookup[item.key]? = some entry ∧ entry.item = item ∧
        entry.isStale cutoff = true := by
  simp [isStale, Option.any_eq_true]

theorem isStale_evict {cutoff : Millis} {item other : Intersection} (apart : other ≠ item) :
    (c.evict item).isStale cutoff other = c.isStale cutoff other := by
  rw [Bool.eq_iff_iff, isStale_eq_true, isStale_eq_true]
  simp only [getElem?_evict]
  constructor
  · rintro ⟨entry, ⟨found, -⟩, stale⟩
    exact ⟨entry, found, stale⟩
  · rintro ⟨entry, found, rfl, stale⟩
    exact ⟨entry, ⟨found, fun evicted => apart evicted.2⟩, rfl, stale⟩

private theorem discardAll_with (items : List Intersection) (c : Cache)
    (before behind : List Intersection) :
    { ({ c with recency := before } : Cache).discardAll items with recency := behind } =
      { c.discardAll items with recency := behind } := by
  induction items generalizing c before with
  | nil => rfl
  | cons first items ih => exact ih (c.discard first) (before.filter (· ≠ first))

theorem sweepBuilt_eq (cutoff : Millis) {cold kept : List Intersection}
    (consistent : { c with recency := cold ++ kept }.Consistent) (room : Nat) :
    let parts := divide (c.isStale cutoff) cold room
    c.sweepBuilt cutoff cold kept room =
      (parts.evicted.length,
        { c.discardAll parts.evicted with
          recency := parts.unreached ++ (kept ++ parts.kept) }) := by
  induction cold generalizing kept room c with
  | nil => simp [sweepBuilt, divide, discardAll]
  | cons item cold ih =>
      cases room with
      | zero => simp [sweepBuilt, divide, discardAll]
      | succ room =>
          obtain ⟨entry, found, same, built⟩ :=
            (consistent.tracked item).mp (List.mem_append_left _ List.mem_cons_self)
          have found : c.lookup[item.key]? = some entry := found
          have stale : c.isStale cutoff item = decide (entry.promoted < cutoff) := by
            simp [isStale, found, same, Entry.isStale, built]
          simp only [sweepBuilt, found, same, ne_eq, not_true_eq_false, if_false, divide, stale,
            decide_eq_true_eq]
          split
          next =>
            obtain ⟨absent, -⟩ := List.nodup_cons.mp consistent.nodup
            have others : divide ((c.evict item).isStale cutoff) cold room =
                divide (c.isStale cutoff) cold room := by
              refine divide_congr (fun other inside => isStale_evict ?_) room
              rintro rfl
              exact absent (List.mem_append_left _ inside)
            rw [ih (consistent_evict_first consistent), others]
            exact congrArg (Prod.mk _) (discardAll_with _ (c.discard item) c.recency _)
          next =>
            rw [ih (consistent_keep_first consistent)]
            simp

theorem recency_sweepBuilt (cutoff : Millis) {cold kept : List Intersection}
    (consistent : { c with recency := cold ++ kept }.Consistent) (room : Nat) :
    (c.sweepBuilt cutoff cold kept room).2.recency =
      (divide (c.isStale cutoff) cold room).unreached ++
        (kept ++ (divide (c.isStale cutoff) cold room).kept) := by
  rw [sweepBuilt_eq cutoff consistent]

theorem recency_discardAll (items : List Intersection)
    (unlisted : ∀ item ∈ items, item ∉ c.recency) :
    (c.discardAll items).recency = c.recency := by
  induction items generalizing c with
  | nil => rfl
  | cons first items ih =>
      obtain ⟨absent, others⟩ := List.forall_mem_cons.mp unlisted
      have once : (c.discard first).recency = c.recency := by
        refine List.filter_eq_self.mpr fun item inside => ?_
        simpa using fun same : item = first => absent (same ▸ inside)
      rw [discardAll, List.foldl_cons]
      exact (ih fun item listed => once ▸ others item listed).trans once

/-- What a sweep does not reach comes to the cold end, and what it finds fresh goes
behind. -/
theorem recency_sweep (consistent : c.Consistent) (now : Millis) :
    (c.sweep now).2.recency = (c.division now).unreached ++ (c.division now).kept := by
  have whole : { c with recency := c.recency ++ [] }.Consistent := by simpa using consistent
  have swept := consistent_sweepBuilt (c.cutoff now) whole c.sweepLimit
  have order := recency_sweepBuilt (c.cutoff now) whole c.sweepLimit
  unfold sweep
  dsimp only
  generalize c.sweepBuilt (c.cutoff now) c.recency [] c.sweepLimit = stale at swept order ⊢
  -- Abandoned entries wait, so that the recency list has none of them.
  refine (recency_discardAll _ fun item abandoned tracked => ?_).trans order
  obtain ⟨key, entry, found, waiting, rfl⟩ := mem_itemsWhere.mp (List.mem_of_mem_take abandoned)
  obtain ⟨held, found', -, built⟩ := (swept.tracked _).mp tracked
  rw [swept.keyed key entry found, found, Option.some.injEq] at found'
  subst found'
  simp [Entry.isAbandoned, built] at waiting

end Cache

end RankedQuery
