import RankedQuery.Basic

/-!
# Scored documents

A document with its score.  `Before` puts lower scores first and breaks ties by
id; it is a strict total order.  In a list in this order the documents before a
given one come first, and their number is its position.
-/

namespace RankedQuery

/-! ## Tests that hold up to some point of a list -/

section Prefix

variable {α : Type} {test : α → Bool} {list : List α}

theorem take_countP_eq_filter
    (initial : list.Pairwise fun a b => test b = true → test a = true) :
    list.take (list.countP test) = list.filter test := by
  induction list with
  | nil => rfl
  | cons a rest ih =>
      obtain ⟨first, others⟩ := List.pairwise_cons.mp initial
      by_cases holds : test a = true
      · simp [holds, ih others]
      · have later : rest.countP test = 0 :=
          List.countP_eq_zero.mpr fun b hb passes => holds (first b hb passes)
        have none : rest.filter test = [] :=
          List.filter_eq_nil_iff.mpr fun b hb passes => holds (first b hb passes)
        simp [holds, later, none]

theorem drop_countP_eq_filter
    (initial : list.Pairwise fun a b => test b = true → test a = true) :
    list.drop (list.countP test) = list.filter fun a => !test a := by
  induction list with
  | nil => rfl
  | cons a rest ih =>
      obtain ⟨first, others⟩ := List.pairwise_cons.mp initial
      by_cases holds : test a = true
      · simp [holds, ih others]
      · have fails : ∀ b ∈ rest, test b = false := fun b hb => by
          simpa using fun passes => holds (first b hb passes)
        have later : rest.countP test = 0 :=
          List.countP_eq_zero.mpr fun b hb => by simp [fails b hb]
        have all : rest.filter (fun a => !test a) = rest :=
          List.filter_eq_self.mpr fun b hb => by simp [fails b hb]
        simp [holds, later, all]

theorem lt_countP_iff (initial : list.Pairwise fun a b => test b = true → test a = true)
    {p : Nat} (inside : p < list.length) : p < list.countP test ↔ test list[p] = true := by
  constructor
  · intro before
    have taken : list[p] ∈ list.take (list.countP test) :=
      List.mem_take_iff_getElem.mpr ⟨p, by omega, rfl⟩
    rw [take_countP_eq_filter initial] at taken
    exact (List.mem_filter.mp taken).2
  · intro holds
    refine Nat.lt_of_not_le fun behind => ?_
    have dropped : list[p] ∈ list.drop (list.countP test) :=
      List.mem_drop_iff_getElem.mpr ⟨p - list.countP test, by omega, by congr 1; omega⟩
    rw [drop_countP_eq_filter initial] at dropped
    simpa [holds] using (List.mem_filter.mp dropped).2

end Prefix

/-! ## The order -/

@[ext]
structure Scored where
  score : Score
  id : DocId
  deriving DecidableEq, Repr, Inhabited

namespace Scored

def Before (a b : Scored) : Prop :=
  a.score < b.score ∨ a.score = b.score ∧ a.id < b.id

instance (a b : Scored) : Decidable (a.Before b) :=
  inferInstanceAs (Decidable (a.score < b.score ∨ a.score = b.score ∧ a.id < b.id))

theorem before_iff {a b : Scored} :
    a.Before b ↔
      a.score.toInt < b.score.toInt ∨
        a.score.toInt = b.score.toInt ∧ a.id.toNat < b.id.toNat := by
  simp [Before, Int64.lt_iff_toInt_lt, Int64.toInt_inj, UInt32.lt_iff_toNat_lt]

theorem not_before_self (a : Scored) : ¬ a.Before a := by
  rw [before_iff]
  omega

theorem Before.trans {a b c : Scored} (first : a.Before b) (second : b.Before c) :
    a.Before c := by
  rw [before_iff] at *
  omega

theorem Before.asymm {a b : Scored} (forward : a.Before b) : ¬ b.Before a := by
  rw [before_iff] at *
  omega

theorem Before.ne {a b : Scored} (forward : a.Before b) : a ≠ b :=
  fun same => not_before_self b (same ▸ forward)

theorem before_or_before {a b : Scored} (distinct : a ≠ b) :
    a.Before b ∨ b.Before a := by
  rw [before_iff, before_iff]
  by_cases scores : a.score.toInt = b.score.toInt
  · by_cases ids : a.id.toNat = b.id.toNat
    · exfalso
      apply distinct
      cases a
      cases b
      simp_all [Int64.toInt_inj, UInt32.toNat_inj]
    · omega
  · omega

theorem before_of_score_lt {a b : Scored} (lower : a.score < b.score) : a.Before b :=
  .inl lower

theorem Before.score_le {a b : Scored} (forward : a.Before b) : a.score ≤ b.score := by
  rw [before_iff] at forward
  rw [Int64.le_iff_toInt_le]
  omega

theorem getElem?_countP_before {list : List Scored} {entry : Scored}
    (ordered : list.Pairwise Scored.Before) (listed : entry ∈ list) :
    list[list.countP (·.Before entry)]? = some entry := by
  induction list with
  | nil => simp at listed
  | cons first rest ih =>
      obtain ⟨before, others⟩ := List.pairwise_cons.mp ordered
      rcases List.mem_cons.mp listed with rfl | later
      · have none : rest.countP (·.Before entry) = 0 :=
          List.countP_eq_zero.mpr fun e he => by simpa using (before e he).asymm
        simp [none, Scored.not_before_self]
      · simp [before entry later, ih others later]

end Scored

end RankedQuery
