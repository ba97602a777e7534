import PersistentHarness.Lib.Choices
import PersistentHarness.Model.Kernel.SnapshotStore

/-! # Reused blobs are accounted for exactly

A bit of a set stands for a total that some choice of the entries seen so far makes. The set of each number of entries is
extended from the largest number down, so every entry is taken at most once.
-/

namespace PersistentHarness.Kernel.SnapshotStore

open Choices (Sums)

section Bitsets

variable {mask amount blobCount byteCount index : ℕ} {reachable : List ℕ} {seen : Multiset ℕ}

theorem length_extendReachable (mask amount count : ℕ) (reachable : List ℕ) :
    (extendReachable mask amount count reachable).length = reachable.length := by
  induction count generalizing reachable with
  | zero => rfl
  | succ count ih => rw [extendReachable, ih, List.length_set]

/-- Numbers above the first one are left alone, and every other number reads its neighbour as it was before. -/
theorem getD_extendReachable (count number : ℕ) (reachable : List ℕ) (room : count < reachable.length) :
    (extendReachable mask amount count reachable).getD number 0 =
      if 0 < number ∧ number ≤ count then
        reachable.getD number 0 ||| ((reachable.getD (number - 1) 0 <<< amount) &&& mask)
      else reachable.getD number 0 := by
  induction count generalizing reachable with
  | zero =>
    rw [extendReachable, if_neg]
    omega
  | succ count ih =>
    rw [extendReachable, ih _ (by rw [List.length_set]; omega)]
    by_cases last : number = count + 1
    · subst last
      rw [if_neg (by omega), if_pos (by omega), Nat.add_sub_cancel, List.getD_eq_getElem?_getD, List.getElem?_set_self room,
        Option.getD_some]
    · have kept : ∀ other, other ≠ count + 1 → ∀ value, (reachable.set (count + 1) value).getD other 0 = reachable.getD other 0 := by
        intro other apart value
        rw [List.getD_eq_getElem?_getD, List.getElem?_set_ne (Ne.symm apart), List.getD_eq_getElem?_getD]
      rw [kept number last]
      split
      · next low =>
        rw [kept (number - 1) (by omega), if_pos (by omega)]
      · next high =>
        rw [if_neg (by omega)]

/-- The bits of each number of entries are the totals, up to the one looked for, that so many of the entries seen make. -/
structure Filled (blobCount byteCount : ℕ) (seen : Multiset ℕ) (reachable : List ℕ) : Prop where
  length : reachable.length = blobCount + 1
  testBit : ∀ count ≤ blobCount, ∀ total,
    (reachable.getD count 0).testBit total = true ↔ total ≤ byteCount ∧ Sums seen count total

theorem filled_nil (blobCount byteCount : ℕ) :
    Filled blobCount byteCount 0 ((List.replicate (blobCount + 1) 0).set 0 1) where
  length := by rw [List.length_set, List.length_replicate]
  testBit := by
    intro count few total
    cases count with
    | zero =>
      rw [List.getD_eq_getElem?_getD, List.getElem?_set_self (by rw [List.length_replicate]; omega), Option.getD_some,
        Nat.testBit_one_eq_true_iff_self_eq_zero, Sums.zero_iff]
      omega
    | succ count =>
      rw [List.getD_eq_getElem?_getD, List.getElem?_set_ne (by omega), List.getElem?_replicate, if_pos (by omega),
        Option.getD_some, Nat.zero_testBit]
      constructor
      · intro impossible
        cases impossible
      · rintro ⟨_, sums⟩
        have few := sums.card_le
        rw [Multiset.card_zero] at few
        omega

theorem Filled.extend (filled : Filled blobCount byteCount seen reachable) (amount : ℕ) :
    Filled blobCount byteCount (amount ::ₘ seen)
      (extendReachable (1 <<< (byteCount + 1) - 1) amount (min blobCount (seen.card + 1)) reachable) where
  length := by rw [length_extendReachable, filled.length]
  testBit := by
    intro count few total
    rw [getD_extendReachable _ _ _ (by rw [filled.length]; omega)]
    cases count with
    | zero => rw [if_neg (by omega), filled.testBit 0 few, Sums.zero_iff, Sums.zero_iff]
    | succ count =>
      split
      · next low =>
        rw [Nat.add_sub_cancel, Nat.testBit_or, Nat.testBit_and, Nat.testBit_shiftLeft, Nat.one_shiftLeft,
          Nat.testBit_two_pow_sub_one, Bool.or_eq_true, Bool.and_eq_true, Bool.and_eq_true, decide_eq_true_eq, decide_eq_true_eq,
          filled.testBit (count + 1) few, filled.testBit count (by omega), Sums.cons_iff]
        constructor
        · rintro (⟨small, sums⟩ | ⟨⟨room, _, sums⟩, small⟩)
          · exact ⟨small, .inl sums⟩
          · exact ⟨Nat.lt_succ_iff.mp small, .inr ⟨room, sums⟩⟩
        · rintro ⟨small, sums | ⟨room, sums⟩⟩
          · exact .inl ⟨small, sums⟩
          · exact .inr ⟨⟨room, by omega, sums⟩, Nat.lt_succ_iff.mpr small⟩
      · next high =>
        -- More entries than there have been make no total, before and after.
        rw [filled.testBit (count + 1) few]
        constructor
        · rintro ⟨small, sums⟩
          exact ⟨small, sums.mono (Multiset.le_cons_self _ _)⟩
        · rintro ⟨_, sums⟩
          have enough := sums.card_le
          rw [Multiset.card_cons] at enough
          omega

/-- The search finds its total as soon as the entries seen make it. -/
theorem reachesTotal_iff (rest : List ℕ) (filled : Filled blobCount byteCount seen reachable)
    (missing : ¬Sums seen blobCount byteCount) :
    reachesTotal (1 <<< (byteCount + 1) - 1) blobCount byteCount seen.card rest reachable = true
      ↔ Sums (seen + rest) blobCount byteCount := by
  induction rest generalizing seen reachable with
  | nil =>
    rw [reachesTotal, Multiset.coe_nil, add_zero]
    exact ⟨fun impossible => absurd impossible Bool.false_ne_true, fun sums => absurd sums missing⟩
  | cons amount rest ih =>
    have extended := filled.extend amount
    have bit := extended.testBit blobCount (le_refl _) byteCount
    have order : seen + ↑(amount :: rest) = amount ::ₘ seen + ↑rest := by
      rw [← Multiset.cons_coe, Multiset.add_cons, Multiset.cons_add]
    rw [reachesTotal, order]
    split
    · next found =>
      have sums : Sums (amount ::ₘ seen) blobCount byteCount := by
        refine (bit.mp ?_).2
        rw [Nat.testBit_eq_decide_div_mod_eq, ← Nat.shiftRight_eq_div_pow, decide_eq_true_eq]
        rw [Nat.and_one_is_mod] at found
        omega
      exact ⟨fun _ => sums.mono (Multiset.le_add_right _ _), fun _ => rfl⟩
    · next absent =>
      have still : ¬Sums (amount ::ₘ seen) blobCount byteCount := by
        intro sums
        have set_ := bit.mpr ⟨le_refl _, sums⟩
        rw [Nat.testBit_eq_decide_div_mod_eq, ← Nat.shiftRight_eq_div_pow, decide_eq_true_eq] at set_
        rw [Nat.and_one_is_mod] at absent
        omega
      have continued := ih extended still
      rwa [Multiset.card_cons] at continued

end Bitsets

section Sides

variable {byteCounts : List ℕ} {blobCount byteCount : ℤ}

def WithinWork (byteCounts : List ℕ) (side : ℤ × ℤ) : Prop :=
  byteCounts.length * side.1 ≤ 250000 ∧ (side.1 + 1) * (side.2 + 1) ≤ 64000000

theorem pairwise_ordered (byteCounts : List ℕ) : (byteCounts.insertionSort (· ≤ ·)).Pairwise (· ≤ ·) :=
  List.pairwise_insertionSort ..

theorem coe_ordered (byteCounts : List ℕ) : ((byteCounts.insertionSort (· ≤ ·) : List ℕ) : Multiset ℕ) = byteCounts :=
  Multiset.coe_eq_coe.mpr (List.perm_insertionSort ..)

/-- The bounds of the sorted list refuse nothing that a choice makes. -/
theorem sideAttributable_iff (count total : ℕ) (some_ : 0 < count) : sideAttributable byteCounts count total = true
    ↔ Sums byteCounts count total ∧ WithinWork byteCounts (count, total) := by
  have missing : ¬Sums 0 count total := by
    intro sums
    have few := sums.card_le
    rw [Multiset.card_zero] at few
    omega
  have search := reachesTotal_iff byteCounts (filled_nil count total) missing
  rw [Multiset.card_zero, zero_add] at search
  rw [sideAttributable]
  simp only [Int.toNat_natCast]
  split
  · next outside =>
    constructor
    · intro impossible
      cases impossible
    · rintro ⟨sums, _⟩
      rw [← coe_ordered] at sums
      have low := sums.sum_take_le (pairwise_ordered byteCounts)
      have high := sums.le_sum_drop (pairwise_ordered byteCounts)
      omega
  · split
    · next large =>
      constructor
      · intro impossible
        cases impossible
      · rintro ⟨_, first, second⟩
        simp only at first second
        omega
    · next small =>
      rw [not_or, not_lt, not_lt] at small
      rw [search]
      constructor
      · intro sums
        exact ⟨sums, small⟩
      · rintro ⟨sums, _⟩
        exact sums

/-- A total below nothing is not made by any side. -/
theorem sideAttributable_neg (count : ℕ) (negative : byteCount < 0) : sideAttributable byteCounts count byteCount = false := by
  rw [sideAttributable]
  simp only
  rw [if_pos]
  left
  omega

/-- Some choice of exactly `blobCount` positions of the list sums to `byteCount`. -/
def Attributable (byteCounts : List ℕ) (blobCount byteCount : ℤ) : Prop :=
  ∃ chosen : Finset (Fin byteCounts.length), (chosen.card : ℤ) = blobCount ∧ ((∑ i ∈ chosen, byteCounts.get i : ℕ) : ℤ) = byteCount

theorem attributable_natCast (count total : ℕ) : Attributable byteCounts count total ↔ Sums byteCounts count total := by
  rw [Choices.sums_iff_positions, Attributable]
  simp only [Nat.cast_inj]

/-- A choice of positions has as many as there are at most, and no negative bytes. -/
theorem Attributable.exists_nat (attributable : Attributable byteCounts blobCount byteCount) :
    ∃ count total : ℕ, blobCount = count ∧ byteCount = total ∧ Sums byteCounts count total := by
  obtain ⟨chosen, rfl, rfl⟩ := attributable
  exact ⟨_, _, rfl, rfl, (attributable_natCast _ _).mp ⟨chosen, rfl, rfl⟩⟩

/-- The complement makes the other total exactly where the chosen side makes its own. -/
theorem sideAttributable_smallerSide {count total : ℕ} (some_ : 0 < count) (few : count < byteCounts.length) :
    sideAttributable byteCounts (smallerSide byteCounts count total).1 (smallerSide byteCounts count total).2 = true
      ↔ Sums byteCounts count total ∧ WithinWork byteCounts (smallerSide byteCounts count total) := by
  rw [smallerSide]
  split
  · next larger =>
    have counted : (byteCounts.length : ℤ) - count = (byteCounts.length - count : ℕ) := (Nat.cast_sub few.le).symm
    rw [counted]
    simp only
    by_cases small : total ≤ byteCounts.sum
    · have summed : (byteCounts.sum : ℤ) - total = (byteCounts.sum - total : ℕ) := (Nat.cast_sub small).symm
      have other : Sums byteCounts (byteCounts.length - count) (byteCounts.sum - total) ↔ Sums byteCounts count total :=
        Sums.compl_iff few.le small
      rw [summed, sideAttributable_iff _ _ (by omega), other]
    · rw [sideAttributable_neg _ (by omega)]
      constructor
      · intro impossible
        cases impossible
      · rintro ⟨sums, _⟩
        exact absurd sums.sum_le small
  · next smaller => exact sideAttributable_iff count total some_

theorem withinWork_none (total : ℕ) (zero : total = 0) : WithinWork byteCounts (smallerSide byteCounts (0 : ℕ) total) := by
  subst zero
  rw [smallerSide, if_neg (by omega), WithinWork]
  simp only
  omega

theorem withinWork_all {count total : ℕ} (all : count = byteCounts.length) (some_ : 0 < count) (whole : total = byteCounts.sum) :
    WithinWork byteCounts (smallerSide byteCounts count total) := by
  subst all whole
  rw [smallerSide, if_pos (by omega), WithinWork, sub_self, sub_self, mul_zero]
  omega

/-- All entries together make their sum. -/
theorem sums_length_iff (total : ℕ) : Sums byteCounts byteCounts.length total ↔ total = byteCounts.sum := by
  constructor
  · intro sums
    have rest := sums.compl
    have within := sums.sum_le
    rw [Multiset.coe_card, Nat.sub_self, Sums.zero_iff] at rest
    rw [Multiset.sum_coe] at rest within
    omega
  · rintro rfl
    exact ⟨byteCounts, le_refl _, Multiset.coe_card _, Multiset.sum_coe _⟩

end Sides

/-- Reused blobs are accepted exactly when some choice of that many entries accounts for their bytes and the smaller side is
within the bounds of the work. -/
theorem exactBlobAttributionPossible_iff (byteCounts : List ℕ) (blobCount byteCount : ℤ) :
    exactBlobAttributionPossible byteCounts blobCount byteCount = true
      ↔ Attributable byteCounts blobCount byteCount ∧ WithinWork byteCounts (smallerSide byteCounts blobCount byteCount) := by
  rw [exactBlobAttributionPossible]
  split
  · next outside =>
    constructor
    · intro impossible
      cases impossible
    · rintro ⟨attributable, _⟩
      obtain ⟨count, total, rfl, rfl, sums⟩ := attributable.exists_nat
      have few : count ≤ byteCounts.length := sums.card_le
      omega
  · next inside =>
    rw [not_or, not_or, not_lt, not_lt, not_lt] at inside
    obtain ⟨nonneg, few, positive⟩ := inside
    obtain ⟨count, rfl⟩ := Int.eq_ofNat_of_zero_le nonneg
    obtain ⟨total, rfl⟩ := Int.eq_ofNat_of_zero_le positive
    rw [attributable_natCast]
    split
    · next none =>
      obtain rfl : count = 0 := by omega
      rw [decide_eq_true_eq, Sums.zero_iff, Nat.cast_eq_zero]
      exact ⟨fun zero => ⟨zero, withinWork_none total zero⟩, fun both => both.1⟩
    · next some_ =>
      split
      · next all =>
        rw [decide_eq_true_eq, Nat.cast_inj]
        rw [Nat.cast_inj] at all
        rw [all, sums_length_iff, ← all]
        exact ⟨fun whole => ⟨whole, withinWork_all all (by omega) whole⟩, fun both => both.1⟩
      · next others => exact sideAttributable_smallerSide (by omega) (by omega)

/-- Three of the entries, by way of the one that is left. -/
example : exactBlobAttributionPossible [3, 5, 8, 1] 3 14 = true ∧ exactBlobAttributionPossible [3, 5, 8, 1] 3 13 = false := by
  decide +kernel

end PersistentHarness.Kernel.SnapshotStore
