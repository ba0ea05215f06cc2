import Mathlib.Tactic

/-! One's-complement sums. A sum is kept by its representative modulo `modulus`,
where zero stands for itself only and a positive multiple is `modulus`. -/

namespace Sponge.OnesComplement

variable {modulus : Nat}

def representative (modulus value : Nat) : Nat :=
  if value = 0 then 0 else (value - 1) % modulus + 1

theorem representative_le (positive : 0 < modulus) (value : Nat) :
    representative modulus value ≤ modulus := by
  unfold representative
  split
  · exact Nat.zero_le _
  · exact Nat.mod_lt _ positive

theorem representative_of_le {value : Nat} (small : value ≤ modulus) :
    representative modulus value = value := by
  unfold representative
  split
  next zero => exact zero.symm
  next nonzero =>
    rw [Nat.mod_eq_of_lt (by omega)]
    omega

theorem representative_carry (value : Nat) :
    representative modulus (value / (modulus + 1) + value % (modulus + 1)) =
      representative modulus value := by
  have split := Nat.div_add_mod value (modulus + 1)
  generalize value / (modulus + 1) = quotient at *
  generalize value % (modulus + 1) = remainder at *
  have expand : (modulus + 1) * quotient = modulus * quotient + quotient := by ring
  unfold representative
  by_cases zero : value = 0
  · rw [if_pos zero, if_pos (by omega)]
  · have positive : quotient + remainder ≠ 0 := by
      intro vanishes
      have small : quotient = 0 := by omega
      rw [small] at split
      omega
    have shift : value - 1 = (quotient + remainder - 1) + modulus * quotient := by
      omega
    rw [if_neg zero, if_neg positive, shift, Nat.add_mul_mod_self_left]

theorem add_complement (positive : 0 < modulus) (value : Nat) :
    value + (modulus - representative modulus value) =
      modulus * ((value - 1) / modulus + 1) := by
  unfold representative
  split
  next zero => simp [zero]
  next nonzero =>
    have split := Nat.div_add_mod (value - 1) modulus
    have bound := Nat.mod_lt (value - 1) positive
    rw [Nat.mul_add, Nat.mul_one]
    omega

theorem representative_add_complement (positive : 0 < modulus) (value : Nat) :
    representative modulus (value + (modulus - representative modulus value)) =
      modulus := by
  rw [add_complement positive]
  unfold representative
  have expand : modulus * ((value - 1) / modulus + 1) - 1 =
      (modulus - 1) + modulus * ((value - 1) / modulus) := by
    rw [Nat.mul_add, Nat.mul_one]
    omega
  have large : modulus * ((value - 1) / modulus + 1) ≠ 0 := by
    rw [Nat.mul_add, Nat.mul_one]
    omega
  rw [if_neg large, expand, Nat.add_mul_mod_self_left, Nat.mod_eq_of_lt (by omega)]
  omega

theorem add_complement_le (positive : 0 < modulus) {value count : Nat}
    (nonzero : 0 < count) (bound : value ≤ modulus * count) :
    value + (modulus - representative modulus value) ≤ modulus * count := by
  rw [add_complement positive]
  apply Nat.mul_le_mul_left
  by_cases zero : value = 0
  · rw [zero, Nat.zero_sub, Nat.zero_div]
    exact nonzero
  · have below : (value - 1) / modulus < count := by
      rw [Nat.div_lt_iff_lt_mul positive, Nat.mul_comm]
      omega
    omega

theorem representative_add_mul {value : Nat} (nonzero : value ≠ 0) (count : Nat) :
    representative modulus (value + modulus * count) = representative modulus value := by
  have shift : value + modulus * count - 1 = value - 1 + modulus * count := by omega
  rw [representative, representative, if_neg (by omega), if_neg nonzero, shift,
    Nat.add_mul_mod_self_left]

theorem representative_eq_modulus_iff (positive : 0 < modulus) (value : Nat) :
    representative modulus value = modulus ↔ 0 < value ∧ modulus ∣ value := by
  constructor
  · intro full
    have complete := add_complement positive value
    rw [full, Nat.sub_self, Nat.add_zero] at complete
    rw [complete]
    exact ⟨Nat.mul_pos positive (Nat.succ_pos _), Nat.dvd_mul_right _ _⟩
  · rintro ⟨large, count, rfl⟩
    cases count with
    | zero => exact absurd large (Nat.lt_irrefl 0)
    | succ count =>
        rw [Nat.mul_succ, Nat.add_comm, representative_add_mul (by omega),
          representative_of_le le_rfl]

theorem representative_add_left (first second : Nat) :
    representative modulus (representative modulus first + second) =
      representative modulus (first + second) := by
  by_cases zero : first = 0
  · rw [zero, representative_of_le (Nat.zero_le _)]
  · have whole : first = representative modulus first +
        modulus * ((first - 1) / modulus) := by
      have split := Nat.mod_add_div (first - 1) modulus
      rw [representative, if_neg zero]
      omega
    have positive : representative modulus first ≠ 0 := by
      rw [representative, if_neg zero]
      omega
    conv_rhs => rw [whole]
    rw [Nat.add_right_comm, representative_add_mul (by omega)]

/-- Addition with end-around carry of two words not above the modulus, which is all
ones. -/
def carryAdd (modulus first second : Nat) : Nat :=
  (first + second) / (modulus + 1) + (first + second) % (modulus + 1)

theorem carryAdd_eq {first second : Nat} (firstWord : first ≤ modulus)
    (secondWord : second ≤ modulus) :
    carryAdd modulus first second = representative modulus (first + second) := by
  have carry : (first + second) / (modulus + 1) ≤ 1 := by
    apply Nat.le_of_lt_succ
    rw [Nat.div_lt_iff_lt_mul (Nat.succ_pos _)]
    omega
  have split := Nat.div_add_mod (first + second) (modulus + 1)
  have word : carryAdd modulus first second ≤ modulus := by
    unfold carryAdd
    have low := Nat.mod_lt (first + second) (show 0 < modulus + 1 from Nat.succ_pos _)
    rcases Nat.le_one_iff_eq_zero_or_eq_one.mp carry with zero | one
    · omega
    · rw [one] at split ⊢
      omega
  rw [← representative_of_le word, carryAdd, representative_carry]

/-- The words of a message added up one by one, each carry brought around. -/
def carrySum (modulus : Nat) (words : List Nat) : Nat :=
  words.foldl (carryAdd modulus) 0

theorem foldl_carryAdd (positive : 0 < modulus) {words : List Nat} {start : Nat}
    (startWord : start ≤ modulus) (allWords : ∀ word ∈ words, word ≤ modulus) :
    words.foldl (carryAdd modulus) start = representative modulus (start + words.sum) := by
  induction words generalizing start with
  | nil => exact (representative_of_le startWord).symm
  | cons word rest induction =>
      have first := carryAdd_eq startWord (allWords word List.mem_cons_self)
      rw [List.foldl_cons, first, induction (representative_le positive _)
        fun other member => allWords other (List.mem_cons_of_mem _ member),
        representative_add_left, List.sum_cons, Nat.add_assoc]

theorem carrySum_eq (positive : 0 < modulus) {words : List Nat}
    (allWords : ∀ word ∈ words, word ≤ modulus) :
    carrySum modulus words = representative modulus words.sum := by
  rw [carrySum, foldl_carryAdd positive (Nat.zero_le _) allWords, Nat.zero_add]

/-! ## Sums that wrap

A sum kept modulo `limit`, which need not be a multiple of the modulus: adding one word
to it never wraps into a multiple. -/

variable {limit base : Nat}

theorem unwrapped_of_vanishes (positive : 0 < modulus) (room : modulus ≤ limit)
    (small : base < limit) {word : Nat} (isWord : word ≤ modulus)
    (vanishes : representative modulus ((base + word) % limit) = modulus) :
    0 < base + word ∧ modulus ∣ base + word := by
  have sum := (representative_eq_modulus_iff positive _).mp vanishes
  by_cases wraps : base + word < limit
  · rwa [Nat.mod_eq_of_lt wraps] at sum
  · have rest : (base + word) % limit = base + word - limit := by
      rw [Nat.mod_eq_sub_mod (Nat.not_lt.mp wraps), Nat.mod_eq_of_lt (by omega)]
    rw [rest] at sum
    have large := Nat.le_of_dvd sum.1 sum.2
    omega

theorem full_step {first second : Nat} (below : first < second) (isWord : second ≤ modulus)
    (firstSum : modulus ∣ base + first) (secondSum : modulus ∣ base + second) :
    first = 0 ∧ second = modulus := by
  have step : modulus ∣ second - first := by
    have difference := Nat.dvd_sub secondSum firstSum
    rwa [Nat.add_sub_add_left] at difference
  have large := Nat.le_of_dvd (by omega) step
  omega

/-- At most one word completes a sum, up to the two ways of writing zero. -/
theorem completing_word_unique (positive : 0 < modulus) (room : modulus ≤ limit)
    (small : base < limit) {first second : Nat} (firstWord : first ≤ modulus)
    (secondWord : second ≤ modulus)
    (firstVanishes : representative modulus ((base + first) % limit) = modulus)
    (secondVanishes : representative modulus ((base + second) % limit) = modulus) :
    first = second ∨ (first = 0 ∧ second = modulus) ∨ (second = 0 ∧ first = modulus) := by
  have firstSum := unwrapped_of_vanishes positive room small firstWord firstVanishes
  have secondSum := unwrapped_of_vanishes positive room small secondWord secondVanishes
  rcases Nat.lt_trichotomy first second with below | equal | above
  · exact Or.inr (Or.inl (full_step below secondWord firstSum.2 secondSum.2))
  · exact Or.inl equal
  · exact Or.inr (Or.inr (full_step above firstWord secondSum.2 firstSum.2))

end Sponge.OnesComplement
