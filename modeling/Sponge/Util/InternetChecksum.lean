import Mathlib.Algebra.BigOperators.Group.Finset.Basic
import Mathlib.Data.List.GetD
import Sponge.ByteStream
import Sponge.Data.BigEndian
import Sponge.Data.OnesComplement

namespace Sponge

structure InternetChecksum where
  sum : UInt32
  parity : Bool := false
  deriving DecidableEq, Repr

namespace InternetChecksum

def new (initialSum : UInt32) : InternetChecksum :=
  { sum := initialSum }

def addByte (check : InternetChecksum) (byte : Byte) : InternetChecksum :=
  let val : UInt16 := byte.toUInt16
  let val := if !check.parity then val <<< 8 else val
  { sum := check.sum + val.toUInt32, parity := !check.parity }

def add (check : InternetChecksum) (data : List Byte) : InternetChecksum :=
  data.foldl addByte check

/-- The loop of `value`; `fuel` bounds the number of iterations. -/
def foldCarry : (fuel : Nat) → UInt32 → UInt32
  | 0, ret => ret
  | fuel + 1, ret =>
      if 0xffff < ret then foldCarry fuel ((ret >>> 16) + (ret &&& 0xffff)) else ret

def value (check : InternetChecksum) : UInt16 :=
  ~~~(foldCarry check.sum.toNat check.sum).toUInt16

/-! ## What the running sum holds -/

/-- The sum of the 16-bit words of `data`, starting inside a word when `parity`
is set; the last word is padded with zero. -/
def weight : (parity : Bool) → List Byte → Nat
  | _, [] => 0
  | true, byte :: rest => byte.toNat + weight false rest
  | false, byte :: rest => byte.toNat * 256 + weight true rest

theorem toNat_addByte (check : InternetChecksum) (byte : Byte) :
    (check.addByte byte).sum.toNat =
      (check.sum.toNat + weight check.parity [byte]) % 2 ^ 32 := by
  have bound : byte.toNat < 256 := UInt8.toNat_lt _
  cases parity : check.parity with
  | false =>
      have word : byte.toNat <<< 8 % 65536 = byte.toNat * 256 := by
        rw [Nat.shiftLeft_eq]
        omega
      simp [addByte, parity, weight, word]
  | true => simp [addByte, parity, weight]

theorem weight_cons (parity : Bool) (byte : Byte) (rest : List Byte) :
    weight parity (byte :: rest) = weight parity [byte] + weight (!parity) rest := by
  cases parity <;> simp [weight]

theorem weight_append (parity : Bool) (front back : List Byte) :
    weight parity (front ++ back) =
      weight parity front + weight (parity ^^ front.length.bodd) back := by
  induction front generalizing parity with
  | nil => simp [weight]
  | cons byte rest induction =>
      rw [List.cons_append, weight_cons, weight_cons parity byte rest, induction]
      simp [Nat.add_assoc]

theorem toNat_add (check : InternetChecksum) (data : List Byte) :
    (check.add data).sum.toNat =
      (check.sum.toNat + weight check.parity data) % 2 ^ 32 := by
  induction data generalizing check with
  | nil => exact (Nat.mod_eq_of_lt check.sum.toNat_lt).symm
  | cons byte rest induction =>
      rw [weight_cons]
      change ((check.addByte byte).add rest).sum.toNat = _
      rw [induction, toNat_addByte, Nat.mod_add_mod, Nat.add_assoc]
      rfl

theorem add_append (check : InternetChecksum) (front back : List Byte) :
    (check.add front).add back = check.add (front ++ back) :=
  List.foldl_append.symm

/-! ## What the carry loop returns -/

theorem foldCarry_eq (fuel : Nat) (ret : UInt32) (enough : ret.toNat ≤ fuel) :
    (foldCarry fuel ret).toNat = OnesComplement.representative 65535 ret.toNat := by
  induction fuel generalizing ret with
  | zero =>
      rw [OnesComplement.representative_of_le (by omega)]
      rfl
  | succ fuel induction =>
      rw [foldCarry]
      split
      next large =>
        have big : 65535 < ret.toNat := large
        have bound : ret.toNat < 2 ^ 32 := ret.toNat_lt
        have mask : ret.toNat &&& 0xffff = ret.toNat % 65536 :=
          Nat.and_two_pow_sub_one_eq_mod _ 16
        have folded : ((ret >>> 16) + (ret &&& 0xffff)).toNat =
            ret.toNat / (65535 + 1) + ret.toNat % (65535 + 1) := by
          have shift : (ret >>> 16).toNat = ret.toNat / 65536 := by
            simp [UInt32.toNat_shiftRight, Nat.shiftRight_eq_div_pow]
          have low : (ret &&& 0xffff).toNat = ret.toNat % 65536 := by
            rw [UInt32.toNat_and]
            exact mask
          rw [UInt32.toNat_add, shift, low]
          omega
        rw [induction _ (by rw [folded]; omega), folded,
          OnesComplement.representative_carry]
      next small =>
        rw [OnesComplement.representative_of_le]
        exact Nat.not_lt.mp small

theorem toNat_value (check : InternetChecksum) :
    check.value.toNat = 65535 - OnesComplement.representative 65535 check.sum.toNat := by
  have folded := foldCarry_eq check.sum.toNat check.sum le_rfl
  have bound := OnesComplement.representative_le (show 0 < 65535 by decide) check.sum.toNat
  rw [value, UInt16.toNat_not, UInt32.toNat_toUInt16, folded,
    Nat.mod_eq_of_lt (by omega)]
  rfl

theorem value_eq_zero_iff (check : InternetChecksum) :
    check.value = 0 ↔ OnesComplement.representative 65535 check.sum.toNat = 65535 := by
  have bound := OnesComplement.representative_le (show 0 < 65535 by decide) check.sum.toNat
  rw [← UInt16.toNat_inj, toNat_value, UInt16.toNat_zero]
  omega

theorem weight_encode_word (word : UInt16) :
    weight false (BigEndian.encode 2 word.toNat) = word.toNat := by
  have bound : word.toNat < 65536 := word.toNat_lt
  simp [BigEndian.encode, weight]
  omega

theorem sum_patch (initialSum : UInt32) (front back : List Byte)
    (even : front.length.bodd = false) (word : UInt16) :
    ((new initialSum).add (front ++ (BigEndian.encode 2 word.toNat ++ back))).sum.toNat =
      (((new initialSum).add (front ++ (BigEndian.encode 2 0 ++ back))).sum.toNat +
        word.toNat) % 2 ^ 32 := by
  have weighs (value : UInt16) :
      weight false (front ++ (BigEndian.encode 2 value.toNat ++ back)) =
        weight false front + (value.toNat + weight false back) := by
    simp only [weight_append, even, Bool.xor_false, weight_encode_word,
      BigEndian.length_encode]
    rfl
  have blank := weighs 0
  rw [UInt16.toNat_zero] at blank
  rw [toNat_add, toNat_add, Nat.mod_add_mod]
  change (_ + weight false _) % _ = (_ + weight false _ + _) % _
  rw [weighs, blank]
  congr 1
  omega

/-- A zero word at an even offset, replaced by the value of the sum, makes the
value of the new sum zero. The 32-bit sum may wrap before the word is replaced,
but not by replacing it. -/
theorem value_patch (initialSum : UInt32) (front back : List Byte)
    (even : front.length.bodd = false) :
    ((new initialSum).add (front ++
      (BigEndian.encode 2 ((new initialSum).add
        (front ++ (BigEndian.encode 2 0 ++ back))).value.toNat ++ back))).value = 0 := by
  rw [value_eq_zero_iff, sum_patch initialSum front back even]
  generalize (new initialSum).add (front ++ (BigEndian.encode 2 0 ++ back)) = blank
  -- 2 ^ 32 - 1 = 65535 * 65537, so the next multiple of 65535 is below 2 ^ 32
  have bound : blank.sum.toNat < 2 ^ 32 := blank.sum.toNat_lt
  have unwrapped : blank.sum.toNat + blank.value.toNat ≤ 65535 * 65537 := by
    rw [toNat_value]
    exact OnesComplement.add_complement_le (by decide) (by decide) (by omega)
  rw [Nat.mod_eq_of_lt (by omega), toNat_value,
    OnesComplement.representative_add_complement (by decide)]

theorem patch_unique (initialSum : UInt32) (front back : List Byte)
    (even : front.length.bodd = false) {word : UInt16} (canonical : word ≠ 0xffff)
    (good : ((new initialSum).add
      (front ++ (BigEndian.encode 2 word.toNat ++ back))).value = 0) :
    ((new initialSum).add (front ++ (BigEndian.encode 2 0 ++ back))).value = word := by
  have patched := value_patch initialSum front back even
  rw [value_eq_zero_iff, sum_patch initialSum front back even] at good patched
  generalize (new initialSum).add (front ++ (BigEndian.encode 2 0 ++ back)) = blank
    at good patched ⊢
  have small : blank.sum.toNat < 2 ^ 32 := blank.sum.toNat_lt
  have isWord (value : UInt16) : value.toNat ≤ 65535 := Nat.le_of_lt_succ value.toNat_lt
  rcases OnesComplement.completing_word_unique (by decide) (by decide) small
    (isWord blank.value) (isWord word) patched good with same | ⟨_, full⟩ | ⟨zero, full⟩
  · exact UInt16.toNat_inj.mp same
  · exact absurd (UInt16.toNat_inj.mp full) canonical
  · -- the value is `0xffff` only for the sum zero, to which a zero word adds nothing
    have nothing : OnesComplement.representative 65535 blank.sum.toNat = 0 := by
      rw [toNat_value] at full
      have := OnesComplement.representative_le (show 0 < 65535 by decide) blank.sum.toNat
      omega
    rw [zero, Nat.add_zero, Nat.mod_eq_of_lt small, nothing] at good
    cases good

/-! ## The words of a message -/

def wordAt (data : List Byte) (k : Nat) : Nat :=
  (data.getD (2 * k) 0).toNat * 256 + (data.getD (2 * k + 1) 0).toNat

def words (data : List Byte) : List Nat :=
  (List.range ((data.length + 1) / 2)).map (wordAt data)

theorem wordAt_le (data : List Byte) (k : Nat) : wordAt data k ≤ 65535 := by
  have high : (data.getD (2 * k) 0).toNat < 256 := UInt8.toNat_lt _
  have low : (data.getD (2 * k + 1) 0).toNat < 256 := UInt8.toNat_lt _
  unfold wordAt
  omega

theorem wordAt_drop (data : List Byte) (k : Nat) :
    wordAt (data.drop 2) k = wordAt data (k + 1) := by
  have high : 2 * (k + 1) = 2 + 2 * k := by ring
  simp only [wordAt, List.getD_eq_getElem?_getD, List.getElem?_drop, high, Nat.add_assoc]

theorem weight_drop (data : List Byte) :
    weight false data = weight false (data.drop 2) + wordAt data 0 := by
  match data with
  | [] => rfl
  | [byte] => simp [weight, wordAt]
  | high :: low :: rest =>
      simp [weight, wordAt]
      omega

theorem weight_eq_sum {data : List Byte} {count : Nat} (covers : data.length ≤ 2 * count) :
    weight false data = ∑ k ∈ Finset.range count, wordAt data k := by
  induction count generalizing data with
  | zero =>
      have empty : data = [] := List.length_eq_zero_iff.mp (by omega)
      rw [empty]
      rfl
  | succ count induction =>
      rw [weight_drop, Finset.sum_range_succ', induction (by rw [List.length_drop]; omega)]
      simp only [wordAt_drop]

theorem sum_words (data : List Byte) : (words data).sum = weight false data := by
  rw [@weight_eq_sum data ((data.length + 1) / 2) (by omega)]
  rfl

/-- The checksum of RFC 1071: the complement of the sum with end-around carry of the two
halves of the initial sum and all words of the message. -/
def rfc1071 (initialSum : UInt32) (data : List Byte) : UInt16 :=
  ~~~UInt16.ofNat (OnesComplement.carrySum 0xffff
    (initialSum.toNat / 65536 :: initialSum.toNat % 65536 :: words data))

theorem toNat_rfc1071 (initialSum : UInt32) (data : List Byte) :
    (rfc1071 initialSum data).toNat =
      65535 - OnesComplement.representative 65535 (initialSum.toNat + weight false data) := by
  have bound : initialSum.toNat < 2 ^ 32 := initialSum.toNat_lt
  have allWords : ∀ word ∈ initialSum.toNat / 65536 :: initialSum.toNat % 65536 ::
      words data, word ≤ 65535 := by
    intro word member
    rcases List.mem_cons.mp member with rfl | member
    · omega
    rcases List.mem_cons.mp member with rfl | member
    · omega
    · obtain ⟨k, _, rfl⟩ := List.mem_map.mp member
      exact wordAt_le data k
  have sum : OnesComplement.carrySum 65535
      (initialSum.toNat / 65536 :: initialSum.toNat % 65536 :: words data) =
      OnesComplement.representative 65535 (initialSum.toNat + weight false data) := by
    rw [OnesComplement.carrySum_eq (by decide) allWords, List.sum_cons, List.sum_cons,
      sum_words, ← Nat.add_assoc, ← OnesComplement.representative_add_left,
      OnesComplement.representative_carry, OnesComplement.representative_add_left]
  have small := OnesComplement.representative_le (show 0 < 65535 by decide)
    (initialSum.toNat + weight false data)
  rw [rfc1071, sum, UInt16.toNat_not, UInt16.toNat_ofNat', Nat.mod_eq_of_lt (by omega)]
  rfl

theorem foldl_add (check : InternetChecksum) (chunks : List (List Byte)) :
    chunks.foldl add check = check.add chunks.flatten := by
  induction chunks generalizing check with
  | nil => rfl
  | cons chunk rest induction =>
      rw [List.foldl_cons, induction, add_append, List.flatten_cons]

theorem foldCarry_stops {fuel : Nat} {ret : UInt32} (enough : ret.toNat ≤ fuel) :
    foldCarry fuel ret ≤ 0xffff ∧ foldCarry fuel ret = foldCarry ret.toNat ret := by
  -- More iterations than the sum is large change nothing, for the loop is over.
  have folded := foldCarry_eq fuel ret enough
  constructor
  · change (foldCarry fuel ret).toNat ≤ 65535
    rw [folded]
    exact OnesComplement.representative_le (by decide) _
  · exact UInt32.toNat_inj.mp (folded.trans (foldCarry_eq _ ret le_rfl).symm)

/-- While the 32-bit sum does not wrap, the value is the checksum of RFC 1071 of the
concatenated pieces. -/
theorem checksum_rfc1071 (initialSum : UInt32) (chunks : List (List Byte))
    (unwrapped : initialSum.toNat + (words chunks.flatten).sum < 2 ^ 32) :
    (∀ fuel, (chunks.foldl add (new initialSum)).sum.toNat ≤ fuel →
      foldCarry fuel (chunks.foldl add (new initialSum)).sum ≤ 0xffff ∧
      ~~~(foldCarry fuel (chunks.foldl add (new initialSum)).sum).toUInt16 =
        (chunks.foldl add (new initialSum)).value) ∧
    (chunks.foldl add (new initialSum)).value = rfc1071 initialSum chunks.flatten ∧
    ∀ others : List (List Byte), others.flatten = chunks.flatten →
      (others.foldl add (new initialSum)).value =
        (chunks.foldl add (new initialSum)).value := by
  refine ⟨?_, ?_, ?_⟩
  · intro fuel enough
    obtain ⟨stopped, same⟩ := foldCarry_stops enough
    exact ⟨stopped, by rw [same, value]⟩
  · rw [sum_words] at unwrapped
    have sum : ((new initialSum).add chunks.flatten).sum.toNat =
        initialSum.toNat + weight false chunks.flatten := by
      rw [toNat_add]
      exact Nat.mod_eq_of_lt unwrapped
    apply UInt16.toNat_inj.mp
    rw [foldl_add, toNat_value, toNat_rfc1071, sum]
  · intro others same
    rw [foldl_add, foldl_add, same]

theorem checksum_rfc1071_split :
    ([[255], [254, 2], [3]].foldl add (new 0xfffe0001)).value =
      rfc1071 0xfffe0001 [255, 254, 2, 3] :=
  (checksum_rfc1071 0xfffe0001 [[255], [254, 2], [3]] (by decide)).2.1

/-! ## Damage -/

section

variable {data corrupted : List Byte} {k : Nat}

theorem getElem?_of_getD (length : corrupted.length = data.length) {i : Nat}
    (same : corrupted.getD i 0 = data.getD i 0) : corrupted[i]? = data[i]? := by
  by_cases inside : i < data.length
  · rw [List.getD_eq_getElem _ _ (length ▸ inside), List.getD_eq_getElem _ _ inside] at same
    rw [List.getElem?_eq_getElem (length ▸ inside), List.getElem?_eq_getElem inside, same]
  · rw [List.getElem?_eq_none (by omega), List.getElem?_eq_none (by omega)]

theorem wordAt_congr {other : List Byte} {j : Nat} (high : other[2 * j]? = data[2 * j]?)
    (low : other[2 * j + 1]? = data[2 * j + 1]?) : wordAt other j = wordAt data j := by
  simp only [wordAt, List.getD_eq_getElem?_getD, high, low]

theorem bytes_of_wordAt_eq (same : wordAt corrupted k = wordAt data k) :
    corrupted.getD (2 * k) 0 = data.getD (2 * k) 0 ∧
      corrupted.getD (2 * k + 1) 0 = data.getD (2 * k + 1) 0 := by
  have high : (corrupted.getD (2 * k) 0).toNat < 256 := UInt8.toNat_lt _
  have low : (corrupted.getD (2 * k + 1) 0).toNat < 256 := UInt8.toNat_lt _
  have high' : (data.getD (2 * k) 0).toNat < 256 := UInt8.toNat_lt _
  have low' : (data.getD (2 * k + 1) 0).toNat < 256 := UInt8.toNat_lt _
  unfold wordAt at same
  exact ⟨UInt8.toNat_inj.mp (by omega), UInt8.toNat_inj.mp (by omega)⟩

theorem exists_weight_around (length : corrupted.length = data.length)
    (outside : ∀ i, i / 2 ≠ k → corrupted[i]? = data[i]?) :
    ∃ around, weight false data = around + wordAt data k ∧
      weight false corrupted = around + wordAt corrupted k := by
  have member : k ∈ Finset.range (data.length + k + 1) := Finset.mem_range.mpr (by omega)
  have others : ∑ j ∈ (Finset.range (data.length + k + 1)).erase k, wordAt corrupted j =
      ∑ j ∈ (Finset.range (data.length + k + 1)).erase k, wordAt data j := by
    refine Finset.sum_congr rfl ?_
    intro j other
    have apart := Finset.ne_of_mem_erase other
    exact wordAt_congr (outside _ (by omega)) (outside _ (by omega))
  refine ⟨∑ j ∈ (Finset.range (data.length + k + 1)).erase k, wordAt data j, ?_, ?_⟩
  · rw [@weight_eq_sum data (data.length + k + 1) (by omega),
      ← Finset.sum_erase_add _ _ member]
  · rw [@weight_eq_sum corrupted (data.length + k + 1) (by omega),
      ← Finset.sum_erase_add _ _ member, others]

/-- One changed word shows in the value, unless it goes from one zero to the other. The
sum may wrap: a wrapped sum is too small to be a multiple of `0xffff`. -/
theorem value_of_word_change {initialSum : UInt32}
    (length : corrupted.length = data.length)
    (outside : ∀ i, i / 2 ≠ k → corrupted[i]? = data[i]?) (changed : corrupted ≠ data)
    (notZeros : ¬(wordAt data k = 0 ∧ wordAt corrupted k = 0xffff))
    (notOnes : ¬(wordAt data k = 0xffff ∧ wordAt corrupted k = 0))
    (good : ((new initialSum).add data).value = 0) :
    ((new initialSum).add corrupted).value ≠ 0 := by
  intro missed
  obtain ⟨around, weighs, weighs'⟩ := exists_weight_around length outside
  have sum (bytes : List Byte) (weighed : weight false bytes = around + wordAt bytes k) :
      ((new initialSum).add bytes).sum.toNat =
        ((initialSum.toNat + around) % 2 ^ 32 + wordAt bytes k) % 2 ^ 32 := by
    rw [Nat.mod_add_mod, Nat.add_assoc, ← weighed]
    exact toNat_add _ _
  rw [value_eq_zero_iff, sum data weighs] at good
  rw [value_eq_zero_iff, sum corrupted weighs'] at missed
  rcases OnesComplement.completing_word_unique (by decide) (by decide)
    (Nat.mod_lt _ (by decide)) (wordAt_le data k) (wordAt_le corrupted k) good missed
    with same | zeros | ones
  · obtain ⟨high, low⟩ := bytes_of_wordAt_eq same.symm
    apply changed
    apply List.ext_getElem?
    intro i
    by_cases inside : i / 2 = k
    · rcases Nat.mod_two_eq_zero_or_one i with even | odd
      · rw [show i = 2 * k by omega]
        exact getElem?_of_getD length high
      · rw [show i = 2 * k + 1 by omega]
        exact getElem?_of_getD length low
    · exact outside i inside
  · exact notZeros zeros
  · exact notOnes ⟨ones.2, ones.1⟩

theorem byte_change_keeps {i : Nat} (others : ∀ j, j ≠ i → corrupted[j]? = data[j]?) :
    ¬(wordAt data (i / 2) = 0 ∧ wordAt corrupted (i / 2) = 0xffff) ∧
      ¬(wordAt data (i / 2) = 0xffff ∧ wordAt corrupted (i / 2) = 0) := by
  have kept (j : Nat) (other : j ≠ i) : corrupted.getD j 0 = data.getD j 0 := by
    rw [List.getD_eq_getElem?_getD, List.getD_eq_getElem?_getD, others j other]
  have high : (data.getD (2 * (i / 2)) 0).toNat < 256 := UInt8.toNat_lt _
  have low : (data.getD (2 * (i / 2) + 1) 0).toNat < 256 := UInt8.toNat_lt _
  have high' : (corrupted.getD (2 * (i / 2)) 0).toNat < 256 := UInt8.toNat_lt _
  have low' : (corrupted.getD (2 * (i / 2) + 1) 0).toNat < 256 := UInt8.toNat_lt _
  unfold wordAt
  rcases Nat.mod_two_eq_zero_or_one i with even | odd
  · rw [kept (2 * (i / 2) + 1) (by omega)] at *
    constructor <;> omega
  · rw [kept (2 * (i / 2)) (by omega)] at *
    constructor <;> omega

end

end InternetChecksum

end Sponge
