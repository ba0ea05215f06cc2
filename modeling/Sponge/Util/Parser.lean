import Sponge.Data.BigEndian
import Sponge.Util.Buffer

namespace Sponge

inductive ParseResult where
  | noError
  | badChecksum
  | packetTooShort
  | wrongIPVersion
  | headerTooShort
  | truncatedPacket
  | unsupported
  deriving DecidableEq, Repr

structure NetParser where
  buffer : Buffer
  error : ParseResult := .noError
  deriving DecidableEq, Repr

abbrev Parsing (Value : Type) := StateT NetParser (Except CppException) Value

namespace NetParser

def getError (parser : NetParser) : ParseResult :=
  parser.error

def setError (parser : NetParser) (res : ParseResult) : NetParser :=
  { parser with error := res }

def hasError (parser : NetParser) : Bool :=
  parser.getError != .noError

def checkSize (parser : NetParser) (size : Nat) : NetParser :=
  if parser.buffer.size < size then parser.setError .packetTooShort else parser

/-- The loop of `_parse_int` over an integer type of `width` bytes, from byte
`i` on. -/
def parseLoop (buffer : Buffer) (width : Nat) :
    (remaining i ret : Nat) → Except CppException Nat
  | 0, _, ret => .ok ret
  | remaining + 1, i, ret => do
      let byte ← buffer.atIndex i
      parseLoop buffer width remaining (i + 1)
        ((ret * 256 % 2 ^ (8 * width) + byte.toNat) % 2 ^ (8 * width))

def parseInt (len : Nat) : Parsing Nat := fun parser => do
  let parser := parser.checkSize len
  if parser.hasError then
    return (0, parser)
  let ret ← parseLoop parser.buffer len len 0 0
  let buffer ← parser.buffer.removePrefix len
  return (ret, { parser with buffer := buffer })

def u32 : Parsing UInt32 := do
  return UInt32.ofNat (← parseInt 4)

def u16 : Parsing UInt16 := do
  return UInt16.ofNat (← parseInt 2)

def u8 : Parsing UInt8 := do
  return UInt8.ofNat (← parseInt 1)

def removePrefix (n : Nat) : Parsing Unit := fun parser => do
  let parser := parser.checkSize n
  if parser.hasError then
    return ((), parser)
  let buffer ← parser.buffer.removePrefix n
  return ((), { parser with buffer := buffer })

/-- After `count` bytes of `input` were asked for: either all of them were there
and were consumed, or the parser has recorded that the packet is too short. -/
inductive Consumed (input : List Byte) (count : Nat) (parser : NetParser) : Prop
  | within (noError : parser.error = .noError) (enough : count ≤ input.length)
      (rest : parser.buffer.str = input.drop count)
  | short (error : parser.error = .packetTooShort) (lacking : input.length < count)

theorem consumed_start (buffer : Buffer) : Consumed buffer.str 0 { buffer := buffer } :=
  .within rfl (Nat.zero_le _) rfl

theorem Consumed.noError_iff {input : List Byte} {count : Nat} {parser : NetParser}
    (consumed : Consumed input count parser) :
    parser.error = .noError ↔ count ≤ input.length := by
  cases consumed with
  | within noError enough _ => exact ⟨fun _ => enough, fun _ => noError⟩
  | short error lacking =>
      rw [error]
      constructor
      · intro absurdity
        cases absurdity
      · intro enough
        omega

/-- The loop reads its bytes as a big-endian number; a value under construction
of `i` bytes never overflows the integer type. -/
theorem parseLoop_eq {buffer : Buffer} {width remaining i ret : Nat}
    (total : i + remaining = width) (inside : width ≤ buffer.str.length)
    (small : ret < 256 ^ i) :
    parseLoop buffer width remaining i ret =
      .ok (((buffer.str.drop i).take remaining).foldl
        (fun value byte => value * 256 + byte.toNat) ret) := by
  induction remaining generalizing i ret with
  | zero => simp [parseLoop]
  | succ remaining induction =>
      have here : i < buffer.str.length := by omega
      have byteBound : buffer.str[i].toNat < 256 := UInt8.toNat_lt _
      have grown : ret * 256 + buffer.str[i].toNat < 256 ^ (i + 1) := by
        rw [Nat.pow_succ]
        omega
      have room : 256 ^ (i + 1) ≤ 2 ^ (8 * width) := by
        rw [Nat.pow_mul]
        exact Nat.pow_le_pow_right (by decide) (by omega)
      rw [List.drop_eq_getElem_cons here, List.take_succ_cons, List.foldl_cons,
        ← induction (by omega) grown, parseLoop, Buffer.atIndex_of_lt here]
      change parseLoop buffer width remaining (i + 1)
        ((ret * 256 % 2 ^ (8 * width) + buffer.str[i].toNat) % 2 ^ (8 * width)) = _
      rw [Nat.mod_add_mod, Nat.mod_eq_of_lt (Nat.lt_of_lt_of_le grown room)]

theorem Consumed.check {input : List Byte} {count : Nat} {parser : NetParser}
    (consumed : Consumed input count parser) (n : Nat) :
    (count + n ≤ input.length ∧ parser.checkSize n = parser ∧
        parser.hasError = false ∧ parser.error = .noError ∧
        parser.buffer.str = input.drop count ∧ n ≤ parser.buffer.str.length) ∨
      (input.length < count + n ∧ (parser.checkSize n).hasError = true ∧
        (parser.checkSize n).error = .packetTooShort) := by
  cases consumed with
  | within noError enough rest =>
      have length : parser.buffer.str.length = input.length - count := by
        rw [rest, List.length_drop]
      by_cases fits : count + n ≤ input.length
      · refine Or.inl ⟨fits, ?_, ?_, noError, rest, by omega⟩
        · refine if_neg ?_
          rw [Buffer.size]
          omega
        · simp [hasError, getError, noError]
      · have failed : parser.checkSize n = parser.setError .packetTooShort := by
          refine if_pos ?_
          rw [Buffer.size]
          omega
        refine Or.inr ⟨by omega, ?_, ?_⟩ <;> rw [failed] <;> rfl
  | short error lacking =>
      have stuck : (parser.checkSize n).error = .packetTooShort := by
        unfold checkSize
        split
        · rfl
        · exact error
      exact Or.inr ⟨by omega, by simp [hasError, getError, stuck], stuck⟩

def field (input : List Byte) (count len : Nat) : Nat :=
  if count + len ≤ input.length then
    BigEndian.decode ((input.drop count).take len)
  else 0

/-- The specification of an integer read: the next bytes as a number while they
last, zero afterwards, and never an exception. -/
theorem parseInt_spec {input : List Byte} {count : Nat} {parser : NetParser}
    (consumed : Consumed input count parser) (len : Nat) :
    ∃ rest, parseInt len parser = .ok (field input count len, rest) ∧
      Consumed input (count + len) rest := by
  rcases consumed.check len with
    ⟨fits, checked, clear, noError, rest, size⟩ | ⟨lacking, flagged, stuck⟩
  · obtain ⟨buffer, removed, bufferRest⟩ := Buffer.removePrefix_of_le size
    refine ⟨{ parser with buffer := buffer }, ?_,
      .within noError fits (by rw [bufferRest, rest, List.drop_drop])⟩
    have loop := parseLoop_eq (Nat.zero_add len) size (show 0 < 256 ^ 0 by decide)
    simp only [parseInt, checked, clear, loop, removed, bind, Except.bind,
      List.drop_zero, rest, field, if_pos fits]
    rfl
  · refine ⟨parser.checkSize len, ?_, .short stuck lacking⟩
    simp only [parseInt, flagged, field, if_neg (Nat.not_le.mpr lacking)]
    rfl

theorem removePrefix_spec {input : List Byte} {count : Nat} {parser : NetParser}
    (consumed : Consumed input count parser) (n : Nat) :
    ∃ rest, removePrefix n parser = .ok ((), rest) ∧
      Consumed input (count + n) rest := by
  rcases consumed.check n with
    ⟨fits, checked, clear, noError, rest, size⟩ | ⟨lacking, flagged, stuck⟩
  · obtain ⟨buffer, removed, bufferRest⟩ := Buffer.removePrefix_of_le size
    refine ⟨{ parser with buffer := buffer }, ?_,
      .within noError fits (by rw [bufferRest, rest, List.drop_drop])⟩
    simp only [removePrefix, checked, clear, removed, bind, Except.bind]
    rfl
  · refine ⟨parser.checkSize n, ?_, .short stuck lacking⟩
    simp only [removePrefix, flagged]
    rfl

theorem u32_spec {input : List Byte} {count : Nat} {parser : NetParser}
    (consumed : Consumed input count parser) :
    ∃ rest, u32 parser = .ok (UInt32.ofNat (field input count 4), rest) ∧
      Consumed input (count + 4) rest := by
  obtain ⟨rest, read, after⟩ := parseInt_spec consumed 4
  exact ⟨rest, by simp only [u32, bind, StateT.bind, read, Except.bind]; rfl, after⟩

theorem u16_spec {input : List Byte} {count : Nat} {parser : NetParser}
    (consumed : Consumed input count parser) :
    ∃ rest, u16 parser = .ok (UInt16.ofNat (field input count 2), rest) ∧
      Consumed input (count + 2) rest := by
  obtain ⟨rest, read, after⟩ := parseInt_spec consumed 2
  exact ⟨rest, by simp only [u16, bind, StateT.bind, read, Except.bind]; rfl, after⟩

theorem u8_spec {input : List Byte} {count : Nat} {parser : NetParser}
    (consumed : Consumed input count parser) :
    ∃ rest, u8 parser = .ok (UInt8.ofNat (field input count 1), rest) ∧
      Consumed input (count + 1) rest := by
  obtain ⟨rest, read, after⟩ := parseInt_spec consumed 1
  exact ⟨rest, by simp only [u8, bind, StateT.bind, read, Except.bind]; rfl, after⟩

theorem field_skip (width value : Nat) (back : List Byte) {count : Nat} (len : Nat)
    (past : width ≤ count) :
    field (BigEndian.encode width value ++ back) count len =
      field back (count - width) len := by
  have length : (BigEndian.encode width value).length = width := by simp
  unfold field
  rw [List.drop_append, List.drop_of_length_le (by omega), List.nil_append,
    List.length_append, length]
  refine if_congr ?_ rfl rfl
  omega

theorem field_encode (len value : Nat) (back : List Byte) :
    field (BigEndian.encode len value ++ back) 0 len = value % 256 ^ len := by
  have present : 0 + len ≤ (BigEndian.encode len value ++ back).length := by simp
  rw [field, if_pos present, List.drop_zero, List.take_left' (by simp),
    BigEndian.decode_encode]

end NetParser

/-! `NetUnparser` appends integers in network byte order. -/

namespace NetUnparser

def unparseInt (len : Nat) (s : List Byte) (val : Nat) : List Byte :=
  (List.range len).foldl
    (fun s i => s ++ [UInt8.ofNat ((val >>> ((len - i - 1) * 8)) &&& 0xff)]) s

def u32 (s : List Byte) (val : UInt32) : List Byte :=
  unparseInt 4 s val.toNat

def u16 (s : List Byte) (val : UInt16) : List Byte :=
  unparseInt 2 s val.toNat

def u8 (s : List Byte) (val : UInt8) : List Byte :=
  unparseInt 1 s val.toNat

theorem foldl_snoc (make : Nat → Byte) (positions : List Nat) (s : List Byte) :
    positions.foldl (fun s i => s ++ [make i]) s = s ++ positions.map make := by
  induction positions generalizing s with
  | nil => simp
  | cons position rest induction => simp [induction]

theorem shifted_byte (val k : Nat) :
    UInt8.ofNat ((val >>> (k * 8)) &&& 0xff) = UInt8.ofNat (val / 256 ^ k) := by
  have mask : (val >>> (k * 8)) &&& 0xff = (val >>> (k * 8)) % 2 ^ 8 :=
    Nat.and_two_pow_sub_one_eq_mod _ 8
  rw [mask, Nat.shiftRight_eq_div_pow, Nat.mul_comm k 8, Nat.pow_mul]
  apply UInt8.toNat_inj.mp
  simp

theorem unparseInt_eq (len : Nat) (s : List Byte) (val : Nat) :
    unparseInt len s val = s ++ BigEndian.encode len val := by
  unfold unparseInt
  rw [foldl_snoc (fun i => UInt8.ofNat ((val >>> ((len - i - 1) * 8)) &&& 0xff))]
  congr 1
  induction len with
  | zero => rfl
  | succ len induction =>
      rw [List.range_succ_eq_map, List.map_cons, List.map_map, BigEndian.encode,
        ← induction, shifted_byte]
      congr 1
      apply List.map_congr_left
      intro i _
      dsimp only [Function.comp]
      congr 4
      omega

end NetUnparser

end Sponge
