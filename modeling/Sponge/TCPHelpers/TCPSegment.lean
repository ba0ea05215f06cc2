import Mathlib.Data.List.GetD
import Sponge.TCPHelpers.TCPHeader
import Sponge.Util.InternetChecksum

namespace Sponge

structure TCPSegment where
  header : TCPHeader := {}
  payload : Buffer := {}
  deriving DecidableEq, Repr

namespace TCPSegment

/-- The result of the header parser is not looked at; only the error kept in the
`NetParser` is returned. -/
def parse (segment : TCPSegment) (buffer : Buffer) (datagramLayerChecksum : UInt32) :
    Except CppException (ParseResult × TCPSegment) := do
  let check := (InternetChecksum.new datagramLayerChecksum).add buffer.str
  if check.value ≠ 0 then
    return (.badChecksum, segment)
  let ((_, header), p) ← TCPHeader.parse { buffer := buffer }
  return (p.getError, { header := header, payload := p.buffer })

def lengthInSequenceSpace (segment : TCPSegment) : Nat :=
  segment.payload.str.length + (if segment.header.syn then 1 else 0) +
    (if segment.header.fin then 1 else 0)

def serialize (segment : TCPSegment) (datagramLayerChecksum : UInt32) :
    Except CppException BufferList := do
  let headerOut := { segment.header with cksum := 0 }
  let check := InternetChecksum.new datagramLayerChecksum
  let check := check.add (← headerOut.serialize)
  let check := check.add segment.payload.str
  let headerOut := { headerOut with cksum := check.value }
  let ret := BufferList.append {} (.ofBuffer (.ofString (← headerOut.serialize)))
  return ret.append (.ofBuffer segment.payload)

/-! ## Accepted byte strings -/

def dataOffset (bytes : List Byte) : Nat :=
  (bytes.getD 12 0).toNat / 16

structure WellFormed (bytes : List Byte) (datagramLayerChecksum : UInt32) : Prop where
  checksum : ((InternetChecksum.new datagramLayerChecksum).add bytes).value = 0
  fixedPart : 20 ≤ bytes.length
  minimal : 5 ≤ dataOffset bytes
  options : 4 * dataOffset bytes ≤ bytes.length

instance (bytes : List Byte) (datagramLayerChecksum : UInt32) :
    Decidable (WellFormed bytes datagramLayerChecksum) :=
  decidable_of_iff
    (((InternetChecksum.new datagramLayerChecksum).add bytes).value = 0 ∧
      20 ≤ bytes.length ∧ 5 ≤ dataOffset bytes ∧ 4 * dataOffset bytes ≤ bytes.length)
    ⟨fun ⟨checksum, fixedPart, minimal, options⟩ => ⟨checksum, fixedPart, minimal, options⟩,
      fun ⟨checksum, fixedPart, minimal, options⟩ => ⟨checksum, fixedPart, minimal, options⟩⟩

theorem ofNat_field_byte (bytes : List Byte) (i : Nat) :
    UInt8.ofNat (NetParser.field bytes i 1) = bytes.getD i 0 := by
  unfold NetParser.field
  split
  next present =>
    have inside : i < bytes.length := by omega
    rw [List.drop_eq_getElem_cons inside, List.getD_eq_getElem _ _ inside,
      List.take_succ_cons, List.take_zero]
    simp [BigEndian.decode]
  next absent =>
    rw [List.getD_eq_default _ _ (by omega)]
    rfl

theorem doff_decoded (bytes : List Byte) :
    (TCPHeader.decoded bytes).doff.toNat = dataOffset bytes := by
  change (UInt8.ofNat (NetParser.field bytes 12 1) >>> 4).toNat = _
  rw [ofNat_field_byte, dataOffset, UInt8.toNat_shiftRight]
  simp [Nat.shiftRight_eq_div_pow]

theorem parse_badChecksum (segment : TCPSegment) {buffer : Buffer}
    {datagramLayerChecksum : UInt32}
    (bad : ((InternetChecksum.new datagramLayerChecksum).add buffer.str).value ≠ 0) :
    segment.parse buffer datagramLayerChecksum = .ok (.badChecksum, segment) :=
  if_pos bad

theorem parse_goodChecksum (segment : TCPSegment) {buffer : Buffer}
    {datagramLayerChecksum : UInt32}
    (good : ((InternetChecksum.new datagramLayerChecksum).add buffer.str).value = 0) :
    ∃ rest,
      segment.parse buffer datagramLayerChecksum =
        .ok (rest.error,
          { header := TCPHeader.decoded buffer.str, payload := rest.buffer }) ∧
      NetParser.Consumed buffer.str (max 20 (4 * dataOffset buffer.str)) rest := by
  obtain ⟨rest, parsed, consumed⟩ := TCPHeader.parse_spec buffer
  rw [doff_decoded] at consumed
  refine ⟨rest, ?_, consumed⟩
  have same : ¬((InternetChecksum.new datagramLayerChecksum).add buffer.str).value ≠ 0 :=
    not_not_intro good
  simp only [parse, if_neg same, parsed, bind, Except.bind]
  rfl

def checksum (segment : TCPSegment) (datagramLayerChecksum : UInt32) : UInt16 :=
  ((InternetChecksum.new datagramLayerChecksum).add
    (segment.header.wire 0 ++ segment.payload.str)).value

theorem serialize_eq {segment : TCPSegment} (minimal : 5 ≤ segment.header.doff)
    (datagramLayerChecksum : UInt32) :
    ∃ list, segment.serialize datagramLayerChecksum = .ok list ∧
      list.concatenate =
        segment.header.wire (segment.checksum datagramLayerChecksum) ++
          segment.payload.str := by
  have written (cksum : UInt16) : { segment.header with cksum := cksum }.serialize =
      .ok (segment.header.wire cksum) :=
    @TCPHeader.serialize_eq { segment.header with cksum := cksum } minimal
  refine ⟨_, by simp only [serialize, written, bind, Except.bind]; rfl, ?_⟩
  simp [BufferList.concatenate, BufferList.append, BufferList.ofBuffer,
    InternetChecksum.add_append, checksum]

/-- Acceptance as it should be: exactly the well-formed byte strings, with the
payload behind the header and a header that can be written out again. -/
def AcceptsExactly (segment : TCPSegment) (buffer : Buffer)
    (datagramLayerChecksum : UInt32) : Prop :=
  ∃ result parsed,
    segment.parse buffer datagramLayerChecksum = .ok (result, parsed) ∧
    (result = .noError ↔ WellFormed buffer.str datagramLayerChecksum) ∧
    (result = .noError →
      parsed.payload.str = buffer.str.drop (4 * dataOffset buffer.str) ∧
      ∀ other, ∃ list, parsed.serialize other = .ok list)

theorem acceptsExactly_of_badChecksum (segment : TCPSegment) {buffer : Buffer}
    {datagramLayerChecksum : UInt32}
    (bad : ((InternetChecksum.new datagramLayerChecksum).add buffer.str).value ≠ 0) :
    AcceptsExactly segment buffer datagramLayerChecksum := by
  refine ⟨.badChecksum, segment, parse_badChecksum segment bad, ?_, ?_⟩
  · constructor
    · intro accepted
      cases accepted
    · intro wellFormed
      exact absurd wellFormed.checksum bad
  · intro accepted
    cases accepted

theorem acceptsExactly_of_minimal (segment : TCPSegment) {buffer : Buffer}
    {datagramLayerChecksum : UInt32}
    (good : ((InternetChecksum.new datagramLayerChecksum).add buffer.str).value = 0)
    (minimal : 5 ≤ dataOffset buffer.str) :
    AcceptsExactly segment buffer datagramLayerChecksum := by
  obtain ⟨rest, parsed, consumed⟩ := parse_goodChecksum segment good
  rw [Nat.max_eq_right (by omega)] at consumed
  refine ⟨_, _, parsed, ?_, ?_⟩
  · rw [consumed.noError_iff]
    constructor
    · intro options
      exact ⟨good, by omega, minimal, options⟩
    · exact WellFormed.options
  · intro accepted
    constructor
    · cases consumed with
      | within _ _ remaining => exact remaining
      | short error _ => rw [error] at accepted; cases accepted
    · intro other
      rw [← doff_decoded] at minimal
      obtain ⟨list, written, _⟩ :=
        @serialize_eq ⟨TCPHeader.decoded buffer.str, rest.buffer⟩ minimal other
      exact ⟨list, written⟩

theorem acceptsExactly_of_short (segment : TCPSegment) {buffer : Buffer}
    {datagramLayerChecksum : UInt32}
    (good : ((InternetChecksum.new datagramLayerChecksum).add buffer.str).value = 0)
    (short : dataOffset buffer.str < 5) :
    AcceptsExactly segment buffer datagramLayerChecksum ↔ buffer.str.length < 20 := by
  obtain ⟨rest, parsed, consumed⟩ := parse_goodChecksum segment good
  rw [Nat.max_eq_left (by omega)] at consumed
  have malformed : ¬WellFormed buffer.str datagramLayerChecksum := by
    intro wellFormed
    have minimal := wellFormed.minimal
    omega
  constructor
  · rintro ⟨result, other, parsed', exactly, _⟩
    rw [parsed] at parsed'
    cases parsed'
    rw [consumed.noError_iff] at exactly
    exact Nat.not_le.mp fun enough => malformed (exactly.mp enough)
  · intro lacking
    have rejected : rest.error ≠ .noError := by
      rw [Ne, consumed.noError_iff]
      omega
    exact ⟨_, _, parsed, by simp [rejected, malformed], fun accepted => absurd accepted rejected⟩

/-- The parser accepts exactly what it should, except that a data offset below
five goes unnoticed behind a correct checksum. -/
theorem parse_acceptsExactly_iff (segment : TCPSegment) (buffer : Buffer)
    (datagramLayerChecksum : UInt32) :
    AcceptsExactly segment buffer datagramLayerChecksum ↔
      (((InternetChecksum.new datagramLayerChecksum).add buffer.str).value ≠ 0 ∨
        buffer.str.length < 20 ∨ 5 ≤ dataOffset buffer.str) := by
  by_cases good : ((InternetChecksum.new datagramLayerChecksum).add buffer.str).value = 0
  · by_cases short : dataOffset buffer.str < 5
    · rw [acceptsExactly_of_short segment good short]
      simp [good, short]
    · have minimal := Nat.not_lt.mp short
      simp [acceptsExactly_of_minimal segment good minimal, minimal]
  · simp [acceptsExactly_of_badChecksum segment good, good]

/-- Twenty zero bytes under the pseudo-checksum `0xffff`: the data offset is zero,
the segment is accepted, and writing it out again throws. -/
theorem parse_accepts_zero_offset :
    ¬AcceptsExactly {} (.ofString (List.replicate 20 0)) 0xffff ∧
      (({} : TCPSegment).parse (.ofString (List.replicate 20 0)) 0xffff).toOption.map
        (fun parsed => (parsed.1, parsed.2.header.doff, parsed.2.serialize 0)) =
      some (.noError, 0, .error (.runtimeError "TCP header too short")) := by
  constructor
  · rw [acceptsExactly_of_short {} (by decide) (by decide)]
    decide
  · rfl

/-! ## Decoding undoes encoding -/

theorem value_checksum (segment : TCPSegment) (datagramLayerChecksum : UInt32) :
    ((InternetChecksum.new datagramLayerChecksum).add
      (segment.header.wire (segment.checksum datagramLayerChecksum) ++
        segment.payload.str)).value = 0 := by
  have patched := InternetChecksum.value_patch datagramLayerChecksum segment.header.front
    (segment.header.back ++ segment.payload.str)
    (by rw [TCPHeader.length_front]; rfl)
  rw [checksum, TCPHeader.wire, TCPHeader.wire, List.append_assoc, List.append_assoc,
    List.append_assoc, List.append_assoc]
  exact patched

theorem parse_serialize (segment : TCPSegment) (minimal : 5 ≤ segment.header.doff)
    (nibble : segment.header.doff ≤ 15) (datagramLayerChecksum : UInt32)
    (receiver : TCPSegment) :
    ∃ list parsed,
      segment.serialize datagramLayerChecksum = .ok list ∧
      receiver.parse (.ofString list.concatenate) datagramLayerChecksum =
        .ok (.noError, parsed) ∧
      { parsed.header with cksum := segment.header.cksum } = segment.header ∧
      parsed.payload.str = segment.payload.str := by
  obtain ⟨list, written, bytes⟩ := serialize_eq minimal datagramLayerChecksum
  have header : TCPHeader.decoded list.concatenate =
      { segment.header with cksum := segment.checksum datagramLayerChecksum } := by
    rw [bytes, TCPHeader.decoded_wire nibble]
  have offset : dataOffset list.concatenate = segment.header.doff.toNat := by
    rw [← doff_decoded, header]
  have enough : 5 ≤ segment.header.doff.toNat := minimal
  have length := TCPHeader.length_wire minimal (segment.checksum datagramLayerChecksum)
  obtain ⟨rest, parsed, consumed⟩ :=
    @parse_goodChecksum receiver (.ofString list.concatenate) datagramLayerChecksum
      (by rw [Buffer.str_ofString, bytes, value_checksum])
  rw [Buffer.str_ofString, header] at parsed
  rw [Buffer.str_ofString, offset, Nat.max_eq_right (by omega)] at consumed
  have accepted : rest.error = .noError := by
    rw [consumed.noError_iff, bytes, List.length_append]
    omega
  rw [accepted] at parsed
  refine ⟨list, _, written, parsed, rfl, ?_⟩
  cases consumed with
  | short error _ => rw [error] at accepted; cases accepted
  | within _ _ remaining => rw [remaining, bytes, ← length, List.drop_left]

theorem parse_serialize_odd_payload :
    ∃ list parsed,
      serialize ⟨{ sport := 80, doff := 6, syn := true }, .ofString [1, 2, 3]⟩ 0xffffffff =
        .ok list ∧
      parse {} (.ofString list.concatenate) 0xffffffff = .ok (.noError, parsed) ∧
      { parsed.header with cksum := 0 } =
        { sport := 80, doff := 6, syn := true } ∧
      parsed.payload.str = [1, 2, 3] :=
  parse_serialize ⟨{ sport := 80, doff := 6, syn := true }, .ofString [1, 2, 3]⟩
    (by decide) (by decide) 0xffffffff {}

end TCPSegment

end Sponge
