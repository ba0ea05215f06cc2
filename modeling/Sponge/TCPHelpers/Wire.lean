import Mathlib.Data.Nat.Bitwise
import Sponge.TCPHelpers.TCPSegment

namespace Sponge

/-! Segments on the wire: which damage the checksum finds, and which byte strings are
written back as they were read. -/

namespace TCPSegment

open InternetChecksum (wordAt)

theorem value_of_accepted {segment : TCPSegment} {buffer : Buffer}
    {datagramLayerChecksum : UInt32}
    (accepted : ∀ parsed,
      segment.parse buffer datagramLayerChecksum ≠ .ok (.badChecksum, parsed)) :
    ((InternetChecksum.new datagramLayerChecksum).add buffer.str).value = 0 := by
  by_contra bad
  exact accepted segment (parse_badChecksum segment bad)

/-- Damage inside one word, or of one byte, of an accepted segment is found. -/
theorem checksum_detects_damage (segment receiver : TCPSegment) (buffer damaged : Buffer)
    (datagramLayerChecksum : UInt32)
    (accepted : ∀ parsed,
      segment.parse buffer datagramLayerChecksum ≠ .ok (.badChecksum, parsed))
    (length : damaged.str.length = buffer.str.length) :
    (∀ k, (∀ i : Nat, i / 2 ≠ k → damaged.str[i]? = buffer.str[i]?) →
      damaged.str ≠ buffer.str →
      ¬(wordAt buffer.str k = 0 ∧ wordAt damaged.str k = 0xffff) →
      ¬(wordAt buffer.str k = 0xffff ∧ wordAt damaged.str k = 0) →
      receiver.parse damaged datagramLayerChecksum = .ok (.badChecksum, receiver)) ∧
    (∀ i : Nat, damaged.str[i]? ≠ buffer.str[i]? →
      (∀ j : Nat, j ≠ i → damaged.str[j]? = buffer.str[j]?) →
      receiver.parse damaged datagramLayerChecksum = .ok (.badChecksum, receiver)) := by
  have valid := value_of_accepted accepted
  constructor
  · intro k outside changed notZeros notOnes
    exact parse_badChecksum receiver
      (InternetChecksum.value_of_word_change length outside changed notZeros notOnes valid)
  · intro i differs others
    obtain ⟨notZeros, notOnes⟩ := InternetChecksum.byte_change_keeps others
    refine parse_badChecksum receiver
      (InternetChecksum.value_of_word_change length ?_ ?_ notZeros notOnes valid)
    · intro j apart
      exact others j (fun same => apart (same ▸ rfl))
    · intro same
      exact differs (by rw [same])

theorem checksum_detects_damage_odd :
    ({} : TCPSegment).parse (.ofString [254, 255, 2]) 0 = .ok (.badChecksum, {}) := by
  refine (checksum_detects_damage {} {} (.ofString [254, 255, 1]) (.ofString [254, 255, 2]) 0
    ?_ rfl).2 2
    (by decide) ?_
  · intro parsed failed
    have short : (({} : TCPSegment).parse (.ofString [254, 255, 1]) 0).toOption.map
        Prod.fst = some .packetTooShort := by decide
    rw [failed] at short
    cases short
  · intro j other
    match j with
    | 0 | 1 | _ + 3 => rfl
    | 2 => exact absurd rfl other

end TCPSegment

/-! ## The fields of a header -/

namespace TCPHeader

open NetParser (field Consumed)
open TCPSegment (dataOffset)

def octets (bytes : List Byte) (start len : Nat) : Nat :=
  BigEndian.decode ((bytes.drop start).take len)

/-- Every field has the value at its place in RFC 793. -/
structure Rfc793 (bytes : List Byte) (header : TCPHeader) : Prop where
  sport : header.sport.toNat = octets bytes 0 2
  dport : header.dport.toNat = octets bytes 2 2
  seqno : header.seqno.rawValue.toNat = octets bytes 4 4
  ackno : header.ackno.rawValue.toNat = octets bytes 8 4
  doff : header.doff.toNat = octets bytes 12 1 / 16
  urg : header.urg = (octets bytes 13 1).testBit 5
  ack : header.ack = (octets bytes 13 1).testBit 4
  psh : header.psh = (octets bytes 13 1).testBit 3
  rst : header.rst = (octets bytes 13 1).testBit 2
  syn : header.syn = (octets bytes 13 1).testBit 1
  fin : header.fin = (octets bytes 13 1).testBit 0
  win : header.win.toNat = octets bytes 14 2
  cksum : header.cksum.toNat = octets bytes 16 2
  uptr : header.uptr.toNat = octets bytes 18 2

section

variable {bytes : List Byte} {start len : Nat}

theorem octets_lt (bytes : List Byte) (start len : Nat) :
    octets bytes start len < 256 ^ len := by
  refine Nat.lt_of_lt_of_le (BigEndian.decode_lt _) ?_
  exact Nat.pow_le_pow_right (by decide) (List.length_take_le _ _)

theorem field_eq_octets (inside : start + len ≤ bytes.length) :
    field bytes start len = octets bytes start len :=
  if_pos inside

theorem encode_octets (inside : start + len ≤ bytes.length) :
    BigEndian.encode len (octets bytes start len) = (bytes.drop start).take len := by
  have length : ((bytes.drop start).take len).length = len := by
    rw [List.length_take, List.length_drop]
    omega
  have recoded := BigEndian.encode_decode ((bytes.drop start).take len)
  rwa [length] at recoded

theorem toNat_field8 (inside : start + 1 ≤ bytes.length) :
    (UInt8.ofNat (field bytes start 1)).toNat = octets bytes start 1 := by
  rw [field_eq_octets inside, UInt8.toNat_ofNat']
  exact Nat.mod_eq_of_lt (octets_lt bytes start 1)

theorem toNat_field16 (inside : start + 2 ≤ bytes.length) :
    (UInt16.ofNat (field bytes start 2)).toNat = octets bytes start 2 := by
  rw [field_eq_octets inside, UInt16.toNat_ofNat']
  exact Nat.mod_eq_of_lt (octets_lt bytes start 2)

theorem toNat_field32 (inside : start + 4 ≤ bytes.length) :
    (UInt32.ofNat (field bytes start 4)).toNat = octets bytes start 4 := by
  rw [field_eq_octets inside, UInt32.toNat_ofNat']
  exact Nat.mod_eq_of_lt (octets_lt bytes start 4)

theorem masked_bit (byte mask : UInt8) {i : Nat} (bit : mask.toNat = 2 ^ i) :
    (byte &&& mask != 0) = byte.toNat.testBit i := by
  have value : (byte &&& mask).toNat = (byte.toNat.testBit i).toNat * 2 ^ i := by
    rw [UInt8.toNat_and, bit, Nat.and_two_pow]
  cases set : byte.toNat.testBit i with
  | false =>
      rw [set, Bool.toNat_false, Nat.zero_mul] at value
      have zero : byte &&& mask = 0 := UInt8.toNat_inj.mp value
      rw [zero, bne_self_eq_false]
  | true =>
      rw [set, Bool.toNat_true, Nat.one_mul] at value
      rw [bne_iff_ne]
      intro zero
      rw [zero] at value
      exact absurd value (Nat.ne_of_lt (Nat.two_pow_pos i))

theorem decoded_rfc793 (whole : 20 ≤ bytes.length) : Rfc793 bytes (decoded bytes) := by
  have flB : (UInt8.ofNat (field bytes 13 1)).toNat = octets bytes 13 1 :=
    toNat_field8 (by omega)
  constructor
  case sport => exact toNat_field16 (by omega)
  case dport => exact toNat_field16 (by omega)
  case seqno => exact toNat_field32 (by omega)
  case ackno => exact toNat_field32 (by omega)
  case doff =>
    rw [← toNat_field8 (by omega)]
    change (UInt8.ofNat (field bytes 12 1) >>> 4).toNat = _
    simp [UInt8.toNat_shiftRight, Nat.shiftRight_eq_div_pow]
  case urg => exact flB ▸ masked_bit _ 0b00100000 rfl
  case ack => exact flB ▸ masked_bit _ 0b00010000 rfl
  case psh => exact flB ▸ masked_bit _ 0b00001000 rfl
  case rst => exact flB ▸ masked_bit _ 0b00000100 rfl
  case syn => exact flB ▸ masked_bit _ 0b00000010 rfl
  case fin => exact flB ▸ masked_bit _ 0b00000001 rfl
  case win => exact toNat_field16 (by omega)
  case cksum => exact toNat_field16 (by omega)
  case uptr => exact toNat_field16 (by omega)

end

/-- The header parser on any input: when it accepts, what it has read and left, and which
error it reports otherwise. -/
theorem header_parse_total (buffer : Buffer) :
    ∃ result header rest,
      parse { buffer := buffer } = .ok ((result, header), rest) ∧
      (result = .noError ↔ 20 ≤ buffer.str.length ∧ 5 ≤ dataOffset buffer.str ∧
        4 * dataOffset buffer.str ≤ buffer.str.length) ∧
      (result = .noError → rest.buffer.str = buffer.str.drop (4 * dataOffset buffer.str) ∧
        Rfc793 buffer.str header) ∧
      (20 ≤ buffer.str.length → dataOffset buffer.str < 5 → result = .headerTooShort) ∧
      (5 ≤ header.doff.toNat →
        buffer.str.length < max 20 (4 * header.doff.toNat) → result = .packetTooShort) := by
  obtain ⟨rest, parsed, consumed⟩ := parse_spec buffer
  refine ⟨_, _, rest, parsed, ?_⟩
  have offset := TCPSegment.doff_decoded buffer.str
  rw [offset] at consumed ⊢
  by_cases small : (decoded buffer.str).doff < 5
  · have below : dataOffset buffer.str < 5 := offset ▸ small
    rw [if_pos small]
    refine ⟨⟨nofun, by omega⟩, nofun, fun _ _ => rfl, by omega⟩
  · have minimal : 5 ≤ dataOffset buffer.str := offset ▸ Nat.not_lt.mp small
    rw [if_neg small]
    rw [Nat.max_eq_right (by omega)] at consumed ⊢
    cases consumed with
    | within noError enough remaining =>
        have accepted : rest.getError = .noError := noError
        rw [accepted]
        exact ⟨⟨fun _ => ⟨by omega, minimal, enough⟩, fun _ => rfl⟩,
          fun _ => ⟨remaining, decoded_rfc793 (by omega)⟩, by omega, by omega⟩
    | short error lacking =>
        have rejected : rest.getError = .packetTooShort := error
        rw [rejected]
        exact ⟨⟨nofun, by omega⟩, nofun, by omega, fun _ _ => rfl⟩

end TCPHeader

/-! ## Encoding undoes decoding -/

namespace TCPSegment

open TCPHeader (octets)

/-- No options, reserved bits zero, and not the second way to write a zero checksum. -/
structure Canonical (bytes : List Byte) : Prop where
  offset : dataOffset bytes = 5
  lowNibble : octets bytes 12 1 % 16 = 0
  topBits : octets bytes 13 1 / 64 = 0
  checksum : octets bytes 16 2 ≠ 0xffff

instance (bytes : List Byte) : Decidable (Canonical bytes) :=
  decidable_of_iff
    (dataOffset bytes = 5 ∧ octets bytes 12 1 % 16 = 0 ∧ octets bytes 13 1 / 64 = 0 ∧
      octets bytes 16 2 ≠ 0xffff)
    ⟨fun ⟨offset, lowNibble, topBits, checksum⟩ => ⟨offset, lowNibble, topBits, checksum⟩,
      fun ⟨offset, lowNibble, topBits, checksum⟩ => ⟨offset, lowNibble, topBits, checksum⟩⟩

theorem flags_restored : ∀ value < 64,
    ((if UInt8.ofNat value &&& 0b00100000 != 0 then (0b00100000 : UInt8) else 0) |||
      (if UInt8.ofNat value &&& 0b00010000 != 0 then 0b00010000 else 0) |||
      (if UInt8.ofNat value &&& 0b00001000 != 0 then 0b00001000 else 0) |||
      (if UInt8.ofNat value &&& 0b00000100 != 0 then 0b00000100 else 0) |||
      (if UInt8.ofNat value &&& 0b00000010 != 0 then 0b00000010 else 0) |||
      (if UInt8.ofNat value &&& 0b00000001 != 0 then 0b00000001 else 0)) =
      UInt8.ofNat value := by
  decide

section

variable {bytes : List Byte}

theorem Canonical.flags (canonical : Canonical bytes) (whole : 20 ≤ bytes.length) :
    (TCPHeader.decoded bytes).flags.toNat = octets bytes 13 1 := by
  have small : NetParser.field bytes 13 1 < 64 := by
    have topBits := canonical.topBits
    rw [TCPHeader.field_eq_octets (by omega)]
    omega
  rw [← TCPHeader.toNat_field8 (by omega)]
  exact congrArg UInt8.toNat (flags_restored _ small)

theorem Canonical.doff (canonical : Canonical bytes) (whole : 20 ≤ bytes.length) :
    ((TCPHeader.decoded bytes).doff <<< 4).toNat = octets bytes 12 1 := by
  have fields := TCPHeader.decoded_rfc793 whole
  have lowNibble := canonical.lowNibble
  have bound := TCPHeader.octets_lt bytes 12 1
  simp only [UInt8.toNat_shiftLeft, fields.doff, Nat.shiftLeft_eq]
  change octets bytes 12 1 / 16 * 2 ^ 4 % 256 = _
  omega

theorem slice_append {start len stop : Nat} (adjacent : start + len = stop) :
    (bytes.drop start).take len ++ bytes.drop stop = bytes.drop start := by
  rw [← adjacent, ← List.drop_drop, List.take_append_drop]

theorem Canonical.wire (canonical : Canonical bytes) (whole : 20 ≤ bytes.length) :
    (TCPHeader.decoded bytes).wire (TCPHeader.decoded bytes).cksum ++ bytes.drop 20 =
      bytes := by
  have fields := TCPHeader.decoded_rfc793 whole
  have doff : (TCPHeader.decoded bytes).doff.toNat = 5 :=
    (doff_decoded bytes).trans canonical.offset
  simp only [TCPHeader.wire, TCPHeader.front, TCPHeader.back, List.append_assoc,
    fields.sport, fields.dport, fields.seqno, fields.ackno, canonical.doff whole,
    canonical.flags whole, fields.win, fields.cksum, fields.uptr, doff]
  simp only [Nat.reduceMul, Nat.reduceSub, List.replicate_zero, List.nil_append]
  repeat rw [TCPHeader.encode_octets (by omega)]
  repeat rw [slice_append (by omega)]
  exact List.drop_zero

theorem Canonical.checksum_eq (canonical : Canonical bytes) (whole : 20 ≤ bytes.length)
    {payload : Buffer} (behind : payload.str = bytes.drop 20)
    {datagramLayerChecksum : UInt32}
    (good : ((InternetChecksum.new datagramLayerChecksum).add bytes).value = 0) :
    TCPSegment.checksum ⟨TCPHeader.decoded bytes, payload⟩ datagramLayerChecksum =
      (TCPHeader.decoded bytes).cksum := by
  have fields := TCPHeader.decoded_rfc793 whole
  have written : (TCPHeader.decoded bytes).cksum ≠ 0xffff := by
    intro ones
    exact canonical.checksum (fields.cksum ▸ congrArg UInt16.toNat ones)
  rw [← canonical.wire whole, TCPHeader.wire, List.append_assoc, List.append_assoc,
    ← behind] at good
  rw [TCPSegment.checksum, TCPHeader.wire, List.append_assoc, List.append_assoc]
  exact InternetChecksum.patch_unique _ _ _ (by rw [TCPHeader.length_front]; rfl) written good

end

/-- Writing out an accepted canonical segment gives back its bytes. -/
theorem serialize_parse {segment parsed : TCPSegment} {buffer : Buffer}
    {datagramLayerChecksum : UInt32}
    (accepted : segment.parse buffer datagramLayerChecksum = .ok (.noError, parsed))
    (canonical : Canonical buffer.str) :
    ∃ list, parsed.serialize datagramLayerChecksum = .ok list ∧
      list.concatenate = buffer.str := by
  have good : ((InternetChecksum.new datagramLayerChecksum).add buffer.str).value = 0 := by
    apply @value_of_accepted segment
    intro other
    rw [accepted]
    nofun
  obtain ⟨rest, reparsed, consumed⟩ := parse_goodChecksum segment good
  rw [accepted] at reparsed
  obtain ⟨noError, rfl⟩ := Prod.mk.inj (Except.ok.inj reparsed)
  rw [canonical.offset, show max 20 (4 * 5) = 20 from rfl] at consumed
  cases consumed with
  | short error _ =>
      rw [error] at noError
      cases noError
  | within _ whole remaining =>
      have minimal : 5 ≤ (TCPHeader.decoded buffer.str).doff.toNat := by
        rw [doff_decoded, canonical.offset]
      obtain ⟨list, written, concatenated⟩ := @serialize_eq
        ⟨TCPHeader.decoded buffer.str, rest.buffer⟩ minimal datagramLayerChecksum
      refine ⟨list, written, ?_⟩
      rw [concatenated, canonical.checksum_eq whole remaining good, remaining]
      exact canonical.wire whole

theorem serialize_parse_syn :
    ∃ parsed list,
      ({} : TCPSegment).parse (.ofString [0, 80, 0, 0, 0, 0, 0, 1, 0, 0, 0, 0, 0x50, 2, 0, 0,
        0xa8, 0xac, 0, 0, 7]) 0 = .ok (.noError, parsed) ∧
      parsed.serialize 0 = .ok list ∧
      list.concatenate = [0, 80, 0, 0, 0, 0, 0, 1, 0, 0, 0, 0, 0x50, 2, 0, 0,
        0xa8, 0xac, 0, 0, 7] := by
  have accepted : ({} : TCPSegment).parse (.ofString [0, 80, 0, 0, 0, 0, 0, 1, 0, 0, 0, 0,
    0x50, 2, 0, 0, 0xa8, 0xac, 0, 0, 7]) 0 = .ok (.noError, _) := rfl
  obtain ⟨list, written, concatenated⟩ := serialize_parse accepted (by decide)
  exact ⟨_, list, accepted, written, concatenated⟩

end TCPSegment

end Sponge
