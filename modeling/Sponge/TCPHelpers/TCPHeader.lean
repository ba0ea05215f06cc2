import Sponge.Util.Parser
import Sponge.WrappingIntegers

namespace Sponge

structure TCPHeader where
  sport : UInt16 := 0
  dport : UInt16 := 0
  seqno : WrappingInt32 := ⟨0⟩
  ackno : WrappingInt32 := ⟨0⟩
  doff : UInt8 := 5
  urg : Bool := false
  ack : Bool := false
  psh : Bool := false
  rst : Bool := false
  syn : Bool := false
  fin : Bool := false
  win : UInt16 := 0
  cksum : UInt16 := 0
  uptr : UInt16 := 0
  deriving DecidableEq, Repr

namespace TCPHeader

def length : Nat := 20

/-- The reads at the start of `parse`: every field is overwritten, also after the
input has run out. -/
def parseFields : Parsing TCPHeader := do
  let sport ← NetParser.u16
  let dport ← NetParser.u16
  let seqno ← NetParser.u32
  let ackno ← NetParser.u32
  let doff := (← NetParser.u8) >>> 4
  let flB ← NetParser.u8
  let win ← NetParser.u16
  let cksum ← NetParser.u16
  let uptr ← NetParser.u16
  return {
      sport := sport
      dport := dport
      seqno := ⟨seqno⟩
      ackno := ⟨ackno⟩
      doff := doff
      urg := flB &&& 0b00100000 != 0
      ack := flB &&& 0b00010000 != 0
      psh := flB &&& 0b00001000 != 0
      rst := flB &&& 0b00000100 != 0
      syn := flB &&& 0b00000010 != 0
      fin := flB &&& 0b00000001 != 0
      win := win
      cksum := cksum
      uptr := uptr }

def parse : Parsing (ParseResult × TCPHeader) := do
  let header ← parseFields
  if header.doff < 5 then
    return (.headerTooShort, header)
  -- no underflow: the test above returned
  NetParser.removePrefix (header.doff.toNat * 4 - length)
  let p ← get
  if p.hasError then
    return (p.getError, header)
  return (.noError, header)

def flags (header : TCPHeader) : UInt8 :=
  (if header.urg then 0b00100000 else 0) ||| (if header.ack then 0b00010000 else 0) |||
    (if header.psh then 0b00001000 else 0) ||| (if header.rst then 0b00000100 else 0) |||
    (if header.syn then 0b00000010 else 0) ||| (if header.fin then 0b00000001 else 0)

/-- `std::string::resize`: cut, or fill up with zero bytes. -/
def resize (s : List Byte) (n : Nat) : List Byte :=
  s.take n ++ List.replicate (n - s.length) 0

def serialize (header : TCPHeader) : Except CppException (List Byte) :=
  if header.doff < 5 then
    .error (.runtimeError "TCP header too short")
  else
    let ret := NetUnparser.u16 [] header.sport
    let ret := NetUnparser.u16 ret header.dport
    let ret := NetUnparser.u32 ret header.seqno.rawValue
    let ret := NetUnparser.u32 ret header.ackno.rawValue
    let ret := NetUnparser.u8 ret (header.doff <<< 4)
    let ret := NetUnparser.u8 ret header.flags
    let ret := NetUnparser.u16 ret header.win
    let ret := NetUnparser.u16 ret header.cksum
    let ret := NetUnparser.u16 ret header.uptr
    .ok (resize ret (4 * header.doff.toNat))

/-! ## What the parser reads -/

open NetParser (field Consumed)

def decoded (input : List Byte) : TCPHeader :=
  let flB := UInt8.ofNat (field input 13 1)
  { sport := UInt16.ofNat (field input 0 2)
    dport := UInt16.ofNat (field input 2 2)
    seqno := ⟨UInt32.ofNat (field input 4 4)⟩
    ackno := ⟨UInt32.ofNat (field input 8 4)⟩
    doff := UInt8.ofNat (field input 12 1) >>> 4
    urg := flB &&& 0b00100000 != 0
    ack := flB &&& 0b00010000 != 0
    psh := flB &&& 0b00001000 != 0
    rst := flB &&& 0b00000100 != 0
    syn := flB &&& 0b00000010 != 0
    fin := flB &&& 0b00000001 != 0
    win := UInt16.ofNat (field input 14 2)
    cksum := UInt16.ofNat (field input 16 2)
    uptr := UInt16.ofNat (field input 18 2) }

theorem parseFields_spec (buffer : Buffer) :
    ∃ rest, parseFields { buffer := buffer } = .ok (decoded buffer.str, rest) ∧
      Consumed buffer.str 20 rest := by
  obtain ⟨p1, sport, c1⟩ := NetParser.u16_spec (NetParser.consumed_start buffer)
  obtain ⟨p2, dport, c2⟩ := NetParser.u16_spec c1
  obtain ⟨p3, seqno, c3⟩ := NetParser.u32_spec c2
  obtain ⟨p4, ackno, c4⟩ := NetParser.u32_spec c3
  obtain ⟨p5, doff, c5⟩ := NetParser.u8_spec c4
  obtain ⟨p6, flB, c6⟩ := NetParser.u8_spec c5
  obtain ⟨p7, win, c7⟩ := NetParser.u16_spec c6
  obtain ⟨p8, cksum, c8⟩ := NetParser.u16_spec c7
  obtain ⟨rest, uptr, done⟩ := NetParser.u16_spec c8
  refine ⟨rest, ?_, done⟩
  simp only [parseFields, bind, StateT.bind, Except.bind, sport, dport, seqno, ackno, doff,
    flB, win, cksum, uptr]
  rfl

/-- Parsing does not throw. It consumes the announced length or, if that is too
small, the fixed part. -/
theorem parse_spec (buffer : Buffer) :
    ∃ rest,
      parse { buffer := buffer } =
        .ok ((if (decoded buffer.str).doff < 5 then .headerTooShort else rest.getError,
          decoded buffer.str), rest) ∧
      Consumed buffer.str (max 20 (4 * (decoded buffer.str).doff.toNat)) rest := by
  obtain ⟨fixed, fields, consumed⟩ := parseFields_spec buffer
  generalize decoded buffer.str = header at fields ⊢
  by_cases small : header.doff < 5
  · have below : header.doff.toNat < 5 := small
    refine ⟨fixed, ?_, by rwa [Nat.max_eq_left (by omega)]⟩
    simp only [parse, bind, StateT.bind, Except.bind, fields, if_pos small]
    rfl
  · have above : 5 ≤ header.doff.toNat := Nat.not_lt.mp small
    obtain ⟨rest, removed, done⟩ :=
      NetParser.removePrefix_spec consumed (header.doff.toNat * 4 - length)
    refine ⟨rest, ?_, ?_⟩
    · simp only [parse, bind, StateT.bind, Except.bind, fields, if_neg small, removed]
      change (if rest.hasError then (pure (rest.getError, header) : Parsing _)
        else pure (.noError, header)) rest = _
      by_cases flagged : rest.hasError
      · rw [if_pos flagged]
        rfl
      · have clear : rest.getError = .noError := by simpa [NetParser.hasError] using flagged
        rw [if_neg flagged, clear]
        rfl
    · have total : max 20 (4 * header.doff.toNat) =
          20 + (header.doff.toNat * 4 - length) := by
        rw [length]
        omega
      rwa [total]

/-! ## What is on the wire -/

def front (header : TCPHeader) : List Byte :=
  BigEndian.encode 2 header.sport.toNat ++ (BigEndian.encode 2 header.dport.toNat ++
    (BigEndian.encode 4 header.seqno.rawValue.toNat ++
      (BigEndian.encode 4 header.ackno.rawValue.toNat ++
        (BigEndian.encode 1 (header.doff <<< 4).toNat ++
          (BigEndian.encode 1 header.flags.toNat ++ BigEndian.encode 2 header.win.toNat)))))

def back (header : TCPHeader) : List Byte :=
  BigEndian.encode 2 header.uptr.toNat ++
    List.replicate (4 * header.doff.toNat - 20) 0

def wire (header : TCPHeader) (cksum : UInt16) : List Byte :=
  header.front ++ (BigEndian.encode 2 cksum.toNat ++ header.back)

theorem length_front (header : TCPHeader) : header.front.length = 16 := by
  simp [front]

theorem length_wire {header : TCPHeader} (minimal : 5 ≤ header.doff) (cksum : UInt16) :
    (header.wire cksum).length = 4 * header.doff.toNat := by
  have enough : 5 ≤ header.doff.toNat := minimal
  simp [wire, back, length_front]
  omega

theorem serialize_eq {header : TCPHeader} (minimal : 5 ≤ header.doff) :
    header.serialize = .ok (header.wire header.cksum) := by
  have enough : 5 ≤ header.doff.toNat := minimal
  have proper : ¬header.doff < 5 := Nat.not_lt.mpr enough
  rw [serialize, if_neg proper]
  simp only [NetUnparser.u16, NetUnparser.u32, NetUnparser.u8, NetUnparser.unparseInt_eq,
    resize, List.nil_append, List.append_assoc]
  rw [List.take_of_length_le (by simp; omega)]
  simp [wire, front, back]

theorem doff_shift {doff : UInt8} (nibble : doff ≤ 15) : (doff <<< 4) >>> 4 = doff := by
  have bound : doff.toNat ≤ 15 := nibble
  apply UInt8.toNat_inj.mp
  simp [UInt8.toNat_shiftLeft, UInt8.toNat_shiftRight, Nat.shiftLeft_eq,
    Nat.shiftRight_eq_div_pow]
  omega

theorem ofNat_wire8 (value : UInt8) : UInt8.ofNat (value.toNat % 256 ^ 1) = value := by
  rw [Nat.mod_eq_of_lt (by exact value.toNat_lt), UInt8.ofNat_toNat]

theorem ofNat_wire16 (value : UInt16) : UInt16.ofNat (value.toNat % 256 ^ 2) = value := by
  rw [Nat.mod_eq_of_lt (by exact value.toNat_lt), UInt16.ofNat_toNat]

theorem ofNat_wire32 (value : UInt32) : UInt32.ofNat (value.toNat % 256 ^ 4) = value := by
  rw [Nat.mod_eq_of_lt (by exact value.toNat_lt), UInt32.ofNat_toNat]

theorem flags_bits (header : TCPHeader) :
    (header.flags &&& 32 != 0) = header.urg ∧ (header.flags &&& 16 != 0) = header.ack ∧
      (header.flags &&& 8 != 0) = header.psh ∧ (header.flags &&& 4 != 0) = header.rst ∧
      (header.flags &&& 2 != 0) = header.syn ∧ (header.flags &&& 1 != 0) = header.fin := by
  unfold flags
  generalize header.urg = urg
  generalize header.ack = ack
  generalize header.psh = psh
  generalize header.rst = rst
  generalize header.syn = syn
  generalize header.fin = fin
  revert urg ack psh rst syn fin
  decide

theorem decoded_wire {header : TCPHeader} (nibble : header.doff ≤ 15) (cksum : UInt16)
    (payload : List Byte) :
    decoded (header.wire cksum ++ payload) = { header with cksum := cksum } := by
  simp only [decoded, wire, front, back, List.append_assoc, NetParser.field_encode,
    NetParser.field_skip, Nat.le_refl, Nat.reduceLeDiff, Nat.reduceSub,
    ofNat_wire8, ofNat_wire16, ofNat_wire32, doff_shift nibble]
  obtain ⟨urg, ack, psh, rst, syn, fin⟩ := header.flags_bits
  rw [urg, ack, psh, rst, syn, fin]

end TCPHeader

end Sponge
