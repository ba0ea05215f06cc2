import Sponge.Util.Parser

namespace Sponge

/-! Sequences of typed integers through `NetUnparser` and `NetParser`, and what a parser
does once its input has run out. -/

inductive Width where
  | u8
  | u16
  | u32
  deriving DecidableEq, Repr

def Width.size : Width → Nat
  | .u8 => 1
  | .u16 => 2
  | .u32 => 4

inductive Item where
  | u8 (val : UInt8)
  | u16 (val : UInt16)
  | u32 (val : UInt32)
  deriving DecidableEq, Repr

namespace Item

def width : Item → Width
  | .u8 _ => .u8
  | .u16 _ => .u16
  | .u32 _ => .u32

def toNat : Item → Nat
  | .u8 val => val.toNat
  | .u16 val => val.toNat
  | .u32 val => val.toNat

def zero : Width → Item
  | .u8 => .u8 0
  | .u16 => .u16 0
  | .u32 => .u32 0

/-- The item of a width with this value, which is cut to the width. -/
def ofNat : Width → Nat → Item
  | .u8, value => .u8 (UInt8.ofNat value)
  | .u16, value => .u16 (UInt16.ofNat value)
  | .u32, value => .u32 (UInt32.ofNat value)

theorem ofNat_toNat (item : Item) :
    ofNat item.width (item.toNat % 256 ^ item.width.size) = item := by
  cases item with
  | u8 val =>
      have bound : val.toNat < 256 ^ 1 := val.toNat_lt
      simp only [width, toNat, Width.size, ofNat, Nat.mod_eq_of_lt bound, UInt8.ofNat_toNat]
  | u16 val =>
      have bound : val.toNat < 256 ^ 2 := val.toNat_lt
      simp only [width, toNat, Width.size, ofNat, Nat.mod_eq_of_lt bound, UInt16.ofNat_toNat]
  | u32 val =>
      have bound : val.toNat < 256 ^ 4 := val.toNat_lt
      simp only [width, toNat, Width.size, ofNat, Nat.mod_eq_of_lt bound, UInt32.ofNat_toNat]

end Item

namespace NetUnparser

def put (s : List Byte) : Item → List Byte
  | .u8 val => u8 s val
  | .u16 val => u16 s val
  | .u32 val => u32 s val

theorem put_eq (s : List Byte) (item : Item) :
    put s item = s ++ BigEndian.encode item.width.size item.toNat := by
  cases item <;> exact unparseInt_eq _ _ _

theorem foldl_put (s : List Byte) (items : List Item) :
    items.foldl put s =
      s ++ items.flatMap fun item => BigEndian.encode item.width.size item.toNat := by
  have appends : put = fun s item => s ++ BigEndian.encode item.width.size item.toNat := by
    funext s item
    exact put_eq s item
  rw [appends]
  exact List.foldl_append_eq_append

end NetUnparser

namespace NetParser

def get : Width → Parsing Item
  | .u8 => do return .u8 (← u8)
  | .u16 => do return .u16 (← u16)
  | .u32 => do return .u32 (← u32)

def getAll : List Width → Parsing (List Item)
  | [] => pure []
  | width :: rest => do
      let item ← get width
      return item :: (← getAll rest)

theorem get_eq (width : Width) (parser : NetParser) :
    get width parser =
      (parseInt width.size parser).map fun read => (Item.ofNat width read.1, read.2) := by
  cases width with
  | u8 =>
      simp only [get, u8, bind, StateT.bind, Width.size]
      cases parseInt 1 parser <;> rfl
  | u16 =>
      simp only [get, u16, bind, StateT.bind, Width.size]
      cases parseInt 2 parser <;> rfl
  | u32 =>
      simp only [get, u32, bind, StateT.bind, Width.size]
      cases parseInt 4 parser <;> rfl

theorem consumed_clear {parser : NetParser} (clear : parser.error = .noError) :
    Consumed parser.buffer.str 0 parser :=
  .within clear (Nat.zero_le _) rfl

theorem get_encode (item : Item) {parser : NetParser} (clear : parser.error = .noError)
    {back : List Byte}
    (ahead : parser.buffer.str =
      BigEndian.encode item.width.size item.toNat ++ back) :
    ∃ rest, get item.width parser = .ok (item, rest) ∧ rest.error = .noError ∧
      rest.buffer.str = back := by
  obtain ⟨rest, read, consumed⟩ := parseInt_spec (consumed_clear clear) item.width.size
  rw [ahead, field_encode] at read
  have enough : item.width.size ≤ parser.buffer.str.length := by
    rw [ahead, List.length_append, BigEndian.length_encode]
    omega
  refine ⟨rest, ?_, ?_⟩
  · rw [get_eq, read]
    simp only [Except.map, Item.ofNat_toNat]
  · cases consumed with
    | within noError _ remaining =>
        refine ⟨noError, ?_⟩
        rw [remaining, ahead, Nat.zero_add]
        exact List.drop_left' (BigEndian.length_encode _ _)
    | short _ lacking => omega

theorem getAll_encode (items : List Item) {parser : NetParser}
    (clear : parser.error = .noError) {back : List Byte}
    (ahead : parser.buffer.str =
      (items.flatMap fun item => BigEndian.encode item.width.size item.toNat) ++ back) :
    ∃ rest, getAll (items.map Item.width) parser = .ok (items, rest) ∧
      rest.error = .noError ∧ rest.buffer.str = back := by
  induction items generalizing parser with
  | nil => exact ⟨parser, rfl, clear, ahead⟩
  | cons item items induction =>
      rw [List.flatMap_cons, List.append_assoc] at ahead
      obtain ⟨middle, first, clear, ahead⟩ := get_encode item clear ahead
      obtain ⟨rest, others, clear, remaining⟩ := induction clear ahead
      refine ⟨rest, ?_, clear, remaining⟩
      simp only [List.map_cons, getAll, bind, StateT.bind, Except.bind, first, others]
      rfl

/-! ## Any sequence of calls -/

inductive Call where
  | read (width : Width)
  | removePrefix (n : Nat)
  deriving DecidableEq, Repr

def Call.size : Call → Nat
  | .read width => width.size
  | .removePrefix n => n

def perform : Call → Parsing (Option Item)
  | .read width => do return some (← get width)
  | .removePrefix n => do
      NetParser.removePrefix n
      return none

/-- What a call returns after an error: zero, if it returns anything. -/
def Call.failed : Call → Option Item
  | .read width => some (.zero width)
  | .removePrefix _ => none

def performAll : List Call → Parsing (List (Option Item))
  | [] => pure []
  | call :: rest => do
      let result ← perform call
      return result :: (← performAll rest)

def asked (calls : List Call) : Nat :=
  (calls.map Call.size).sum

section

variable {parser : NetParser}

theorem checkSize_short {n : Nat} (short : parser.buffer.str.length < n) :
    parser.checkSize n = { parser with error := .packetTooShort } :=
  if_pos short

theorem checkSize_stuck (stuck : parser.error = .packetTooShort) (n : Nat) :
    parser.checkSize n = parser := by
  unfold checkSize setError
  split
  · rw [← stuck]
  · rfl

theorem perform_flagged {call : Call}
    (flagged : (parser.checkSize call.size).error = .packetTooShort) :
    perform call parser = .ok (call.failed, parser.checkSize call.size) := by
  have hasError : (parser.checkSize call.size).hasError = true := by
    simp [NetParser.hasError, getError, flagged]
  cases call with
  | read width =>
      have nothing : parseInt width.size parser =
          .ok (0, parser.checkSize width.size) := by
        simp only [parseInt]
        exact if_pos hasError
      simp only [perform, bind, StateT.bind, get_eq, nothing]
      cases width <;> rfl
  | removePrefix n =>
      have nothing : NetParser.removePrefix n parser = .ok ((), parser.checkSize n) := by
        simp only [NetParser.removePrefix]
        exact if_pos hasError
      simp only [perform, bind, StateT.bind, nothing]
      rfl

theorem perform_fits {call : Call} (clear : parser.error = .noError)
    (fits : call.size ≤ parser.buffer.str.length) :
    ∃ result rest, perform call parser = .ok (result, rest) ∧ rest.error = .noError ∧
      rest.buffer.str = parser.buffer.str.drop call.size := by
  have consumed : ∃ result rest, perform call parser = .ok (result, rest) ∧
      Consumed parser.buffer.str (0 + call.size) rest := by
    cases call with
    | read width =>
        obtain ⟨rest, read, consumed⟩ := parseInt_spec (consumed_clear clear) width.size
        refine ⟨some (.ofNat width (field parser.buffer.str 0 width.size)), rest, ?_, consumed⟩
        simp only [perform, bind, StateT.bind, get_eq, read]
        rfl
    | removePrefix n =>
        obtain ⟨rest, removed, consumed⟩ := removePrefix_spec (consumed_clear clear) n
        refine ⟨none, rest, ?_, consumed⟩
        simp only [perform, bind, StateT.bind, removed]
        rfl
  obtain ⟨result, rest, performed, consumed⟩ := consumed
  rw [Nat.zero_add] at consumed
  cases consumed with
  | within noError _ remaining => exact ⟨result, rest, performed, noError, remaining⟩
  | short _ lacking => exact absurd fits (Nat.not_le.mpr lacking)

theorem performAll_cons {call : Call} {rest : List Call} {result : Option Item}
    {middle : NetParser} (first : perform call parser = .ok (result, middle)) :
    performAll (call :: rest) parser =
      (performAll rest middle).map fun others => (result :: others.1, others.2) := by
  simp only [performAll, bind, StateT.bind, Except.bind, first]
  cases performAll rest middle <;> rfl

theorem performAll_append {front back : List Call} {results : List (Option Item)}
    {middle : NetParser} (first : performAll front parser = .ok (results, middle)) :
    performAll (front ++ back) parser =
      (performAll back middle).map fun others => (results ++ others.1, others.2) := by
  induction front generalizing parser results with
  | nil =>
      cases first
      rw [List.nil_append]
      cases performAll back middle <;> rfl
  | cons call front induction =>
      cases called : perform call parser with
      | error exception =>
          simp only [performAll, bind, StateT.bind, Except.bind, called] at first
          cases first
      | ok outcome =>
          obtain ⟨result, next⟩ := outcome
          rw [performAll_cons called] at first
          cases rest : performAll front next with
          | error exception =>
              rw [rest] at first
              cases first
          | ok others =>
              obtain ⟨others, last⟩ := others
              rw [rest] at first
              cases first
              rw [List.cons_append, performAll_cons called, induction rest]
              cases performAll back last <;> rfl

theorem performAll_fits {calls : List Call} (clear : parser.error = .noError)
    (fits : asked calls ≤ parser.buffer.str.length) :
    ∃ results rest, performAll calls parser = .ok (results, rest) ∧
      rest.error = .noError ∧ rest.buffer.str = parser.buffer.str.drop (asked calls) := by
  induction calls generalizing parser with
  | nil => exact ⟨[], parser, rfl, clear, rfl⟩
  | cons call calls induction =>
      have total : asked (call :: calls) = call.size + asked calls := List.sum_cons
      obtain ⟨result, middle, first, clear, ahead⟩ :=
        @perform_fits parser call clear (by omega)
      obtain ⟨results, rest, others, clear, remaining⟩ :=
        induction clear (by rw [ahead, List.length_drop]; omega)
      refine ⟨result :: results, rest, ?_, clear, ?_⟩
      · rw [performAll_cons first, others]
        rfl
      · rw [remaining, ahead, List.drop_drop, total]

theorem performAll_stuck (stuck : parser.error = .packetTooShort) (calls : List Call) :
    performAll calls parser = .ok (calls.map Call.failed, parser) := by
  induction calls with
  | nil => rfl
  | cons call calls induction =>
      have same := checkSize_stuck stuck call.size
      have first : perform call parser = .ok (call.failed, parser) := by
        rw [perform_flagged (by rw [same, stuck]), same]
      rw [performAll_cons first, induction]
      rfl

/-- The calls that fit, the first one that does not, and all later ones. -/
theorem performAll_short {front : List Call} {call : Call} (later : List Call)
    (clear : parser.error = .noError) (fits : asked front ≤ parser.buffer.str.length)
    (short : parser.buffer.str.length < asked front + call.size) :
    ∃ results before, performAll front parser = .ok (results, before) ∧
      before.error = .noError ∧
      before.buffer.str = parser.buffer.str.drop (asked front) ∧
      performAll (front ++ call :: later) parser =
        .ok (results ++ call.failed :: later.map Call.failed,
          { before with error := .packetTooShort }) := by
  obtain ⟨results, before, performed, noError, remaining⟩ := performAll_fits clear fits
  refine ⟨results, before, performed, noError, remaining, ?_⟩
  have lacking : before.buffer.str.length < call.size := by
    rw [remaining, List.length_drop]
    omega
  have checked := checkSize_short lacking
  have failed := perform_flagged (congrArg NetParser.error checked)
  rw [performAll_append performed, performAll_cons failed, checked, performAll_stuck rfl]
  rfl

theorem exists_first_short (calls : List Call) (room : Nat) :
    asked calls ≤ room ∨ ∃ front call later, calls = front ++ call :: later ∧
      asked front ≤ room ∧ room < asked front + call.size := by
  induction calls generalizing room with
  | nil => exact Or.inl (Nat.zero_le _)
  | cons call calls induction =>
      by_cases fits : call.size ≤ room
      · rcases induction (room - call.size) with
          all | ⟨front, short, later, rfl, inside, beyond⟩
        · left
          change call.size + asked calls ≤ room
          omega
        · refine Or.inr ⟨call :: front, short, later, rfl, ?_, ?_⟩
          · change call.size + asked front ≤ room
            omega
          · change room < call.size + asked front + short.size
            omega
      · exact Or.inr ⟨[], call, calls, rfl, Nat.zero_le _, by simpa [asked] using fits⟩

end

/-- Typed integers come back as they were written, with the rest of the input left in the
buffer. A parser never throws; the first call that asks for too much sets the error, and
from then on reads return zero and the parser does not change. -/
theorem codec_round_trip_sticky :
    (∀ (items : List Item) (r : List Byte), ∃ rest,
      getAll (items.map Item.width)
        { buffer := .ofString (items.foldl NetUnparser.put [] ++ r) } = .ok (items, rest) ∧
      rest.getError = .noError ∧ rest.buffer.str = r) ∧
    (∀ (buffer : Buffer) (front : List Call) (call : Call) (later : List Call),
      asked front ≤ buffer.str.length → buffer.str.length < asked front + call.size →
      ∃ results before, performAll front { buffer := buffer } = .ok (results, before) ∧
        before.getError = .noError ∧ before.buffer.str = buffer.str.drop (asked front) ∧
        performAll (front ++ call :: later) { buffer := buffer } =
          .ok (results ++ call.failed :: later.map Call.failed,
            { before with error := .packetTooShort })) ∧
    (∀ (buffer : Buffer) (calls : List Call), ∃ results rest,
      performAll calls { buffer := buffer } = .ok (results, rest) ∧
      (rest.getError = .noError ↔ asked calls ≤ buffer.str.length)) := by
  refine ⟨?_, ?_, ?_⟩
  · intro items r
    refine getAll_encode items rfl ?_
    rw [Buffer.str_ofString, NetUnparser.foldl_put, List.nil_append]
  · intro buffer front call later fits short
    exact performAll_short later rfl fits short
  · intro buffer calls
    rcases exists_first_short calls buffer.str.length with
      fits | ⟨front, call, later, rfl, fits, short⟩
    · obtain ⟨results, rest, performed, clear, _⟩ :=
        @performAll_fits { buffer := buffer } calls rfl fits
      exact ⟨results, rest, performed, fun _ => fits, fun _ => clear⟩
    · obtain ⟨results, before, _, _, _, whole⟩ :=
        @performAll_short { buffer := buffer } front call later rfl fits short
      refine ⟨_, _, whole, nofun, ?_⟩
      intro enough
      have total : asked (front ++ call :: later) =
          asked front + (call.size + asked later) := by
        simp [asked]
      omega

theorem codec_round_trip_sticky_three :
    ∃ results before, performAll [.read .u16] { buffer := .ofString [1, 2, 3] } =
        .ok (results, before) ∧
      before.getError = .noError ∧ before.buffer.str = [3] ∧
      performAll [.read .u16, .read .u32, .read .u8, .removePrefix 1]
          { buffer := .ofString [1, 2, 3] } =
        .ok (results ++ [some (.u32 0), some (.u8 0), none],
          { before with error := .packetTooShort }) :=
  codec_round_trip_sticky.2.1 (.ofString [1, 2, 3]) [.read .u16] (.read .u32)
    [.read .u8, .removePrefix 1] (by decide) (by decide)

end NetParser

end Sponge
