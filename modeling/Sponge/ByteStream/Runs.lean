import Sponge.ByteStream
import Sponge.Data.Machine

namespace Sponge.ByteStream

/-! Whole runs of one stream, next to what its two users have seen of it. -/

inductive Op where
  | write (data : List Byte)
  | read (len : Nat)
  | peekOutput (len : Nat)
  | popOutput (len : Nat)
  | endInput
  | setError
  deriving DecidableEq, Repr

/-- A stream with the prefixes its writes accepted, the bytes taken out of it, and
whether `end_input` was called. -/
structure History where
  stream : ByteStream
  accepted : List Byte := []
  popped : List Byte := []
  ended : Bool := false
  deriving DecidableEq, Repr

/-- `peek_output` and `pop_output` are undefined beyond the buffer. -/
def Legal (history : History) : Op → Prop
  | .peekOutput len | .popOutput len => len ≤ history.stream.bufferSize
  | .write _ | .read _ | .endInput | .setError => True

instance (history : History) (op : Op) : Decidable (Legal history op) :=
  match op with
  | .peekOutput _ | .popOutput _ => inferInstanceAs (Decidable (_ ≤ _))
  | .write _ | .read _ | .endInput | .setError => .isTrue trivial

def History.next (history : History) : Op → History
  | .write data =>
      { history with
        stream := (history.stream.write data).1
        accepted := history.accepted ++ data.take (history.stream.write data).2 }
  | .read len =>
      { history with
        stream := (history.stream.read len).2
        popped := history.popped ++ (history.stream.read len).1 }
  | .peekOutput _ => history
  | .popOutput len =>
      { history with
        stream := history.stream.popOutput len
        popped := history.popped ++ history.stream.peekOutput len }
  | .endInput => { history with stream := history.stream.endInput, ended := true }
  | .setError => { history with stream := history.stream.setError }

def histories (capacity : Nat) : Machine History Op where
  init := { stream := new capacity }
  guard := Legal
  next := History.next

instance (capacity : Nat) (history : History) (op : Op) :
    Decidable ((histories capacity).guard history op) :=
  inferInstanceAs (Decidable (Legal history op))

structure Queued (capacity : Nat) (history : History) : Prop where
  valid : history.stream.Valid
  room : history.stream.bSize = capacity
  order : history.popped ++ history.stream.bts = history.accepted
  read : history.stream.readCount = history.popped.length
  flag : history.stream.endFlag = history.ended

theorem next_write (history : History) (data : List Byte) :
    history.next (.write data) =
      { history with
        stream :=
          { history.stream with
            bts := history.stream.bts ++ data.take history.stream.remainingCapacity
            writeCount := history.stream.writeCount +
              min history.stream.remainingCapacity data.length }
        accepted := history.accepted ++ data.take history.stream.remainingCapacity } := by
  simp only [History.next]
  rw [write_eq, ← List.take_take, List.take_length]

theorem next_popOutput (history : History) (len : Nat) :
    history.next (.popOutput len) =
      { history with
        stream :=
          { history.stream with
            bts := history.stream.bts.drop len
            readCount := history.stream.readCount + len }
        popped := history.popped ++ history.stream.bts.take len } := by
  simp only [History.next]
  rw [popOutput_eq, peekOutput]

theorem next_read (history : History) (len : Nat) :
    history.next (.read len) =
      history.next (.popOutput (min len history.stream.bufferSize)) := by
  have length : (if history.stream.bufferSize < len then history.stream.bufferSize
      else len) = min len history.stream.bufferSize := by
    split <;> omega
  simp only [History.next, ByteStream.read, length]

theorem queued_new (capacity : Nat) : Queued capacity { stream := new capacity } :=
  ⟨valid_new capacity, rfl, rfl, rfl, rfl⟩

section

variable {capacity : Nat} {history : History}

theorem Queued.write (queued : Queued capacity history) (data : List Byte) :
    Queued capacity (history.next (.write data)) := by
  have valid := queued.valid.write data
  rw [write_eq] at valid
  rw [next_write]
  refine ⟨valid, queued.room, ?_, queued.read, queued.flag⟩
  rw [← queued.order, List.append_assoc]

theorem Queued.popOutput (queued : Queued capacity history) {len : Nat}
    (legal : len ≤ history.stream.bufferSize) :
    Queued capacity (history.next (.popOutput len)) := by
  have valid := queued.valid.popOutput legal
  rw [popOutput_eq] at valid
  rw [next_popOutput]
  refine ⟨valid, queued.room, ?_, ?_, queued.flag⟩
  · rw [List.append_assoc, List.take_append_drop]
    exact queued.order
  · rw [List.length_append, List.length_take_of_le legal, ← queued.read]

theorem Queued.next (queued : Queued capacity history) {op : Op}
    (legal : Legal history op) : Queued capacity (history.next op) := by
  cases op with
  | write data => exact queued.write data
  | read len =>
      rw [next_read]
      exact queued.popOutput (Nat.min_le_right _ _)
  | peekOutput len => exact queued
  | popOutput len => exact queued.popOutput legal
  | endInput => exact ⟨queued.valid.endInput, queued.room, queued.order, queued.read, rfl⟩
  | setError =>
      exact ⟨⟨queued.valid.bounded, queued.valid.counted⟩, queued.room, queued.order,
        queued.read, queued.flag⟩

theorem histories_queued (reached : (histories capacity).Reachable history) :
    Queued capacity history := by
  refine Machine.invariant (Queued capacity) ?_ ?_ reached
  · exact queued_new capacity
  · intro history op legal queued
    exact queued.next legal

theorem Queued.buffered (queued : Queued capacity history) :
    history.stream.bts = history.accepted.drop history.popped.length := by
  rw [← queued.order, List.drop_left]

theorem Queued.eof_iff (queued : Queued capacity history) :
    history.stream.eof = true ↔ history.ended = true ∧ history.popped = history.accepted := by
  unfold eof bufferEmpty
  rw [Bool.and_eq_true_iff, queued.flag, List.isEmpty_iff, ← queued.order,
    List.self_eq_append_right]

end

/-! ## A bounded queue -/

/-- What the two users of a stream of this capacity can rely on. -/
structure BoundedFifo (capacity : Nat) (history : History) : Prop where
  order : history.popped ++ history.stream.bts = history.accepted
  accepts : ∀ data, (history.stream.write data).2 =
    min data.length (capacity - history.stream.bufferSize)
  appends : ∀ data, (history.stream.write data).1.bts =
    history.stream.bts ++ data.take (history.stream.write data).2
  counted : history.stream.bytesWritten - history.stream.bytesRead =
    history.stream.bufferSize ∧ history.stream.bytesRead ≤ history.stream.bytesWritten
  written : history.stream.bytesWritten = history.accepted.length
  read : history.stream.bytesRead = history.popped.length
  bounded : history.stream.bufferSize ≤ capacity
  remaining : history.stream.remainingCapacity = capacity - history.stream.bufferSize
  reads : ∀ len, (history.stream.read len).1 =
    (history.accepted.drop history.popped.length).take (min len history.stream.bufferSize)
  length_reads : ∀ len, (history.stream.read len).1.length =
    min len history.stream.bufferSize
  peeks : ∀ len, len ≤ history.stream.bufferSize → history.stream.peekOutput len =
    (history.accepted.drop history.popped.length).take len
  eof : history.stream.eof = true ↔
    history.ended = true ∧ history.popped = history.accepted

theorem stream_bounded_fifo (capacity : UInt64) {history : History}
    (reached : (histories capacity.toNat).Reachable history) :
    BoundedFifo capacity.toNat history := by
  have queued := histories_queued reached
  have bounded := queued.valid.bounded
  have counted := queued.valid.counted
  have room := queued.room
  have remaining : history.stream.remainingCapacity =
      capacity.toNat - history.stream.bts.length := by
    rw [queued.valid.remainingCapacity_eq (room ▸ capacity.toNat_lt), room]
  have length := congrArg List.length queued.order
  rw [List.length_append, ← queued.read] at length
  constructor
  case order => exact queued.order
  case accepts =>
    intro data
    rw [write_eq, remaining]
    exact Nat.min_comm _ _
  case appends =>
    intro data
    rw [write_eq, ← List.take_take, List.take_length]
  case counted =>
    unfold bytesWritten bytesRead bufferSize
    omega
  case written =>
    unfold bytesWritten
    omega
  case read => exact queued.read
  case bounded =>
    unfold bufferSize
    omega
  case remaining => exact remaining
  case reads =>
    intro len
    rw [read_eq, ← queued.buffered, bufferSize, ← List.take_take, List.take_length]
  case length_reads =>
    intro len
    rw [read_eq, List.length_take, bufferSize]
  case peeks =>
    intro len _
    rw [← queued.buffered, peekOutput]
  case eof => exact queued.eof_iff

theorem stream_bounded_fifo_cut :
    BoundedFifo 2 ((histories 2).run (histories 2).init [.write [97, 98, 99], .read 1,
      .write [100], .endInput, .peekOutput 2, .popOutput 2]) :=
  stream_bounded_fifo 2 (Machine.reachable_run _ _ (by decide))

/-! ## After the end -/

def Quiet (history : History) : Op → Prop
  | .write data =>
      history.ended = true → data = [] ∨ history.stream.remainingCapacity = 0
  | .read _ | .peekOutput _ | .popOutput _ | .endInput | .setError => True

instance (history : History) (op : Op) : Decidable (Quiet history op) :=
  match op with
  | .write _ => inferInstanceAs (Decidable (_ → _ ∨ _))
  | .read _ | .peekOutput _ | .popOutput _ | .endInput | .setError => .isTrue trivial

theorem write_rejects_iff (stream : ByteStream) (data : List Byte) :
    stream.write data = (stream, 0) ↔ data = [] ∨ stream.remainingCapacity = 0 := by
  constructor
  · intro rejected
    have nothing : min stream.remainingCapacity data.length = 0 := by
      rw [write_eq] at rejected
      exact congrArg Prod.snd rejected
    rcases Nat.min_eq_zero_iff.mp nothing with full | empty
    · exact Or.inr full
    · exact Or.inl (List.length_eq_zero_iff.mp empty)
  · intro idle
    rw [write_eq]
    rcases idle with rfl | full
    · simp
    · simp [full]

structure Closed (written : Nat) (eof : Bool) (history : History) : Prop where
  ended : history.ended = true
  flag : history.stream.endFlag = true
  written : history.stream.bytesWritten = written
  eof : eof = true → history.stream.eof = true

theorem Closed.next {written : Nat} {eof : Bool} {history : History} {op : Op}
    (closed : Closed written eof history) (legal : Legal history op)
    (quiet : Quiet history op) : Closed written eof (history.next op) := by
  have empty : eof = true → history.stream.bts = [] := fun finished =>
    List.isEmpty_iff.mp (Bool.and_eq_true_iff.mp (closed.eof finished)).2
  have pops : ∀ len, Closed written eof (history.next (.popOutput len)) := by
    intro len
    rw [next_popOutput]
    refine ⟨closed.ended, closed.flag, closed.written, ?_⟩
    intro finished
    simp [ByteStream.eof, bufferEmpty, closed.flag, empty finished]
  cases op with
  | write data =>
      have rejected := (write_rejects_iff history.stream data).mpr (quiet closed.ended)
      simp only [History.next, rejected]
      exact ⟨closed.ended, closed.flag, closed.written, closed.eof⟩
  | read len =>
      rw [next_read]
      exact pops _
  | peekOutput len => exact closed
  | popOutput len => exact pops len
  | endInput =>
      refine ⟨rfl, rfl, closed.written, ?_⟩
      intro finished
      exact Bool.and_eq_true_iff.mpr ⟨rfl, List.isEmpty_iff.mpr (empty finished)⟩
  | setError => exact ⟨closed.ended, closed.flag, closed.written, closed.eof⟩

/-- Once the input has ended, a run whose writes are quiet writes nothing, and a stream
that has reached its end stays there; a write is quiet exactly when it is rejected. -/
theorem ended_stream_stays_closed (capacity : UInt64) {history later : History}
    (reached : (histories capacity.toNat).Reachable history) (ended : history.ended = true)
    (onward : ((histories capacity.toNat).restrict Quiet).Reaches history later) :
    (∀ data, later.stream.write data = (later.stream, 0) ↔
      Quiet later (.write data)) ∧
    later.stream.bytesWritten = history.stream.bytesWritten ∧
    (history.stream.eof = true → later.stream.eof = true) := by
  have closed : Closed history.stream.bytesWritten history.stream.eof later := by
    induction onward with
    | refl =>
        exact ⟨ended, (histories_queued reached).flag.trans ended, rfl, id⟩
    | tail _ edge induction =>
        obtain ⟨op, ⟨legal, quiet⟩, rfl⟩ := edge
        exact induction.next legal quiet
  refine ⟨?_, closed.written, closed.eof⟩
  intro data
  rw [write_rejects_iff]
  exact ⟨fun idle _ => idle, fun quiet => quiet closed.ended⟩

theorem ended_stream_stays_closed_full :
    let history := (histories 1).run (histories 1).init [.write [97], .endInput]
    let later := (histories 1).run history [.write [98], .read 1]
    later.stream.bytesWritten = history.stream.bytesWritten ∧ later.stream.eof = true := by
  intro history later
  have reached : (histories 1).Reachable history := Machine.reachable_run _ _ (by decide)
  have onward : ((histories 1).restrict Quiet).Reaches history later :=
    Machine.reaches_run _ Relation.ReflTransGen.refl _ (by decide)
  exact ⟨(ended_stream_stays_closed 1 reached (by decide) onward).2.1, by decide⟩

/-- An ended empty stream takes another byte and is at its end no longer. -/
theorem write_after_end_accepted :
    ∃ history, (histories 1).Reachable history ∧ history.ended = true ∧
      history.stream.eof = true ∧ (history.stream.write [97]).2 = 1 ∧
      (history.stream.write [97]).1.bytesWritten ≠ history.stream.bytesWritten ∧
      (history.stream.write [97]).1.eof = false :=
  ⟨_, Machine.reachable_run _ [.endInput] (by decide), by decide⟩

end Sponge.ByteStream
