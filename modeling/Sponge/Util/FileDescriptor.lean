import Mathlib.Data.List.GetD
import Sponge.Util.Buffer

namespace Sponge

structure SyscallResult where
  value : Int
  errno : Int
  deriving DecidableEq, Repr

inductive SystemException where
  | unixError (attempt : String) (errno : Int)
  | thrown (exception : CppException)
  deriving DecidableEq, Repr

/-- `SystemCall` takes and returns an `int`, so a longer return value is truncated before
it is looked at. -/
def systemCall (attempt : String) (result : SyscallResult) (errnoMask : Int) :
    Except SystemException Int :=
  let returnValue := SizeT.toInt32 result.value
  if 0 ≤ returnValue ∨ result.errno = errnoMask then .ok returnValue
  else .error (.unixError attempt result.errno)

theorem systemCall_of_small {count : Nat} (small : count < 2 ^ 31) (attempt : String)
    (errno errnoMask : Int) : systemCall attempt ⟨count, errno⟩ errnoMask = .ok (count : Int) := by
  rw [systemCall, SizeT.toInt32_of_lt small]
  exact if_pos (Or.inl (Int.natCast_nonneg count))

structure FileDescriptor where
  fd : Int
  eof : Bool := false
  closed : Bool := false
  readCount : UInt32 := 0
  writeCount : UInt32 := 0
  deriving DecidableEq, Repr

namespace FileDescriptor

def registerWrite (descriptor : FileDescriptor) : FileDescriptor :=
  { descriptor with writeCount := descriptor.writeCount + 1 }

structure Chunk where
  offered : List Byte
  count : Nat
  deriving DecidableEq, Repr

/-- The state of `write` between two turns of its loop, with the calls made so far. -/
structure Writing where
  descriptor : FileDescriptor
  buffer : BufferViewList
  totalBytesWritten : Nat := 0
  chunks : List Chunk := []
  deriving DecidableEq, Repr

def bytesWritten (writing : Writing) (answer : SyscallResult) :
    Except SystemException Int := do
  let bytesWritten ← systemCall "writev" answer 0
  if bytesWritten = 0 ∧ writing.buffer.size ≠ 0 then
    .error (.thrown (.runtimeError "write returned 0 given non-empty input buffer"))
  else if SizeT.toSigned writing.buffer.size < bytesWritten then
    .error (.thrown (.runtimeError "write wrote more than length of input buffer"))
  else return bytesWritten

def Writing.registerWrite (writing : Writing) : Writing :=
  { writing with descriptor := writing.descriptor.registerWrite }

/-- The rest of the turn, with the write registered already. -/
def removeWritten (writing : Writing) (answer : SyscallResult) (bytesWritten : Int) :
    Except SystemException Writing := do
  let iovecs := writing.buffer.asIovecs
  let buffer ← (writing.buffer.removePrefix (SizeT.ofInt bytesWritten)).mapError .thrown
  return {
    writing with
    buffer := buffer
    totalBytesWritten := SizeT.add writing.totalBytesWritten (SizeT.ofInt bytesWritten)
    chunks := writing.chunks ++ [⟨iovecs.flatten, answer.value.toNat⟩] }

def writeOnce (writing : Writing) (answer : SyscallResult) :
    Except SystemException Writing := do
  let bytesWritten ← bytesWritten writing answer
  removeWritten writing.registerWrite answer bytesWritten

/-- The loop of `write` from the call with number `call` on; `none` when the fuel runs
out first. -/
def writeLoop (writev : Nat → SyscallResult) (writeAll : Bool) :
    (fuel call : Nat) → Writing → Option (Except SystemException Writing)
  | 0, _, _ => none
  | fuel + 1, call, writing =>
      match writeOnce writing (writev call) with
      | .error exception => some (.error exception)
      | .ok next =>
          if writeAll ∧ next.buffer.size ≠ 0 then
            writeLoop writev writeAll fuel (call + 1) next
          else some (.ok next)

def write (descriptor : FileDescriptor) (buffer : BufferViewList) (writeAll : Bool)
    (writev : Nat → SyscallResult) (fuel : Nat) : Option (Except SystemException Writing) :=
  writeLoop writev writeAll fuel 0 { descriptor := descriptor, buffer := buffer }

/-! ## What the kernel has taken -/

def taken (chunks : List Chunk) : List Byte :=
  chunks.flatMap fun chunk => chunk.offered.take chunk.count

def counted (chunks : List Chunk) : Nat :=
  (chunks.map Chunk.count).sum

/-- Every call after the first `start` bytes shows the kernel exactly what it has not
taken yet: nothing is left out and nothing is shown again. -/
def InOrder (bytes : List Byte) : (start : Nat) → List Chunk → Prop
  | _, [] => True
  | start, chunk :: rest =>
      chunk.offered = bytes.drop start ∧ InOrder bytes (start + chunk.count) rest

theorem taken_of_inOrder {bytes : List Byte} {start : Nat} {chunks : List Chunk}
    (inOrder : InOrder bytes start chunks) :
    taken chunks = (bytes.drop start).take (counted chunks) := by
  induction chunks generalizing start with
  | nil => simp [taken, counted]
  | cons chunk rest induction =>
      obtain ⟨offered, later⟩ := inOrder
      have others := induction later
      rw [← List.drop_drop] at others
      change chunk.offered.take chunk.count ++ taken rest =
        (bytes.drop start).take (chunk.count + counted rest)
      rw [others, offered, List.take_add]

theorem counted_append (front back : List Chunk) :
    counted (front ++ back) = counted front + counted back := by
  simp [counted]

theorem inOrder_append {bytes : List Byte} {start : Nat} {front back : List Chunk} :
    InOrder bytes start (front ++ back) ↔
      InOrder bytes start front ∧ InOrder bytes (start + counted front) back := by
  induction front generalizing start with
  | nil => simp [InOrder, counted]
  | cons chunk rest induction =>
      simp only [List.cons_append, InOrder, induction, counted, List.map_cons, List.sum_cons,
        and_assoc, Nat.add_assoc]

/-! ## One turn of the loop -/

section

variable {writing next : Writing} {answer : SyscallResult}

theorem bytesWritten_eq {count : Int} (returned : systemCall "writev" answer 0 = .ok count)
    (moved : ¬(count = 0 ∧ writing.buffer.size ≠ 0))
    (inside : ¬SizeT.toSigned writing.buffer.size < count) :
    bytesWritten writing answer = .ok count := by
  unfold bytesWritten
  simp only [returned, bind, Except.bind]
  rw [if_neg moved, if_neg inside]
  rfl

theorem bytesWritten_ok {count : Int} (accepted : bytesWritten writing answer = .ok count) :
    count = SizeT.toInt32 answer.value ∧ count ≤ SizeT.toSigned writing.buffer.size ∧
      (0 ≤ count ∨ answer.errno = 0) := by
  unfold bytesWritten systemCall at accepted
  simp only [bind, Except.bind] at accepted
  split at accepted
  next => cases accepted
  next value returned =>
    split at returned
    next good =>
      cases returned
      split at accepted
      next => cases accepted
      next =>
        split at accepted
        next => cases accepted
        next inside =>
          cases accepted
          exact ⟨rfl, Int.not_lt.mp inside, good⟩
    next => cases returned

theorem removeWritten_eq {count : Int} {rest : BufferViewList}
    (removed : writing.buffer.removePrefix (SizeT.ofInt count) = .ok rest) :
    removeWritten writing answer count = .ok {
      writing with
      buffer := rest
      totalBytesWritten := SizeT.add writing.totalBytesWritten (SizeT.ofInt count)
      chunks := writing.chunks ++ [⟨writing.buffer.bytes, answer.value.toNat⟩] } := by
  unfold removeWritten
  rw [removed]
  rfl

theorem removeWritten_ok {count : Int} (turned : removeWritten writing answer count = .ok next) :
    SizeT.ofInt count ≤ writing.buffer.bytes.length ∧
      next.descriptor = writing.descriptor ∧
      next.buffer.bytes = writing.buffer.bytes.drop (SizeT.ofInt count) ∧
      next.chunks = writing.chunks ++ [⟨writing.buffer.bytes, answer.value.toNat⟩] := by
  unfold removeWritten at turned
  generalize SizeT.ofInt count = n at *
  by_cases short : writing.buffer.bytes.length < n
  · rw [BufferViewList.removePrefix_of_lt short] at turned
    cases turned
  · obtain ⟨rest, removed, remaining⟩ :=
      BufferViewList.removePrefix_of_le (Nat.not_lt.mp short)
    rw [removed] at turned
    cases turned
    exact ⟨Nat.not_lt.mp short, rfl, remaining, rfl⟩

theorem writeOnce_eq {count : Int} (accepted : bytesWritten writing answer = .ok count) :
    writeOnce writing answer = removeWritten writing.registerWrite answer count := by
  unfold writeOnce
  rw [accepted]
  rfl

theorem writeOnce_error {exception : SystemException}
    (failed : systemCall "writev" answer 0 = .error exception) :
    writeOnce writing answer = .error exception := by
  unfold writeOnce bytesWritten
  rw [failed]
  rfl

theorem writeOnce_ok (turned : writeOnce writing answer = .ok next) :
    SizeT.toInt32 answer.value ≤ SizeT.toSigned writing.buffer.size ∧
      SizeT.ofInt (SizeT.toInt32 answer.value) ≤ writing.buffer.bytes.length ∧
      next.buffer.bytes =
        writing.buffer.bytes.drop (SizeT.ofInt (SizeT.toInt32 answer.value)) ∧
      next.chunks = writing.chunks ++ [⟨writing.buffer.bytes, answer.value.toNat⟩] := by
  unfold writeOnce at turned
  simp only [bind, Except.bind] at turned
  split at turned
  next => cases turned
  next count accepted =>
    obtain ⟨rfl, inside, _⟩ := bytesWritten_ok accepted
    obtain ⟨short, _, remaining, chunks⟩ := removeWritten_ok turned
    exact ⟨inside, short, remaining, chunks⟩

theorem bytesWritten_of_small {count : Nat} {errno : Int} (small : count < 2 ^ 31)
    (bound : writing.buffer.bytes.length < 2 ^ 63)
    (within : count ≤ writing.buffer.bytes.length)
    (nonzero : writing.buffer.bytes ≠ [] → 0 < count) :
    bytesWritten writing ⟨count, errno⟩ = .ok (count : Int) := by
  have size : writing.buffer.size = writing.buffer.bytes.length := by
    rw [BufferViewList.size_eq, Nat.mod_eq_of_lt (by omega)]
  have moved : ¬((count : Int) = 0 ∧ writing.buffer.size ≠ 0) := by
    rintro ⟨zero, something⟩
    rw [size] at something
    have positive := nonzero (List.length_pos_iff.mp (Nat.pos_of_ne_zero something))
    omega
  have inside : ¬SizeT.toSigned writing.buffer.size < (count : Int) := by
    rw [size, SizeT.toSigned_of_lt bound]
    omega
  exact bytesWritten_eq (systemCall_of_small small "writev" errno 0) moved inside

theorem removeWritten_of_small {count : Nat} {errno : Int} (small : count < 2 ^ 31)
    (within : count ≤ writing.buffer.bytes.length) :
    ∃ next, removeWritten writing ⟨count, errno⟩ count = .ok next ∧
      next.buffer.bytes = writing.buffer.bytes.drop count ∧
      next.descriptor = writing.descriptor ∧
      next.totalBytesWritten = SizeT.add writing.totalBytesWritten count ∧
      next.chunks = writing.chunks ++ [⟨writing.buffer.bytes, count⟩] := by
  obtain ⟨rest, removed, remaining⟩ := BufferViewList.removePrefix_of_le within
  have converted : SizeT.ofInt (count : Int) = count := SizeT.ofInt_natCast (by omega)
  exact ⟨_, removeWritten_eq (by rw [converted, removed]), remaining, rfl, by rw [converted], rfl⟩

theorem writeOnce_of_small {count : Nat} {errno : Int} (small : count < 2 ^ 31)
    (bound : writing.buffer.bytes.length < 2 ^ 63)
    (within : count ≤ writing.buffer.bytes.length)
    (nonzero : writing.buffer.bytes ≠ [] → 0 < count) :
    ∃ next, writeOnce writing ⟨count, errno⟩ = .ok next ∧
      next.buffer.bytes = writing.buffer.bytes.drop count ∧
      next.totalBytesWritten = SizeT.add writing.totalBytesWritten count ∧
      next.chunks = writing.chunks ++ [⟨writing.buffer.bytes, count⟩] := by
  obtain ⟨next, removed, remaining, _, total, chunks⟩ :=
    @removeWritten_of_small writing.registerWrite count errno small within
  refine ⟨next, ?_, remaining, total, chunks⟩
  rw [writeOnce_eq (bytesWritten_of_small small bound within nonzero)]
  exact removed

end

/-! ## Whole runs -/

def progress (results : Nat → Nat) : (calls : Nat) → Nat
  | 0 => 0
  | calls + 1 => progress results calls + results calls

/-- The answers of a kernel that takes a prefix of what it is shown, and something while
there is something. A count is an `ssize_t`. -/
structure ShortWrites (total : Nat) (results : Nat → Nat) : Prop where
  within : ∀ calls, progress results calls ≤ total
  nonzero : ∀ call, progress results call < total → 0 < results call
  fits : ∀ call, results call < 2 ^ 63

def answers (results : Nat → Nat) (errno : Nat → Int) (call : Nat) : SyscallResult :=
  ⟨results call, errno call⟩

def Delivers (descriptor : FileDescriptor) (buffer : BufferViewList)
    (writev : Nat → SyscallResult) : Prop :=
  ∃ fuel done, write descriptor buffer true writev fuel = some (.ok done) ∧
    taken done.chunks = buffer.bytes ∧ InOrder buffer.bytes 0 done.chunks ∧
    done.totalBytesWritten = buffer.size

structure SmallWrites (total : Nat) (results : Nat → Nat) : Prop where
  size : total < 2 ^ 63
  counts : ∀ call, progress results call < total → results call < 2 ^ 31

section

variable {results : Nat → Nat} {errno : Nat → Int} {bytes : List Byte}

theorem progress_mono {first second : Nat} (ordered : first ≤ second) :
    progress results first ≤ progress results second := by
  induction ordered with
  | refl => exact Nat.le_refl _
  | step _ induction => exact Nat.le_trans induction (Nat.le_add_right _ _)

structure Delivered (bytes : List Byte) (results : Nat → Nat) (call : Nat)
    (writing : Writing) : Prop where
  ahead : writing.buffer.bytes = bytes.drop (progress results call)
  total : writing.totalBytesWritten = progress results call
  counted : counted writing.chunks = progress results call
  inOrder : InOrder bytes 0 writing.chunks

theorem Delivered.turn {call : Nat} {writing : Writing}
    (delivered : Delivered bytes results call writing)
    (short : ShortWrites bytes.length results) (bound : bytes.length < 2 ^ 63)
    (small : results call < 2 ^ 31) :
    ∃ next, writeOnce writing (answers results errno call) = .ok next ∧
      Delivered bytes results (call + 1) next := by
  have within := short.within (call + 1)
  have length : writing.buffer.bytes.length = bytes.length - progress results call := by
    rw [delivered.ahead, List.length_drop]
  have step : progress results (call + 1) = progress results call + results call := rfl
  obtain ⟨next, turned, ahead, total, chunks⟩ :=
    @writeOnce_of_small writing (results call) (errno call) small (by omega) (by omega) (by
      intro something
      apply short.nonzero
      have left := List.length_pos_iff.mpr something
      omega)
  refine ⟨next, turned, ?_, ?_, ?_, ?_⟩
  · rw [ahead, delivered.ahead, List.drop_drop, step]
  · rw [total, delivered.total, SizeT.add_of_lt (by omega), step]
  · rw [chunks, counted_append, delivered.counted, step]
    rfl
  · rw [chunks, inOrder_append]
    refine ⟨delivered.inOrder, ?_, trivial⟩
    rw [Nat.zero_add, delivered.counted]
    exact delivered.ahead

theorem Delivered.finishes {call : Nat} {writing : Writing}
    (delivered : Delivered bytes results call writing)
    (short : ShortWrites bytes.length results)
    (small : SmallWrites bytes.length results) (pending : results call < 2 ^ 31) :
    ∃ fuel done last, writeLoop (answers results errno) true fuel call writing =
        some (.ok done) ∧
      Delivered bytes results last done ∧ progress results last = bytes.length := by
  -- Enough turns deliver what is left: each takes something off it.
  induction left : bytes.length - progress results call using Nat.strong_induction_on
    generalizing call writing with
  | _ left induction =>
      have within := short.within (call + 1)
      have step : progress results (call + 1) = progress results call + results call := rfl
      obtain ⟨next, turned, delivered⟩ :=
        @Delivered.turn _ errno _ _ _ delivered short small.size pending
      have length : next.buffer.bytes.length = bytes.length - progress results (call + 1) := by
        rw [delivered.ahead, List.length_drop]
      have size : next.buffer.size = next.buffer.bytes.length := by
        have bound := small.size
        rw [BufferViewList.size_eq, Nat.mod_eq_of_lt (by omega)]
      by_cases rest : progress results (call + 1) < bytes.length
      · have moved : 0 < results call := short.nonzero call (by omega)
        obtain ⟨fuel, done, last, ran, finished⟩ :=
          induction _ (by omega) delivered (small.counts _ rest) rfl
        refine ⟨fuel + 1, done, last, ?_, finished⟩
        rw [writeLoop, turned]
        exact (if_pos ⟨rfl, by omega⟩).trans ran
      · refine ⟨1, next, call + 1, ?_, delivered, by omega⟩
        rw [writeLoop, turned]
        exact if_neg fun again => again.2 (by omega)

theorem writeLoop_cases {writev : Nat → SyscallResult} {fuel call : Nat}
    {writing done : Writing}
    (finished : writeLoop writev true (fuel + 1) call writing = some (.ok done)) :
    ∃ next, writeOnce writing (writev call) = .ok next ∧
      (writeLoop writev true fuel (call + 1) next = some (.ok done) ∨
        next.buffer.size = 0 ∧ done = next) := by
  rw [writeLoop] at finished
  split at finished
  next => cases finished
  next next turned =>
    refine ⟨next, turned, ?_⟩
    split at finished
    next => exact Or.inl finished
    next stopped =>
      cases finished
      exact Or.inr ⟨by simpa using stopped, rfl⟩

theorem writeLoop_chunks {writev : Nat → SyscallResult} {fuel call : Nat}
    {writing done : Writing}
    (finished : writeLoop writev true fuel call writing = some (.ok done)) :
    ∃ later, done.chunks = writing.chunks ++
      ⟨writing.buffer.bytes, (writev call).value.toNat⟩ :: later := by
  induction fuel generalizing call writing with
  | zero => cases finished
  | succ fuel induction =>
      obtain ⟨next, turned, again⟩ := writeLoop_cases finished
      obtain ⟨_, _, _, chunks⟩ := writeOnce_ok turned
      rcases again with again | ⟨_, rfl⟩
      · obtain ⟨later, extended⟩ := induction again
        refine ⟨⟨next.buffer.bytes, (writev (call + 1)).value.toNat⟩ :: later, ?_⟩
        rw [extended, chunks, List.append_assoc]
        rfl
      · exact ⟨[], chunks⟩

theorem counted_turn {call : Nat} {writing next : Writing}
    (turned : writeOnce writing (answers results errno call) = .ok next)
    (count : counted writing.chunks = progress results call) :
    counted next.chunks = progress results (call + 1) := by
  obtain ⟨_, _, _, chunks⟩ := writeOnce_ok turned
  rw [chunks, counted_append, count]
  rfl

theorem exists_counted_eq {fuel call : Nat} {writing done : Writing}
    (finished : writeLoop (answers results errno) true fuel call writing = some (.ok done))
    (count : counted writing.chunks = progress results call) :
    ∃ last, counted done.chunks = progress results last := by
  induction fuel generalizing call writing with
  | zero => cases finished
  | succ fuel induction =>
      obtain ⟨next, turned, again⟩ := writeLoop_cases finished
      have counts := counted_turn turned count
      rcases again with again | ⟨_, rfl⟩
      · exact induction again counts
      · exact ⟨call + 1, counts⟩

/-- The buffer moves by the count after its conversion. If that is the count itself, then
the conversions have kept it. -/
theorem small_of_turn {call : Nat} {writing next : Writing} (fits : results call < 2 ^ 63)
    (turned : writeOnce writing (answers results errno call) = .ok next)
    (moved : next.buffer.bytes.length + results call = writing.buffer.bytes.length)
    (bound : next.buffer.bytes.length < 2 ^ 63) :
    writing.buffer.bytes.length < 2 ^ 63 ∧ results call < 2 ^ 31 := by
  obtain ⟨inside, removed, left, _⟩ := writeOnce_ok turned
  change SizeT.toInt32 (results call) ≤ _ at inside
  change SizeT.ofInt (SizeT.toInt32 (results call)) ≤ _ at removed
  change _ = List.drop (SizeT.ofInt (SizeT.toInt32 (results call))) _ at left
  have length := congrArg List.length left
  rw [List.length_drop] at length
  have small : results call < 2 ^ 31 := SizeT.lt_of_ofInt_toInt32 fits (by omega)
  refine ⟨?_, small⟩
  rw [SizeT.toInt32_of_lt small, BufferViewList.size_eq] at inside
  unfold SizeT.toSigned at inside
  omega

theorem small_of_finished (short : ShortWrites bytes.length results) {fuel call : Nat}
    {writing done : Writing}
    (finished : writeLoop (answers results errno) true fuel call writing = some (.ok done))
    (count : counted writing.chunks = progress results call)
    (inOrder : InOrder bytes 0 done.chunks) (all : counted done.chunks = bytes.length) :
    bytes.length - progress results call < 2 ^ 63 ∧
      ∀ later, call ≤ later → progress results later < bytes.length →
        results later < 2 ^ 31 := by
  -- The kernel moves by the count itself, and in a run in order the buffer moves along with it.
  have shown {call : Nat} {writing : Writing} {fuel : Nat}
      (finished : writeLoop (answers results errno) true fuel call writing = some (.ok done))
      (count : counted writing.chunks = progress results call) :
      writing.buffer.bytes = bytes.drop (progress results call) := by
    obtain ⟨later, extended⟩ := writeLoop_chunks finished
    rw [extended, inOrder_append, count, Nat.zero_add] at inOrder
    exact inOrder.2.1
  induction fuel generalizing call writing with
  | zero => cases finished
  | succ fuel induction =>
      have within := short.within (call + 1)
      have fits := short.fits call
      have step : progress results (call + 1) = progress results call + results call := rfl
      have ahead := congrArg List.length (shown finished count)
      rw [List.length_drop] at ahead
      obtain ⟨next, turned, again⟩ := writeLoop_cases finished
      have counts := counted_turn turned count
      rcases again with again | ⟨empty, rfl⟩
      · -- the next call shows what is left, so both have moved by the same count
        obtain ⟨bound, others⟩ := induction again counts
        have behind := congrArg List.length (shown again counts)
        rw [List.length_drop] at behind
        obtain ⟨size, small⟩ := small_of_turn fits turned (by omega) (by omega)
        refine ⟨by omega, ?_⟩
        intro later started pending
        rcases Nat.eq_or_lt_of_le started with rfl | started
        · exact small
        · exact others later started pending
      · -- the last call takes all that is left
        obtain ⟨_, _, left, _⟩ := writeOnce_ok turned
        have length := congrArg List.length left
        rw [List.length_drop] at length
        rw [BufferViewList.size_eq] at empty
        rw [counts] at all
        obtain ⟨size, small⟩ := small_of_turn fits turned (by omega) (by omega)
        refine ⟨by omega, ?_⟩
        intro later started pending
        rcases Nat.eq_or_lt_of_le started with rfl | started
        · exact small
        · have moved : progress results (call + 1) ≤ progress results later :=
            progress_mono started
          omega

end

/-- With `write_all`, everything is delivered exactly once, as long as no single `writev`
takes 2 ^ 31 bytes and the whole has a size that an `ssize_t` can hold. -/
theorem write_delivers_iff (descriptor : FileDescriptor) (buffer : BufferViewList)
    (results : Nat → Nat) (errno : Nat → Int)
    (short : ShortWrites buffer.bytes.length results) :
    Delivers descriptor buffer (answers results errno) ↔
      SmallWrites buffer.bytes.length results := by
  constructor
  · rintro ⟨fuel, done, finished, whole, inOrder, _⟩
    obtain ⟨last, count⟩ := exists_counted_eq finished rfl
    have all : counted done.chunks = buffer.bytes.length := by
      have within := short.within last
      have length := congrArg List.length whole
      rw [taken_of_inOrder inOrder, List.drop_zero, List.length_take] at length
      omega
    obtain ⟨size, counts⟩ := small_of_finished short finished rfl inOrder all
    exact ⟨size, fun call => counts call (Nat.zero_le call)⟩
  · intro small
    have first : results 0 < 2 ^ 31 := by
      by_cases empty : 0 < buffer.bytes.length
      · exact small.counts 0 empty
      · have within : 0 + results 0 ≤ buffer.bytes.length := short.within 1
        omega
    have start : Delivered buffer.bytes results 0
        { descriptor := descriptor, buffer := buffer } := ⟨rfl, rfl, rfl, trivial⟩
    obtain ⟨fuel, done, last, finished, delivered, all⟩ :=
      @Delivered.finishes results errno _ _ _ start short small first
    refine ⟨fuel, done, finished, ?_, delivered.inOrder, ?_⟩
    · rw [taken_of_inOrder delivered.inOrder, delivered.counted, all, List.drop_zero,
        List.take_length]
    · rw [delivered.total, all, BufferViewList.size_eq, Nat.mod_eq_of_lt]
      have bound := small.size
      omega

theorem shortWrites_of_counts {counts : List Nat}
    (bounds : ∀ count ∈ counts, 0 < count ∧ count < 2 ^ 63) :
    ShortWrites counts.sum (fun call => counts.getD call 0) := by
  have progresses (calls : Nat) :
      progress (fun call => counts.getD call 0) calls = (counts.take calls).sum := by
    induction calls with
    | zero => rfl
    | succ calls induction =>
        rw [progress, induction, List.take_add_one, List.sum_append,
          List.getD_eq_getElem?_getD]
        cases counts[calls]? <;> rfl
  have split (calls : Nat) : (counts.take calls).sum + (counts.drop calls).sum = counts.sum := by
    rw [← List.sum_append, List.take_append_drop]
  constructor
  case within =>
    intro calls
    rw [progresses, ← split calls]
    exact Nat.le_add_right _ _
  case nonzero =>
    intro call pending
    rw [progresses] at pending
    have inside : call < counts.length := by
      by_contra past
      rw [List.take_of_length_le (Nat.not_lt.mp past)] at pending
      exact absurd pending (Nat.lt_irrefl _)
    rw [List.getD_eq_getElem _ _ inside]
    exact (bounds _ (List.getElem_mem inside)).1
  case fits =>
    intro call
    by_cases inside : call < counts.length
    · rw [List.getD_eq_getElem _ _ inside]
      exact (bounds _ (List.getElem_mem inside)).2
    · rw [List.getD_eq_default _ _ (Nat.not_lt.mp inside)]
      exact Nat.two_pow_pos 63

theorem write_delivers_boundary :
    Delivers { fd := 1 } { views := [[1, 2], [], [3]] }
      (answers (fun call => [2, 1].getD call 0) fun _ => 0) := by
  have short := @shortWrites_of_counts [2, 1] (by decide)
  refine (write_delivers_iff _ { views := [[1, 2], [], [3]] } _ _ short).mpr ⟨by decide, ?_⟩
  intro call _
  match call with
  | 0 => decide
  | 1 => decide
  | _ + 2 => exact Nat.two_pow_pos 31

/-- The kernel takes 2 ^ 31 bytes at once. As an `int` that is negative, and the write
throws although everything was written. -/
theorem large_write_throws :
    let buffer : BufferViewList := { views := [List.replicate (2 ^ 31) 0] }
    let writev := answers (fun call => [2 ^ 31].getD call 0) fun _ => 4
    ShortWrites buffer.bytes.length (fun call => [2 ^ 31].getD call 0) ∧
      (∀ fuel, write { fd := 1 } buffer true writev (fuel + 1) =
        some (.error (.unixError "writev" 4))) ∧
      ¬Delivers { fd := 1 } buffer writev := by
  intro buffer writev
  have throws : ∀ fuel, write { fd := 1 } buffer true writev (fuel + 1) =
      some (.error (.unixError "writev" 4)) := by
    intro fuel
    have failed : systemCall "writev" (writev 0) 0 = .error (.unixError "writev" 4) := by decide
    rw [write, writeLoop, writeOnce_error failed]
  have length : buffer.bytes.length = 2 ^ 31 := by
    simp only [buffer, BufferViewList.bytes, List.flatten_cons, List.flatten_nil,
      List.append_nil, List.length_replicate]
  refine ⟨?_, throws, ?_⟩
  · rw [length]
    exact @shortWrites_of_counts [2 ^ 31] (by decide)
  · rintro ⟨fuel, done, finished, _⟩
    cases fuel with
    | zero => cases finished
    | succ fuel =>
        rw [throws] at finished
        cases finished

end FileDescriptor

end Sponge
