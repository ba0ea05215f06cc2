import Sponge.Data.SizeT

namespace Sponge

abbrev Byte := UInt8

/-- The in-memory byte stream. The two counters are unbounded here: a stream
would have to move 2^64 bytes to tell. -/
structure ByteStream where
  bts : List Byte := []
  bSize : Nat
  readCount : Nat := 0
  writeCount : Nat := 0
  endFlag : Bool := false
  error : Bool := false
  deriving DecidableEq, Repr

namespace ByteStream

def new (capacity : Nat) : ByteStream :=
  { bSize := capacity }

def bufferSize (stream : ByteStream) : Nat :=
  stream.bts.length

def bufferEmpty (stream : ByteStream) : Bool :=
  stream.bts.isEmpty

def remainingCapacity (stream : ByteStream) : Nat :=
  SizeT.sub stream.bSize stream.bts.length

def bytesWritten (stream : ByteStream) : Nat :=
  stream.writeCount

def bytesRead (stream : ByteStream) : Nat :=
  stream.readCount

def inputEnded (stream : ByteStream) : Bool :=
  stream.endFlag

def eof (stream : ByteStream) : Bool :=
  stream.endFlag && stream.bufferEmpty

def endInput (stream : ByteStream) : ByteStream :=
  { stream with endFlag := true }

def setError (stream : ByteStream) : ByteStream :=
  { stream with error := true }

/-- The loop of `write`: one `push_back` and one count a byte. -/
def pushBack (stream : ByteStream) : List Byte → ByteStream
  | [] => stream
  | byte :: rest =>
      pushBack
        { stream with
          bts := stream.bts ++ [byte]
          writeCount := stream.writeCount + 1 } rest

def write (stream : ByteStream) (data : List Byte) : ByteStream × Nat :=
  let rem := stream.remainingCapacity
  let len := if rem < data.length then rem else data.length
  (stream.pushBack (data.take len), len)

def peekOutput (stream : ByteStream) (len : Nat) : List Byte :=
  stream.bts.take len

/-- The loop of `pop_output`. Popping an empty deque is undefined in the source;
every caller keeps `len` within the buffer. -/
def popOutput (stream : ByteStream) : Nat → ByteStream
  | 0 => stream
  | len + 1 =>
      popOutput
        { stream with
          bts := stream.bts.tail
          readCount := stream.readCount + 1 } len

def read (stream : ByteStream) (len : Nat) : List Byte × ByteStream :=
  let length := if stream.bufferSize < len then stream.bufferSize else len
  (stream.peekOutput length, stream.popOutput length)

theorem pushBack_eq (stream : ByteStream) (data : List Byte) :
    stream.pushBack data =
      { stream with
        bts := stream.bts ++ data
        writeCount := stream.writeCount + data.length } := by
  induction data generalizing stream with
  | nil => simp [pushBack]
  | cons byte rest induction =>
      simp only [pushBack, induction, List.append_assoc, List.singleton_append,
        List.length_cons]
      congr 1
      omega

theorem popOutput_eq (stream : ByteStream) (len : Nat) :
    stream.popOutput len =
      { stream with
        bts := stream.bts.drop len
        readCount := stream.readCount + len } := by
  induction len generalizing stream with
  | zero => rfl
  | succ len induction =>
      simp only [popOutput, induction, List.drop_tail]
      congr 1
      omega

theorem write_eq (stream : ByteStream) (data : List Byte) :
    stream.write data =
      ({ stream with
          bts := stream.bts ++ data.take stream.remainingCapacity
          writeCount := stream.writeCount +
            min stream.remainingCapacity data.length },
        min stream.remainingCapacity data.length) := by
  have length : (if stream.remainingCapacity < data.length then
      stream.remainingCapacity else data.length) =
      min stream.remainingCapacity data.length := by
    split <;> omega
  have same : data.take (min stream.remainingCapacity data.length) =
      data.take stream.remainingCapacity := by
    rw [← List.take_take]
    simp
  simp only [write, length, pushBack_eq, same, List.length_take]

theorem read_eq (stream : ByteStream) (len : Nat) :
    stream.read len =
      (stream.bts.take len,
        { stream with
          bts := stream.bts.drop len
          readCount := stream.readCount + min len stream.bts.length }) := by
  by_cases short : stream.bts.length < len
  · simp [read, bufferSize, peekOutput, popOutput_eq, short,
      List.take_of_length_le (Nat.le_of_lt short),
      List.drop_of_length_le (Nat.le_of_lt short), Nat.min_eq_right (Nat.le_of_lt short)]
  · simp [read, bufferSize, peekOutput, popOutput_eq, short,
      Nat.min_eq_left (Nat.not_lt.mp short)]

theorem read_of_empty {stream : ByteStream} (empty : stream.bts = []) (len : Nat) :
    (stream.read len).2 = stream := by
  rw [read_eq]
  cases stream
  simp_all

/-- The deque never outgrows the capacity, and the two counters differ by what
it holds. -/
structure Valid (stream : ByteStream) : Prop where
  bounded : stream.bts.length ≤ stream.bSize
  counted : stream.writeCount = stream.readCount + stream.bts.length

theorem valid_new (capacity : Nat) : (new capacity).Valid :=
  ⟨Nat.zero_le _, rfl⟩

theorem Valid.remainingCapacity_le {stream : ByteStream} (valid : stream.Valid) :
    stream.remainingCapacity ≤ stream.bSize - stream.bts.length := by
  have bounded := valid.bounded
  unfold remainingCapacity SizeT.sub
  omega

theorem Valid.remainingCapacity_eq {stream : ByteStream} (valid : stream.Valid)
    (fits : stream.bSize < 2 ^ 64) :
    stream.remainingCapacity = stream.bSize - stream.bts.length :=
  SizeT.sub_of_le valid.bounded fits

theorem Valid.write {stream : ByteStream} (valid : stream.Valid)
    (data : List Byte) : (stream.write data).1.Valid := by
  have room := valid.remainingCapacity_le
  have bounded := valid.bounded
  have counted := valid.counted
  rw [write_eq]
  constructor <;> simp only [List.length_append, List.length_take] <;> omega

theorem Valid.read {stream : ByteStream} (valid : stream.Valid) (len : Nat) :
    (stream.read len).2.Valid := by
  have bounded := valid.bounded
  have counted := valid.counted
  rw [read_eq]
  constructor <;> simp only [List.length_drop] <;> omega

theorem Valid.popOutput {stream : ByteStream} (valid : stream.Valid) {len : Nat}
    (within : len ≤ stream.bts.length) : (stream.popOutput len).Valid := by
  have bounded := valid.bounded
  have counted := valid.counted
  rw [popOutput_eq]
  constructor <;> simp only [List.length_drop] <;> omega

theorem Valid.endInput {stream : ByteStream} (valid : stream.Valid) :
    stream.endInput.Valid :=
  ⟨valid.bounded, valid.counted⟩

theorem write_of_fits {stream : ByteStream} {data : List Byte}
    (fits : data.length ≤ stream.remainingCapacity) :
    (stream.write data).1 =
      { stream with
        bts := stream.bts ++ data
        writeCount := stream.writeCount + data.length } := by
  rw [write_eq, List.take_of_length_le fits, Nat.min_eq_right fits]

end ByteStream

end Sponge
