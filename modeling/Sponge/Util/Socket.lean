import Sponge.Data.Interaction
import Sponge.Util.FileDescriptor

namespace Sponge

/-! Descriptors and sockets as programs that call the system. -/

inductive OutputStream where
  | cout
  | cerr
  deriving DecidableEq, Repr

structure AddrInfo where
  flags : Int
  family : Int
  deriving DecidableEq, Repr

inductive Syscall where
  | socket (domain type : Int)
  | getaddrinfo (node service : List Byte) (hints : AddrInfo)
  | connect (fd : Int) (address : List Byte)
  | writev (fd : Int) (iovecs : List (List Byte))
  | shutdown (fd : Int) (how : Int)
  | read (fd : Int) (size : Nat)
  | close (fd : Int)
  | print (stream : OutputStream) (text : List Byte)
  deriving DecidableEq, Repr

structure Reply where
  result : SyscallResult
  data : Option (List Byte) := none
  deriving DecidableEq, Repr

/-- `getaddrinfo` tells its errors by its return value, and `errno` need not say anything;
to print is not a system call with a return value at all. -/
def Syscall.setsErrno : Syscall → Bool
  | .getaddrinfo _ _ _ | .print _ _ => false
  | _ => true

/-- A reply as the manual pages promise it: an `int`, negative only with an error number
where there is one, and never more bytes than there was room for. -/
def Answers (call : Syscall) (reply : Reply) : Prop :=
  reply.result.value < 2 ^ 31 ∧ -2 ^ 31 ≤ reply.result.value ∧
    (call.setsErrno = true → reply.result.value < 0 → reply.result.errno ≠ 0) ∧
    match call with
    | .writev _ iovecs => reply.result.value ≤ iovecs.flatten.length
    | .read _ size => reply.result.value ≤ size ∧
        (reply.data.getD []).length = reply.result.value.toNat
    | _ => True

instance (call : Syscall) (reply : Reply) : Decidable (Answers call reply) := by
  unfold Answers
  cases call <;> infer_instance

-- A name that does not resolve, and no error number.
example : Answers (.getaddrinfo [104] [] ⟨16, 2⟩) ⟨⟨-2, 0⟩, none⟩ := by
  decide

inductive NetworkException where
  | system (exception : SystemException)
  | gaiError (attempt : List Byte) (code : Int)
  deriving DecidableEq, Repr

def ascii (text : String) : List Byte :=
  text.toList.map fun c => UInt8.ofNat c.toNat

namespace FileDescriptor

abbrev Action := Method Syscall Reply NetworkException FileDescriptor

def registerRead (descriptor : FileDescriptor) : FileDescriptor :=
  { descriptor with readCount := descriptor.readCount + 1 }

def checked (attempt : String) (call : Int → Syscall) : Action (Int × Reply) := do
  let descriptor ← get
  let reply ← Method.perform (call descriptor.fd)
  let value ← Method.liftExcept ((systemCall attempt reply.result 0).mapError .system)
  return (value, reply)

def close : Action Unit := do
  let _ ← checked "close" .close
  modify fun descriptor => { descriptor with eof := true, closed := true }

/-- The destructor of the wrapper: what `close` throws is only reported. -/
def destruct (what : NetworkException → List Byte) (descriptor : FileDescriptor) :
    Interaction Syscall Reply Unit :=
  if descriptor.closed then return ()
  else do
    let (result, _) ← close.start descriptor
    match result with
    | .ok _ => return ()
    | .error exception =>
        let _ ← .perform (.print .cerr
          (ascii "Exception destructing FDWrapper: " ++ what exception ++ ascii "\n"))
        return ()

def filled (sizeToRead : Nat) (data : List Byte) : List Byte :=
  data.take sizeToRead ++ List.replicate (sizeToRead - data.length) 0

def maxSize : Nat := 2 ^ 63 - 1

def resize (str : List Byte) (size : Nat) : Except CppException (List Byte) :=
  if maxSize < size then .error (.lengthError "basic_string::_M_replace_aux")
  else .ok (str.take size ++ List.replicate (size - str.length) 0)

/-- A negative count that `SystemCall` lets through is a size no string can have. -/
def read (limit : Nat) : Action (List Byte) := do
  let sizeToRead := min (1024 * 1024) limit
  let (bytesRead, reply) ← checked "read" (.read · sizeToRead)
  if 0 < limit ∧ bytesRead = 0 then
    modify fun descriptor => { descriptor with eof := true }
  if SizeT.toSigned sizeToRead < bytesRead then
    throw (.system (.thrown (.runtimeError "read() read more than requested")))
  let str ← Method.liftExcept
    ((resize (filled sizeToRead (reply.data.getD [])) (SizeT.ofInt bytesRead)).mapError
      fun exception => .system (.thrown exception))
  modify registerRead
  return str

/-- The loop of `write`, each `writev` now asked of the system. What `remove_prefix` throws
finds the write registered. -/
def writeFrom (writeAll : Bool) : (fuel : Nat) → Writing → Action Nat
  | 0, _ => Method.pending
  | fuel + 1, writing => do
      let reply ← Method.perform (.writev writing.descriptor.fd writing.buffer.asIovecs)
      let count ← Method.liftExcept ((bytesWritten writing reply.result).mapError .system)
      set writing.descriptor.registerWrite
      let next ← Method.liftExcept
        ((removeWritten writing.registerWrite reply.result count).mapError .system)
      if writeAll ∧ next.buffer.size ≠ 0 then writeFrom writeAll fuel next
      else return next.totalBytesWritten

def writeString (str : List Byte) (fuel : Nat) : Action Nat := do
  let descriptor ← get
  writeFrom true fuel { descriptor := descriptor, buffer := .ofString str }

/-! Rules for what a system that keeps its promises answers. -/

theorem systemCall_answered {call : Syscall} {reply : Reply} (answers : Answers call reply)
    (sets : call.setsErrno = true) (attempt : String) :
    systemCall attempt reply.result 0 =
      if 0 ≤ reply.result.value then .ok reply.result.value
      else .error (.unixError attempt reply.result.errno) := by
  obtain ⟨below, above, failed, _⟩ := answers
  have same : SizeT.toInt32 reply.result.value = reply.result.value := by
    unfold SizeT.toInt32
    omega
  rw [systemCall, same]
  by_cases good : 0 ≤ reply.result.value
  · rw [if_pos good, if_pos (Or.inl good)]
  · rw [if_neg good, if_neg]
    rintro (succeeded | masked)
    · exact good succeeded
    · exact failed sets (Int.not_le.mp good) masked

theorem ensures_checked {Result : Type} {descriptor : FileDescriptor}
    {past : List (Syscall × Reply)}
    {post : Method.Post Syscall Reply NetworkException FileDescriptor Result}
    {attempt : String} {call : Int → Syscall} {rest : Int × Reply → Action Result}
    (sets : (call descriptor.fd).setsErrno = true) (paused : post.paused past)
    (succeeded : ∀ reply, Answers (call descriptor.fd) reply → 0 ≤ reply.result.value →
      Method.Ensures Answers (rest (reply.result.value, reply)) descriptor
        (past ++ [(call descriptor.fd, reply)]) post)
    (failed : ∀ reply, Answers (call descriptor.fd) reply → reply.result.value < 0 →
      post.threw (.system (.unixError attempt reply.result.errno)) descriptor
        (past ++ [(call descriptor.fd, reply)])) :
    Method.Ensures Answers (checked attempt call >>= rest) descriptor past post := by
  apply Method.Ensures.bind
  apply Method.ensures_get
  apply Method.ensures_perform
  · exact paused
  · intro reply answers
    rw [systemCall_answered answers sets]
    split
    next good => exact succeeded reply answers good
    next bad => exact failed reply answers (Int.not_le.mp bad)

theorem resize_filled {sizeToRead : Nat} {data : List Byte} {bytesRead : Int}
    (good : 0 ≤ bytesRead) (inside : bytesRead ≤ sizeToRead) (room : sizeToRead ≤ 1024 * 1024)
    (length : data.length = bytesRead.toNat) :
    resize (filled sizeToRead data) (SizeT.ofInt bytesRead) = .ok data := by
  obtain ⟨count, rfl⟩ := Int.eq_ofNat_of_zero_le good
  rw [Int.toNat_natCast] at length
  have whole : data.take sizeToRead = data := List.take_of_length_le (by omega)
  have fits : ¬maxSize < count := by
    unfold maxSize
    omega
  rw [SizeT.ofInt_natCast (by omega), resize, if_neg fits, filled, whole, ← length,
    List.take_left, List.length_append, Nat.sub_eq_zero_of_le (Nat.le_add_right _ _)]
  simp

theorem ensures_read {limit : Nat} (positive : 0 < limit) {descriptor : FileDescriptor}
    {past : List (Syscall × Reply)}
    {post : Method.Post Syscall Reply NetworkException FileDescriptor (List Byte)}
    (paused : post.paused past)
    (returned : ∀ reply, Answers (.read descriptor.fd (min (1024 * 1024) limit)) reply →
      0 ≤ reply.result.value →
      post.returned (reply.data.getD [])
        { descriptor with
          eof := descriptor.eof || decide (reply.result.value = 0)
          readCount := descriptor.readCount + 1 }
        (past ++ [(.read descriptor.fd (min (1024 * 1024) limit), reply)]))
    (failed : ∀ reply, Answers (.read descriptor.fd (min (1024 * 1024) limit)) reply →
      reply.result.value < 0 →
      post.threw (.system (.unixError "read" reply.result.errno)) descriptor
        (past ++ [(.read descriptor.fd (min (1024 * 1024) limit), reply)])) :
    Method.Ensures Answers (read limit) descriptor past post := by
  apply ensures_checked rfl paused _ failed
  intro reply answers good
  obtain ⟨_, _, _, inside, length⟩ := id answers
  have kept := returned reply answers good
  have within : ¬SizeT.toSigned (min (1024 * 1024) limit) < reply.result.value := by
    rw [SizeT.toSigned_of_lt (by omega)]
    omega
  have resized := resize_filled good inside (Nat.min_le_left _ _) length
  dsimp only
  rw [resized]
  by_cases ended : reply.result.value = 0
  · simp only [ended, decide_true, Bool.or_true] at kept
    rw [if_pos ⟨positive, ended⟩]
    apply Method.ensures_modify
    rw [if_neg within]
    exact kept
  · simp only [ended, decide_false, Bool.or_false] at kept
    rw [if_neg fun both => ended both.2]
    rw [if_neg within]
    exact kept

theorem bytesWritten_answered {writing : Writing} {fd : Int} {reply : Reply} {count : Int}
    (answers : Answers (.writev fd writing.buffer.asIovecs) reply)
    (accepted : bytesWritten writing reply.result = .ok count) :
    SizeT.ofInt count = reply.result.value.toNat := by
  obtain ⟨below, above, failed, _⟩ := answers
  obtain ⟨returned, _, good⟩ := bytesWritten_ok accepted
  have same : SizeT.toInt32 reply.result.value = reply.result.value := by
    unfold SizeT.toInt32
    omega
  rw [same] at returned
  have nonnegative : 0 ≤ reply.result.value := by
    rcases good with good | unset
    · exact returned ▸ good
    · exact Int.not_lt.mp fun negative => failed rfl negative unset
  rw [returned]
  unfold SizeT.ofInt
  omega

end FileDescriptor

def Socket.afInet : Int := 2

structure Address where
  bytes : List Byte
  deriving DecidableEq, Repr

namespace Address

def storageSize : Nat := 128

def resolve {State : Type} (node service : List Byte) (hints : AddrInfo) :
    Method Syscall Reply NetworkException State Address := do
  let reply ← Method.perform (.getaddrinfo node service hints)
  if reply.result.value ≠ 0 then
    throw (.gaiError
      (ascii "getaddrinfo(" ++ node ++ ascii ", " ++ service ++ ascii ")") reply.result.value)
  else
    match reply.data with
    | none =>
        throw (.system (.thrown
          (.runtimeError "getaddrinfo returned successfully but with no results")))
    | some bytes =>
        if storageSize < bytes.length then
          throw (.system (.thrown (.runtimeError "invalid sockaddr size")))
        else
          return ⟨bytes⟩

def aiAll : Int := 16

def makeHints (aiFlags aiFamily : Int) : AddrInfo :=
  { flags := aiFlags, family := aiFamily }

def ofHost {State : Type} (hostname service : List Byte) :
    Method Syscall Reply NetworkException State Address :=
  resolve hostname service (makeHints aiAll Socket.afInet)

end Address

namespace Socket

open FileDescriptor (Action checked)

def sockStream : Int := 1
def shutRd : Int := 0
def shutWr : Int := 1
def shutRdwr : Int := 2

def connect (address : Address) : Action Unit := do
  let _ ← checked "connect" (.connect · address.bytes)

def shutdown (how : Int) : Action Unit := do
  let _ ← checked "shutdown" (.shutdown · how)
  if how = shutRd then modify FileDescriptor.registerRead
  else if how = shutWr then modify FileDescriptor.registerWrite
  else if how = shutRdwr then
    modify fun descriptor => descriptor.registerRead.registerWrite
  else
    throw (.system (.thrown
      (.runtimeError "Socket::shutdown() called with invalid `how`")))

/-- The wrapper of a new socket; its constructor refuses a negative number. -/
def wrapper (reply : Reply) : Except NetworkException FileDescriptor := do
  let fd ← (systemCall "socket" reply.result 0).mapError .system
  if fd < 0 then
    throw (.system (.thrown (.runtimeError ("invalid fd number:" ++ toString fd))))
  else
    return { fd := fd }

def new (domain type : Int) :
    Interaction Syscall Reply (Except NetworkException FileDescriptor) := do
  let reply ← .perform (.socket domain type)
  return wrapper reply

theorem wrapper_eq {reply : Reply} {fd : Int}
    (returned : systemCall "socket" reply.result 0 = .ok fd) (good : 0 ≤ fd) :
    wrapper reply = .ok { fd := fd } := by
  rw [wrapper, returned]
  exact if_neg (Int.not_lt.mpr good)

theorem wrapper_answered {call : Syscall} {reply : Reply} (answers : Answers call reply)
    (sets : call.setsErrno = true) :
    wrapper reply =
      if 0 ≤ reply.result.value then .ok { fd := reply.result.value }
      else .error (.system (.unixError "socket" reply.result.errno)) := by
  have returned := FileDescriptor.systemCall_answered answers sets "socket"
  split
  next good =>
    rw [if_pos good] at returned
    exact wrapper_eq returned good
  next bad =>
    rw [if_neg bad] at returned
    rw [wrapper, returned]
    rfl

theorem ensures_new {Result : Type} {domain type : Int} {past : List (Syscall × Reply)}
    {post : List (Syscall × Reply) → Option Result → Prop}
    {rest : Except NetworkException FileDescriptor → Interaction Syscall Reply Result}
    (waits : post past none)
    (opened : ∀ reply, Answers (.socket domain type) reply → 0 ≤ reply.result.value →
      Interaction.Ensures Answers post (past ++ [(.socket domain type, reply)])
        (rest (.ok { fd := reply.result.value })))
    (failed : ∀ reply, Answers (.socket domain type) reply → reply.result.value < 0 →
      Interaction.Ensures Answers post (past ++ [(.socket domain type, reply)])
        (rest (.error (.system (.unixError "socket" reply.result.errno))))) :
    Interaction.Ensures Answers post past (new domain type >>= rest) := by
  refine ⟨waits, ?_⟩
  intro reply answers
  change Interaction.Ensures Answers post _ (rest (wrapper reply))
  rw [wrapper_answered answers rfl]
  split
  next good => exact opened reply answers good
  next bad => exact failed reply answers (Int.not_le.mp bad)

end Socket

end Sponge
