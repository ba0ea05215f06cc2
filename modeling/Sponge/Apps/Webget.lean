import Sponge.Util.Socket

namespace Sponge.Webget

open FileDescriptor (Action Writing writeFrom)

/-! The program `webget`: what it says to the server and to its user. -/

def requestLine (path : List Byte) : List Byte :=
  ascii "GET " ++ path ++ ascii " " ++ ascii "HTTP/1.1\r\n"

def hostLine (host : List Byte) : List Byte :=
  ascii "Host: " ++ host ++ ascii "\r\n"

def lastLines : List Byte :=
  ascii "Connection:  close\r\n\r\n"

def noLimit : Nat := 2 ^ 64 - 1

def printAll : (fuel : Nat) → Action Unit
  | 0 => Method.pending
  | fuel + 1 => do
      let sock1 ← get
      if sock1.eof then return ()
      let acc ← FileDescriptor.read noLimit
      let _ ← Method.perform (.print .cout acc)
      printAll fuel

def converse (host path : List Byte) (fuel : Nat) : Action Unit := do
  let addr ← Address.ofHost host (ascii "http")
  Socket.connect addr
  let _ ← FileDescriptor.writeString (requestLine path) fuel
  let _ ← FileDescriptor.writeString (hostLine host) fuel
  let _ ← FileDescriptor.writeString lastLines fuel
  Socket.shutdown Socket.shutWr
  printAll fuel
  FileDescriptor.close

/-- However the body ends, the destructor of `sock1` runs. -/
def getURL (what : NetworkException → List Byte) (host path : List Byte) (fuel : Nat) :
    Interaction Syscall Reply (Except NetworkException Unit) := do
  match ← Socket.new Socket.afInet Socket.sockStream with
  | .error exception => return .error exception
  | .ok sock1 =>
      let (result, sock1) ← (converse host path fuel).start sock1
      sock1.destruct what
      return result

inductive Exit where
  | success
  | failure
  | aborted
  deriving DecidableEq, Repr

def main (what : NetworkException → List Byte) (argv : List (List Byte)) (fuel : Nat) :
    Interaction Syscall Reply Exit :=
  match argv with
  | [] => return .aborted
  | [_, host, path] => do
      match ← getURL what host path fuel with
      | .ok _ => return .success
      | .error exception =>
          let _ ← .perform (.print .cerr (what exception ++ ascii "\n"))
          return .failure
  | program :: _ => do
      let _ ← .perform (.print .cerr (ascii "Usage: " ++ program ++ ascii " HOST PATH\n"))
      let _ ← .perform (.print .cerr
        (ascii "\tExample: " ++ program ++ ascii " stanford.edu /class/cs144\n"))
      return .failure

/-! ## What passes between the program, the server and the user -/

/-- What an observer of the system calls knows. -/
structure Conversation where
  opened : Bool := false
  sent : List Byte := []
  received : List Byte := []
  endOfFile : Bool := false
  printed : List Byte := []
  /-- For each `close`, whether it succeeded. -/
  closes : List Bool := []
  deriving DecidableEq

namespace Conversation

def send (conversation : Conversation) (bytes : List Byte) : Conversation :=
  { conversation with sent := conversation.sent ++ bytes }

def note (conversation : Conversation) : Syscall × Reply → Conversation
  | (.socket _ _, reply) =>
      { conversation with opened := conversation.opened || decide (0 ≤ reply.result.value) }
  | (.writev _ iovecs, reply) =>
      conversation.send (iovecs.flatten.take reply.result.value.toNat)
  | (.read _ _, reply) =>
      { conversation with
        received := conversation.received ++
          (reply.data.getD []).take reply.result.value.toNat
        endOfFile := conversation.endOfFile || decide (reply.result.value = 0) }
  | (.print .cout text, _) => { conversation with printed := conversation.printed ++ text }
  | (.close _, reply) =>
      { conversation with closes := conversation.closes ++ [decide (0 ≤ reply.result.value)] }
  | _ => conversation

@[simp] theorem send_nil (conversation : Conversation) : conversation.send [] = conversation := by
  simp [send]

@[simp] theorem send_send (conversation : Conversation) (front back : List Byte) :
    (conversation.send front).send back = conversation.send (front ++ back) := by
  simp [send]

end Conversation

def conversation (trace : List (Syscall × Reply)) : Conversation :=
  trace.foldl Conversation.note {}

@[simp] theorem conversation_snoc (trace : List (Syscall × Reply)) (event : Syscall × Reply) :
    conversation (trace ++ [event]) = (conversation trace).note event := by
  simp [conversation]

def request (host path : List Byte) : List Byte :=
  requestLine path ++ (hostLine host ++ lastLines)

/-! ## Writing -/

def SameButWrites (before after : FileDescriptor) : Prop :=
  after = { before with writeCount := after.writeCount }

theorem SameButWrites.registerWrite {before after : FileDescriptor}
    (same : SameButWrites before after) : SameButWrites before after.registerWrite := by
  unfold SameButWrites FileDescriptor.registerWrite at *
  rw [same]

theorem all_sent {bytes : List Byte} (small : bytes.length < 2 ^ 31) {buffer : BufferViewList}
    {count : Nat} (remaining : buffer.bytes = bytes.drop count) (empty : buffer.size = 0) :
    bytes.length ≤ count := by
  -- A buffer of size 0 has nothing left: its size has not wrapped.
  have length := congrArg List.length remaining
  rw [List.length_drop] at length
  rw [BufferViewList.size_eq] at empty
  omega

/-- However the kernel splits the bytes, they go out in order; a `write` that returns has
sent them all. -/
theorem ensures_writeFrom {bytes : List Byte} (small : bytes.length < 2 ^ 31)
    {start : FileDescriptor} {past : List (Syscall × Reply)}
    {post : Method.Post Syscall Reply NetworkException FileDescriptor Nat}
    (paused : ∀ k trace, conversation trace = (conversation past).send (bytes.take k) →
      post.paused trace)
    (threw : ∀ exception after k trace, SameButWrites start after →
      conversation trace = (conversation past).send (bytes.take k) →
      post.threw exception after trace)
    (returned : ∀ total after trace, SameButWrites start after →
      conversation trace = (conversation past).send bytes → post.returned total after trace)
    (fuel count : Nat) {writing : Writing} {trace : List (Syscall × Reply)}
    (left : writing.buffer.bytes = bytes.drop count) (same : SameButWrites start writing.descriptor)
    (seen : conversation trace = (conversation past).send (bytes.take count)) :
    Method.Ensures Answers (writeFrom true fuel writing) writing.descriptor trace post := by
  induction fuel generalizing writing trace count with
  | zero => exact paused count trace seen
  | succ fuel induction =>
      apply Method.ensures_perform
      · exact paused count trace seen
      · intro reply answers
        have progress : conversation (trace ++ [(.writev writing.descriptor.fd
            writing.buffer.asIovecs, reply)]) =
            (conversation past).send (bytes.take (count + reply.result.value.toNat)) := by
          have shown : writing.buffer.asIovecs.flatten = bytes.drop count := left
          rw [conversation_snoc, seen, Conversation.note, shown, Conversation.send_send,
            List.take_add]
        apply Method.ensures_mapError
        · intro written accepted
          have taken := FileDescriptor.bytesWritten_answered answers accepted
          apply Method.ensures_set
          apply Method.ensures_mapError
          · intro next removed
            obtain ⟨_, descriptor, rest, _⟩ := FileDescriptor.removeWritten_ok removed
            have remaining : next.buffer.bytes =
                bytes.drop (count + reply.result.value.toNat) := by
              rw [rest, taken, ← List.drop_drop]
              exact congrArg (List.drop _) left
            have unchanged : SameButWrites start next.descriptor := by
              rw [descriptor]
              exact same.registerWrite
            have current : next.descriptor = writing.descriptor.registerWrite := descriptor
            rw [← current]
            split
            next => exact induction _ remaining unchanged progress
            next stopped =>
              have sent := all_sent small remaining (by simpa using stopped)
              rw [List.take_of_length_le sent] at progress
              exact returned _ _ _ unchanged progress
          · intro exception _
            exact threw _ _ _ _ same.registerWrite progress
        · intro exception _
          exact threw _ _ _ _ same progress

theorem ensures_writeString {bytes : List Byte} (small : bytes.length < 2 ^ 31)
    {start : FileDescriptor} {past : List (Syscall × Reply)} {fuel : Nat}
    {post : Method.Post Syscall Reply NetworkException FileDescriptor Nat}
    (paused : ∀ k trace, conversation trace = (conversation past).send (bytes.take k) →
      post.paused trace)
    (threw : ∀ exception after k trace, SameButWrites start after →
      conversation trace = (conversation past).send (bytes.take k) →
      post.threw exception after trace)
    (returned : ∀ total after trace, SameButWrites start after →
      conversation trace = (conversation past).send bytes → post.returned total after trace) :
    Method.Ensures Answers (FileDescriptor.writeString bytes fuel) start past post := by
  apply Method.ensures_get
  refine ensures_writeFrom small paused threw returned fuel 0 ?_ rfl ?_
  · simp [BufferViewList.ofString, BufferViewList.bytes]
  · simp

/-! ## The whole program -/

/-- What can be said of the conversation at every moment. -/
structure Underway (request : List Byte) (conversation : Conversation) : Prop where
  opened : conversation.opened = true
  sent : conversation.sent <+: request
  asked : conversation.received ≠ [] ∨ conversation.endOfFile = true →
    conversation.sent = request
  printed : conversation.printed <+: conversation.received

def asking (front : List Byte) : Conversation :=
  { opened := true, sent := front }

def reading (request received : List Byte) (endOfFile : Bool) : Conversation :=
  { opened := true
    sent := request
    received := received
    endOfFile := endOfFile
    printed := received }

theorem underway_asking {request front : List Byte} (begun : front <+: request) :
    Underway request (asking front) :=
  ⟨rfl, begun, fun read => by simp [asking] at read, List.prefix_refl _⟩

theorem underway_reading (request received : List Byte) (endOfFile : Bool) :
    Underway request (reading request received endOfFile) :=
  ⟨rfl, List.prefix_refl _, fun _ => rfl, List.prefix_refl _⟩

def Paused (request : List Byte) (trace : List (Syscall × Reply)) : Prop :=
  Underway request (conversation trace) ∧ (conversation trace).closes = []

def Threw (request : List Byte) (_exception : NetworkException) (sock1 : FileDescriptor)
    (trace : List (Syscall × Reply)) : Prop :=
  sock1.closed = false ∧ Underway request (conversation trace) ∧
    (conversation trace).printed = (conversation trace).received ∧
    ((conversation trace).closes = [] ∨ (conversation trace).closes = [false])

structure Stops (request : List Byte) {Result : Type}
    (post : Method.Post Syscall Reply NetworkException FileDescriptor Result) : Prop where
  paused : ∀ trace, Paused request trace → post.paused trace
  threw : ∀ exception sock1 trace, Threw request exception sock1 trace →
    post.threw exception sock1 trace

def bodyPost (request : List Byte) :
    Method.Post Syscall Reply NetworkException FileDescriptor Unit where
  returned := fun _ sock1 trace => sock1.closed = true ∧ ∃ received,
    conversation trace = { reading request received true with closes := [true] }
  threw := Threw request
  paused := Paused request

section

variable {request : List Byte} {Result : Type} {sock1 : FileDescriptor}
  {trace : List (Syscall × Reply)}
  {post : Method.Post Syscall Reply NetworkException FileDescriptor Result}

theorem Stops.part (stops : Stops request post) {Other : Type}
    (returned : Other → FileDescriptor → List (Syscall × Reply) → Prop) :
    Stops request { returned := returned, threw := post.threw, paused := post.paused } :=
  ⟨stops.paused, stops.threw⟩

theorem Stops.paused_asking (stops : Stops request post) {front : List Byte}
    (begun : front <+: request) (seen : conversation trace = asking front) :
    post.paused trace := by
  apply stops.paused
  unfold Paused
  rw [seen]
  exact ⟨underway_asking begun, rfl⟩

theorem Stops.threw_asking (stops : Stops request post) {front : List Byte}
    (begun : front <+: request) (seen : conversation trace = asking front)
    (unclosed : sock1.closed = false) (exception : NetworkException) :
    post.threw exception sock1 trace := by
  apply stops.threw
  unfold Threw
  rw [seen]
  exact ⟨unclosed, underway_asking begun, rfl, Or.inl rfl⟩

theorem Stops.paused_reading (stops : Stops request post) {received : List Byte}
    {endOfFile : Bool} (seen : conversation trace = reading request received endOfFile) :
    post.paused trace := by
  apply stops.paused
  unfold Paused
  rw [seen]
  exact ⟨underway_reading request received endOfFile, rfl⟩

theorem Stops.threw_reading (stops : Stops request post) {received : List Byte}
    {endOfFile : Bool} {closes : List Bool}
    (seen : conversation trace =
      { reading request received endOfFile with closes := closes })
    (unclosed : sock1.closed = false) (failed : closes = [] ∨ closes = [false])
    (exception : NetworkException) : post.threw exception sock1 trace := by
  apply stops.threw
  unfold Threw
  rw [seen]
  exact ⟨unclosed, ⟨rfl, List.prefix_refl _, fun _ => rfl, List.prefix_refl _⟩, rfl, failed⟩

/-! The body, call by call. -/

theorem ensures_resolve (stops : Stops request post) {node service front : List Byte}
    {hints : AddrInfo}
    (begun : front <+: request) (seen : conversation trace = asking front)
    (unclosed : sock1.closed = false) {rest : Address → Action Result}
    (returned : ∀ address trace, conversation trace = asking front →
      Method.Ensures Answers (rest address) sock1 trace post) :
    Method.Ensures Answers (Address.resolve node service hints >>= rest) sock1 trace post := by
  apply Method.Ensures.bind
  apply Method.ensures_perform
  · exact stops.paused_asking begun seen
  · intro reply _
    have unseen : conversation (trace ++ [(.getaddrinfo node service hints, reply)]) =
        asking front := by
      rw [conversation_snoc, seen]
      rfl
    have threw (exception : NetworkException) : post.threw exception sock1
        (trace ++ [(.getaddrinfo node service hints, reply)]) :=
      stops.threw_asking begun unseen unclosed exception
    split
    · exact Method.ensures_throw (threw _)
    · split
      · exact Method.ensures_throw (threw _)
      · split
        · exact Method.ensures_throw (threw _)
        · exact returned _ _ unseen

theorem ensures_unseen (stops : Stops request post) {attempt : String}
    {call : Int → Syscall} (sets : ∀ fd, (call fd).setsErrno = true)
    (unseen : ∀ conversation fd reply, Conversation.note conversation (call fd, reply) =
      conversation)
    {front : List Byte} (begun : front <+: request)
    (seen : conversation trace = asking front) (unclosed : sock1.closed = false)
    {rest : Int × Reply → Action Result}
    (returned : ∀ value trace, conversation trace = asking front →
      Method.Ensures Answers (rest value) sock1 trace post) :
    Method.Ensures Answers (FileDescriptor.checked attempt call >>= rest) sock1 trace
      post := by
  have kept (reply : Reply) : conversation (trace ++ [(call sock1.fd, reply)]) =
      asking front := by
    rw [conversation_snoc, unseen, seen]
  apply FileDescriptor.ensures_checked (sets sock1.fd)
  · exact stops.paused_asking begun seen
  · intro reply _ _
    exact returned _ _ (kept reply)
  · intro reply _ _
    exact stops.threw_asking begun (kept reply) unclosed _

theorem ensures_line (stops : Stops request post) {front line : List Byte} {fuel : Nat}
    (small : line.length < 2 ^ 31) (begun : front ++ line <+: request)
    (seen : conversation trace = asking front) (unclosed : sock1.closed = false)
    (unended : sock1.eof = false) {rest : Nat → Action Result}
    (returned : ∀ total sock1 trace, sock1.closed = false → sock1.eof = false →
      conversation trace = asking (front ++ line) →
      Method.Ensures Answers (rest total) sock1 trace post) :
    Method.Ensures Answers (FileDescriptor.writeString line fuel >>= rest) sock1 trace
      post := by
  have part (k : Nat) : front ++ line.take k <+: request :=
    ((List.prefix_append_right_inj front).mpr (List.take_prefix k line)).trans begun
  apply Method.Ensures.bind
  apply ensures_writeString small
  · intro k later progress
    rw [seen] at progress
    exact stops.paused_asking (part k) progress
  · intro exception after k later same progress
    rw [seen] at progress
    rw [same]
    exact stops.threw_asking (part k) progress (by exact unclosed) exception
  · intro total after later same progress
    rw [seen] at progress
    rw [same]
    exact returned total _ later unclosed unended progress

/-- The loop prints what it has read before it reads again, and leaves only at the end. -/
theorem ensures_printAll (stops : Stops request post) (fuel : Nat) {received : List Byte}
    {rest : Unit → Action Result}
    (returned : ∀ sock1 trace received, sock1.closed = false →
      conversation trace = reading request received true →
      Method.Ensures Answers (rest ()) sock1 trace post)
    (seen : conversation trace = reading request received sock1.eof)
    (unclosed : sock1.closed = false) :
    Method.Ensures Answers (printAll fuel >>= rest) sock1 trace post := by
  apply Method.Ensures.bind
  induction fuel generalizing sock1 trace received with
  | zero => exact stops.paused_reading seen
  | succ fuel induction =>
      apply Method.ensures_get
      split
      next ended =>
        rw [ended] at seen
        exact returned sock1 trace received unclosed seen
      next =>
        apply Method.Ensures.bind
        apply FileDescriptor.ensures_read (by decide)
        · exact stops.paused_reading seen
        · intro reply answers _
          have noted : conversation
              (trace ++ [(.read sock1.fd (min (1024 * 1024) noLimit), reply)]) =
              { reading request (received ++ reply.data.getD [])
                  (sock1.eof || decide (reply.result.value = 0)) with
                printed := received } := by
            rw [conversation_snoc, seen, Conversation.note, ← answers.2.2.2.2,
              List.take_length]
            rfl
          apply Method.ensures_perform
          · apply stops.paused
            unfold Paused
            rw [noted]
            exact ⟨⟨rfl, List.prefix_refl _, fun _ => rfl, List.prefix_append _ _⟩, rfl⟩
          · intro printed _
            have caughtUp : conversation
                (trace ++ [(.read sock1.fd (min (1024 * 1024) noLimit), reply)] ++
                  [(.print .cout (reply.data.getD []), printed)]) =
                reading request (received ++ reply.data.getD [])
                  (sock1.eof || decide (reply.result.value = 0)) := by
              rw [conversation_snoc, noted]
              rfl
            exact induction caughtUp unclosed
        · intro reply answers bad
          have nothing : reply.result.value.toNat = 0 := Int.toNat_of_nonpos (Int.le_of_lt bad)
          have unended : ¬reply.result.value = 0 := Int.ne_of_lt bad
          have noted : conversation
              (trace ++ [(.read sock1.fd (min (1024 * 1024) noLimit), reply)]) =
              reading request received sock1.eof := by
            rw [conversation_snoc, seen, Conversation.note, nothing, List.take_zero]
            simp [reading, unended]
          exact stops.threw_reading noted unclosed (Or.inl rfl) _

theorem ensures_converse {host path : List Byte}
    (small : (Webget.request host path).length < 2 ^ 31) (fuel : Nat)
    (seen : conversation trace = asking []) (unclosed : sock1.closed = false)
    (unended : sock1.eof = false) :
    Method.Ensures Answers (converse host path fuel) sock1 trace
      (bodyPost (Webget.request host path)) := by
  have stops : Stops (Webget.request host path) (bodyPost (Webget.request host path)) :=
    ⟨fun _ paused => paused, fun _ _ _ threw => threw⟩
  have lengths : (requestLine path).length + ((hostLine host).length + lastLines.length) <
      2 ^ 31 := by
    simpa [Webget.request] using small
  apply ensures_resolve stops List.nil_prefix seen unclosed
  intro addr trace seen
  apply Method.Ensures.bind
  apply ensures_unseen (stops.part _) (fun _ => rfl) (fun _ _ _ => rfl) List.nil_prefix seen
    unclosed
  intro _ trace seen
  refine ensures_line stops (by omega) ?_ seen unclosed unended ?_
  · exact List.prefix_append _ _
  intro _ sock1 trace unclosed unended seen
  refine ensures_line stops (by omega) ?_ seen unclosed unended ?_
  · exact (List.prefix_append_right_inj _).mpr (List.prefix_append _ _)
  intro _ sock1 trace unclosed unended seen
  refine ensures_line stops (by omega) ?_ seen unclosed unended ?_
  · simp [Webget.request]
  intro _ sock1 trace unclosed unended seen
  have whole : [] ++ requestLine path ++ hostLine host ++ lastLines =
      Webget.request host path := by
    simp [Webget.request]
  rw [whole] at seen
  apply Method.Ensures.bind
  apply ensures_unseen (stops.part _) (fun _ => rfl) (fun _ _ _ => rfl) (List.prefix_refl _) seen
    unclosed
  intro _ trace seen
  refine @ensures_printAll _ _ _ _ _ stops fuel [] _ ?_ ?_ unclosed
  · intro sock1 trace received unclosed seen
    apply FileDescriptor.ensures_checked rfl
    · exact stops.paused_reading seen
    · intro reply _ good
      refine ⟨rfl, received, ?_⟩
      rw [conversation_snoc, seen, Conversation.note, decide_eq_true good]
      rfl
    · intro reply _ bad
      have failed : conversation (trace ++ [(.close sock1.fd, reply)]) =
          { reading (Webget.request host path) received true with closes := [false] } := by
        rw [conversation_snoc, seen, Conversation.note,
          decide_eq_false (Int.not_le.mpr bad)]
        rfl
      exact stops.threw_reading failed unclosed (Or.inr rfl) _
  · rw [seen]
    change asking _ = reading _ [] sock1.eof
    rw [unended]
    rfl

end

/-- What `webget` may be relied on for, at every moment and however the system answers:
only the request is sent, nothing is read before all of it is out, what is printed is what
was received, and once it is over everything received is printed. Success means that it
has read to the end. The socket never stays open, and is closed a second time only after a
`close` that failed. -/
structure Fetches (host path : List Byte) (conversation : Conversation)
    (outcome : Option Exit) : Prop where
  sent : conversation.sent <+: request host path
  asked : conversation.received ≠ [] ∨ conversation.endOfFile = true →
    conversation.sent = request host path
  printed : conversation.printed <+: conversation.received
  shown : outcome ≠ none → conversation.printed = conversation.received
  fetched : outcome = some .success →
    conversation.endOfFile = true ∧ conversation.closes = [true]
  closed : outcome ≠ none → conversation.opened = true → conversation.closes ≠ []
  once : conversation.closes.length ≤ 1 ∨ ∃ last, conversation.closes = [false, last]

section

variable {host path : List Byte} {conversation : Conversation}

theorem Underway.fetches (underway : Underway (request host path) conversation)
    (once : conversation.closes.length ≤ 1 ∨ ∃ last, conversation.closes = [false, last]) :
    Fetches host path conversation none where
  sent := underway.sent
  asked := underway.asked
  printed := underway.printed
  shown := fun ended => absurd rfl ended
  fetched := nofun
  closed := fun ended => absurd rfl ended
  once := once

theorem Fetches.unfinished {outcome : Option Exit}
    (fetches : Fetches host path conversation outcome) :
    Fetches host path conversation none where
  sent := fetches.sent
  asked := fetches.asked
  printed := fetches.printed
  shown := fun ended => absurd rfl ended
  fetched := nofun
  closed := fun ended => absurd rfl ended
  once := fetches.once

def ClosedOnce (before after : Conversation) : Prop :=
  ∃ last, after = { before with closes := before.closes ++ [last] }

theorem ClosedOnce.fails {after : Conversation} (closed : ClosedOnce conversation after)
    (underway : Underway (request host path) conversation)
    (shown : conversation.printed = conversation.received)
    (failed : conversation.closes = [] ∨ conversation.closes = [false]) :
    Fetches host path after (some .failure) := by
  obtain ⟨last, rfl⟩ := closed
  refine ⟨underway.sent, underway.asked, underway.printed, fun _ => shown, nofun, ?_, ?_⟩
  · intro _ _
    exact List.append_ne_nil_of_right_ne_nil _ (List.cons_ne_nil _ _)
  · dsimp only
    rcases failed with unclosed | once
    · rw [unclosed]
      exact Or.inl (Nat.le_refl _)
    · rw [once]
      exact Or.inr ⟨last, rfl⟩

end

def status : Except NetworkException Unit → Exit
  | .ok _ => .success
  | .error _ => .failure

def Fetching (host path : List Byte) (trace : List (Syscall × Reply))
    (outcome : Option (Except NetworkException Unit)) : Prop :=
  Fetches host path (conversation trace) (outcome.map status)

theorem ensures_destruct {host path : List Byte} {sock1 : FileDescriptor}
    {trace : List (Syscall × Reply)} {exception : NetworkException}
    (threw : Threw (request host path) exception sock1 trace)
    (what : NetworkException → List Byte) :
    Interaction.Ensures Answers (Fetching host path) trace
      (sock1.destruct what >>= fun _ => return .error exception) := by
  obtain ⟨unclosed, underway, shown, failed⟩ := threw
  have still : Fetches host path (conversation trace) none := by
    apply underway.fetches
    rcases failed with never | once
    · exact Or.inl (by rw [never]; exact Nat.zero_le _)
    · exact Or.inl (by rw [once]; exact Nat.le_refl _)
  have closing : Method.Ensures Answers FileDescriptor.close sock1 trace
      { returned := fun _ _ later => ClosedOnce (conversation trace) (conversation later)
        threw := fun _ _ later => ClosedOnce (conversation trace) (conversation later)
        paused := fun later => Fetches host path (conversation later) none } := by
    apply FileDescriptor.ensures_checked rfl still
    · intro reply _ _
      exact ⟨_, conversation_snoc _ _⟩
    · intro reply _ _
      exact ⟨_, conversation_snoc _ _⟩
  unfold FileDescriptor.destruct
  rw [unclosed, if_neg (by decide)]
  apply Interaction.Ensures.bind
  apply Interaction.Ensures.bind
  apply Interaction.Ensures.mono closing
  intro later outcome holds
  match outcome with
  | none => exact holds
  | some (.ok _, _) => exact holds.fails underway shown failed
  | some (.error _, _) =>
      have fetches := holds.fails underway shown failed
      refine ⟨fetches.unfinished, ?_⟩
      intro reply _
      change Fetches host path (conversation (later ++ _)) _
      rw [conversation_snoc]
      exact fetches

theorem ensures_getURL {host path : List Byte}
    (small : (request host path).length < 2 ^ 31) (what : NetworkException → List Byte)
    (fuel : Nat) :
    Interaction.Ensures Answers (Fetching host path) [] (getURL what host path fuel) := by
  apply Socket.ensures_new
  · exact ⟨List.nil_prefix, fun read => by simp [conversation] at read, List.prefix_refl _,
      fun _ => rfl, nofun, fun ended => absurd rfl ended, Or.inl (Nat.zero_le _)⟩
  · intro reply answers good
    have seen : conversation ([] ++ [(.socket Socket.afInet Socket.sockStream, reply)]) =
        asking [] := by
      rw [conversation_snoc, Conversation.note, decide_eq_true good]
      rfl
    apply Interaction.Ensures.bind
    apply Interaction.Ensures.mono (ensures_converse small fuel seen rfl rfl)
    intro later outcome holds
    match outcome with
    | none => exact holds.1.fetches (Or.inl (by rw [holds.2]; exact Nat.zero_le _))
    | some (.ok _, sock1) =>
        obtain ⟨closed, received, conversed⟩ := holds
        dsimp only
        rw [FileDescriptor.destruct, if_pos closed]
        change Fetches host path (conversation later) (some .success)
        rw [conversed]
        exact ⟨List.prefix_refl _, fun _ => rfl, List.prefix_refl _, fun _ => rfl,
          fun _ => ⟨rfl, rfl⟩, fun _ _ => List.cons_ne_nil _ _, Or.inl (Nat.le_refl _)⟩
    | some (.error exception, _) => exact ensures_destruct holds what
  · intro reply answers bad
    have seen : conversation ([] ++ [(.socket Socket.afInet Socket.sockStream, reply)]) =
        {} := by
      rw [conversation_snoc, Conversation.note, decide_eq_false (Int.not_le.mpr bad)]
      rfl
    change Fetches host path (conversation _) _
    rw [seen]
    exact ⟨List.nil_prefix, fun read => by simp at read, List.prefix_refl _,
      fun _ => rfl, nofun, nofun, Or.inl (Nat.zero_le _)⟩

end Sponge.Webget
