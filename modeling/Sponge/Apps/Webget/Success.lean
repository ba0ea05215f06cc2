import Sponge.Apps.Webget

namespace Sponge.Webget

open FileDescriptor (Action Writing writeFrom checked)
open Method (Completes)

/-! A server that answers: `webget` then comes to its end, however the bytes are split. -/

/-- A reply but for `errno`, which a call that succeeds may leave as it likes. -/
def said (reply : Reply) : Int × Option (List Byte) :=
  (reply.result.value, reply.data)

def counting (count : Nat) : Int × Option (List Byte) :=
  (count, none)

def giving (chunk : List Byte) : Int × Option (List Byte) :=
  (chunk.length, some chunk)

theorem note_printed (conversation : Conversation) (event : Syscall × Reply) :
    (conversation.note event).printed =
      conversation.printed ++ (Conversation.note {} event).printed := by
  obtain ⟨call, reply⟩ := event
  cases call with
  | print stream text => cases stream <;> simp [Conversation.note]
  | _ => simp [Conversation.note, Conversation.send]

theorem printed_append (front back : List (Syscall × Reply)) :
    (conversation (front ++ back)).printed =
      (conversation front).printed ++ (conversation back).printed := by
  induction back using List.reverseRecOn with
  | nil => simp [conversation]
  | append_singleton back event induction =>
      rw [← List.append_assoc, conversation_snoc, conversation_snoc, note_printed, induction,
        note_printed (conversation back), List.append_assoc]

section

variable {sock1 : FileDescriptor}

theorem completes_checked (attempt : String) (call : Int → Syscall) {reply : Reply}
    {count : Nat} {data : Option (List Byte)} (small : count < 2 ^ 31)
    (answer : said reply = (↑count, data)) :
    Completes (checked attempt call) sock1 [reply] (↑count, reply) sock1
      [(call sock1.fd, reply)] := by
  obtain ⟨⟨value, errno⟩, bytes⟩ := reply
  obtain ⟨rfl, rfl⟩ := Prod.mk.inj answer
  apply Method.completes_get
  apply Method.completes_perform
  apply Method.completes_mapError (systemCall_of_small small attempt errno 0)
  exact Method.completes_pure _ sock1

theorem completes_writeFrom {counts : List Nat} (pieces : counts ≠ [])
    (positive : ∀ count ∈ counts, 0 < count) {replies : List Reply}
    (answers : replies.map said = counts.map counting) {fuel : Nat}
    (enough : counts.length ≤ fuel) {writing : Writing}
    (small : writing.buffer.bytes.length < 2 ^ 31)
    (sum : counts.sum = writing.buffer.bytes.length) :
    ∃ total after trace,
      Completes (writeFrom true fuel writing) writing.descriptor replies total after trace ∧
      SameButWrites writing.descriptor after ∧ (conversation trace).printed = [] := by
  induction counts generalizing fuel writing replies with
  | nil => exact absurd rfl pieces
  | cons count rest induction =>
      obtain ⟨fuel, rfl⟩ : ∃ smaller, fuel = smaller + 1 :=
        Nat.exists_eq_add_one_of_ne_zero (by rintro rfl; cases enough)
      obtain ⟨⟨⟨value, errno⟩, data⟩, others, rfl, answer, later⟩ := List.map_eq_cons_iff.mp answers
      obtain ⟨rfl, rfl⟩ := Prod.mk.inj answer
      have first := positive count List.mem_cons_self
      rw [List.sum_cons] at sum
      have accepted := @FileDescriptor.bytesWritten_of_small writing count errno (by omega)
        (by omega) (by omega) (fun _ => first)
      obtain ⟨next, removed, left, descriptor, _, _⟩ :=
        @FileDescriptor.removeWritten_of_small writing.registerWrite count errno (by omega)
          (show _ ≤ writing.buffer.bytes.length by omega)
      have length : next.buffer.bytes.length = writing.buffer.bytes.length - count :=
        (congrArg List.length left).trans List.length_drop
      have size := next.buffer.size_eq
      have registered : next.descriptor = writing.descriptor.registerWrite := descriptor
      have tail : ∃ total after trace,
          Completes (if true ∧ next.buffer.size ≠ 0 then writeFrom true fuel next
            else return next.totalBytesWritten) next.descriptor others total after trace ∧
          SameButWrites next.descriptor after ∧ (conversation trace).printed = [] := by
        by_cases last : rest = []
        · subst last
          obtain rfl := List.map_eq_nil_iff.mp later
          rw [List.sum_nil] at sum
          rw [if_neg fun again => again.2 (by omega)]
          exact ⟨_, _, [], Method.completes_pure _ _, rfl, rfl⟩
        · have remaining : ∀ count ∈ rest, 0 < count :=
            fun other member => positive other (List.mem_cons_of_mem _ member)
          have pending : 0 < rest.sum := List.sum_pos rest remaining last
          rw [if_pos ⟨rfl, by omega⟩]
          exact induction last remaining later (Nat.le_of_succ_le_succ enough) (by omega) (by omega)
      rw [registered] at tail
      obtain ⟨total, after, trace, completes, same, silent⟩ := tail
      refine ⟨total, after, (.writev writing.descriptor.fd writing.buffer.asIovecs,
        ⟨⟨count, errno⟩, none⟩) :: trace, ?_, same, ?_⟩
      · exact Method.completes_perform (Method.completes_mapError accepted
          (Method.completes_set (Method.completes_mapError removed completes)))
      · rw [← List.singleton_append, printed_append, silent]
        rfl

theorem completes_writeString {bytes : List Byte} {counts : List Nat} (pieces : counts ≠ [])
    (positive : ∀ count ∈ counts, 0 < count) {replies : List Reply}
    (answers : replies.map said = counts.map counting) {fuel : Nat}
    (enough : counts.length ≤ fuel) (small : bytes.length < 2 ^ 31)
    (sum : counts.sum = bytes.length) :
    ∃ total after trace,
      Completes (FileDescriptor.writeString bytes fuel) sock1 replies total after trace ∧
      SameButWrites sock1 after ∧ (conversation trace).printed = [] := by
  have whole : (BufferViewList.ofString bytes).bytes = bytes := by
    simp [BufferViewList.ofString, BufferViewList.bytes]
  obtain ⟨total, after, trace, completes, same⟩ :=
    @completes_writeFrom counts pieces positive replies answers fuel enough
      { descriptor := sock1, buffer := .ofString bytes } (by rw [whole]; exact small)
      (by rw [whole]; exact sum)
  exact ⟨total, after, trace, Method.completes_get completes, same⟩

def afterRead (sock1 : FileDescriptor) (chunk : List Byte) : FileDescriptor :=
  { sock1 with
    eof := sock1.eof || decide (chunk = [])
    readCount := sock1.readCount + 1 }

theorem completes_read {chunk : List Byte} (room : chunk.length ≤ 1024 * 1024) {reply : Reply}
    (answer : said reply = giving chunk) :
    Completes (FileDescriptor.read noLimit) sock1 [reply] chunk (afterRead sock1 chunk)
      [(.read sock1.fd (min (1024 * 1024) noLimit), reply)] := by
  have size : min (1024 * 1024) noLimit = 1024 * 1024 := by decide
  have data : reply.data = some chunk := (Prod.mk.inj answer).2
  have inside : (chunk.length : Int) ≤ (min (1024 * 1024) noLimit : Nat) := by
    rw [size]
    exact Int.ofNat_le.mpr room
  have within : ¬SizeT.toSigned (min (1024 * 1024) noLimit) < (chunk.length : Int) := by
    rw [SizeT.toSigned_of_lt (by rw [size]; decide)]
    omega
  have ended : (chunk.length : Int) = 0 ↔ chunk = [] := by
    rw [Int.natCast_eq_zero, List.length_eq_zero_iff]
  have resized := FileDescriptor.resize_filled (Int.natCast_nonneg chunk.length) inside
    (Nat.min_le_left _ _) (Int.toNat_natCast _).symm
  refine Completes.bind (completes_checked "read" (.read · (min (1024 * 1024) noLimit))
    (by omega) answer) ?_
  unfold afterRead
  dsimp only
  rw [data, Option.getD_some, resized]
  by_cases empty : chunk = []
  · rw [if_pos ⟨by decide, ended.mpr empty⟩, decide_eq_true empty, Bool.or_true]
    apply Method.completes_modify
    rw [if_neg within]
    exact Method.completes_mapError rfl (Method.completes_modify (Method.completes_pure _ _))
  · rw [if_neg fun both => empty (ended.mp both.2), decide_eq_false empty, Bool.or_false]
    rw [if_neg within]
    exact Method.completes_mapError rfl (Method.completes_modify (Method.completes_pure _ _))

theorem completes_turn {chunk : List Byte} (room : chunk.length ≤ 1024 * 1024)
    (unended : sock1.eof = false) {read printed : Reply} (answer : said read = giving chunk)
    {fuel : Nat} {replies : List Reply} {after : FileDescriptor}
    {trace : List (Syscall × Reply)}
    (completes : Completes (printAll fuel) (afterRead sock1 chunk) replies () after trace) :
    Completes (printAll (fuel + 1)) sock1 (read :: printed :: replies) () after
      ((.read sock1.fd (min (1024 * 1024) noLimit), read) ::
        (.print .cout chunk, printed) :: trace) := by
  apply Method.completes_get
  rw [unended, if_neg (by decide)]
  exact Completes.bind (completes_read room answer) (Method.completes_perform completes)

def telling (chunks : List (List Byte)) : List (Int × Option (List Byte)) :=
  chunks.flatMap (fun chunk => [giving chunk, counting 0]) ++ [giving [], counting 0]

theorem completes_printAll {chunks : List (List Byte)}
    (sizes : ∀ chunk ∈ chunks, chunk ≠ [] ∧ chunk.length ≤ 1024 * 1024) {replies : List Reply}
    (answers : replies.map said = telling chunks) {fuel : Nat}
    (enough : chunks.length + 2 ≤ fuel) (unended : sock1.eof = false) :
    ∃ after trace, Completes (printAll fuel) sock1 replies () after trace ∧
      (conversation trace).printed = chunks.flatten := by
  induction chunks generalizing fuel sock1 replies with
  | nil =>
      obtain ⟨fuel, rfl⟩ : ∃ smaller, fuel = smaller + 2 := Nat.exists_eq_add_of_le' enough
      obtain ⟨read, _, rfl, answer, answers⟩ := List.map_eq_cons_iff.mp answers
      obtain ⟨printed, _, rfl, _, answers⟩ := List.map_eq_cons_iff.mp answers
      obtain rfl := List.map_eq_nil_iff.mp answers
      have ends : Completes (printAll (fuel + 1)) (afterRead sock1 []) [] ()
          (afterRead sock1 []) [] := by
        apply Method.completes_get
        rw [show (afterRead sock1 []).eof = true from Bool.or_true _, if_pos rfl]
        exact Method.completes_pure _ _
      exact ⟨_, _, completes_turn (Nat.zero_le _) unended answer ends, rfl⟩
  | cons chunk rest induction =>
      obtain ⟨fuel, rfl⟩ : ∃ smaller, fuel = smaller + 1 :=
        Nat.exists_eq_add_of_le' (Nat.le_of_add_left_le enough)
      obtain ⟨read, _, rfl, answer, answers⟩ := List.map_eq_cons_iff.mp answers
      obtain ⟨printed, replies, rfl, _, answers⟩ := List.map_eq_cons_iff.mp answers
      obtain ⟨nonempty, room⟩ := sizes chunk List.mem_cons_self
      have others : ∀ other ∈ rest, other ≠ [] ∧ other.length ≤ 1024 * 1024 :=
        fun other member => sizes other (List.mem_cons_of_mem _ member)
      have later : (afterRead sock1 chunk).eof = false := by
        simp [afterRead, unended, nonempty]
      rw [List.length_cons] at enough
      obtain ⟨after, trace, completes, shown⟩ :=
        @induction (afterRead sock1 chunk) others replies answers fuel (by omega) later
      refine ⟨after, _, completes_turn room unended answer completes, ?_⟩
      have both := printed_append
        [(.read sock1.fd (min (1024 * 1024) noLimit), read), (.print .cout chunk, printed)] trace
      rw [shown] at both
      exact both

end

/-! ## The whole program -/

/-- A server and the kernel between: the number of the socket, the address, how the three
lines of the request are taken, and what comes back. -/
structure Server where
  socket : Nat
  address : List Byte
  requestLine : List Nat
  hostLine : List Nat
  lastLines : List Nat
  chunks : List (List Byte)

structure Takes (counts : List Nat) (line : List Byte) : Prop where
  positive : ∀ count ∈ counts, 0 < count
  sum : counts.sum = line.length

structure Server.Serves (server : Server) (host path : List Byte) : Prop where
  socket : server.socket < 2 ^ 31
  address : server.address.length ≤ Address.storageSize
  requestLine : Takes server.requestLine (Webget.requestLine path)
  hostLine : Takes server.hostLine (Webget.hostLine host)
  lastLines : Takes server.lastLines Webget.lastLines
  chunks : ∀ chunk ∈ server.chunks, chunk ≠ [] ∧ chunk.length ≤ 1024 * 1024

def Server.answers (server : Server) : List (Int × Option (List Byte)) :=
  (0, some server.address) :: counting 0 ::
    (server.requestLine.map counting ++ (server.hostLine.map counting ++
      (server.lastLines.map counting ++ counting 0 ::
        (telling server.chunks ++ [counting 0]))))

def Server.turns (server : Server) : Nat :=
  server.requestLine.length + server.hostLine.length + server.lastLines.length +
    server.chunks.length + 2

theorem Takes.completes {counts : List Nat} {line : List Byte} (takes : Takes counts line)
    (something : line ≠ []) (small : line.length < 2 ^ 31) {replies : List Reply}
    (answers : replies.map said = counts.map counting) {fuel : Nat}
    (enough : counts.length ≤ fuel) (sock1 : FileDescriptor) :
    ∃ total after trace,
      Completes (FileDescriptor.writeString line fuel) sock1 replies total after trace ∧
      after.eof = sock1.eof ∧ (conversation trace).printed = [] := by
  have pieces : counts ≠ [] := by
    rintro rfl
    exact something (List.eq_nil_of_length_eq_zero takes.sum.symm)
  obtain ⟨total, after, trace, completes, same, silent⟩ :=
    @completes_writeString sock1 line counts pieces takes.positive replies answers fuel enough
      small takes.sum
  refine ⟨total, after, trace, completes, ?_, silent⟩
  rw [same]

theorem completes_ofHost {bytes hostname service : List Byte}
    (fits : bytes.length ≤ Address.storageSize) {reply : Reply}
    (answer : said reply = (0, some bytes)) (sock1 : FileDescriptor) :
    ∃ call, Completes (Address.ofHost hostname service) sock1 [reply] ⟨bytes⟩ sock1
        [(call, reply)] ∧
      (conversation [(call, reply)]).printed = [] := by
  obtain ⟨value, data⟩ := Prod.mk.inj answer
  refine ⟨_, Method.completes_perform ?_, rfl⟩
  rw [if_neg (not_not_intro value), data]
  dsimp only
  rw [if_neg (Nat.not_lt.mpr fits)]
  exact Method.completes_pure _ _

theorem completes_connect (address : Address) {reply : Reply} (answer : said reply = counting 0)
    (sock1 : FileDescriptor) :
    Completes (Socket.connect address) sock1 [reply] () sock1
      [(.connect sock1.fd address.bytes, reply)] :=
  Completes.bind (completes_checked "connect" (.connect · address.bytes) (by decide) answer)
    (Method.completes_pure _ _)

theorem completes_shutdown {reply : Reply} (answer : said reply = counting 0)
    (sock1 : FileDescriptor) :
    Completes (Socket.shutdown Socket.shutWr) sock1 [reply] () sock1.registerWrite
      [(.shutdown sock1.fd Socket.shutWr, reply)] :=
  Completes.bind (completes_checked "shutdown" (.shutdown · Socket.shutWr) (by decide) answer)
    (Method.completes_modify (Method.completes_pure _ _))

theorem completes_close {reply : Reply} (answer : said reply = counting 0)
    (sock1 : FileDescriptor) :
    Completes FileDescriptor.close sock1 [reply] ()
      { sock1 with eof := true, closed := true } [(.close sock1.fd, reply)] :=
  Completes.bind (completes_checked "close" .close (by decide) answer)
    (Method.completes_modify (Method.completes_pure _ _))

theorem completes_converse {server : Server} {host path : List Byte}
    (serves : server.Serves host path) (small : (request host path).length < 2 ^ 31)
    {replies : List Reply} (answers : replies.map said = server.answers) {fuel : Nat}
    (enough : server.turns ≤ fuel) (sock1 : FileDescriptor) (unended : sock1.eof = false) :
    ∃ after trace, Completes (converse host path fuel) sock1 replies () after trace ∧
      after.closed = true ∧ (conversation trace).printed = server.chunks.flatten := by
  have lengths : (Webget.requestLine path).length +
      ((Webget.hostLine host).length + Webget.lastLines.length) < 2 ^ 31 := by
    simpa [Webget.request] using small
  unfold Server.turns at enough
  -- The replies, call by call.
  obtain ⟨resolved, _, rfl, resolves, answers⟩ := List.map_eq_cons_iff.mp answers
  obtain ⟨connected, _, rfl, connects, answers⟩ := List.map_eq_cons_iff.mp answers
  obtain ⟨tookRequest, _, rfl, takesRequest, answers⟩ := List.map_eq_append_iff.mp answers
  obtain ⟨tookHost, _, rfl, takesHost, answers⟩ := List.map_eq_append_iff.mp answers
  obtain ⟨tookLast, _, rfl, takesLast, answers⟩ := List.map_eq_append_iff.mp answers
  obtain ⟨shut, _, rfl, shuts, answers⟩ := List.map_eq_cons_iff.mp answers
  obtain ⟨told, _, rfl, tells, answers⟩ := List.map_eq_append_iff.mp answers
  obtain ⟨closed, _, rfl, closes, answers⟩ := List.map_eq_cons_iff.mp answers
  obtain rfl := List.map_eq_nil_iff.mp answers
  -- What the body does with them.
  obtain ⟨asked, resolution, unprinted⟩ :=
    @completes_ofHost _ host (ascii "http") serves.address _ resolves sock1
  obtain ⟨_, sock2, requestTrace, wroteRequest, sameRequest, silentRequest⟩ :=
    serves.requestLine.completes (by simp [requestLine, ascii]) (by omega) takesRequest
      (show _ ≤ fuel by omega) sock1
  obtain ⟨_, sock3, hostTrace, wroteHost, sameHost, silentHost⟩ :=
    serves.hostLine.completes (by simp [hostLine, ascii]) (by omega) takesHost
      (show _ ≤ fuel by omega) sock2
  obtain ⟨_, sock4, lastTrace, wroteLast, sameLast, silentLast⟩ :=
    serves.lastLines.completes (by simp [lastLines, ascii]) (by omega) takesLast
      (show _ ≤ fuel by omega) sock3
  obtain ⟨sock5, loopTrace, printing, printed⟩ :=
    @completes_printAll sock4.registerWrite server.chunks serves.chunks told tells fuel
      (by omega) (by rw [FileDescriptor.registerWrite, sameLast, sameHost, sameRequest, unended])
  refine ⟨{ sock5 with eof := true, closed := true },
    [(asked, resolved)] ++ ([(.connect sock1.fd server.address, connected)] ++
      (requestTrace ++ (hostTrace ++ (lastTrace ++
        ([(.shutdown sock4.fd Socket.shutWr, shut)] ++
          (loopTrace ++ [(.close sock5.fd, closed)])))))), ?_, rfl, ?_⟩
  · refine Completes.bind resolution ?_
    refine Completes.bind (completes_connect _ connects sock1) ?_
    refine Completes.bind wroteRequest ?_
    refine Completes.bind wroteHost ?_
    refine Completes.bind wroteLast ?_
    refine Completes.bind (completes_shutdown shuts sock4) ?_
    exact Completes.bind printing (completes_close closes sock5)
  · simp only [printed_append, unprinted, silentRequest, silentHost, silentLast, printed]
    simp [conversation, Conversation.note]

/-- Everything the system says in a conversation with this server. -/
def Server.says (server : Server) : List (Int × Option (List Byte)) :=
  counting server.socket :: server.answers

theorem wrapper_counting {number : Nat} (small : number < 2 ^ 31) {reply : Reply}
    (answer : said reply = counting number) : Socket.wrapper reply = .ok { fd := number } := by
  obtain ⟨⟨value, errno⟩, data⟩ := reply
  obtain ⟨rfl, rfl⟩ := Prod.mk.inj answer
  exact Socket.wrapper_eq (systemCall_of_small small "socket" errno 0) (Int.natCast_nonneg number)

theorem follow_getURL (what : NetworkException → List Byte) {host path : List Byte} {fuel : Nat}
    {opened : Reply} {sock1 : FileDescriptor} (wrapped : Socket.wrapper opened = .ok sock1)
    {later : List Reply} :
    (getURL what host path fuel).follow (opened :: later) =
      let rest := ((converse host path fuel).start sock1).bind fun outcome =>
        outcome.2.destruct what >>= fun _ => return outcome.1
      ((.socket Socket.afInet Socket.sockStream, opened) :: (rest.follow later).1,
        (rest.follow later).2) := by
  simp only [getURL, Socket.new, bind, Interaction.bind, Interaction.perform,
    Interaction.follow, wrapped, pure]

theorem getURL_completes {server : Server} {host path : List Byte}
    (serves : server.Serves host path) (small : (request host path).length < 2 ^ 31)
    (what : NetworkException → List Byte) {replies : List Reply}
    (answers : replies.map said = server.says) {fuel : Nat} (enough : server.turns ≤ fuel) :
    ∃ trace, (getURL what host path fuel).follow replies = (trace, some (.ok ())) ∧
      trace.length = replies.length ∧
      (conversation trace).printed = server.chunks.flatten := by
  obtain ⟨opened, later, rfl, opens, answers⟩ := List.map_eq_cons_iff.mp answers
  have wrapped := wrapper_counting serves.socket opens
  obtain ⟨after, trace, completes, closed, printed⟩ :=
    completes_converse serves small answers enough { fd := server.socket } rfl
  have body := Interaction.follow_bind
    ((converse host path fuel).start { fd := server.socket })
    (fun outcome => outcome.2.destruct what >>= fun _ => return outcome.1) later []
    completes.followed completes.consumed
  rw [List.append_nil] at body
  dsimp only at body
  -- The socket is closed by now, so its destructor makes no call.
  rw [FileDescriptor.destruct, if_pos closed] at body
  refine ⟨(.socket Socket.afInet Socket.sockStream, opened) :: (trace ++ []), ?_, ?_, ?_⟩
  · rw [follow_getURL what wrapped]
    dsimp only
    rw [body]
    rfl
  · rw [List.append_nil, List.length_cons, List.length_cons, completes.consumed]
  · rw [← List.singleton_append, printed_append, List.append_nil, printed]
    rfl

end Sponge.Webget
