import Sponge.TCPSender.Window

namespace Sponge.TCPSender

/-! Acknowledgements that say nothing new. -/

def InvalidAck (sender : TCPSender) (ackno : WrappingInt32) : Prop :=
  ∀ number, wrap number sender.isn = ackno → number < sender.nextSeqno + 2 ^ 31 →
    sender.nextSeqno < number + 2 ^ 31 →
    sender.nextSeqno < number ∨ number < sender.ackS

/-- The ackno of an earlier acknowledgement, at most half the number space back; or a
number ahead that no longer fits into 64 bits. -/
def StaleAck (sender : TCPSender) (ackno : WrappingInt32) : Prop :=
  (∃ number, wrap number sender.isn = ackno ∧ number < sender.ackS ∧
    sender.nextSeqno ≤ number + 2 ^ 31) ∨
  (∃ number, wrap number sender.isn = ackno ∧ 2 ^ 64 ≤ number ∧
    sender.nextSeqno < number ∧ number < sender.nextSeqno + 2 ^ 31)

def KeepsWindow (sender : TCPSender) (windowSize : UInt16) : Prop :=
  sender.window = (if windowSize = 0 then 1 else windowSize) ∧
    (windowSize = 0 → sender.windowZero = true)

instance (sender : TCPSender) (windowSize : UInt16) :
    Decidable (KeepsWindow sender windowSize) :=
  inferInstanceAs (Decidable (_ ∧ (_ → _)))

section

variable {sender : TCPSender} {ackno : WrappingInt32} {created : List TCPSegment}

theorem StaleAck.invalid (stale : StaleAck sender ackno)
    (acked : sender.ackS ≤ sender.nextSeqno) : InvalidAck sender ackno := by
  intro other means below above
  rcases stale with ⟨number, wraps, old, near⟩ | ⟨number, wraps, _, ahead, near⟩
  · have turn := (wrap_eq_wrap_iff number other _).mp (wraps.trans means.symm)
    omega
  · have turn := (wrap_eq_wrap_iff number other _).mp (wraps.trans means.symm)
    omega

theorem StaleAck.unwrap_le (stale : StaleAck sender ackno)
    (acked : sender.ackS ≤ sender.nextSeqno) (windowed : Windowed sender) :
    unwrap ackno sender.isn sender.nextSeqno ≤ sender.ackS := by
  obtain ⟨meant, means, unwrapped, range⟩ :=
    unwrap_candidate ackno sender.isn sender.nextSeqno
  have bounded := windowed.bounded
  rw [unwrapped]
  rcases stale with ⟨number, wraps, old, near⟩ | ⟨number, wraps, large, ahead, near⟩
  · have turn := (wrap_eq_wrap_iff number meant _).mp (wraps.trans means.symm)
    have same : meant = number := by omega
    have := Nat.mod_le meant (2 ^ 64)
    omega
  · have turn := (wrap_eq_wrap_iff number meant _).mp (wraps.trans means.symm)
    have same : meant = number := by omega
    omega

theorem InvalidAck.stale (invalid : InvalidAck sender ackno) (windowed : Windowed sender)
    (possible : unwrap ackno sender.isn sender.nextSeqno ≤ sender.nextSeqno) :
    StaleAck sender ackno := by
  obtain ⟨meant, means, unwrapped, range⟩ :=
    unwrap_candidate ackno sender.isn sender.nextSeqno
  have bounded := windowed.bounded
  rw [unwrapped] at possible
  by_cases near : meant < sender.nextSeqno + 2 ^ 31 ∧ sender.nextSeqno < meant + 2 ^ 31
  · rcases invalid meant means near.1 near.2 with ahead | old
    · exact Or.inr ⟨meant, means, by omega, ahead, near.1⟩
    · exact Or.inl ⟨meant, means, old, by omega⟩
  · exact Or.inl ⟨meant, means, by omega, by omega⟩

theorem ackReceived_old (stock : Stock sender created)
    (old : unwrap ackno sender.isn sender.nextSeqno ≤ sender.ackS) (windowSize : UInt16) :
    sender.ackReceived ackno windowSize =
      { sender with
        window := if windowSize ≠ 0 then windowSize else 1
        windowZero := if windowSize ≠ 0 then sender.windowZero else true } := by
  have acked := stock.acked
  have timer : (if sender.ackS = sender.nextSeqno then false else sender.start) =
      sender.start := by
    rw [stock.timer]
    split
    next done => simp [done]
    next => rfl
  rw [ackReceived_eq rfl (Nat.le_trans old acked)]
  simp only [Nat.max_eq_left old, if_neg (Nat.not_lt.mpr old), timer]

theorem keepsWindow_iff (sender : TCPSender) (windowSize : UInt16) :
    ({ sender with
        window := if windowSize ≠ 0 then windowSize else 1
        windowZero := if windowSize ≠ 0 then sender.windowZero else true } : TCPSender) =
      sender ↔ KeepsWindow sender windowSize := by
  unfold KeepsWindow
  cases sender
  by_cases zero : windowSize = 0
  · simp [zero, eq_comm]
  · simp [zero, eq_comm]

end

/-- An invalid acknowledgement leaves the sender alone, unless it is a stale one with
another window. -/
theorem invalid_ack_ignored_iff {capacity : Nat} {retxTimeout : UInt16}
    {isn : WrappingInt32} {trace : Trace}
    (reached : (traces capacity retxTimeout isn).Reachable trace) (ackno : WrappingInt32)
    (windowSize : UInt16) :
    (InvalidAck trace.sender ackno →
      trace.sender.ackReceived ackno windowSize = trace.sender) ↔
    (StaleAck trace.sender ackno → KeepsWindow trace.sender windowSize) := by
  have stock := (traces_recorded reached).stock
  have windowed := traces_windowed reached
  constructor
  · intro ignored stale
    have old := stale.unwrap_le stock.acked windowed
    apply (keepsWindow_iff trace.sender windowSize).mp
    rw [← ackReceived_old stock old]
    exact ignored (stale.invalid stock.acked)
  · intro keeps invalid
    rcases trace.sender.ackReceived_cases ackno windowSize with same | ⟨_, rfl, possible⟩
    · exact same
    · have stale := invalid.stale windowed possible
      rw [ackReceived_old stock (stale.unwrap_le stock.acked windowed)]
      exact (keepsWindow_iff trace.sender windowSize).mpr (keeps stale)

theorem invalid_ack_ignored_repeated :
    let trace := (traces 10 1000 ⟨7⟩).run (traces 10 1000 ⟨7⟩).init
      [.fillWindow, .ackReceived ⟨8⟩ 5, .write [1], .fillWindow, .ackReceived ⟨9⟩ 5]
    InvalidAck trace.sender ⟨8⟩ ∧ trace.sender.ackReceived ⟨8⟩ 5 = trace.sender := by
  intro trace
  have invalid : InvalidAck trace.sender ⟨8⟩ :=
    StaleAck.invalid (Or.inl ⟨1, rfl, by decide, by decide⟩) (by decide)
  exact ⟨invalid, (invalid_ack_ignored_iff (Machine.reachable_run _ _ (by decide)) ⟨8⟩ 5).mpr
    (fun _ => by decide) invalid⟩

/-- An acknowledgement of the SYN that arrives late, after the byte that followed it was
acknowledged, brings its old window back and lets a second byte out. -/
theorem stale_ack_reopens_window :
    ∃ trace, (traces 10 1000 ⟨7⟩).Reachable trace ∧ InvalidAck trace.sender ⟨8⟩ ∧
      trace.sender.ackReceived ⟨8⟩ 5 ≠ trace.sender ∧
      trace.sender.newSegments.map (fun seg => seg.payload.str) = [[2]] ∧
      (trace.sender.ackReceived ⟨8⟩ 5).newSegments.map (fun seg => seg.payload.str) =
        [[2, 3]] :=
  ⟨_, Machine.reachable_run _ [.fillWindow, .ackReceived ⟨8⟩ 5, .write [1], .fillWindow,
    .ackReceived ⟨9⟩ 1, .write [2, 3]] (by decide),
    StaleAck.invalid (Or.inl ⟨1, rfl, by decide, by decide⟩) (by decide), by decide⟩

end Sponge.TCPSender
