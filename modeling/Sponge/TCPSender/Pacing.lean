import Sponge.TCPSender.Timer

namespace Sponge.TCPSender

/-! How often segments are sent again: over a whole connection, and while one of them
stays unacknowledged. -/

def Restarts (watch : Watch) (op : Op) : Prop :=
  Departs watch.sender (watch.sender.perform op) ∨
    Advances watch.sender (watch.sender.perform op)

instance (watch : Watch) (op : Op) : Decidable (Restarts watch op) :=
  inferInstanceAs (Decidable (_ ∨ _))

/-- A sender and a clock: the time passed to `tick` in all and since the timer was last
started afresh, and the number of segments that were sent again. -/
structure Meter where
  watch : Watch
  time : Nat := 0
  spell : Nat := 0
  retransmitted : Nat := 0
  deriving DecidableEq

def Meter.next (meter : Meter) (op : Op) : Meter where
  watch := meter.watch.next op
  time := meter.time + op.duration
  spell := if Restarts meter.watch op then 0 else meter.spell + op.duration
  retransmitted :=
    if op.Retransmits meter.watch.sender (meter.watch.sender.perform op) then
      meter.retransmitted + 1
    else meter.retransmitted

def meters (capacity : Nat) (retxTimeout : UInt16) (isn : WrappingInt32) :
    Machine Meter Op where
  init := { watch := (patientWatches capacity retxTimeout isn).init }
  guard := fun meter op => (patientWatches capacity retxTimeout isn).guard meter.watch op
  next := Meter.next

instance (capacity : Nat) (retxTimeout : UInt16) (isn : WrappingInt32) (meter : Meter)
    (op : Op) : Decidable ((meters capacity retxTimeout isn).guard meter op) :=
  inferInstanceAs
    (Decidable ((patientWatches capacity retxTimeout isn).guard meter.watch op))

/-! ## What an operation does to the timer -/

inductive Beat (retxTimeout : UInt16) (watch : Watch) (op : Op) : Prop where
  | rests (still : ¬ Restarts watch op)
      (silent : ¬ op.Retransmits watch.sender (watch.sender.perform op))
      (rto : (watch.sender.perform op).rto = watch.sender.rto)
  | restarts (restarts : Restarts watch op)
      (silent : ¬ op.Retransmits watch.sender (watch.sender.perform op))
      (rto : (watch.sender.perform op).rto.toNat = retxTimeout.toNat)
  | counts (still : ¬ Restarts watch op)
      (silent : ¬ op.Retransmits watch.sender (watch.sender.perform op))
      (rto : (watch.sender.perform op).rto.toNat + op.duration = watch.sender.rto.toNat)
  | expires (still : ¬ Restarts watch op)
      (emits : op.Retransmits watch.sender (watch.sender.perform op))
      (flying : watch.sender.ackS < watch.sender.nextSeqno)
      (due : watch.sender.rto.toNat ≤ op.duration)
      (rto : (watch.sender.perform op).rto.toNat =
        if watch.zeroSeen then retxTimeout.toNat
        else retxTimeout.toNat * 2 ^ (watch.retransmissions + 1))

section

variable {retxTimeout : UInt16} {isn : WrappingInt32} {watch : Watch} {op : Op}

theorem not_restarts (ackS : (watch.sender.perform op).ackS = watch.sender.ackS)
    (flight : watch.sender.ackS < (watch.sender.perform op).nextSeqno →
      watch.sender.ackS < watch.sender.nextSeqno) : ¬ Restarts watch op := by
  rintro (⟨idle, departed⟩ | advanced)
  · rw [ackS] at departed
    exact Nat.ne_of_lt (flight departed) idle
  · exact Nat.ne_of_gt advanced ackS

theorem Timed.tick_beat (timed : Timed retxTimeout watch) (recorded : Recorded isn watch.trace)
    {ms : Nat} (patient : Patient watch (.tick ms)) : Beat retxTimeout watch (.tick ms) := by
  have stock : Stock watch.sender _ := recorded.stock
  have ledger : Ledger watch.sender _ _ := recorded.ledger
  by_cases flying : watch.sender.ackS < watch.sender.nextSeqno
  · have running := stock.start_iff.mpr flying
    by_cases expired : watch.sender.rto.toNat ≤ ms
    · obtain ⟨entry, oldest⟩ := stock.exists_oldest ledger flying
      have ticked : watch.sender.perform (.tick ms) = watch.sender.retransmit entry.2 :=
        tick_expired running expired oldest
      obtain ⟨doubled, _⟩ := timed.doubles (timed.few_of_patient ticked patient)
      refine .expires (not_restarts ?_ ?_) ?_ flying expired ?_
      · rw [ticked]
        rfl
      · exact fun _ => flying
      · rw [ticked]
        simp [Op.Retransmits, retransmit]
      · rw [ticked, ← timed.flag]
        dsimp only [retransmit]
        split
        next => exact timed.initial
        next => exact doubled
    · have waiting := Nat.not_le.mp expired
      have ticked : watch.sender.perform (.tick ms) = _ := tick_waiting running waiting
      refine .counts (not_restarts ?_ ?_) ?_ ?_
      · rw [ticked]
      · exact fun _ => flying
      · rw [ticked]
        exact Nat.lt_irrefl _
      · rw [ticked]
        dsimp only [Op.duration]
        rw [rto_sub waiting]
        exact Nat.sub_add_cancel (Nat.le_of_lt waiting)
  · have stopped : watch.sender.start = false :=
      Bool.eq_false_of_not_eq_true (fun running => flying (stock.start_iff.mp running))
    have ticked : watch.sender.perform (.tick ms) = watch.sender := tick_stopped stopped
    refine .rests (not_restarts ?_ ?_) ?_ ?_
    · rw [ticked]
    · rw [ticked]
      exact id
    · rw [ticked]
      exact Nat.lt_irrefl _
    · rw [ticked]

theorem Timed.beat (timed : Timed retxTimeout watch) (recorded : Recorded isn watch.trace)
    (patient : Patient watch op) : Beat retxTimeout watch op := by
  have acked : watch.sender.ackS ≤ watch.sender.nextSeqno := recorded.stock.acked
  cases op with
  | write data => exact .rests (not_restarts rfl id) id rfl
  | endInput => exact .rests (not_restarts rfl id) id rfl
  | sendEmptySegment => exact .rests (not_restarts rfl id) id rfl
  | tick ms => exact timed.tick_beat recorded patient
  | fillWindow =>
      have rto : (watch.sender.perform .fillWindow).rto = watch.sender.rto :=
        (fillWindow_timer watch.sender).2.1
      have ackS : (watch.sender.perform .fillWindow).ackS = watch.sender.ackS :=
        (fillWindow_frame watch.sender).2.1
      by_cases restarts : Restarts watch .fillWindow
      · refine .restarts restarts id ?_
        rcases restarts with ⟨idle, _⟩ | advanced
        · rw [rto]
          exact (timed.idle (Nat.not_lt.mpr (Nat.le_of_eq idle.symm))).2
        · exact absurd ackS (Nat.ne_of_gt advanced)
      · exact .rests restarts id rto
  | ackReceived ackno windowSize =>
      rcases watch.sender.ackReceived_cases ackno windowSize with
        same | ⟨newAck, unwrapped, possible⟩
      · have after : watch.sender.perform (.ackReceived ackno windowSize) = watch.sender :=
          same
        refine .rests (not_restarts ?_ ?_) id ?_
        · rw [after]
        · rw [after]
          exact id
        · rw [after]
      · have after : watch.sender.perform (.ackReceived ackno windowSize) = _ :=
          ackReceived_eq unwrapped possible windowSize
        by_cases advances : watch.sender.ackS < newAck
        · refine .restarts (Or.inr ?_) id ?_
          · unfold Advances
            rw [after]
            exact lt_max_of_lt_right advances
          · rw [after]
            dsimp only
            rw [if_pos advances]
            exact timed.initial
        · refine .rests (not_restarts ?_ ?_) id ?_
          · rw [after]
            exact Nat.max_eq_left (Nat.not_lt.mp advances)
          · rw [after]
            exact id
          · rw [after]
            exact if_neg advances

/-! ## Over a whole connection -/

/-- The timer is never set for less than the initial timeout, so whatever is left of it
pays for the next retransmission. -/
structure Metered (retxTimeout : UInt16) (meter : Meter) : Prop where
  paid : retxTimeout.toNat * meter.retransmitted ≤ meter.time
  ahead : retxTimeout.toNat * (meter.retransmitted + 1) ≤
    meter.time + meter.watch.sender.rto.toNat

theorem metered_init (capacity : Nat) (retxTimeout : UInt16) (isn : WrappingInt32) :
    Metered retxTimeout (meters capacity retxTimeout isn).init := by
  refine ⟨Nat.le_refl _, ?_⟩
  change retxTimeout.toNat * 1 ≤ 0 + retxTimeout.toNat
  rw [Nat.mul_one, Nat.zero_add]

theorem armed_le (retxTimeout : UInt16) (zeroSeen : Bool) (count : Nat) :
    retxTimeout.toNat ≤
      if zeroSeen then retxTimeout.toNat else retxTimeout.toNat * 2 ^ count := by
  split
  next => exact Nat.le_refl _
  next => exact Nat.le_mul_of_pos_right _ (Nat.two_pow_pos _)

theorem Metered.silent {meter : Meter} (metered : Metered retxTimeout meter)
    (silent : ¬ op.Retransmits meter.watch.sender (meter.watch.sender.perform op))
    (left : meter.watch.sender.rto.toNat ≤
        (meter.watch.sender.perform op).rto.toNat + op.duration ∨
      retxTimeout.toNat ≤ (meter.watch.sender.perform op).rto.toNat) :
    Metered retxTimeout (meter.next op) := by
  obtain ⟨paid, ahead⟩ := metered
  have moved : (meter.next op).watch.sender = meter.watch.sender.perform op := rfl
  have time : (meter.next op).time = meter.time + op.duration := rfl
  have retransmitted : (meter.next op).retransmitted = meter.retransmitted := if_neg silent
  rw [Nat.mul_succ] at ahead
  refine ⟨?_, ?_⟩
  · rw [retransmitted, time]
    omega
  · rw [retransmitted, time, moved, Nat.mul_succ]
    omega

theorem Metered.next {meter : Meter} (metered : Metered retxTimeout meter)
    (beat : Beat retxTimeout meter.watch op) : Metered retxTimeout (meter.next op) := by
  cases beat with
  | rests still silent rto =>
      apply metered.silent silent
      rw [rto]
      exact Or.inl (Nat.le_add_right _ _)
  | restarts restarts silent rto => exact metered.silent silent (Or.inr (Nat.le_of_eq rto.symm))
  | counts still silent rto => exact metered.silent silent (Or.inl (Nat.le_of_eq rto.symm))
  | expires still emits flying due rto =>
      obtain ⟨paid, ahead⟩ := metered
      have moved : (meter.next op).watch.sender = meter.watch.sender.perform op := rfl
      have time : (meter.next op).time = meter.time + op.duration := rfl
      have retransmitted : (meter.next op).retransmitted = meter.retransmitted + 1 :=
        if_pos emits
      have armed := armed_le retxTimeout meter.watch.zeroSeen (meter.watch.retransmissions + 1)
      rw [← rto] at armed
      refine ⟨?_, ?_⟩
      · rw [retransmitted, time]
        omega
      · rw [retransmitted, time, moved, Nat.mul_succ]
        omega

end

section

variable {capacity : Nat} {retxTimeout : UInt16} {isn : WrappingInt32} {meter : Meter}
  {allowed : Meter → Op → Prop}

theorem meters_invariant (Holds : Meter → Prop)
    (base : Holds (meters capacity retxTimeout isn).init)
    (step : ∀ meter op, Timed retxTimeout meter.watch → Beat retxTimeout meter.watch op →
      allowed meter op → Holds meter → Holds (meter.next op))
    (reached : ((meters capacity retxTimeout isn).restrict allowed).Reachable meter) :
    Timed retxTimeout meter.watch ∧ Holds meter := by
  have all : Recorded isn meter.watch.trace ∧ Timed retxTimeout meter.watch ∧ Holds meter := by
    refine Machine.invariant
      (fun meter => Recorded isn meter.watch.trace ∧ Timed retxTimeout meter.watch ∧ Holds meter)
      ?_ ?_ reached
    · exact ⟨recorded_new capacity retxTimeout isn, timed_init capacity retxTimeout isn, base⟩
    · rintro meter op ⟨⟨_, patient⟩, permitted⟩ ⟨recorded, timed, holds⟩
      exact ⟨recorded.next op, timed.next recorded patient,
        step meter op timed (timed.beat recorded patient) permitted holds⟩
  exact all.2

end

/-- Retransmissions are rate limited, whatever the peer acknowledges and advertises: on
average no more than one in each initial timeout. -/
theorem retransmissions_rate_limited {capacity : Nat} {retxTimeout : UInt16}
    {isn : WrappingInt32} {meter : Meter}
    (reached : (meters capacity retxTimeout isn).Reachable meter) :
    retxTimeout.toNat * meter.retransmitted ≤ meter.time := by
  have invariant := meters_invariant (Metered retxTimeout)
    (metered_init capacity retxTimeout isn)
    (fun meter op _ beat _ metered => metered.next beat) reached.unrestricted
  exact invariant.2.paid

theorem retransmissions_rate_limited_thrice :
    let meter := (meters 10 1000 ⟨7⟩).run (meters 10 1000 ⟨7⟩).init
      [.fillWindow, .tick 999, .tick 1, .tick 2500, .ackReceived ⟨8⟩ 0, .write [1],
        .fillWindow, .tick 700, .tick 300]
    meter.retransmitted = 3 ∧ 1000 * meter.retransmitted ≤ meter.time :=
  ⟨by decide, @retransmissions_rate_limited 10 1000 ⟨7⟩ _
    (Machine.reachable_run _ _ (by decide))⟩

/-! ## While nothing is acknowledged -/

def Ticking (period : Nat) (_ : Meter) (op : Op) : Prop :=
  op.Nonzero ∧ op.duration ≤ period

instance (period : Nat) (meter : Meter) (op : Op) : Decidable (Ticking period meter op) :=
  inferInstanceAs (Decidable (_ ∧ _))

def tickingMeters (capacity : Nat) (retxTimeout : UInt16) (isn : WrappingInt32)
    (period : Nat) : Machine Meter Op :=
  (meters capacity retxTimeout isn).restrict (Ticking period)

instance (capacity : Nat) (retxTimeout : UInt16) (isn : WrappingInt32) (period : Nat)
    (meter : Meter) (op : Op) :
    Decidable ((tickingMeters capacity retxTimeout isn period).guard meter op) :=
  inferInstanceAs (Decidable ((meters capacity retxTimeout isn).guard meter op ∧
    Ticking period meter op))

/-- The retransmissions so far have taken one timeout each, doubled from one to the next,
and each was late by no more than a tick. -/
structure Paced (retxTimeout : UInt16) (period : Nat) (meter : Meter) : Prop where
  atLeast : retxTimeout.toNat * 2 ^ meter.watch.retransmissions + meter.watch.elapsed ≤
    retxTimeout.toNat + meter.spell
  atMost : retxTimeout.toNat + meter.spell ≤
    retxTimeout.toNat * 2 ^ meter.watch.retransmissions + meter.watch.elapsed +
      meter.watch.retransmissions * period

section

variable {retxTimeout : UInt16} {period : Nat} {meter : Meter} {op : Op}

theorem Paced.steady (paced : Paced retxTimeout period meter)
    (still : ¬ Restarts meter.watch op)
    (silent : ¬ op.Retransmits meter.watch.sender (meter.watch.sender.perform op)) :
    Paced retxTimeout period (meter.next op) := by
  obtain ⟨atLeast, atMost⟩ := paced
  have elapsed : (meter.next op).watch.elapsed = meter.watch.elapsed + op.duration :=
    if_neg (not_or.mpr ⟨still, silent⟩)
  have count : (meter.next op).watch.retransmissions = meter.watch.retransmissions :=
    (if_neg still).trans (if_neg silent)
  have spell : (meter.next op).spell = meter.spell + op.duration := if_neg still
  refine ⟨?_, ?_⟩
  · rw [elapsed, count, spell]
    omega
  · rw [elapsed, count, spell]
    omega

theorem paced_restart (restarts : Restarts meter.watch op) :
    Paced retxTimeout period (meter.next op) := by
  have elapsed : (meter.next op).watch.elapsed = 0 := if_pos (Or.inl restarts)
  have count : (meter.next op).watch.retransmissions = 0 := if_pos restarts
  have spell : (meter.next op).spell = 0 := if_pos restarts
  refine ⟨?_, ?_⟩
  · rw [elapsed, count, spell, Nat.pow_zero, Nat.mul_one]
  · rw [elapsed, count, spell, Nat.pow_zero, Nat.mul_one, Nat.zero_mul]

theorem Paced.expire (paced : Paced retxTimeout period meter)
    (timed : Timed retxTimeout meter.watch) (clear : meter.watch.zeroSeen = false)
    (still : ¬ Restarts meter.watch op)
    (emits : op.Retransmits meter.watch.sender (meter.watch.sender.perform op))
    (flying : meter.watch.sender.ackS < meter.watch.sender.nextSeqno)
    (due : meter.watch.sender.rto.toNat ≤ op.duration) (ticking : op.duration ≤ period) :
    Paced retxTimeout period (meter.next op) := by
  obtain ⟨atLeast, atMost⟩ := paced
  have running := timed.running clear flying
  have elapsed : (meter.next op).watch.elapsed = 0 := if_pos (Or.inr emits)
  have count : (meter.next op).watch.retransmissions = meter.watch.retransmissions + 1 :=
    (if_neg still).trans (if_pos emits)
  have spell : (meter.next op).spell = meter.spell + op.duration := if_neg still
  have doubles : retxTimeout.toNat * 2 ^ (meter.watch.retransmissions + 1) =
      retxTimeout.toNat * 2 ^ meter.watch.retransmissions +
        retxTimeout.toNat * 2 ^ meter.watch.retransmissions := by
    rw [Nat.pow_succ, Nat.mul_two, Nat.mul_add]
  refine ⟨?_, ?_⟩
  · rw [elapsed, count, spell, doubles]
    omega
  · rw [elapsed, count, spell, doubles, Nat.succ_mul]
    omega

theorem Paced.next (paced : Paced retxTimeout period meter)
    (timed : Timed retxTimeout meter.watch) (clear : meter.watch.zeroSeen = false)
    (beat : Beat retxTimeout meter.watch op) (ticking : op.duration ≤ period) :
    Paced retxTimeout period (meter.next op) := by
  cases beat with
  | rests still silent _ => exact paced.steady still silent
  | restarts restarts _ _ => exact paced_restart restarts
  | counts still silent _ => exact paced.steady still silent
  | expires still emits flying due _ =>
      exact paced.expire timed clear still emits flying due ticking

end

/-- Exponential back-off over time. While an acknowledgement is missing, the `k`-th
retransmission in a row happens `T (2 ^ k - 1)` after the timer was started, late by no
more than `k` ticks. -/
theorem retransmissions_back_off {capacity : Nat} {retxTimeout : UInt16}
    {isn : WrappingInt32} {period : Nat} {meter : Meter}
    (reached : (tickingMeters capacity retxTimeout isn period).Reachable meter) :
    let count := meter.watch.sender.consecutiveRetransmissions.toNat
    retxTimeout.toNat * (2 ^ count - 1) + meter.watch.elapsed ≤ meter.spell ∧
      meter.spell ≤
        retxTimeout.toNat * (2 ^ count - 1) + meter.watch.elapsed + count * period := by
  intro count
  have clear : meter.watch.zeroSeen = false := by
    have steady : (steadyWatches capacity retxTimeout isn).Reachable meter.watch := by
      apply @Machine.Reachable.map _ _ _ _ (steadyWatches capacity retxTimeout isn)
        Meter.watch rfl _ _ reached
      intro meter op allowed
      exact ⟨⟨allowed.1, allowed.2.1⟩, rfl⟩
    exact steadyWatches_zeroSeen steady
  obtain ⟨timed, paced⟩ := meters_invariant
    (fun meter => meter.watch.zeroSeen = false → Paced retxTimeout period meter)
    (fun _ => ⟨by simp [meters, patientWatches, Machine.restrict, watches],
      by simp [meters, patientWatches, Machine.restrict, watches]⟩)
    (fun meter op timed beat ticking paced clear =>
      have before := zeroSeen_of_next clear
      (paced before).next timed before beat ticking.2) reached
  obtain ⟨atLeast, atMost⟩ := paced clear
  have same : count = meter.watch.retransmissions := timed.count
  have more : retxTimeout.toNat ≤ retxTimeout.toNat * 2 ^ meter.watch.retransmissions :=
    Nat.le_mul_of_pos_right _ (Nat.two_pow_pos _)
  rw [same, Nat.mul_sub, Nat.mul_one]
  exact ⟨by omega, by omega⟩

theorem retransmissions_back_off_second :
    let ops := [Op.fillWindow, .tick 900, .tick 900, .tick 900, .tick 900, .tick 900]
    let meter := (tickingMeters 10 1000 ⟨7⟩ 900).run (tickingMeters 10 1000 ⟨7⟩ 900).init ops
    let count := meter.watch.sender.consecutiveRetransmissions.toNat
    count = 2 ∧ UInt16.toNat 1000 * (2 ^ count - 1) + meter.watch.elapsed ≤ meter.spell ∧
      meter.spell ≤ UInt16.toNat 1000 * (2 ^ count - 1) + meter.watch.elapsed + count * 900 :=
  ⟨by decide, retransmissions_back_off (Machine.reachable_run _ _ (by decide))⟩

end Sponge.TCPSender
