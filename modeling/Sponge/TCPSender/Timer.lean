import Sponge.TCPSender.Window

namespace Sponge.TCPSender

/-! The retransmission timer. `RTO` counts down; what it is compared with here is the
time that has passed since the latest event that restarts it. -/

/-! ## Runs with few retransmissions -/

def Patient (watch : Watch) (op : Op) : Prop :=
  (watch.sender.perform op).consecutiveRetransmissions.toNat ≤ 16

instance (watch : Watch) (op : Op) : Decidable (Patient watch op) :=
  inferInstanceAs (Decidable (_ ≤ _))

/-- What the timer fields mean in terms of what was observed. -/
structure Timed (retxTimeout : UInt16) (watch : Watch) : Prop where
  initial : watch.sender.initialRetransmissionTimeout.toNat = retxTimeout.toNat
  count : watch.sender.retransnum.toNat = watch.retransmissions
  few : watch.retransmissions ≤ 16
  base : 0 < watch.retransmissions →
    watch.sender.rtoBase.toNat = retxTimeout.toNat * 2 ^ watch.retransmissions
  flag : watch.sender.windowZero = watch.zeroSeen
  latest : watch.lastWindow = some 0 → watch.zeroSeen = true
  idle : ¬ watch.sender.ackS < watch.sender.nextSeqno →
    watch.retransmissions = 0 ∧ watch.sender.rto.toNat = retxTimeout.toNat
  running : watch.zeroSeen = false → watch.sender.ackS < watch.sender.nextSeqno →
    watch.sender.rto.toNat + watch.elapsed =
      retxTimeout.toNat * 2 ^ watch.retransmissions

theorem timed_init (capacity : Nat) (retxTimeout : UInt16) (isn : WrappingInt32) :
    Timed retxTimeout (watches capacity retxTimeout isn).init where
  initial := rfl
  count := rfl
  few := Nat.zero_le _
  base := nofun
  flag := rfl
  latest := nofun
  idle := fun _ => ⟨rfl, rfl⟩
  running := nofun

section

variable {retxTimeout : UInt16} {watch : Watch} {op : Op}

/-- The flag is set by a zero window and by nothing else; nothing clears it. -/
theorem perform_windowZero (sender : TCPSender) (op : Op) :
    (sender.perform op).windowZero =
      (sender.windowZero || op.advertises sender == some 0) := by
  cases op with
  | write data => exact (Bool.or_false _).symm
  | endInput => exact (Bool.or_false _).symm
  | fillWindow => exact (fillWindow_timer sender).2.2.2.2.trans (Bool.or_false _).symm
  | ackReceived ackno windowSize =>
      change (sender.ackReceived ackno windowSize).windowZero = _
      unfold Op.advertises
      by_cases possible : unwrap ackno sender.isn sender.nextSeqno ≤ sender.nextSeqno
      · rw [ackReceived_eq rfl possible]
        by_cases zero : windowSize = 0 <;> simp [possible, zero]
      · rw [ackReceived_ignored (Nat.not_le.mp possible)]
        simp [possible]
  | tick ms =>
      obtain ⟨new, rto, rtoBase, retransnum, ticked, _⟩ := tick_cases sender ms
      change (sender.tick ms).windowZero = _
      rw [ticked]
      exact (Bool.or_false _).symm
  | sendEmptySegment => exact (Bool.or_false _).symm

theorem Timed.next_flag (timed : Timed retxTimeout watch) (op : Op) :
    (watch.next op).sender.windowZero = (watch.next op).zeroSeen :=
  (perform_windowZero watch.sender op).trans (by rw [timed.flag]; rfl)

theorem Timed.next_latest (timed : Timed retxTimeout watch) (op : Op) :
    (watch.next op).lastWindow = some 0 → (watch.next op).zeroSeen = true := by
  change (op.advertises watch.sender).or watch.lastWindow = some 0 →
    (watch.zeroSeen || op.advertises watch.sender == some 0) = true
  cases op.advertises watch.sender with
  | none =>
      intro zero
      rw [timed.latest zero]
      rfl
  | some windowSize =>
      rintro ⟨⟩
      simp

theorem zeroSeen_of_next (clear : (watch.next op).zeroSeen = false) :
    watch.zeroSeen = false :=
  (Bool.or_eq_false_iff.mp clear).1

theorem Watch.next_steady (ackS : (watch.sender.perform op).ackS = watch.sender.ackS)
    (flight : watch.sender.ackS < (watch.sender.perform op).nextSeqno →
      watch.sender.ackS < watch.sender.nextSeqno)
    (silent : ¬ op.Retransmits watch.sender (watch.sender.perform op)) :
    (watch.next op).elapsed = watch.elapsed + op.duration ∧
      (watch.next op).retransmissions = watch.retransmissions := by
  have stays : ¬ (Departs watch.sender (watch.sender.perform op) ∨
      Advances watch.sender (watch.sender.perform op)) := by
    rintro (⟨idle, departed⟩ | advanced)
    · rw [ackS] at departed
      have := flight departed
      omega
    · unfold Advances at advanced
      omega
  simp only [Watch.next, stays, silent, false_or, if_false, and_self]

theorem Timed.steady (timed : Timed retxTimeout watch)
    (initial : (watch.sender.perform op).initialRetransmissionTimeout =
      watch.sender.initialRetransmissionTimeout)
    (rto : (watch.sender.perform op).rto = watch.sender.rto)
    (rtoBase : (watch.sender.perform op).rtoBase = watch.sender.rtoBase)
    (retransnum : (watch.sender.perform op).retransnum = watch.sender.retransnum)
    (ackS : (watch.sender.perform op).ackS = watch.sender.ackS)
    (flight : watch.sender.ackS < (watch.sender.perform op).nextSeqno ↔
      watch.sender.ackS < watch.sender.nextSeqno)
    (silent : ¬ op.Retransmits watch.sender (watch.sender.perform op))
    (timeless : watch.sender.ackS < watch.sender.nextSeqno → op.duration = 0) :
    Timed retxTimeout (watch.next op) := by
  obtain ⟨elapsed, retransmissions⟩ := watch.next_steady ackS flight.mp silent
  have moved : (watch.next op).sender = watch.sender.perform op := rfl
  refine ⟨?_, ?_, ?_, ?_, timed.next_flag op, timed.next_latest op, ?_, ?_⟩
  · rw [moved, initial]
    exact timed.initial
  · rw [moved, retransnum, retransmissions]
    exact timed.count
  · rw [retransmissions]
    exact timed.few
  · rw [moved, rtoBase, retransmissions]
    exact timed.base
  · rw [moved, rto, retransmissions, ackS, flight]
    exact timed.idle
  · intro clear
    rw [moved, rto, retransmissions, ackS, flight, elapsed]
    intro flying
    rw [timeless flying, Nat.add_zero]
    exact timed.running (zeroSeen_of_next clear) flying

theorem Timed.restart (timed : Timed retxTimeout watch)
    (restarts : Departs watch.sender (watch.sender.perform op) ∨
      Advances watch.sender (watch.sender.perform op))
    (initial : (watch.sender.perform op).initialRetransmissionTimeout =
      watch.sender.initialRetransmissionTimeout)
    (rto : (watch.sender.perform op).rto.toNat = retxTimeout.toNat)
    (retransnum : (watch.sender.perform op).retransnum = 0) :
    Timed retxTimeout (watch.next op) := by
  have moved : (watch.next op).sender = watch.sender.perform op := rfl
  have elapsed : (watch.next op).elapsed = 0 := if_pos (Or.inl restarts)
  have retransmissions : (watch.next op).retransmissions = 0 := if_pos restarts
  refine ⟨?_, ?_, ?_, ?_, timed.next_flag op, timed.next_latest op, ?_, ?_⟩
  · rw [moved, initial]
    exact timed.initial
  · rw [moved, retransnum, retransmissions]
    rfl
  · rw [retransmissions]
    exact Nat.zero_le _
  · rw [retransmissions]
    exact nofun
  · intro _
    rw [moved, retransmissions]
    exact ⟨rfl, rto⟩
  · intro _ _
    rw [moved, retransmissions, elapsed, rto, Nat.pow_zero, Nat.mul_one, Nat.add_zero]

theorem timeout_fits (retxTimeout : UInt16) {count : Nat} (few : count ≤ 16) :
    retxTimeout.toNat * 2 ^ count < 2 ^ 32 :=
  calc
    retxTimeout.toNat * 2 ^ count ≤ retxTimeout.toNat * 2 ^ 16 :=
      Nat.mul_le_mul_left _ (Nat.pow_le_pow_right Nat.two_pos few)
    _ < 2 ^ 16 * 2 ^ 16 := Nat.mul_lt_mul_of_pos_right retxTimeout.toNat_lt (by decide)
    _ = 2 ^ 32 := by decide

theorem Timed.retransnum_succ (timed : Timed retxTimeout watch) :
    (watch.sender.retransnum + 1).toNat = watch.retransmissions + 1 := by
  have few := timed.few
  have one : (1 : UInt32).toNat = 1 := rfl
  rw [UInt32.toNat_add, timed.count, one]
  omega

theorem Timed.few_of_patient {ms : Nat} {seg : TCPSegment}
    (timed : Timed retxTimeout watch)
    (ticked : watch.sender.tick ms = watch.sender.retransmit seg)
    (patient : Patient watch (.tick ms)) : watch.retransmissions < 16 := by
  have few : (watch.sender.tick ms).retransnum.toNat ≤ 16 := patient
  rw [ticked] at few
  exact Nat.le_trans (Nat.le_of_eq timed.retransnum_succ.symm) few

theorem Timed.doubles (timed : Timed retxTimeout watch) (few : watch.retransmissions < 16) :
    watch.sender.doubled.toNat = retxTimeout.toNat * 2 ^ (watch.retransmissions + 1) ∧
      (if watch.sender.retransnum = 0 then watch.sender.initialRetransmissionTimeout.toNat
        else watch.sender.rtoBase.toNat) * 2 < 2 ^ 32 := by
  have fits := timeout_fits retxTimeout (Nat.succ_le_of_lt few)
  have two : (2 : UInt32).toNat = 2 := rfl
  have count := timed.count
  unfold doubled
  split
  next none =>
    rw [none] at count
    have zero : watch.retransmissions = 0 := count.symm
    rw [zero] at fits ⊢
    rw [UInt32.toNat_mul, timed.initial, two]
    omega
  next some =>
    have positive : 0 < watch.retransmissions := by
      apply Nat.pos_of_ne_zero
      intro zero
      exact some (UInt32.toNat_inj.mp (count.trans zero))
    rw [UInt32.toNat_mul, timed.base positive, two, Nat.mul_assoc, ← Nat.pow_succ]
    exact ⟨Nat.mod_eq_of_lt fits, fits⟩

theorem Timed.expire {ms : Nat} {seg : TCPSegment} (timed : Timed retxTimeout watch)
    (flying : watch.sender.ackS < watch.sender.nextSeqno)
    (ticked : watch.sender.tick ms = watch.sender.retransmit seg)
    (few : watch.retransmissions < 16) : Timed retxTimeout (watch.next (.tick ms)) := by
  have moved : (watch.next (.tick ms)).sender = watch.sender.tick ms := rfl
  have stays : ¬ (Departs watch.sender (watch.sender.perform (.tick ms)) ∨
      Advances watch.sender (watch.sender.perform (.tick ms))) := by
    change ¬ (Departs watch.sender (watch.sender.tick ms) ∨
      Advances watch.sender (watch.sender.tick ms))
    unfold Departs Advances
    rw [ticked]
    dsimp only [retransmit]
    omega
  have emits : (Op.tick ms).Retransmits watch.sender (watch.sender.perform (.tick ms)) := by
    change watch.sender.segmentsOut.length < (watch.sender.tick ms).segmentsOut.length
    rw [ticked]
    simp [retransmit]
  have elapsed : (watch.next (.tick ms)).elapsed = 0 := if_pos (Or.inr emits)
  have retransmissions :
      (watch.next (.tick ms)).retransmissions = watch.retransmissions + 1 :=
    (if_neg stays).trans (if_pos emits)
  obtain ⟨doubled, _⟩ := timed.doubles few
  refine ⟨?_, ?_, ?_, ?_, timed.next_flag _, timed.next_latest _, ?_, ?_⟩
  · rw [moved, ticked]
    exact timed.initial
  · rw [moved, ticked, retransmissions]
    exact timed.retransnum_succ
  · rw [retransmissions]
    exact few
  · intro _
    rw [moved, ticked, retransmissions]
    exact doubled
  · intro idle
    rw [moved, ticked] at idle
    exact absurd flying idle
  · intro clear _
    rw [moved, ticked, elapsed, retransmissions]
    dsimp only [retransmit]
    rw [timed.flag, zeroSeen_of_next clear, if_neg Bool.false_ne_true]
    exact doubled

theorem rto_sub {rto : UInt32} {ms : Nat} (waiting : ms < rto.toNat) :
    (rto - UInt32.ofNat ms).toNat = rto.toNat - ms := by
  have small : (UInt32.ofNat ms).toNat = ms :=
    UInt32.toNat_ofNat_of_lt' (Nat.lt_trans waiting rto.toNat_lt)
  rw [UInt32.toNat_sub_of_le, small]
  rw [UInt32.le_iff_toNat_le, small]
  exact Nat.le_of_lt waiting

theorem Timed.wait {ms : Nat} (timed : Timed retxTimeout watch)
    (flying : watch.sender.ackS < watch.sender.nextSeqno)
    (waiting : ms < watch.sender.rto.toNat)
    (ticked : watch.sender.tick ms =
      { watch.sender with rto := watch.sender.rto - UInt32.ofNat ms }) :
    Timed retxTimeout (watch.next (.tick ms)) := by
  have moved : (watch.next (.tick ms)).sender = watch.sender.tick ms := rfl
  have after : watch.sender.perform (.tick ms) =
      { watch.sender with rto := watch.sender.rto - UInt32.ofNat ms } := ticked
  obtain ⟨elapsed, retransmissions⟩ := @Watch.next_steady watch (.tick ms)
    (by rw [after]) (by rw [after]; exact id) (by rw [after]; exact Nat.lt_irrefl _)
  have left := rto_sub waiting
  refine ⟨?_, ?_, ?_, ?_, timed.next_flag _, timed.next_latest _, ?_, ?_⟩
  · rw [moved, ticked]
    exact timed.initial
  · rw [moved, ticked, retransmissions]
    exact timed.count
  · rw [retransmissions]
    exact timed.few
  · rw [moved, ticked, retransmissions]
    exact timed.base
  · intro idle
    rw [moved, ticked] at idle
    exact absurd flying idle
  · intro clear _
    have total := timed.running (zeroSeen_of_next clear) flying
    rw [moved, ticked, elapsed, retransmissions, ← total]
    dsimp only [Op.duration]
    omega

theorem Timed.next {isn : WrappingInt32} (timed : Timed retxTimeout watch)
    (recorded : Recorded isn watch.trace) (patient : Patient watch op) :
    Timed retxTimeout (watch.next op) := by
  have stock : Stock watch.sender _ := recorded.stock
  have ledger : Ledger watch.sender _ _ := recorded.ledger
  have acked := stock.acked
  cases op with
  | write data => exact timed.steady rfl rfl rfl rfl rfl Iff.rfl id (fun _ => rfl)
  | endInput => exact timed.steady rfl rfl rfl rfl rfl Iff.rfl id (fun _ => rfl)
  | sendEmptySegment => exact timed.steady rfl rfl rfl rfl rfl Iff.rfl id (fun _ => rfl)
  | fillWindow =>
      obtain ⟨initial, rto, rtoBase, retransnum, _⟩ := fillWindow_timer watch.sender
      obtain ⟨_, ackS, _, _⟩ := fillWindow_frame watch.sender
      by_cases flying : watch.sender.ackS < watch.sender.nextSeqno
      · refine timed.steady initial rto rtoBase retransnum ackS ?_ id (fun _ => rfl)
        have grows := watch.sender.nextSeqno_le_fillWindow
        exact iff_of_true (Nat.lt_of_lt_of_le flying grows) flying
      · obtain ⟨calm, fresh⟩ := timed.idle flying
        by_cases departs : watch.sender.ackS < watch.sender.fillWindow.nextSeqno
        · refine timed.restart (Or.inl ⟨by omega, ?_⟩) initial ?_ ?_
          · exact Nat.lt_of_le_of_lt (Nat.le_of_eq ackS) departs
          · exact (congrArg UInt32.toNat rto).trans fresh
          · exact retransnum.trans (UInt32.toNat_inj.mp (timed.count.trans calm))
        · exact timed.steady initial rto rtoBase retransnum ackS
            (iff_of_false departs flying) id (fun _ => rfl)
  | ackReceived ackno windowSize =>
      rcases watch.sender.ackReceived_cases ackno windowSize with
        same | ⟨newAck, unwrapped, possible⟩
      · have after : watch.sender.perform (.ackReceived ackno windowSize) = watch.sender :=
          same
        apply timed.steady <;> simp [after, Op.Retransmits, Op.duration]
      · have after : watch.sender.perform (.ackReceived ackno windowSize) = _ :=
          ackReceived_eq unwrapped possible windowSize
        by_cases advances : watch.sender.ackS < newAck
        · refine timed.restart (Or.inr ?_) ?_ ?_ ?_
          · unfold Advances
            rw [after]
            exact lt_max_of_lt_right advances
          · rw [after]
          · rw [after]
            dsimp only
            rw [if_pos advances]
            exact timed.initial
          · rw [after]
            exact if_pos advances
        · apply timed.steady <;>
            simp [after, advances, Op.Retransmits, Op.duration, Nat.not_lt.mp advances]
  | tick ms =>
      by_cases flying : watch.sender.ackS < watch.sender.nextSeqno
      · have running := stock.start_iff.mpr flying
        by_cases expired : watch.sender.rto.toNat ≤ ms
        · obtain ⟨entry, oldest⟩ := stock.exists_oldest ledger flying
          have ticked := tick_expired running expired oldest
          exact timed.expire flying ticked (timed.few_of_patient ticked patient)
        · have waiting := Nat.not_le.mp expired
          exact timed.wait flying waiting (tick_waiting running waiting)
      · have stopped : watch.sender.start = false :=
          Bool.eq_false_of_not_eq_true (fun running => flying (stock.start_iff.mp running))
        have after : watch.sender.perform (.tick ms) = watch.sender := tick_stopped stopped
        apply timed.steady <;> simp [after, Op.Retransmits, flying]

end

def patientWatches (capacity : Nat) (retxTimeout : UInt16) (isn : WrappingInt32) :
    Machine Watch Op :=
  (watches capacity retxTimeout isn).restrict Patient

instance (capacity : Nat) (retxTimeout : UInt16) (isn : WrappingInt32) (watch : Watch)
    (op : Op) : Decidable ((patientWatches capacity retxTimeout isn).guard watch op) :=
  inferInstanceAs (Decidable (_ ∧ Patient watch op))

theorem patientWatches_timed {capacity : Nat} {retxTimeout : UInt16} {isn : WrappingInt32}
    {watch : Watch} (reached : (patientWatches capacity retxTimeout isn).Reachable watch) :
    Recorded isn watch.trace ∧ Timed retxTimeout watch := by
  refine Machine.invariant (fun watch => Recorded isn watch.trace ∧ Timed retxTimeout watch)
    ?_ ?_ reached
  · exact ⟨recorded_new capacity retxTimeout isn, timed_init capacity retxTimeout isn⟩
  · rintro watch op ⟨_, patient⟩ ⟨recorded, timed⟩
    exact ⟨recorded.next op, timed.next recorded patient⟩

/-! ## The schedule -/

def Op.Nonzero : Op → Prop
  | .ackReceived _ windowSize => windowSize ≠ 0
  | _ => True

instance (op : Op) : Decidable op.Nonzero :=
  match op with
  | .ackReceived _ _ => inferInstanceAs (Decidable (_ ≠ _))
  | .write _ | .endInput | .fillWindow | .tick _ | .sendEmptySegment => .isTrue trivial

def steadyWatches (capacity : Nat) (retxTimeout : UInt16) (isn : WrappingInt32) :
    Machine Watch Op :=
  (patientWatches capacity retxTimeout isn).restrict (fun _ op => op.Nonzero)

instance (capacity : Nat) (retxTimeout : UInt16) (isn : WrappingInt32) (watch : Watch)
    (op : Op) : Decidable ((steadyWatches capacity retxTimeout isn).guard watch op) :=
  inferInstanceAs (Decidable ((patientWatches capacity retxTimeout isn).guard watch op ∧
    op.Nonzero))

/-- Something is in flight and the time for it has run out when `ms` more have passed. -/
def Due (retxTimeout : UInt16) (watch : Watch) (ms : Nat) : Prop :=
  watch.sender.ackS < watch.sender.nextSeqno ∧
    retxTimeout.toNat * 2 ^ watch.retransmissions ≤ watch.elapsed + ms

/-- The created segment with the lowest number of those not fully acknowledged. -/
structure LowestOutstanding (trace : Trace) (tile : Nat × TCPSegment) : Prop where
  placed : tile ∈ tiles (created trace.emitted)
  outstanding : trace.sender.ackS < tile.1 + tile.2.lengthInSequenceSpace
  lowest : ∀ other ∈ tiles (created trace.emitted),
    trace.sender.ackS < other.1 + other.2.lengthInSequenceSpace → tile.1 ≤ other.1

structure Scheduled (retxTimeout : UInt16) (watch : Watch) : Prop where
  count : watch.sender.consecutiveRetransmissions.toNat = watch.retransmissions
  due : ∀ ms, Due retxTimeout watch ms → ∃ tile, LowestOutstanding watch.trace tile ∧
    (watch.sender.tick ms).segmentsOut = watch.sender.segmentsOut ++ [tile.2]
  early : ∀ ms, ¬ Due retxTimeout watch ms →
    (watch.sender.tick ms).segmentsOut = watch.sender.segmentsOut
  undisturbed : ∀ op, (∀ ms, op ≠ .tick ms) →
    (watch.sender.perform op).ackS = watch.sender.ackS →
    (watch.sender.perform op).rto = watch.sender.rto
  countdown : ∀ ms, watch.sender.ackS < watch.sender.nextSeqno → ¬ Due retxTimeout watch ms →
    ms ≤ watch.sender.rto.toNat ∧
      (watch.sender.tick ms).rto.toNat = watch.sender.rto.toNat - ms
  doubling : ∀ ms, Patient watch (.tick ms) → Due retxTimeout watch ms →
    (if watch.sender.retransnum = 0 then watch.sender.initialRetransmissionTimeout.toNat
      else watch.sender.rtoBase.toNat) * 2 < 2 ^ 32 ∧
    watch.sender.retransnum.toNat + 1 < 2 ^ 32 ∧
    (watch.sender.tick ms).rto.toNat = retxTimeout.toNat * 2 ^ (watch.retransmissions + 1)

section

variable {capacity : Nat} {retxTimeout : UInt16} {isn : WrappingInt32} {watch : Watch}

theorem steadyWatches_zeroSeen
    (reached : (steadyWatches capacity retxTimeout isn).Reachable watch) :
    watch.zeroSeen = false := by
  refine Machine.invariant (fun watch => watch.zeroSeen = false) rfl ?_ reached
  rintro watch op ⟨_, nonzero⟩ clear
  apply Bool.or_eq_false_iff.mpr
  refine ⟨clear, ?_⟩
  cases op with
  | ackReceived ackno windowSize =>
      have positive : windowSize ≠ 0 := nonzero
      simp [Op.advertises, positive]
  | _ => rfl

theorem Recorded.oldest {trace : Trace} (recorded : Recorded isn trace)
    {entry : Nat × TCPSegment} (first : trace.sender.segmentsNoack.begin? = some entry) :
    ∃ tile, LowestOutstanding trace tile ∧ tile.2 = entry.2 := by
  obtain ⟨tile, placed, rfl, starts, ends⟩ := recorded.stock.oldest first
  refine ⟨tile, ⟨placed, ends, ?_⟩, rfl⟩
  intro other otherPlaced outstanding
  by_cases inside : other.1 ≤ trace.sender.ackS
  · have high := recorded.ledger.bounds placed
    rw [← recorded.ledger.total] at high
    have same := (Tiling.place_existsUnique TCPSegment.lengthInSequenceSpace
      (Nat.zero_le trace.sender.ackS) (by omega)).unique
      ⟨placed, starts, ends⟩ ⟨otherPlaced, inside, outstanding⟩
    rw [same]
  · omega

theorem Timed.due_iff (timed : Timed retxTimeout watch) (clear : watch.zeroSeen = false)
    (flying : watch.sender.ackS < watch.sender.nextSeqno) (ms : Nat) :
    Due retxTimeout watch ms ↔ watch.sender.rto.toNat ≤ ms := by
  have total := timed.running clear flying
  unfold Due
  omega

theorem undisturbed {op : Op} (timeless : ∀ ms, op ≠ .tick ms)
    (sender : TCPSender) (still : (sender.perform op).ackS = sender.ackS) :
    (sender.perform op).rto = sender.rto := by
  cases op with
  | write data => rfl
  | endInput => rfl
  | fillWindow => exact (fillWindow_timer sender).2.1
  | ackReceived ackno windowSize =>
      change (sender.ackReceived ackno windowSize).ackS = _ at still
      change (sender.ackReceived ackno windowSize).rto = _
      rcases sender.ackReceived_cases ackno windowSize with
        same | ⟨newAck, unwrapped, possible⟩
      · rw [same]
      · rw [ackReceived_eq unwrapped possible] at still ⊢
        dsimp only at still ⊢
        exact if_neg (by omega)
  | tick ms => exact absurd rfl (timeless ms)
  | sendEmptySegment => rfl

theorem Timed.due_retransmits {ms : Nat} (timed : Timed retxTimeout watch)
    (recorded : Recorded isn watch.trace) (clear : watch.zeroSeen = false)
    (due : Due retxTimeout watch ms) :
    ∃ tile, LowestOutstanding watch.trace tile ∧
      watch.sender.tick ms = watch.sender.retransmit tile.2 := by
  have stock : Stock watch.sender _ := recorded.stock
  obtain ⟨entry, oldest⟩ := stock.exists_oldest recorded.ledger due.1
  obtain ⟨tile, lowest, same⟩ := recorded.oldest oldest
  refine ⟨tile, lowest, ?_⟩
  rw [same]
  exact tick_expired (stock.start_iff.mpr due.1) ((timed.due_iff clear due.1 ms).mp due) oldest

theorem retransmission_schedule
    (reached : (steadyWatches capacity retxTimeout isn).Reachable watch) :
    Scheduled retxTimeout watch := by
  obtain ⟨recorded, timed⟩ := patientWatches_timed reached.of_restrict
  have clear := steadyWatches_zeroSeen reached
  have start : watch.sender.start = true ↔ watch.sender.ackS < watch.sender.nextSeqno :=
    recorded.stock.start_iff
  refine ⟨timed.count, ?_, ?_, fun op timeless => undisturbed timeless _, ?_, ?_⟩
  · intro ms due
    obtain ⟨tile, lowest, ticked⟩ := timed.due_retransmits recorded clear due
    exact ⟨tile, lowest, by rw [ticked]; rfl⟩
  · intro ms early
    by_cases flying : watch.sender.ackS < watch.sender.nextSeqno
    · rw [timed.due_iff clear flying] at early
      rw [tick_waiting (start.mpr flying) (Nat.not_le.mp early)]
    · rw [tick_stopped (Bool.eq_false_of_not_eq_true (fun running => flying (start.mp running)))]
  · intro ms flying early
    rw [timed.due_iff clear flying] at early
    have waiting := Nat.not_le.mp early
    rw [tick_waiting (start.mpr flying) waiting]
    exact ⟨Nat.le_of_lt waiting, rto_sub waiting⟩
  · intro ms patient due
    obtain ⟨tile, _, ticked⟩ := timed.due_retransmits recorded clear due
    have few := timed.few_of_patient ticked patient
    obtain ⟨doubled, fits⟩ := timed.doubles few
    refine ⟨fits, ?_, ?_⟩
    · rw [timed.count]
      omega
    · rw [ticked]
      dsimp only [retransmit]
      rw [timed.flag, clear, if_neg Bool.false_ne_true]
      exact doubled

end

theorem retransmission_schedule_twice :
    Scheduled 1000 ((steadyWatches 10 1000 ⟨7⟩).run (steadyWatches 10 1000 ⟨7⟩).init
      [.fillWindow, .tick 999, .write [1], .tick 1, .ackReceived ⟨7⟩ 5, .fillWindow,
        .tick 1999, .tick 1]) :=
  retransmission_schedule (Machine.reachable_run _ _ (by decide))

/-! ## Back-off and windows of zero -/

/-- The timeout armed is the one for the current window unless a window of zero was
advertised some time ago: the flag it leaves is never taken back. -/
theorem backoff_follows_window_iff {capacity : Nat} {retxTimeout : UInt16}
    {isn : WrappingInt32} {watch : Watch} {ms : Nat} (positive : 1 ≤ retxTimeout)
    (reached : (patientWatches capacity retxTimeout isn).Reachable watch)
    (patient : Patient watch (.tick ms)) (running : watch.sender.start = true)
    (expired : watch.sender.rto.toNat ≤ ms) :
    (watch.sender.tick ms).rto.toNat =
        (if watch.lastWindow = some 0 then retxTimeout.toNat
          else retxTimeout.toNat *
            2 ^ (watch.sender.tick ms).consecutiveRetransmissions.toNat) ↔
      (watch.lastWindow = some 0 ∨ watch.zeroSeen = false) := by
  obtain ⟨recorded, timed⟩ := patientWatches_timed reached
  have stock : Stock watch.sender _ := recorded.stock
  obtain ⟨entry, oldest⟩ := stock.exists_oldest recorded.ledger (stock.start_iff.mp running)
  have ticked := tick_expired running expired oldest
  obtain ⟨doubled, _⟩ := timed.doubles (timed.few_of_patient ticked patient)
  have count : (watch.sender.tick ms).consecutiveRetransmissions.toNat =
      watch.retransmissions + 1 := by
    rw [ticked]
    exact timed.retransnum_succ
  have armed : (watch.sender.tick ms).rto.toNat =
      if watch.zeroSeen then retxTimeout.toNat
      else retxTimeout.toNat * 2 ^ (watch.retransmissions + 1) := by
    rw [ticked, ← timed.flag]
    dsimp only [retransmit]
    split
    next => exact timed.initial
    next => exact doubled
  rw [armed, count]
  by_cases zero : watch.lastWindow = some 0
  · simp [zero, timed.latest zero]
  · cases seen : watch.zeroSeen with
    | false => simp [zero]
    | true =>
        have atLeast : 1 ≤ retxTimeout.toNat := UInt16.le_iff_toNat_le.mp positive
        have longer : 1 < 2 ^ (watch.retransmissions + 1) :=
          Nat.one_lt_two_pow (Nat.succ_ne_zero _)
        have differ : retxTimeout.toNat ≠
            retxTimeout.toNat * 2 ^ (watch.retransmissions + 1) :=
          Nat.ne_of_lt (lt_mul_of_one_lt_right atLeast longer)
        simp [zero, differ]

theorem backoff_follows_window_second :
    let watch := (patientWatches 10 1000 ⟨7⟩).run (patientWatches 10 1000 ⟨7⟩).init
      [.fillWindow, .ackReceived ⟨8⟩ 5, .write [1], .fillWindow, .tick 1000]
    (watch.sender.tick 2000).rto.toNat =
      (if watch.lastWindow = some 0 then 1000
        else 1000 * 2 ^ (watch.sender.tick 2000).consecutiveRetransmissions.toNat) :=
  (@backoff_follows_window_iff 10 1000 ⟨7⟩ _ 2000 (by decide)
    (Machine.reachable_run _ _ (by decide)) (by decide) (by decide) (by decide)).mpr
    (Or.inr (by decide))

/-- The window is open again and the segment in flight times out: the timeout is not
doubled, as if the window were still zero. -/
theorem zero_window_disables_backoff :
    ∃ watch, (patientWatches 10 1000 ⟨7⟩).Reachable watch ∧
      watch.lastWindow = some 5 ∧ watch.sender.start = true ∧
      watch.sender.rto.toNat = 1000 ∧
      (watch.sender.tick 1000).consecutiveRetransmissions = 1 ∧
      (watch.sender.tick 1000).rto.toNat = 1000 ∧
      (watch.sender.tick 1000).rto.toNat ≠
        1000 * 2 ^ (watch.sender.tick 1000).consecutiveRetransmissions.toNat :=
  ⟨_, Machine.reachable_run _ [.fillWindow, .ackReceived ⟨8⟩ 0, .write [1], .fillWindow,
    .ackReceived ⟨8⟩ 5] (by decide), by decide⟩

end Sponge.TCPSender
