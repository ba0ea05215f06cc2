import Sponge.StreamReassembler.Refinement

namespace Sponge.StreamReassembler

open Fragment

/-! Two runs that were shown the same positions cannot be told apart, whatever the order,
the overlaps and the repetitions in which they were shown them. -/

/-- What a caller can tell of two runs, and the notes they took of them. -/
structure Alike (first second : Observed) : Prop where
  positions : first.positions = second.positions
  wholeEof : first.wholeEof = second.wholeEof
  consumed : first.consumed = second.consumed
  streamOut : first.reassembler.streamOut = second.reassembler.streamOut
  windowEnd : first.reassembler.windowEnd = second.reassembler.windowEnd
  unassembledBytes :
    first.reassembler.unassembledBytes = second.reassembler.unassembledBytes
  empty : first.reassembler.empty = second.reassembler.empty

structure Standing (source : List Byte) (capacity : Nat) (observed : Observed) : Prop where
  tracks : Tracks source observed
  capacity : observed.reassembler.capacity = capacity
  sane : observed.reassembler.output.error = false

def Call.shows (windowEnd : Nat) : Call → Finset Nat
  | .pushSubstring data index _ =>
      (Finset.Ico index (index + data.length)).filter (· < windowEnd)
  | .read _ => ∅

def Call.ends (windowEnd : Nat) : Call → Bool
  | .pushSubstring data index eof => eof && decide (index + data.length ≤ windowEnd)
  | .read _ => false

def Call.pushes : Call → Bool
  | .pushSubstring _ _ _ => true
  | .read _ => false

theorem Carries.readCount {source consumed : List Byte} {reassembler : StreamReassembler}
    (carries : Carries source consumed reassembler) :
    reassembler.output.readCount = consumed.length := by
  have content := congrArg List.length carries.content
  rw [List.length_append, List.length_take, Nat.min_eq_left carries.front,
    carries.sound.written, carries.sound.valid.counted] at content
  omega

section

variable {source : List Byte} {capacity : Nat} {observed first second : Observed}

theorem standing_init (source : List Byte) (capacity : Nat) :
    Standing source capacity (unwrappedRun source capacity).init :=
  ⟨unwrappedRun_tracks Machine.reachable_init, rfl, rfl⟩

theorem next_positions (observed : Observed) (call : Call) :
    (observed.next call).positions =
      observed.positions ∪ call.shows observed.reassembler.windowEnd := by
  cases call with
  | pushSubstring data index eof => rfl
  | read len => exact (Finset.union_empty _).symm

theorem next_wholeEof (observed : Observed) (call : Call) :
    (observed.next call).wholeEof =
      (observed.wholeEof || call.ends observed.reassembler.windowEnd) := by
  cases call with
  | pushSubstring data index eof => rfl
  | read len => exact (Bool.or_false _).symm

theorem Standing.push_output (standing : Standing source capacity observed)
    {data : List Byte} {index : Nat} {eof : Bool}
    (allowed : (unwrappedRun source capacity).guard observed (.pushSubstring data index eof)) :
    (observed.reassembler.pushSubstring data index eof).output.readCount =
        observed.reassembler.output.readCount ∧
      (observed.reassembler.pushSubstring data index eof).output.error =
        observed.reassembler.output.error := by
  have pushable : observed.reassembler.Pushable data index :=
    ⟨allowed.2.1, allowed.1.2.2, allowed.2.2⟩
  rw [standing.tracks.carries.sound.push_output pushable]
  exact ⟨rfl, rfl⟩

theorem Standing.next (standing : Standing source capacity observed) {call : Call}
    (allowed : (unwrappedRun source capacity).guard observed call) :
    Standing source capacity (observed.next call) := by
  cases call with
  | pushSubstring data index eof =>
      exact ⟨standing.tracks.push allowed.1 allowed.2,
        (push_capacity _ _ _ _).trans standing.capacity,
        (standing.push_output allowed).2.trans standing.sane⟩
  | read len =>
      refine ⟨standing.tracks.read len, standing.capacity, ?_⟩
      change (observed.reassembler.output.read len).2.error = false
      rw [ByteStream.read_eq]
      exact standing.sane

/-! ## The notes determine what the caller sees -/

/-- The front is the least position not shown, so the same positions put it in the same
place. -/
theorem RefinesPositions.front_le (refines : RefinesPositions source first)
    (other : RefinesPositions source second) (same : first.positions = second.positions) :
    first.reassembler.streamOut.bytesWritten ≤ second.reassembler.streamOut.bytesWritten := by
  apply Nat.le_of_not_lt
  intro behind
  apply other.frontNew
  rw [← same]
  exact refines.frontLeast _ behind

theorem Standing.alike (standing : Standing source capacity first)
    (other : Standing source capacity second)
    (positions : first.positions = second.positions)
    (wholeEof : first.wholeEof = second.wholeEof)
    (consumed : first.consumed = second.consumed) : Alike first second := by
  have refines := standing.tracks.refines
  have refinesOther := other.tracks.refines
  have carries := standing.tracks.carries
  have carriesOther := other.tracks.carries
  have capacities := standing.capacity.trans other.capacity.symm
  have front : first.reassembler.streamOut.bytesWritten =
      second.reassembler.streamOut.bytesWritten :=
    Nat.le_antisymm (refines.front_le refinesOther positions)
      (refinesOther.front_le refines positions.symm)
  have buffered : first.reassembler.streamOut.bts = second.reassembler.streamOut.bts := by
    have content := refines.output
    rw [front, ← refinesOther.output, consumed] at content
    exact List.append_cancel_left content
  have sized : first.reassembler.output.bSize = second.reassembler.output.bSize := by
    rw [carries.sound.room, carriesOther.sound.room, capacities]
  have read : first.reassembler.output.readCount = second.reassembler.output.readCount := by
    rw [carries.readCount, carriesOther.readCount, consumed]
  have ended : first.reassembler.streamOut.inputEnded =
      second.reassembler.streamOut.inputEnded := by
    rw [Bool.eq_iff_iff, refines.ended, refinesOther.ended, front, wholeEof]
  have unassembled : first.reassembler.unassembledBytes =
      second.reassembler.unassembledBytes := by
    rw [refines.unassembled, refinesOther.unassembled, front, positions]
  refine ⟨positions, wholeEof, consumed, ?_, ?_, unassembled, ?_⟩
  · have fields := (ByteStream.mk.injEq _ _ _ _ _ _ _ _ _ _ _ _).mpr
      ⟨buffered, sized, read, front, ended, standing.sane.trans other.sane.symm⟩
    exact fields
  · exact congrArg₂ (· + ·) read capacities
  · unfold StreamReassembler.empty
    rw [unassembled]

/-! ## Being alike is kept by every further call -/

theorem guard_congr {call : Call}
    (window : first.reassembler.windowEnd = second.reassembler.windowEnd) :
    (unwrappedRun source capacity).guard first call ↔
      (unwrappedRun source capacity).guard second call := by
  cases call with
  | pushSubstring data index eof =>
      change (_ ∧ _ ∧ _ ≤ _) ∧ _ < _ ∧ _ ↔ _
      rw [window]
      exact Iff.rfl
  | read len => exact Iff.rfl

theorem Alike.next (alike : Alike first second) (standing : Standing source capacity first)
    (other : Standing source capacity second) {call : Call}
    (allowed : (unwrappedRun source capacity).guard first call) :
    Alike (first.next call) (second.next call) := by
  have permitted := (guard_congr alike.windowEnd).mp allowed
  apply (standing.next allowed).alike (other.next permitted)
  · rw [next_positions, next_positions, alike.positions, alike.windowEnd]
  · rw [next_wholeEof, next_wholeEof, alike.wholeEof, alike.windowEnd]
  · cases call with
    | pushSubstring data index eof => exact alike.consumed
    | read len =>
        change first.consumed ++ _ = second.consumed ++ _
        rw [alike.consumed, alike.streamOut]

/-! ## What a list of pushes shows does not depend on its order -/

theorem Standing.push_windowEnd (standing : Standing source capacity observed) {call : Call}
    (pushes : call.pushes = true)
    (allowed : (unwrappedRun source capacity).guard observed call) :
    (observed.next call).reassembler.windowEnd = observed.reassembler.windowEnd := by
  cases call with
  | pushSubstring data index eof =>
      exact congrArg₂ (· + ·) (standing.push_output allowed).1 (push_capacity _ _ _ _)
  | read len => cases pushes

theorem Standing.permits_iff (standing : Standing source capacity observed)
    {calls : List Call} (pushes : ∀ call ∈ calls, call.pushes = true) :
    (unwrappedRun source capacity).Permits observed calls ↔
      ∀ call ∈ calls, (unwrappedRun source capacity).guard observed call := by
  induction calls generalizing observed with
  | nil => simp [Machine.Permits]
  | cons call rest induction =>
      rw [List.forall_mem_cons] at pushes
      rw [Machine.Permits, List.forall_mem_cons]
      refine and_congr_right fun allowed => ?_
      refine (induction (standing.next allowed) pushes.2).trans ?_
      refine forall₂_congr fun call _ => ?_
      exact guard_congr (standing.push_windowEnd pushes.1 allowed)

structure Noted (observed : Observed) (calls : List Call) (after : Observed) : Prop where
  positions : ∀ position, position ∈ after.positions ↔ position ∈ observed.positions ∨
    ∃ call ∈ calls, position ∈ call.shows observed.reassembler.windowEnd
  wholeEof : after.wholeEof = true ↔ observed.wholeEof = true ∨
    ∃ call ∈ calls, call.ends observed.reassembler.windowEnd = true
  consumed : after.consumed = observed.consumed

theorem Standing.run_pushes (standing : Standing source capacity observed)
    {calls : List Call} (pushes : ∀ call ∈ calls, call.pushes = true)
    (permitted : (unwrappedRun source capacity).Permits observed calls) :
    Standing source capacity ((unwrappedRun source capacity).run observed calls) ∧
      Noted observed calls ((unwrappedRun source capacity).run observed calls) := by
  induction calls generalizing observed with
  | nil => exact ⟨standing, by simp [Machine.run], by simp [Machine.run], rfl⟩
  | cons call rest induction =>
      obtain ⟨allowed, onward⟩ := permitted
      rw [List.forall_mem_cons] at pushes
      obtain ⟨stands, noted⟩ := induction (standing.next allowed) pushes.2 onward
      have window := standing.push_windowEnd pushes.1 allowed
      refine ⟨stands, ?_, ?_, ?_⟩
      · intro position
        refine (noted.positions position).trans ?_
        rw [next_positions, Finset.mem_union, List.exists_mem_cons_iff, or_assoc, window]
      · refine noted.wholeEof.trans ?_
        rw [next_wholeEof, Bool.or_eq_true, List.exists_mem_cons_iff, or_assoc, window]
      · refine noted.consumed.trans ?_
        cases call with
        | pushSubstring data index eof => rfl
        | read len => cases pushes.1

theorem Standing.run (standing : Standing source capacity observed) {calls : List Call}
    (permitted : (unwrappedRun source capacity).Permits observed calls) :
    Standing source capacity ((unwrappedRun source capacity).run observed calls) := by
  induction calls generalizing observed with
  | nil => exact standing
  | cons call rest induction => exact induction (standing.next permitted.1) permitted.2

theorem Noted.alike {one other : Observed} {calls others : List Call}
    (noted : Noted observed calls one) (notedOther : Noted observed others other)
    (same : ∀ call, call ∈ calls ↔ call ∈ others)
    (standing : Standing source capacity one) (standingOther : Standing source capacity other) :
    Alike one other := by
  apply standing.alike standingOther
  · ext position
    rw [noted.positions, notedOther.positions]
    simp only [same]
  · rw [Bool.eq_iff_iff, noted.wholeEof, notedOther.wholeEof]
    simp only [same]
  · rw [noted.consumed, notedOther.consumed]

end

/-- The order and the number of times in which substrings arrive do not matter. In any
state of a run, the same pushes in another order, some of them perhaps again, are permitted
too, and whatever the caller does afterwards is permitted after both or after neither and
shows them the same output. -/
theorem reassembler_order_independent {source : List Byte} {capacity : Nat}
    {before first second after : List Call}
    (pushes : ∀ call ∈ first, call.pushes = true)
    (same : ∀ call, call ∈ first ↔ call ∈ second)
    (permitted : (unwrappedRun source capacity).Permits (unwrappedRun source capacity).init
      (before ++ first ++ after)) :
    (unwrappedRun source capacity).Permits (unwrappedRun source capacity).init
        (before ++ second ++ after) ∧
      Alike
        ((unwrappedRun source capacity).run (unwrappedRun source capacity).init
          (before ++ first ++ after))
        ((unwrappedRun source capacity).run (unwrappedRun source capacity).init
          (before ++ second ++ after)) := by
  rw [Machine.permits_append, Machine.permits_append] at permitted
  obtain ⟨⟨permittedBefore, permittedFirst⟩, permittedAfter⟩ := permitted
  rw [Machine.permits_append, Machine.permits_append]
  simp only [Machine.run_append] at permittedAfter ⊢
  have standing := (standing_init source capacity).run permittedBefore
  have pushesSecond : ∀ call ∈ second, call.pushes = true :=
    fun call member => pushes call ((same call).mpr member)
  have permittedSecond : (unwrappedRun source capacity).Permits
      ((unwrappedRun source capacity).run (unwrappedRun source capacity).init before)
      second := by
    rw [standing.permits_iff pushesSecond]
    intro call member
    exact (standing.permits_iff pushes).mp permittedFirst call ((same call).mpr member)
  obtain ⟨standingFirst, notedFirst⟩ := standing.run_pushes pushes permittedFirst
  obtain ⟨standingSecond, notedSecond⟩ := standing.run_pushes pushesSecond permittedSecond
  have alike := notedFirst.alike notedSecond same standingFirst standingSecond
  -- From here on the two runs go hand in hand.
  obtain ⟨onward, standingEnd, standingOther, alikeEnd⟩ := Machine.run_related
    (fun one other => Standing source capacity one ∧ Standing source capacity other ∧
      Alike one other)
    (fun one other call related allowed =>
      have permitted := (guard_congr related.2.2.windowEnd).mp allowed
      ⟨permitted, related.1.next allowed, related.2.1.next permitted,
        related.2.2.next related.1 related.2.1 allowed⟩)
    ⟨standingFirst, standingSecond, alike⟩ after permittedAfter
  exact ⟨⟨⟨permittedBefore, permittedSecond⟩, onward⟩, alikeEnd⟩

theorem reassembler_order_independent_reversed :
    let before := [Call.pushSubstring [1] 0 false, .read 1]
    let first := [Call.pushSubstring [2, 3] 1 false, .pushSubstring [3, 4] 2 false,
      .pushSubstring [5] 4 true]
    let second := [Call.pushSubstring [5] 4 true, .pushSubstring [3, 4] 2 false,
      .pushSubstring [5] 4 true, .pushSubstring [2, 3] 1 false]
    Alike
      ((unwrappedRun [1, 2, 3, 4, 5] 4).run (unwrappedRun [1, 2, 3, 4, 5] 4).init
        (before ++ first ++ [.read 2]))
      ((unwrappedRun [1, 2, 3, 4, 5] 4).run (unwrappedRun [1, 2, 3, 4, 5] 4).init
        (before ++ second ++ [.read 2])) := by
  intro before first second
  refine (reassembler_order_independent ?_ ?_ ?_).2
  · simp [first, Call.pushes]
  · intro call
    simp only [first, second, List.mem_cons]
    tauto
  · decide

end Sponge.StreamReassembler
