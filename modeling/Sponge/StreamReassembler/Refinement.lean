import Sponge.Data.Machine
import Sponge.StreamReassembler.Content

namespace Sponge.StreamReassembler

open Fragment

/-! The reassembler against the set of positions it has been shown. A run pairs
the reassembler with what an observer of its calls would note down. -/

structure Observed where
  reassembler : StreamReassembler
  /-- Positions that were in some push, inside the window of that push. -/
  positions : Finset Nat := ∅
  wholeEof : Bool := false
  consumed : List Byte := []

inductive Call where
  | pushSubstring (data : List Byte) (index : Nat) (eof : Bool)
  | read (len : Nat)

def windowEnd (reassembler : StreamReassembler) : Nat :=
  reassembler.streamOut.bytesRead + reassembler.capacity

def Observed.next (observed : Observed) : Call → Observed
  | .pushSubstring data index eof =>
      { observed with
        reassembler := observed.reassembler.pushSubstring data index eof
        positions := observed.positions ∪
          (Finset.Ico index (index + data.length)).filter
            (fun position => position < observed.reassembler.windowEnd)
        wholeEof := observed.wholeEof ||
          (eof && decide (index + data.length ≤ observed.reassembler.windowEnd)) }
  | .read len =>
      { observed with
        reassembler := observed.reassembler.readOut len
        consumed := observed.consumed ++
          (observed.reassembler.streamOut.read len).1 }

def Faithful (source : List Byte) (observed : Observed) : Call → Prop
  | .pushSubstring data index eof =>
      Excerpt source (index, data) ∧
        (eof = true → index + data.length = source.length) ∧
        index ≤ observed.reassembler.windowEnd
  | .read _ => True

/-- Neither of the two sums a push compares leaves `size_t`. -/
def Unwrapped (observed : Observed) : Call → Prop
  | .pushSubstring data index _ =>
      observed.reassembler.windowEnd < 2 ^ 64 ∧ index + data.length < 2 ^ 64
  | .read _ => True

instance (source : List Byte) (observed : Observed) (call : Call) :
    Decidable (Faithful source observed call) :=
  match call with
  | .pushSubstring data index _ =>
      @instDecidableAnd _ _ (inferInstanceAs (Decidable (data <+: source.drop index)))
        inferInstance
  | .read _ => .isTrue trivial

instance (observed : Observed) (call : Call) : Decidable (Unwrapped observed call) :=
  match call with
  | .pushSubstring _ _ _ => instDecidableAnd
  | .read _ => .isTrue trivial

def faithfulRun (source : List Byte) (capacity : Nat) : Machine Observed Call where
  init := { reassembler := new capacity }
  guard := Faithful source
  next := Observed.next

def unwrappedRun (source : List Byte) (capacity : Nat) : Machine Observed Call where
  init := { reassembler := new capacity }
  guard := fun observed call => Faithful source observed call ∧ Unwrapped observed call
  next := Observed.next

instance (source : List Byte) (capacity : Nat) (observed : Observed) (call : Call) :
    Decidable ((faithfulRun source capacity).guard observed call) :=
  inferInstanceAs (Decidable (Faithful source observed call))

instance (source : List Byte) (capacity : Nat) (observed : Observed) (call : Call) :
    Decidable ((unwrappedRun source capacity).guard observed call) :=
  inferInstanceAs (Decidable (Faithful source observed call ∧ Unwrapped observed call))

/-- What the set of positions says about the reassembler. -/
structure RefinesPositions (source : List Byte) (observed : Observed) : Prop where
  frontNew : observed.reassembler.streamOut.bytesWritten ∉ observed.positions
  frontLeast : ∀ position < observed.reassembler.streamOut.bytesWritten,
    position ∈ observed.positions
  output : observed.consumed ++ observed.reassembler.streamOut.bts =
    source.take observed.reassembler.streamOut.bytesWritten
  outputLength : (observed.consumed ++ observed.reassembler.streamOut.bts).length =
    observed.reassembler.streamOut.bytesWritten
  unassembled : observed.reassembler.unassembledBytes =
    (observed.positions.filter
      (fun position => observed.reassembler.streamOut.bytesWritten ≤ position)).card
  empty : observed.reassembler.empty = true ↔
    ∀ position ∈ observed.positions,
      position < observed.reassembler.streamOut.bytesWritten
  ended : observed.reassembler.streamOut.inputEnded = true ↔
    observed.reassembler.streamOut.bytesWritten = source.length ∧
      observed.wholeEof = true

structure Tracks (source : List Byte) (observed : Observed) : Prop where
  carries : Carries source observed.consumed observed.reassembler
  shown : ∀ position, position ∈ observed.positions ↔
    position < observed.reassembler.writePtr ∨
      position ∈ spans observed.reassembler.stream.entries
  closed : observed.reassembler.eofF = observed.wholeEof
  apart : observed.reassembler.writePtr ∉
    spans observed.reassembler.stream.entries

theorem Tracks.push {source : List Byte} {observed : Observed}
    (tracks : Tracks source observed)
    {data : List Byte} {index : Nat} {eof : Bool}
    (faithful : Faithful source observed (.pushSubstring data index eof))
    (unwrapped : Unwrapped observed (.pushSubstring data index eof)) :
    Tracks source (observed.next (.pushSubstring data index eof)) := by
  obtain ⟨excerpt, last, inside⟩ := faithful
  have sound := tracks.carries.sound
  have windowFits : observed.reassembler.output.readCount +
      observed.reassembler.capacity < 2 ^ 64 := unwrapped.1
  have pushable : observed.reassembler.Pushable data index :=
    ⟨windowFits, inside, unwrapped.2⟩
  have newSound := sound.pushSubstring pushable eof
  refine ⟨tracks.carries.pushSubstring pushable excerpt last, ?_, ?_, ?_⟩
  · intro position
    have covers := sound.push_covers pushable eof position
    have length := length_inWindow observed.reassembler data index
    refine Iff.trans ?_ covers.symm
    change position ∈ observed.positions ∪ _ ↔ _
    rw [Finset.mem_union, tracks.shown, Finset.mem_filter, Finset.mem_Ico]
    refine or_congr_right ?_
    rw [length]
    unfold windowEnd streamOut ByteStream.bytesRead
    omega
  · change (observed.reassembler.pushSubstring data index eof).eofF =
      (observed.wholeEof || _)
    rw [push_eofF pushable, tracks.closed]
    rfl
  · refine newSound.front_not_covered ?_
    rw [sound.push_output pushable, push_capacity]
    exact windowFits

theorem Tracks.read {source : List Byte} {observed : Observed}
    (tracks : Tracks source observed) (len : Nat) :
    Tracks source (observed.next (.read len)) :=
  ⟨tracks.carries.readOut len, tracks.shown, tracks.closed, tracks.apart⟩

theorem unwrappedRun_tracks {source : List Byte} {capacity : Nat}
    {observed : Observed}
    (reached : (unwrappedRun source capacity).Reachable observed) :
    Tracks source observed := by
  refine Machine.invariant (Tracks source) ?_ ?_ reached
  · exact ⟨carries_new source capacity, fun position => by
      simp [unwrappedRun, new, spans], rfl, by simp [unwrappedRun, new, spans]⟩
  · intro state call allowed tracks
    cases call with
    | pushSubstring data index eof =>
        exact tracks.push allowed.1 allowed.2
    | read len => exact tracks.read len

/-! Reading the counts off the invariant. -/

theorem unassembledBytes_eq (reassembler : StreamReassembler) :
    reassembler.unassembledBytes =
      ((reassembler.stream.entries.filter
        (fun entry => decide (reassembler.writePtr < entry.1))).map
          (fun entry => entry.2.length)).sum := by
  have loop : ∀ (entries : List (Fragment Byte)) (start : Nat),
      entries.foldl (fun unassem entry =>
        if reassembler.writePtr < entry.1 then unassem + entry.2.length
        else unassem) start =
      start + ((entries.filter
        (fun entry => decide (reassembler.writePtr < entry.1))).map
          (fun entry => entry.2.length)).sum := by
    intro entries
    induction entries with
    | nil => simp
    | cons entry rest induction =>
        intro start
        rw [List.foldl_cons, induction]
        by_cases ahead : reassembler.writePtr < entry.1
        · simp [ahead, Nat.add_assoc]
        · simp [ahead]
  have total := loop reassembler.stream.entries 0
  rw [Nat.zero_add] at total
  exact total

theorem Tracks.ahead {source : List Byte} {observed : Observed}
    (tracks : Tracks source observed) :
    observed.positions.filter
        (fun position => observed.reassembler.writePtr ≤ position) =
      spans (observed.reassembler.stream.entries.filter
        (fun entry => decide (observed.reassembler.writePtr < entry.1))) := by
  ext position
  simp only [Finset.mem_filter, tracks.shown, mem_spans]
  constructor
  · rintro ⟨written | ⟨entry, member, covers⟩, beyond⟩
    · omega
    · refine ⟨entry, List.mem_filter.mpr ⟨member, ?_⟩, covers⟩
      rw [decide_eq_true_eq]
      by_contra behind
      -- A string at or behind the pointer would cover the pointer itself.
      have reaches := covers.2
      exact tracks.apart (mem_spans.mpr ⟨entry, member, by omega, by omega⟩)
  · rintro ⟨entry, member, covers⟩
    obtain ⟨member, beyond⟩ := List.mem_filter.mp member
    rw [decide_eq_true_eq] at beyond
    have starts := covers.1
    exact ⟨Or.inr ⟨entry, member, covers⟩, by omega⟩

theorem Tracks.unassembled {source : List Byte} {observed : Observed}
    (tracks : Tracks source observed) :
    observed.reassembler.unassembledBytes =
      (observed.positions.filter
        (fun position => observed.reassembler.writePtr ≤ position)).card := by
  rw [tracks.ahead, card_spans, unassembledBytes_eq]
  exact List.Pairwise.filter _ tracks.carries.sound.separated

theorem Tracks.refines {source : List Byte} {observed : Observed}
    (tracks : Tracks source observed) : RefinesPositions source observed := by
  have carries := tracks.carries
  have written : observed.reassembler.streamOut.bytesWritten =
      observed.reassembler.writePtr := carries.sound.written.symm
  have count := tracks.unassembled
  refine ⟨?_, ?_, ?_, ?_, ?_, ?_, ?_⟩
  · rw [written, tracks.shown]
    have := tracks.apart
    simpa using this
  · rw [written]
    exact fun position below => (tracks.shown position).mpr (Or.inl below)
  · rw [written]
    exact carries.content
  · rw [written, show observed.consumed ++ observed.reassembler.streamOut.bts = _
      from carries.content, List.length_take]
    exact Nat.min_eq_left carries.front
  · rw [written]
    exact count
  · rw [written, StreamReassembler.empty, beq_iff_eq, count, Finset.card_eq_zero,
      Finset.filter_eq_empty_iff]
    simp only [Nat.not_le]
  · rw [written]
    change observed.reassembler.output.endFlag = true ↔ _
    rw [carries.ended, ← tracks.closed]
    constructor
    · rintro ⟨flag, pointer⟩
      exact ⟨pointer.trans (carries.closing flag), flag⟩
    · rintro ⟨pointer, flag⟩
      exact ⟨flag, pointer.trans (carries.closing flag).symm⟩

/-- After every step of a run whose pushes keep both sums inside `size_t`, the
reassembler is what the set of shown positions says. -/
theorem reassembler_refines_positions {source : List Byte} {capacity : Nat}
    {observed : Observed}
    (reached : (unwrappedRun source capacity).Reachable observed) :
    RefinesPositions source observed :=
  (unwrappedRun_tracks reached).refines

theorem reassembler_refines_positions_overlap :
    RefinesPositions [1, 2, 3, 4]
      ((unwrappedRun [1, 2, 3, 4] 3).run (unwrappedRun [1, 2, 3, 4] 3).init
        [.pushSubstring [2, 3] 1 false, .pushSubstring [1, 2] 0 false, .read 2,
          .pushSubstring [3, 4] 2 true]) :=
  reassembler_refines_positions (Machine.reachable_run _ _ (by decide))

/-- With the largest capacity a single read byte moves the end of the window to
position zero: the retransmission `ab` is cut to nothing and `b` is lost. -/
theorem reassembler_window_wraps :
    ∃ observed, (faithfulRun [97, 98] (2 ^ 64 - 1)).Reachable observed ∧
      observed.positions = {0, 1} ∧
      observed.reassembler.streamOut.bytesWritten = 1 ∧
      ¬ RefinesPositions [97, 98] observed := by
  have reached := (faithfulRun [97, 98] (2 ^ 64 - 1)).reachable_run
    [.pushSubstring [97] 0 false, .read 1, .pushSubstring [97, 98] 0 true]
    (by decide)
  refine ⟨_, reached, by decide, by decide, ?_⟩
  intro refines
  exact refines.frontNew (by decide)

end Sponge.StreamReassembler
