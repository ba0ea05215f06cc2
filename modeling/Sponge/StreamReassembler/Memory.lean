import Sponge.StreamReassembler.Confined

namespace Sponge.StreamReassembler

open Fragment

/-! How much the reassembler holds. A string that ends at or before the write pointer is
passed over by the first loop and erased by nothing, so it stays for good. -/

def held (reassembler : StreamReassembler) : Nat :=
  reassembler.streamOut.bufferSize +
    (reassembler.stream.entries.map (fun entry : Fragment Byte => entry.2.length)).sum

def Windowed (reassembler : StreamReassembler) : Call → Prop
  | .pushSubstring _ index _ => index ≤ reassembler.windowEnd
  | .read _ => True

instance (capacity : Nat) (reassembler : StreamReassembler) (call : Call) :
    Decidable ((runs capacity Windowed).guard reassembler call) :=
  match call with
  | .pushSubstring _ _ _ => inferInstanceAs (Decidable (_ ≤ _))
  | .read _ => .isTrue trivial

def pushEnd (reassembler : StreamReassembler) (data : List Byte) (index : Nat) : Nat :=
  min (index + data.length) reassembler.windowEnd

/-- No push leaves anything behind the write pointer: its bytes inside the window, if
any, end past the pointer, and if it moves the pointer it does not move it to or over
the end of a stored string. Both sums stay inside `size_t`. -/
structure Leftless (reassembler : StreamReassembler) (data : List Byte) (index : Nat) :
    Prop where
  windowFits : reassembler.windowEnd < 2 ^ 64
  endFits : index + data.length < 2 ^ 64
  past : index < reassembler.pushEnd data index →
    reassembler.streamOut.bytesWritten < reassembler.pushEnd data index
  clear : index < reassembler.pushEnd data index →
    index ≤ reassembler.streamOut.bytesWritten →
    ∀ entry : Fragment Byte, entry ∈ reassembler.stream.entries → entry.2 ≠ [] →
      reassembler.pushEnd data index < entry.1 + entry.2.length

structure Tight (reassembler : StreamReassembler) : Prop where
  sound : reassembler.Sound
  ahead : ∀ position ∈ spans reassembler.stream.entries, reassembler.writePtr < position

theorem tight_new (capacity : Nat) : (new capacity).Tight :=
  ⟨sound_new capacity, fun _ covered => by simp [new, spans] at covered⟩

section

variable {reassembler : StreamReassembler} {data : List Byte} {index : Nat}

theorem Tight.held_le (tight : reassembler.Tight) :
    reassembler.held ≤ reassembler.capacity := by
  have sound := tight.sound
  have counted := sound.valid.counted
  have full := sound.valid.bounded
  have written := sound.written
  rw [sound.room] at full
  have inside : spans reassembler.stream.entries ⊆
      Finset.Ico reassembler.writePtr
        (reassembler.output.readCount + reassembler.capacity) := by
    intro position covered
    obtain ⟨entry, member, _, high⟩ := mem_spans.mp covered
    have bound := sound.bounded entry member
    rw [Finset.mem_Ico]
    exact ⟨Nat.le_of_lt (tight.ahead position covered), by omega⟩
  have count := Finset.card_le_card inside
  rw [card_spans sound.separated, Nat.card_Ico] at count
  unfold held
  change reassembler.output.bts.length + _ ≤ _
  omega

theorem Tight.readOut (tight : reassembler.Tight) (len : Nat) :
    (reassembler.readOut len).Tight :=
  ⟨tight.sound.readOut len, tight.ahead⟩

theorem Tight.starts_ahead (tight : reassembler.Tight) {entry : Fragment Byte}
    (member : entry ∈ reassembler.stream.entries) (nonempty : entry.1 < entry.stop) :
    reassembler.writePtr < entry.1 :=
  tight.ahead entry.1 (mem_spans.mpr ⟨entry, member, Nat.le_refl _, nonempty⟩)

theorem stop_inWindow (inside : index ≤ reassembler.windowEnd) :
    index + (reassembler.inWindow data index).length = reassembler.pushEnd data index := by
  unfold windowEnd streamOut ByteStream.bytesRead at inside
  rw [length_inWindow]
  unfold pushEnd windowEnd streamOut ByteStream.bytesRead
  omega

theorem Tight.drained_ahead (tight : reassembler.Tight)
    (inside : index ≤ reassembler.windowEnd) (leftless : reassembler.Leftless data index) :
    ∀ entry : Fragment Byte,
      entry ∈ (drain reassembler.writePtr (reassembler.landing data index).entries).2 →
      entry.1 < entry.stop →
        reassembler.writePtr + (reassembler.added data index).length < entry.1 := by
  have sound := tight.sound
  have stop : index + (reassembler.inWindow data index).length = _ := stop_inWindow inside
  have written : reassembler.writePtr = reassembler.streamOut.bytesWritten := sound.written
  by_cases moves : index < reassembler.pushEnd data index ∧ index ≤ reassembler.writePtr
  · -- the push covers the pointer, and every stored string ends behind it
    have clear := leftless.clear moves.1 (written ▸ moves.2)
    apply drain_ahead (reassembler.landing data index).sorted
    · refine List.Pairwise.imp_of_mem ?_ (reassembler.landing data index).sorted
      intro left right leftMember rightMember ordered leftBytes rightBytes
      rcases mem_store leftMember with rfl | leftOld
      · rcases mem_store rightMember with rfl | rightOld
        · exact absurd ordered (Nat.lt_irrefl _)
        · rw [stop_mk, stop]
          refine clear right rightOld ?_
          rw [← List.length_pos_iff]
          unfold Fragment.stop at rightBytes
          omega
      · have leftAhead := tight.starts_ahead leftOld leftBytes
        rcases mem_store rightMember with rfl | rightOld
        · dsimp only at ordered
          omega
        · have apart := sound.separated.stop_le leftOld rightOld ordered
          omega
    · intro entry member bytes
      rcases mem_store member with rfl | old
      · rw [stop_mk, stop, written]
        exact leftless.past moves.1
      · have := tight.starts_ahead old bytes
        omega
  · -- nothing reaches over the pointer
    have ahead : ∀ entry : Fragment Byte,
        entry ∈ (reassembler.landing data index).entries →
        entry.1 < entry.stop → reassembler.writePtr < entry.1 := by
      intro entry member bytes
      rcases mem_store member with rfl | old
      · rw [stop_mk, stop] at bytes
        dsimp only at bytes ⊢
        omega
      · exact tight.starts_ahead old bytes
    unfold added
    rw [drain_idle ahead]
    exact ahead

theorem Tight.pushSubstring (tight : reassembler.Tight)
    (inside : index ≤ reassembler.windowEnd) (leftless : reassembler.Leftless data index)
    (eof : Bool) : (reassembler.pushSubstring data index eof).Tight := by
  have pushable : reassembler.Pushable data index :=
    ⟨leftless.windowFits, inside, leftless.endFits⟩
  have sorted := (reassembler.landing data index).sorted.sublist
    (drain_sublist reassembler.writePtr (reassembler.landing data index).entries)
  refine ⟨tight.sound.pushSubstring pushable eof, ?_⟩
  intro position covered
  rw [tight.sound.push_entries pushable, spans_coalesce sorted] at covered
  obtain ⟨entry, member, low, high⟩ := mem_spans.mp covered
  have ahead := tight.drained_ahead inside leftless entry member (by omega)
  rw [tight.sound.push_writePtr pushable]
  omega

end

/-! ## Runs -/

def Sparing (reassembler : StreamReassembler) : Call → Prop
  | .pushSubstring data index _ =>
      index ≤ reassembler.windowEnd ∧ reassembler.Leftless data index
  | .read _ => True

/-- In a run whose pushes leave nothing behind, output and map together stay within the
capacity. -/
theorem reassembler_memory_bounded {capacity : Nat} {reassembler : StreamReassembler}
    (reached : (runs capacity Sparing).Reachable reassembler) :
    reassembler.held ≤ capacity := by
  have kept : reassembler.Tight ∧ reassembler.capacity = capacity := by
    refine Machine.invariant
      (fun reassembler => reassembler.Tight ∧ reassembler.capacity = capacity) ?_ ?_ reached
    · exact ⟨tight_new capacity, rfl⟩
    · rintro reassembler call allowed ⟨tight, room⟩
      cases call with
      | pushSubstring data index eof =>
          exact ⟨tight.pushSubstring allowed.1 allowed.2 eof,
            (push_capacity _ _ _ _).trans room⟩
      | read len => exact ⟨tight.readOut len, room⟩
  exact kept.2 ▸ kept.1.held_le

theorem reassembler_memory_bounded_overlap :
    ((runs 3 Sparing).run (new 3) [.pushSubstring [98, 99] 1 false,
      .pushSubstring [97, 98] 0 false, .read 1, .pushSubstring [99, 100, 101] 2 true]).held ≤
      3 := by
  refine reassembler_memory_bounded (Machine.reachable_run _ _ ?_)
  exact ⟨⟨by decide, by decide, by decide, by decide, by decide⟩,
    ⟨by decide, by decide, by decide, by decide, by decide⟩, trivial,
    ⟨by decide, by decide, by decide, by decide, by decide⟩, trivial⟩

/-- The same byte twice: the copy behind the write pointer stays in the map. -/
theorem duplicate_exceeds_capacity :
    ∃ reassembler, (runs 1 Windowed).Reachable reassembler ∧ reassembler.held = 2 :=
  ⟨_, Machine.reachable_run _
    [.pushSubstring [97] 0 false, .pushSubstring [97] 0 false] (by decide), by decide⟩

end Sponge.StreamReassembler
