import Sponge.StreamReassembler.Confined

namespace Sponge.StreamReassembler

open Fragment

/-! Where the bytes of the output come from when the pushed strings contradict one
another. -/

structure Traced (vouches : Nat → Byte → Prop) (consumed : List Byte)
    (reassembler : StreamReassembler) : Prop where
  confined : reassembler.Confined
  output : Vouched vouches (0, consumed ++ reassembler.output.bts)
  stored : ∀ entry : Fragment Byte, entry ∈ reassembler.stream.entries →
    entry.Vouched vouches
  total : (consumed ++ reassembler.output.bts).length = reassembler.writePtr

theorem traced_new (vouches : Nat → Byte → Prop) {capacity : Nat}
    (word : capacity < 2 ^ 64) : Traced vouches [] (new capacity) where
  confined := confined_new word
  output := vouched_nil 0
  stored := fun _ member => by simp [new] at member
  total := rfl

section

variable {vouches : Nat → Byte → Prop} {consumed : List Byte}
  {reassembler : StreamReassembler}

theorem Traced.mono {weaker : Nat → Byte → Prop} (traced : Traced vouches consumed reassembler)
    (implies : ∀ position byte, vouches position byte → weaker position byte) :
    Traced weaker consumed reassembler where
  confined := traced.confined
  output := traced.output.mono implies
  stored := fun entry member => (traced.stored entry member).mono implies
  total := traced.total

theorem getElem?_of_trimmed {data : List Byte} {index offset : Nat} {byte : Byte}
    (found : (reassembler.trimmed data index)[offset]? = some byte) :
    data[offset]? = some byte := by
  unfold trimmed at found
  split at found
  · rw [List.getElem?_take] at found
    split at found
    · exact found
    · cases found
  · exact found

theorem Traced.pushSubstring (traced : Traced vouches consumed reassembler)
    {data : List Byte} {index : Nat} (admissible : reassembler.Admissible data index)
    (brings : ∀ offset byte, data[offset]? = some byte →
      index + offset < reassembler.windowEnd → vouches (index + offset) byte)
    (eof : Bool) : Traced vouches consumed (reassembler.pushSubstring data index eof) := by
  have confined := traced.confined
  have landed : ∀ entry ∈ (reassembler.landed data index).entries,
      Vouched vouches entry := by
    intro entry member
    rcases mem_store member with rfl | old
    · intro offset byte found
      have inside : index + offset < reassembler.windowEnd := by
        apply confined.landed_inside admissible
        apply (mem_spans_store _ _ _ _).mpr
        have stored := (List.getElem?_eq_some_iff.mp found).1
        exact Or.inr ⟨Nat.le_add_right _ _, Nat.add_lt_add_left stored _⟩
      exact brings offset byte (getElem?_of_trimmed found) inside
    · exact traced.stored entry old
  have written := drain_vouched reassembler.writePtr landed
  have content : (reassembler.pushSubstring data index eof).output.bts =
      reassembler.output.bts ++
        (drain reassembler.writePtr (reassembler.landed data index).entries).1 := by
    rw [push_output_eq, confined.writeOut_landed admissible]
  refine ⟨confined.pushSubstring admissible eof, ?_, ?_, ?_⟩
  · rw [content, ← List.append_assoc]
    apply traced.output.append
    rwa [traced.total, Nat.zero_add]
  · rw [confined.push_stored admissible]
    exact coalesce_vouched fun entry member =>
      landed entry ((drain_sublist _ _).subset member)
  · rw [content, ← List.append_assoc, List.length_append, traced.total,
      confined.push_front admissible]

theorem Traced.readOut (traced : Traced vouches consumed reassembler) (len : Nat) :
    Traced vouches (consumed ++ (reassembler.output.read len).1)
      (reassembler.readOut len) := by
  have same : (consumed ++ (reassembler.output.read len).1) ++
      (reassembler.readOut len).output.bts = consumed ++ reassembler.output.bts := by
    simp [StreamReassembler.readOut, ByteStream.read_eq]
  refine ⟨traced.confined.readOut len, ?_, traced.stored, ?_⟩
  · rw [same]
    exact traced.output
  · rw [same]
    exact traced.total

end

/-! ## Runs -/

structure Push where
  index : Nat
  data : List Byte
  windowEnd : Nat

/-- The call carried this byte for this position, inside the window. -/
def Push.Brings (push : Push) (position : Nat) (byte : Byte) : Prop :=
  push.index ≤ position ∧ push.data[position - push.index]? = some byte ∧
    position < push.windowEnd

/-- A reassembler, the bytes its reader has taken, and the calls so far. -/
structure History where
  reassembler : StreamReassembler
  consumed : List Byte := []
  pushes : List Push := []

def History.next (history : History) : Call → History
  | .pushSubstring data index eof =>
      { history with
        reassembler := history.reassembler.pushSubstring data index eof
        pushes := history.pushes ++ [⟨index, data, history.reassembler.windowEnd⟩] }
  | .read len =>
      { history with
        reassembler := history.reassembler.readOut len
        consumed := history.consumed ++ (history.reassembler.output.read len).1 }

def histories (capacity : Nat) : Machine History Call where
  init := { reassembler := new capacity }
  guard := fun history => Keeping history.reassembler
  next := History.next

instance (capacity : Nat) (history : History) (call : Call) :
    Decidable ((histories capacity).guard history call) :=
  inferInstanceAs (Decidable (Keeping history.reassembler call))

def History.Brought (history : History) (position : Nat) (byte : Byte) : Prop :=
  ∃ push ∈ history.pushes, push.Brings position byte

theorem histories_traced {capacity : Nat} (word : capacity < 2 ^ 64) {history : History}
    (reached : (histories capacity).Reachable history) :
    Traced history.Brought history.consumed history.reassembler := by
  refine Machine.invariant
    (fun history : History => Traced history.Brought history.consumed history.reassembler)
    (traced_new _ word) ?_ reached
  intro history call keeping traced
  cases call with
  | pushSubstring data index eof =>
      have earlier : Traced (history.next (.pushSubstring data index eof)).Brought
          history.consumed history.reassembler := by
        apply traced.mono
        rintro position byte ⟨push, member, brings⟩
        exact ⟨push, List.mem_append_left _ member, brings⟩
      apply earlier.pushSubstring keeping
      intro offset byte found inside
      refine ⟨_, List.mem_append_right _ (List.mem_singleton_self _),
        Nat.le_add_right _ _, ?_, inside⟩
      rwa [Nat.add_sub_cancel_left]
  | read len => exact traced.readOut len

/-- Nothing is made up: every byte that was written out, and every byte that waits, was
carried by a call for exactly its position. -/
structure FromPushes (history : History) : Prop where
  output : ∀ position byte,
    (history.consumed ++ history.reassembler.streamOut.bts)[position]? = some byte →
      history.Brought position byte
  stored : ∀ entry ∈ history.reassembler.stream.entries, ∀ offset byte,
    entry.2[offset]? = some byte → history.Brought (entry.1 + offset) byte

theorem reassembler_invents_nothing {capacity : Nat} (word : capacity < 2 ^ 64)
    {history : History} (reached : (histories capacity).Reachable history) :
    FromPushes history := by
  have traced := histories_traced word reached
  refine ⟨?_, traced.stored⟩
  intro position byte found
  have brought := traced.output position byte found
  rwa [Nat.zero_add] at brought

theorem reassembler_invents_nothing_conflict :
    let history := (histories 8).run (histories 8).init
      [.pushSubstring [11, 12, 13] 1 false, .pushSubstring [22, 23, 24, 25] 2 false,
        .read 1, .pushSubstring [30, 31, 32] 0 false]
    history.reassembler.streamOut.bts = [30, 31, 32, 13, 24, 25] ∧ FromPushes history :=
  ⟨by decide, reassembler_invents_nothing (by decide)
    ((histories 8).reachable_run _ (by decide))⟩

end Sponge.StreamReassembler
