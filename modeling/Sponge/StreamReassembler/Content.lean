import Sponge.StreamReassembler.Invariant

namespace Sponge.StreamReassembler

open Fragment

/-- The reassembler carries `source`: its output so far is the front of `source`
up to the write pointer, with `consumed` already read, and every stored string is
an excerpt. The output has ended when the recorded end was reached. -/
structure Carries (source consumed : List Byte) (reassembler : StreamReassembler) :
    Prop where
  sound : reassembler.Sound
  excerpts : ∀ entry : Fragment Byte, entry ∈ reassembler.stream.entries →
    entry.Excerpt source
  content : consumed ++ reassembler.output.bts = source.take reassembler.writePtr
  front : reassembler.writePtr ≤ source.length
  closing : reassembler.eofF = true → reassembler.eofIndex = source.length
  ended : reassembler.output.endFlag = true ↔
    reassembler.eofF = true ∧ reassembler.writePtr = reassembler.eofIndex

theorem carries_new (source : List Byte) (capacity : Nat) :
    Carries source [] (new capacity) where
  sound := sound_new capacity
  excerpts := fun _ member => by simp [new] at member
  content := by simp [new, ByteStream.new]
  front := Nat.zero_le _
  closing := fun flag => by simp [new] at flag
  ended := by simp [new, ByteStream.new]

section

variable {source consumed : List Byte} {reassembler : StreamReassembler}

theorem Carries.landing_excerpts (carries : Carries source consumed reassembler)
    {data : List Byte} {index : Nat} (excerpt : Excerpt source (index, data)) :
    ∀ entry : Fragment Byte, entry ∈ (reassembler.landing data index).entries →
      entry.Excerpt source := by
  intro entry member
  rcases mem_store member with rfl | member
  · exact excerpt.take _
  · exact carries.excerpts entry member

theorem Carries.pushSubstring (carries : Carries source consumed reassembler)
    {data : List Byte} {index : Nat} {eof : Bool}
    (pushable : reassembler.Pushable data index)
    (excerpt : Excerpt source (index, data))
    (last : eof = true → index + data.length = source.length) :
    Carries source consumed (reassembler.pushSubstring data index eof) := by
  have sound := carries.sound
  have landed := carries.landing_excerpts excerpt
  have addedExcerpt : Excerpt source
      (reassembler.writePtr, reassembler.added data index) :=
    drain_excerpt _ landed
  have front : reassembler.writePtr + (reassembler.added data index).length ≤
      source.length := by
    by_cases nonempty : 0 < (reassembler.added data index).length
    · exact addedExcerpt.stop_le nonempty
    · have := carries.front
      omega
  have closing : (reassembler.pushSubstring data index eof).eofF = true →
      (reassembler.pushSubstring data index eof).eofIndex = source.length := by
    rw [push_eofF pushable, push_eofIndex pushable]
    intro flag
    split
    next isEnd =>
      simp only [ends, Bool.and_eq_true] at isEnd
      exact last isEnd.1
    next notEnd =>
      simp only [notEnd, Bool.or_false] at flag
      exact carries.closing flag
  refine ⟨sound.pushSubstring pushable eof, ?_, ?_, ?_, closing, ?_⟩
  · rw [sound.push_entries pushable]
    exact coalesce_excerpt fun entry member =>
      landed entry ((drain_sublist _ _).subset member)
  · rw [sound.push_output pushable, sound.push_writePtr pushable,
      ← List.append_assoc, carries.content]
    exact addedExcerpt.take_append
  · rw [sound.push_writePtr pushable]
    exact front
  · rw [sound.push_endFlag pushable]
    constructor
    · rintro (already | reached)
      · -- An ended output stays at the end: the front cannot move past it.
        obtain ⟨flag, pointer⟩ := carries.ended.mp already
        have flag' : (reassembler.pushSubstring data index eof).eofF = true := by
          rw [push_eofF pushable, flag, Bool.true_or]
        refine ⟨flag', ?_⟩
        have whole := carries.closing flag
        rw [closing flag', sound.push_writePtr pushable]
        omega
      · exact reached
    · exact Or.inr

theorem Carries.readOut (carries : Carries source consumed reassembler) (len : Nat) :
    Carries source (consumed ++ (reassembler.output.read len).1)
      (reassembler.readOut len) := by
  refine ⟨carries.sound.readOut len, carries.excerpts, ?_, carries.front,
    carries.closing, ?_⟩
  · have content := carries.content
    simpa [StreamReassembler.readOut, ByteStream.read_eq, List.append_assoc] using content
  · have ended := carries.ended
    simpa [StreamReassembler.readOut, ByteStream.read_eq] using ended

theorem Carries.extend {longer : List Byte}
    (carries : Carries source consumed reassembler) (grows : source <+: longer)
    (unclosed : reassembler.eofF = true → longer = source) :
    Carries longer consumed reassembler where
  sound := carries.sound
  excerpts := fun entry member => (carries.excerpts entry member).extend grows
  content := by
    obtain ⟨rest, rfl⟩ := grows
    rw [List.take_append_of_le_length carries.front]
    exact carries.content
  front := Nat.le_trans carries.front grows.length_le
  closing := fun flag => by rw [carries.closing flag, unclosed flag]
  ended := carries.ended

end

end Sponge.StreamReassembler
