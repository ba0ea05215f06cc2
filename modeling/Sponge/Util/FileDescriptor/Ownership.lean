import Sponge.Data.Machine
import Sponge.Data.Shared
import Sponge.Util.FileDescriptor

namespace Sponge.FileDescriptor

/-! Who closes a descriptor number. A `FileDescriptor` object is a `shared_ptr` to an
`FDWrapper`; the wrapper closes its number when the last object lets go of it, unless
`close` was called before. The kernel gives a closed number out again. -/

structure Closing where
  result : SyscallResult
  freed : Bool
  deriving DecidableEq, Repr

/-- What `close(2)` promises. Whether a call that fails has freed the number differs from
error to error and from system to system. -/
def Closing.Promised (closing : Closing) : Prop :=
  closing.result.value = 0 ∧ closing.freed = true ∨
    closing.result.value = -1 ∧ closing.result.errno ≠ 0

instance (closing : Closing) : Decidable closing.Promised :=
  inferInstanceAs (Decidable (_ ∨ _))

inductive Origin where
  | access
  | close
  | destructor
  deriving DecidableEq, Repr

/-- A system call that names a number: the wrapper that made it, the wrapper whose file the
number led to, and whether the number is free now. -/
structure Reach where
  origin : Origin
  owner : Nat
  reached : Option Nat
  freed : Bool
  deriving DecidableEq

/-- The descriptor table of the process, with the wrapper each open file was given to, the
wrappers ever made, and the objects that hold one. -/
structure Process where
  numbers : Shared Int := .empty
  wrappers : List FileDescriptor := []
  handles : Shared Nat := .empty
  log : List Reach := []
  deriving DecidableEq

namespace Process

/-- `FDWrapper::close`. It does not ask whether the wrapper is closed already, and marks it
only if the call succeeds. -/
def close (process : Process) (origin : Origin) (index : Nat) (closing : Closing) : Process :=
  match process.wrappers[index]? with
  | none => process
  | some wrapper =>
      let called : Process :=
        { process with
          numbers :=
            if closing.freed then process.numbers.reset wrapper.fd else process.numbers
          log := process.log ++
            [⟨origin, index, process.numbers.target? wrapper.fd, closing.freed⟩] }
      match systemCall "close" closing.result 0 with
      | .ok _ =>
          { called with
            wrappers :=
              called.wrappers.set index { wrapper with eof := true, closed := true } }
      | .error _ => called

def destruct (process : Process) (index : Nat) (closing : Closing) : Process :=
  match process.wrappers[index]? with
  | none => process
  | some wrapper =>
      if wrapper.closed then process else process.close .destructor index closing

def release (process : Process) (closing : Closing) : Option Nat → Process
  | none => process
  | some index =>
      if process.handles.Owned index then process else process.destruct index closing

def adopt (process : Process) (number : Int) (handle : Nat) : Process :=
  if number < 0 then process
  else
    { process with
      numbers := process.numbers.assign number process.wrappers.length
      wrappers := process.wrappers ++ [{ fd := number }]
      handles := process.handles.assign handle process.wrappers.length }

def duplicate (process : Process) (source target : Nat) : Process :=
  match process.handles.target? source with
  | none => process
  | some index => { process with handles := process.handles.assign target index }

def move (process : Process) (source target : Nat) (closing : Closing) : Process :=
  if source = target then process
  else
    let handles :=
      match process.handles.target? source with
      | none => process.handles.reset target
      | some index => (process.handles.reset source).assign target index
    release { process with handles := handles } closing (process.handles.target? target)

def destroy (process : Process) (handle : Nat) (closing : Closing) : Process :=
  release { process with handles := process.handles.reset handle } closing
    (process.handles.target? handle)

def access (process : Process) (handle : Nat) : Process :=
  match process.handles.target? handle with
  | none => process
  | some index =>
      match process.wrappers[index]? with
      | none => process
      | some wrapper =>
          { process with
            log := process.log ++
              [⟨.access, index, process.numbers.target? wrapper.fd, false⟩] }

end Process

inductive Use where
  | adopt (number : Int) (handle : Nat)
  | duplicate (source target : Nat)
  | move (source target : Nat) (closing : Closing)
  | destroy (handle : Nat) (closing : Closing)
  | close (handle : Nat) (closing : Closing)
  | access (handle : Nat)
  deriving DecidableEq

def Process.next (process : Process) : Use → Process
  | .adopt number handle => process.adopt number handle
  | .duplicate source target => process.duplicate source target
  | .move source target closing => process.move source target closing
  | .destroy handle closing => process.destroy handle closing
  | .close handle closing =>
      match process.handles.target? handle with
      | none => process
      | some index => process.close .close index closing
  | .access handle => process.access handle

def Process.Holds (process : Process) (handle : Nat) : Prop :=
  ∃ index ∈ process.handles.target? handle,
    ∃ wrapper ∈ process.wrappers[index]?, wrapper.closed = false

/-- New objects get new names, new numbers are not in use, no object whose wrapper is closed
is closed or used again, and where `close` throws the number is not free. -/
def Process.Permits (process : Process) : Use → Prop
  | .adopt number handle =>
      process.numbers.target? number = none ∧ process.handles.target? handle = none
  | .duplicate _ target => process.handles.target? target = none
  | .move _ _ closing | .destroy _ closing => closing.Promised
  | .close handle closing =>
      process.Holds handle ∧ closing.Promised ∧
        (closing.freed = true → closing.result.value = 0)
  | .access handle => process.Holds handle

instance (process : Process) (handle : Nat) : Decidable (process.Holds handle) :=
  inferInstanceAs (Decidable (∃ _ ∈ _, ∃ _ ∈ _, _))

instance (process : Process) (use : Use) : Decidable (process.Permits use) :=
  match use with
  | .adopt _ _ => inferInstanceAs (Decidable (_ ∧ _))
  | .duplicate _ _ => inferInstanceAs (Decidable (_ = _))
  | .move _ _ closing | .destroy _ closing => inferInstanceAs (Decidable closing.Promised)
  | .close _ _ => inferInstanceAs (Decidable (_ ∧ _ ∧ _))
  | .access handle => inferInstanceAs (Decidable (process.Holds handle))

def processes : Machine Process Use where
  init := {}
  guard := Process.Permits
  next := Process.next

instance (process : Process) (use : Use) : Decidable (processes.guard process use) :=
  inferInstanceAs (Decidable (process.Permits use))

/-! ## The invariant -/

def Process.closings (process : Process) (index : Nat) : Nat :=
  process.log.countP fun reach => reach.freed && reach.owner == index

def Process.Leaked (process : Process) (index : Nat) : Prop :=
  ∃ reach ∈ process.log, reach.origin = .destructor ∧ reach.owner = index ∧ reach.freed = false

/-- A wrapper has its number in the table exactly while it is held and not closed, or after
its destructor has failed. One wrapper may just be `leaving`: its last object is gone and its
destructor is to come. -/
structure Tidy (process : Process) (leaving : Option Nat) : Prop where
  inside : ∀ index, process.handles.Owned index → index < process.wrappers.length
  live : ∀ index wrapper, process.wrappers[index]? = some wrapper →
    process.handles.Owned index ∨ leaving = some index → wrapper.closed = false →
      process.numbers.target? wrapper.fd = some index
  held : ∀ number index, process.numbers.target? number = some index →
    (process.handles.Owned index ∨ leaving = some index ∨ process.Leaked index) ∧
      ∃ wrapper, process.wrappers[index]? = some wrapper ∧ wrapper.closed = false ∧
        wrapper.fd = number
  reached : ∀ reach ∈ process.log, reach.reached = some reach.owner
  closed : ∀ index, process.closings index =
    if index < process.wrappers.length ∧ ¬ process.numbers.Owned index then 1 else 0

section

variable {process : Process} {index : Nat} {wrapper : FileDescriptor} {closing : Closing}

theorem closings_snoc (log : List Reach) (reach : Reach) (index : Nat) :
    (log ++ [reach]).countP (fun reach => reach.freed && reach.owner == index) =
      log.countP (fun reach => reach.freed && reach.owner == index) +
        if reach.freed ∧ reach.owner = index then 1 else 0 := by
  rw [List.countP_append, List.countP_singleton]
  simp

/-- All that `close` can do to a wrapper that has its number. -/
theorem close_cases (origin : Origin) (found : process.wrappers[index]? = some wrapper)
    (named : process.numbers.target? wrapper.fd = some index) (promised : closing.Promised) :
    closing.result.value = 0 ∧
        process.close origin index closing =
          { process with
            numbers := process.numbers.reset wrapper.fd
            wrappers := process.wrappers.set index { wrapper with eof := true, closed := true }
            log := process.log ++ [⟨origin, index, some index, true⟩] } ∨
      closing.result.value ≠ 0 ∧ closing.freed = true ∧
        process.close origin index closing =
          { process with
            numbers := process.numbers.reset wrapper.fd
            log := process.log ++ [⟨origin, index, some index, true⟩] } ∨
      closing.freed = false ∧
        process.close origin index closing =
          { process with log := process.log ++ [⟨origin, index, some index, false⟩] } := by
  obtain ⟨⟨value, errno⟩, freed⟩ := closing
  change value = 0 ∧ freed = true ∨ value = -1 ∧ errno ≠ 0 at promised
  rcases promised with ⟨rfl, rfl⟩ | ⟨rfl, set⟩
  · exact Or.inl ⟨rfl, by simp [Process.close, found, named, systemCall, SizeT.toInt32]⟩
  · have failed : systemCall "close" ⟨-1, errno⟩ 0 = .error (.unixError "close" errno) := by
      refine if_neg ?_
      rintro (good | unset)
      · change 0 ≤ SizeT.toInt32 (-1) at good
        exact absurd good (by decide)
      · exact set unset
    right
    cases freed with
    | true =>
        left
        refine ⟨?_, rfl, by simp [Process.close, found, named, failed]⟩
        change (-1 : Int) ≠ 0
        decide
    | false => exact Or.inr ⟨rfl, by simp [Process.close, found, named, failed]⟩

theorem Leaked.record (leaked : process.Leaked index) {numbers : Shared Int}
    {wrappers : List FileDescriptor} (reach : Reach) :
    Process.Leaked { process with
      numbers := numbers, wrappers := wrappers, log := process.log ++ [reach] } index := by
  obtain ⟨failed, member, rest⟩ := leaked
  exact ⟨failed, List.mem_append_left _ member, rest⟩

theorem Tidy.record {leaving : Option Nat} (tidy : Tidy process leaving) (origin : Origin) :
    Tidy { process with log := process.log ++ [⟨origin, index, some index, false⟩] } leaving := by
  refine ⟨tidy.inside, tidy.live, ?_, ?_, ?_⟩
  · intro number other leads
    obtain ⟨owned | leaves | leaked, rest⟩ := tidy.held number other leads
    · exact ⟨Or.inl owned, rest⟩
    · exact ⟨Or.inr (Or.inl leaves), rest⟩
    · exact ⟨Or.inr (Or.inr (Leaked.record leaked _)), rest⟩
  · intro reach member
    rcases List.mem_append.mp member with old | new
    · exact tidy.reached reach old
    · rw [List.mem_singleton.mp new]
  · intro other
    have before := tidy.closed other
    unfold Process.closings at before ⊢
    rw [closings_snoc, before]
    simp

theorem Tidy.free {leaving : Option Nat} (tidy : Tidy process leaving)
    (only : ∀ other, leaving = some other → other = index)
    (found : process.wrappers[index]? = some wrapper)
    (named : process.numbers.target? wrapper.fd = some index) (origin : Origin)
    {wrappers : List FileDescriptor} (length : wrappers.length = process.wrappers.length)
    (others : ∀ other, index ≠ other → wrappers[other]? = process.wrappers[other]?)
    (settled : ∀ now, wrappers[index]? = some now → now.closed = false →
      ¬ process.handles.Owned index) :
    Tidy
      { process with
        numbers := process.numbers.reset wrapper.fd
        wrappers := wrappers
        log := process.log ++ [⟨origin, index, some index, true⟩] } none := by
  have inRange : index < process.wrappers.length := (List.getElem?_eq_some_iff.mp found).1
  -- No other number leads to this wrapper.
  have unique : ∀ number, process.numbers.target? number = some index → number = wrapper.fd := by
    intro number leads
    obtain ⟨_, other, there, _, rfl⟩ := tidy.held number index leads
    rw [found] at there
    cases there
    rfl
  have gone : ¬ (process.numbers.reset wrapper.fd).Owned index := by
    rw [Shared.owned_iff]
    rintro ⟨number, leads⟩
    obtain ⟨differs, leads⟩ := Shared.target?_reset.mp leads
    exact differs (unique number leads)
  refine ⟨?_, ?_, ?_, ?_, ?_⟩
  · intro other owned
    rw [length]
    exact tidy.inside other owned
  · rintro other now there (owned | ⟨⟨⟩⟩) unclosed
    by_cases same : index = other
    · subst same
      exact absurd owned (settled now there unclosed)
    · have before := tidy.live other now ((others other same).symm.trans there) (Or.inl owned)
        unclosed
      refine Shared.target?_reset.mpr ⟨?_, before⟩
      intro shared
      rw [shared, named] at before
      exact same (Option.some.inj before)
  · intro number other leads
    obtain ⟨differs, leads⟩ := Shared.target?_reset.mp leads
    obtain ⟨owned, now, there, unclosed, number_eq⟩ := tidy.held number other leads
    have apart : index ≠ other := by
      rintro rfl
      exact differs (unique number leads)
    refine ⟨?_, now, (others other apart).trans there, unclosed, number_eq⟩
    rcases owned with owned | leaves | leaked
    · exact Or.inl owned
    · exact absurd (only other leaves).symm apart
    · exact Or.inr (Or.inr (Leaked.record leaked _))
  · intro reach member
    rcases List.mem_append.mp member with old | new
    · exact tidy.reached reach old
    · rw [List.mem_singleton.mp new]
  · intro other
    have owned : process.numbers.Owned index := Shared.Owned.of_target named
    have before := tidy.closed other
    unfold Process.closings at before ⊢
    rw [closings_snoc, length, before]
    by_cases same : index = other
    · subst same
      simp [owned, gone, inRange]
    · have differs : process.numbers.target? wrapper.fd ≠ some other := by
        rw [named]
        exact fun equal => same (Option.some.inj equal)
      simp [same, Shared.owned_reset_of_ne differs]

theorem Tidy.mark {leaving : Option Nat} (tidy : Tidy process leaving)
    (only : ∀ other, leaving = some other → other = index)
    (found : process.wrappers[index]? = some wrapper)
    (named : process.numbers.target? wrapper.fd = some index) (origin : Origin) :
    Tidy
      { process with
        numbers := process.numbers.reset wrapper.fd
        wrappers := process.wrappers.set index { wrapper with eof := true, closed := true }
        log := process.log ++ [⟨origin, index, some index, true⟩] } none := by
  have inRange : index < process.wrappers.length := (List.getElem?_eq_some_iff.mp found).1
  refine tidy.free only found named origin List.length_set ?_ ?_
  · intro other apart
    exact List.getElem?_set_ne apart
  · intro now there unclosed
    rw [List.getElem?_set_self inRange] at there
    cases there
    cases unclosed

theorem Tidy.close (tidy : Tidy process none) (found : process.wrappers[index]? = some wrapper)
    (named : process.numbers.target? wrapper.fd = some index) (promised : closing.Promised)
    (kept : closing.freed = true → closing.result.value = 0) :
    Tidy (process.close .close index closing) none := by
  rcases close_cases .close found named promised with
    ⟨_, closed⟩ | ⟨failed, freed, _⟩ | ⟨_, unchanged⟩
  · rw [closed]
    exact tidy.mark (fun _ leaves => by cases leaves) found named .close
  · exact absurd (kept freed) failed
  · rw [unchanged]
    exact tidy.record .close

theorem Tidy.settle {leaving : Option Nat} (tidy : Tidy process leaving)
    (settled : ∀ index, leaving = some index →
      process.handles.Owned index ∨ ¬ process.numbers.Owned index ∨ process.Leaked index) :
    Tidy process none := by
  refine ⟨tidy.inside, ?_, ?_, tidy.reached, tidy.closed⟩
  · rintro index wrapper there (owned | ⟨⟨⟩⟩)
    exact tidy.live index wrapper there (Or.inl owned)
  · intro number index leads
    obtain ⟨owned | leaves | leaked, rest⟩ := tidy.held number index leads
    · exact ⟨Or.inl owned, rest⟩
    · rcases settled index leaves with owned | unnamed | leaked
      · exact ⟨Or.inl owned, rest⟩
      · exact absurd (Shared.Owned.of_target leads) unnamed
      · exact ⟨Or.inr (Or.inr leaked), rest⟩
    · exact ⟨Or.inr (Or.inr leaked), rest⟩

theorem Tidy.unmarked {leaving : Option Nat} (tidy : Tidy process leaving)
    (owned : process.numbers.Owned index) :
    ∃ wrapper, process.wrappers[index]? = some wrapper ∧ wrapper.closed = false := by
  obtain ⟨number, leads⟩ := Shared.owned_iff.mp owned
  obtain ⟨_, wrapper, there, unclosed, _⟩ := tidy.held number index leads
  exact ⟨wrapper, there, unclosed⟩

theorem Tidy.destruct (tidy : Tidy process (some index))
    (unheld : ¬ process.handles.Owned index) (promised : closing.Promised) :
    Tidy (process.destruct index closing) none := by
  unfold Process.destruct
  cases found : process.wrappers[index]? with
  | none =>
      apply tidy.settle
      rintro _ ⟨⟩
      refine Or.inr (Or.inl fun owned => ?_)
      obtain ⟨wrapper, there, _⟩ := tidy.unmarked owned
      rw [found] at there
      cases there
  | some wrapper =>
      dsimp only
      split
      next closed =>
        apply tidy.settle
        rintro _ ⟨⟩
        refine Or.inr (Or.inl fun owned => ?_)
        obtain ⟨other, there, unclosed⟩ := tidy.unmarked owned
        rw [found] at there
        cases there
        rw [closed] at unclosed
        cases unclosed
      next unclosed =>
        have named := tidy.live index wrapper found (Or.inr rfl)
          (Bool.eq_false_of_not_eq_true unclosed)
        have only : ∀ other, some index = some other → other = index :=
          fun _ leaves => (Option.some.inj leaves).symm
        rcases close_cases .destructor found named promised with
          ⟨_, closed⟩ | ⟨_, _, freed⟩ | ⟨_, unchanged⟩
        · rw [closed]
          exact tidy.mark only found named .destructor
        · rw [freed]
          exact tidy.free only found named .destructor rfl (fun _ _ => rfl) (fun _ _ _ => unheld)
        · rw [unchanged]
          apply (tidy.record .destructor).settle
          rintro _ ⟨⟩
          exact Or.inr (Or.inr ⟨_, List.mem_append_right _ List.mem_cons_self, rfl, rfl, rfl⟩)

theorem Tidy.release {leaving : Option Nat} (tidy : Tidy process leaving)
    (promised : closing.Promised) : Tidy (process.release closing leaving) none := by
  cases leaving with
  | none => exact tidy
  | some index =>
      rw [Process.release]
      split
      next owned =>
        apply tidy.settle
        rintro _ ⟨⟩
        exact Or.inl owned
      next unheld => exact tidy.destruct unheld promised

theorem Tidy.rehold (tidy : Tidy process none) {handles : Shared Nat} {leaving : Option Nat}
    (fewer : ∀ index, handles.Owned index ∨ leaving = some index → process.handles.Owned index)
    (others : ∀ index, process.handles.Owned index →
      handles.Owned index ∨ leaving = some index) :
    Tidy { process with handles := handles } leaving := by
  refine ⟨?_, ?_, ?_, tidy.reached, tidy.closed⟩
  · intro index owned
    exact tidy.inside index (fewer index (Or.inl owned))
  · intro index wrapper there owned
    exact tidy.live index wrapper there (Or.inl (fewer index owned))
  · intro number index leads
    obtain ⟨owned | ⟨⟨⟩⟩ | leaked, rest⟩ := tidy.held number index leads
    · exact ⟨or_assoc.mp (Or.inl (others index owned)), rest⟩
    · exact ⟨Or.inr (Or.inr leaked), rest⟩

theorem Tidy.destroy (tidy : Tidy process none) (handle : Nat) (promised : closing.Promised) :
    Tidy (process.destroy handle closing) none := by
  refine (tidy.rehold ?_ ?_).release promised
  · rintro index (owned | held)
    · obtain ⟨name, holds⟩ := Shared.owned_iff.mp owned
      exact .of_target (Shared.target?_reset.mp holds).2
    · exact .of_target held
  · intro index owned
    by_cases held : process.handles.target? handle = some index
    · exact Or.inr held
    · exact Or.inl ((Shared.owned_reset_of_ne held).mpr owned)

theorem Tidy.move (tidy : Tidy process none) (source target : Nat)
    (promised : closing.Promised) : Tidy (process.move source target closing) none := by
  unfold Process.move
  split
  next => exact tidy
  next differs =>
    cases holds : process.handles.target? source with
    | none => exact tidy.destroy target promised
    | some index =>
        refine (tidy.rehold ?_ ?_).release promised
        · rintro other (owned | held)
          · rcases Shared.owned_assign.mp owned with rfl | owned
            · exact .of_target holds
            · obtain ⟨name, kept⟩ := Shared.owned_iff.mp owned
              exact .of_target (Shared.target?_reset.mp (Shared.target?_reset.mp kept).2).2
          · exact .of_target held
        · intro other owned
          by_cases held : process.handles.target? target = some other
          · exact Or.inr held
          · refine Or.inl (Shared.owned_assign.mpr ?_)
            by_cases same : other = index
            · exact Or.inl same
            · right
              rw [Shared.owned_reset_of_ne, Shared.owned_reset_of_ne]
              · exact owned
              · rw [holds]
                exact fun equal => same (Option.some.inj equal).symm
              · exact fun kept => held (Shared.target?_reset.mp kept).2

theorem Tidy.duplicate (tidy : Tidy process none) (source : Nat) {target : Nat}
    (unused : process.handles.target? target = none) :
    Tidy (process.duplicate source target) none := by
  unfold Process.duplicate
  split
  next => exact tidy
  next index holds =>
    have kept : ∀ other, (process.handles.reset target).Owned other ↔
        process.handles.Owned other :=
      fun other => Shared.owned_reset_of_ne (by rw [unused]; nofun)
    refine tidy.rehold ?_ ?_
    · rintro other (owned | ⟨⟨⟩⟩)
      rcases Shared.owned_assign.mp owned with rfl | owned
      · exact .of_target holds
      · exact (kept other).mp owned
    · intro other owned
      exact Or.inl (Shared.owned_assign.mpr (Or.inr ((kept other).mpr owned)))

theorem Tidy.adopt (tidy : Tidy process none) {number : Int} {handle : Nat}
    (free : process.numbers.target? number = none)
    (unused : process.handles.target? handle = none) :
    Tidy (process.adopt number handle) none := by
  unfold Process.adopt
  split
  next => exact tidy
  next =>
    have holders : ∀ index,
        (process.handles.assign handle process.wrappers.length).Owned index ↔
          index = process.wrappers.length ∨ process.handles.Owned index := by
      intro index
      rw [Shared.owned_assign, Shared.owned_reset_of_ne (by rw [unused]; nofun)]
    have named : ∀ index,
        (process.numbers.assign number process.wrappers.length).Owned index ↔
          index = process.wrappers.length ∨ process.numbers.Owned index := by
      intro index
      rw [Shared.owned_assign, Shared.owned_reset_of_ne (by rw [free]; nofun)]
    refine ⟨?_, ?_, ?_, tidy.reached, ?_⟩
    · intro index owned
      rw [List.length_append, List.length_singleton]
      rcases (holders index).mp owned with rfl | owned
      · exact Nat.lt_succ_self _
      · exact Nat.lt_succ_of_lt (tidy.inside index owned)
    · rintro index wrapper there (owned | ⟨⟨⟩⟩) unclosed
      rcases (holders index).mp owned with rfl | owned
      · rw [List.getElem?_concat_length] at there
        cases there
        exact Shared.target?_assign.mpr (Or.inl ⟨rfl, rfl⟩)
      · rw [List.getElem?_append_left (tidy.inside index owned)] at there
        have leads := tidy.live index wrapper there (Or.inl owned) unclosed
        refine Shared.target?_assign.mpr (Or.inr ⟨?_, leads⟩)
        intro same
        rw [same, free] at leads
        cases leads
    · intro other index leads
      rcases Shared.target?_assign.mp leads with ⟨rfl, rfl⟩ | ⟨_, leads⟩
      · exact ⟨Or.inl ((holders _).mpr (Or.inl rfl)), _, List.getElem?_concat_length, rfl, rfl⟩
      · obtain ⟨owned, wrapper, there, rest⟩ := tidy.held other index leads
        have inRange : index < process.wrappers.length := (List.getElem?_eq_some_iff.mp there).1
        refine ⟨?_, wrapper, (List.getElem?_append_left inRange).trans there, rest⟩
        rcases owned with owned | ⟨⟨⟩⟩ | leaked
        · exact Or.inl ((holders index).mpr (Or.inr owned))
        · exact Or.inr (Or.inr leaked)
    · intro index
      have before := tidy.closed index
      change process.closings index = _
      rw [before, List.length_append, List.length_singleton]
      by_cases new : index = process.wrappers.length
      · subst new
        simp [named]
      · have same : index < process.wrappers.length + 1 ↔ index < process.wrappers.length := by
          omega
        simp [named, new, same]

theorem Tidy.leads (tidy : Tidy process none) {handle : Nat} (holds : process.Holds handle) :
    ∃ index wrapper, process.handles.target? handle = some index ∧
      process.wrappers[index]? = some wrapper ∧
      process.numbers.target? wrapper.fd = some index := by
  obtain ⟨index, held, wrapper, found, unclosed⟩ := holds
  exact ⟨index, wrapper, held, found,
    tidy.live index wrapper found (Or.inl (.of_target held)) unclosed⟩

theorem Tidy.access (tidy : Tidy process none) {handle : Nat} (holds : process.Holds handle) :
    Tidy (process.access handle) none := by
  obtain ⟨index, wrapper, held, found, leads⟩ := tidy.leads holds
  simp only [Process.access, held, found, leads]
  exact tidy.record .access

theorem Tidy.next (tidy : Tidy process none) {use : Use} (permitted : process.Permits use) :
    Tidy (process.next use) none := by
  cases use with
  | adopt number handle => exact tidy.adopt permitted.1 permitted.2
  | duplicate source target => exact tidy.duplicate source permitted
  | move source target closing => exact tidy.move source target permitted
  | destroy handle closing => exact tidy.destroy handle permitted
  | access handle => exact tidy.access permitted
  | close handle closing =>
      obtain ⟨holds, promised, kept⟩ := permitted
      obtain ⟨index, wrapper, held, found, leads⟩ := tidy.leads holds
      simp only [Process.next, held]
      exact tidy.close found leads promised kept

end

theorem tidy_init : Tidy processes.init none := by
  refine ⟨nofun, nofun, nofun, nofun, fun index => ?_⟩
  simp [processes, Process.closings]

structure Accounted (process : Process) : Prop where
  reached : ∀ reach ∈ process.log, reach.reached = some reach.owner
  once : ∀ index < process.wrappers.length,
    process.numbers.Owned index ∧ process.closings index = 0 ∨
      ¬ process.numbers.Owned index ∧ process.closings index = 1
  held : ∀ index, process.numbers.Owned index →
    process.handles.Owned index ∨ process.Leaked index

/-- As long as nobody uses or closes an object whose wrapper is closed, and no `close` that
throws has freed its number, every call on a number reaches the file the wrapper was made
for, although numbers are given out again; a file that is open has an object that holds it,
unless its destructor could not close it; and every other file was freed once. -/
theorem descriptors_accounted {process : Process} (reached : processes.Reachable process) :
    Accounted process := by
  have tidy : Tidy process none :=
    Machine.invariant (fun process => Tidy process none) tidy_init
      (fun _ _ permitted tidy => tidy.next permitted) reached
  refine ⟨tidy.reached, ?_, ?_⟩
  · intro index inRange
    rw [tidy.closed index]
    by_cases owned : process.numbers.Owned index
    · simp [owned]
    · simp [owned, inRange]
  · intro index owned
    obtain ⟨number, leads⟩ := Shared.owned_iff.mp owned
    rcases (tidy.held number index leads).1 with held | ⟨⟨⟩⟩ | leaked
    · exact Or.inl held
    · exact Or.inr leaked

/-- A duplicate keeps the number open, a `close` fails and is tried again, and the number goes
to another file; that is moved over, and a third file outlives its object because the
destructor fails. -/
theorem descriptors_accounted_reused :
    let ok : Closing := ⟨⟨0, 0⟩, true⟩
    let interrupted : Closing := ⟨⟨-1, 4⟩, false⟩
    let process := processes.run processes.init
      [.adopt 3 0, .duplicate 0 1, .destroy 0 ok, .access 1, .close 1 interrupted, .access 1,
        .close 1 ok, .adopt 3 2, .access 2, .move 2 1 ok, .destroy 2 ok, .adopt 4 3,
        .destroy 3 interrupted]
    Accounted process ∧ process.closings 0 = 1 ∧ process.closings 1 = 0 ∧
      ¬ process.handles.Owned 2 := by
  intro ok interrupted process
  have reached : processes.Reachable process := Machine.reachable_run _ _ (by decide)
  exact ⟨descriptors_accounted reached, by decide, by decide, by decide⟩

-- `close` on a wrapper that is closed already takes the number from whoever has it now.
example :
    let ok : Closing := ⟨⟨0, 0⟩, true⟩
    let process := processes.run processes.init
      [.adopt 3 0, .close 0 ok, .adopt 3 1, .close 0 ok, .access 1]
    process.log.getLast? = some ⟨.access, 1, none, false⟩ := by
  decide

-- So does the destructor after a `close` that failed but freed the number.
example :
    let ok : Closing := ⟨⟨0, 0⟩, true⟩
    let lost : Closing := ⟨⟨-1, 5⟩, true⟩
    let process := processes.run processes.init
      [.adopt 3 0, .close 0 lost, .adopt 3 1, .destroy 0 ok, .access 1]
    process.log.getLast? = some ⟨.access, 1, none, false⟩ := by
  decide

end Sponge.FileDescriptor
