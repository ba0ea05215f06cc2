import Sponge.Util.EventLoop.Steps

namespace Sponge.EventLoop

/-! Rules and `pollfd`s are kept together by position only. They stay together as long as
no callback of the second loop touches the rules. -/

/-- What must have happened in a call before an event of its: a rule is examined by an entry
built for it, called when it was interested and that entry has its event, and erased
behind one call of its `cancel`. -/
def Event.Fits (log : List Event) : Event → Prop
  | .examined id _ entry =>
      ∃ pollfd, entry = some pollfd ∧ pollfd.owner = id ∧
        ∃ direction interested, .built id direction interested ∈ log ∧
          pollfd.events = if interested then direction.events else 0
  | .called id =>
      ∃ idx pollfd direction, .examined id idx (some pollfd) ∈ log ∧ pollfd.owner = id ∧
        .built id direction true ∈ log ∧ pollfd.events = direction.events ∧
        pollfd.revents &&& direction.events ≠ 0
  | .erased id => log.count (.cancelled id) = 1
  | .built _ _ _ | .cancelled _ => True

def Matched (log : List Event) : Prop :=
  ∀ front event back, log = front ++ event :: back → event.Fits front

theorem matched_nil : Matched [] := by
  intro front event back whole
  cases front <;> cases whole

theorem Matched.snoc {log : List Event} (matched : Matched log) {event : Event}
    (fits : event.Fits log) : Matched (log ++ [event]) := by
  intro front other back whole
  rcases List.eq_nil_or_concat back with rfl | ⟨back, last, rfl⟩
  · obtain ⟨rfl, same⟩ := List.append_inj' whole rfl
    cases same
    exact fits
  · rw [List.concat_eq_append, ← List.cons_append, ← List.append_assoc] at whole
    obtain ⟨rfl, _⟩ := List.append_inj' whole rfl
    exact matched front other back rfl

/-! ## What a call keeps -/

def Phase.cancels : Phase → Option Nat
  | .cancelling _ id => some id
  | _ => none

/-- The bookkeeping of a call apart from its place. -/
structure Sound (rules : List Rule) (fresh : Nat) (pollfds : List PollFd) (log : List Event)
    (cancels : Option Nat) : Prop where
  distinct : (rules.map Rule.id).Nodup
  named : ∀ id ∈ rules.map Rule.id, id < fresh
  entries : ∀ pollfd ∈ pollfds, ∃ direction interested,
    .built pollfd.owner direction interested ∈ log ∧
      pollfd.events = if interested then direction.events else 0
  cancelled : ∀ id, id ∈ rules.map Rule.id ∨ fresh ≤ id →
    log.count (.cancelled id) = if cancels = some id then 1 else 0
  matched : Matched log

section

variable {rules : List Rule} {fresh : Nat} {pollfds : List PollFd} {log : List Event}
  {id : Nat}

theorem Sound.entries_snoc {cancels : Option Nat}
    (sound : Sound rules fresh pollfds log cancels) (event : Event) :
    ∀ pollfd ∈ pollfds, ∃ direction interested,
      .built pollfd.owner direction interested ∈ log ++ [event] ∧
        pollfd.events = if interested then direction.events else 0 := by
  intro pollfd inside
  obtain ⟨direction, interested, built, events⟩ := sound.entries pollfd inside
  exact ⟨direction, interested, List.mem_append_left _ built, events⟩

theorem Sound.cancel (sound : Sound rules fresh pollfds log none) (id : Nat) :
    Sound rules fresh pollfds (log ++ [.cancelled id]) (some id) := by
  refine ⟨sound.distinct, sound.named, sound.entries_snoc _, ?_, sound.matched.snoc trivial⟩
  intro other present
  rw [List.count_append, sound.cancelled other present, if_neg nofun, Nat.zero_add,
    List.count_singleton]
  by_cases same : id = other
  · simp [same]
  · simp [same]

theorem Sound.erase (sound : Sound rules fresh pollfds log (some id))
    (member : id ∈ rules.map Rule.id) :
    Sound (erase rules id) fresh pollfds (log ++ [.erased id]) none := by
  have inside {other : Nat} (remains : other ∈ (EventLoop.erase rules id).map Rule.id) :
      other ∈ rules.map Rule.id ∧ other ≠ id := by
    rw [map_erase] at remains
    exact ⟨List.mem_of_mem_filter remains, bne_iff_ne.mp (List.mem_filter.mp remains).2⟩
  have once : log.count (.cancelled id) = 1 := by
    rw [sound.cancelled id (Or.inl member), if_pos rfl]
  refine ⟨?_, ?_, sound.entries_snoc _, ?_, sound.matched.snoc once⟩
  · rw [map_erase]
    exact sound.distinct.filter _
  · intro other remains
    exact sound.named other (inside remains).1
  · intro other present
    have before : (other ∈ rules.map Rule.id ∨ fresh ≤ other) ∧ id ≠ other := by
      rcases present with remains | unused
      · exact ⟨Or.inl (inside remains).1, (inside remains).2.symm⟩
      · exact ⟨Or.inr unused, Nat.ne_of_lt (Nat.lt_of_lt_of_le (sound.named id member) unused)⟩
    rw [List.count_append, sound.cancelled other before.1, List.count_singleton]
    simp [before.2]

theorem Sound.record (sound : Sound rules fresh pollfds log none) {event : Event}
    (harmless : ∀ id, event ≠ .cancelled id) (fits : event.Fits log) :
    Sound rules fresh pollfds (log ++ [event]) none := by
  refine ⟨sound.distinct, sound.named, sound.entries_snoc _, ?_, sound.matched.snoc fits⟩
  intro other present
  rw [List.count_append, sound.cancelled other present, List.count_singleton]
  simp [harmless other]

theorem Sound.build (sound : Sound rules fresh pollfds log none) (id : Nat)
    (direction : Direction) (interested : Bool) (fd : Int) :
    Sound rules fresh
      (pollfds ++ [⟨id, fd, if interested then direction.events else 0, 0⟩])
      (log ++ [.built id direction interested]) none := by
  have recorded := @Sound.record _ _ _ _ sound (.built id direction interested) nofun trivial
  refine ⟨recorded.distinct, recorded.named, ?_, recorded.cancelled, recorded.matched⟩
  intro pollfd inside
  rcases List.mem_append.mp inside with old | new
  · exact recorded.entries pollfd old
  · rw [List.mem_singleton.mp new]
    exact ⟨direction, interested, List.mem_append_right _ (List.mem_singleton.mpr rfl), rfl⟩

theorem Sound.examine (sound : Sound rules fresh pollfds log none) {pollfd : PollFd}
    (inside : pollfd ∈ pollfds) (idx : Nat) :
    Sound rules fresh pollfds (log ++ [.examined pollfd.owner idx (some pollfd)]) none :=
  sound.record nofun ⟨pollfd, rfl, rfl, sound.entries pollfd inside⟩

theorem Sound.call (sound : Sound rules fresh pollfds log none) {pollfd : PollFd} {idx : Nat}
    (inside : pollfd ∈ pollfds)
    (looked : .examined pollfd.owner idx (some pollfd) ∈ log)
    (ready : pollfd.revents &&& pollfd.events ≠ 0) :
    Sound rules fresh pollfds (log ++ [.called pollfd.owner]) none := by
  obtain ⟨direction, interested, built, events⟩ := sound.entries pollfd inside
  cases interested with
  | false =>
      rw [events] at ready
      exact absurd (by simp) ready
  | true =>
      rw [events] at ready
      exact sound.record nofun ⟨idx, pollfd, direction, looked, rfl, built, events, ready⟩

theorem Sound.poll (sound : Sound rules fresh pollfds log none) {others : List PollFd}
    (filled : ∀ pollfd ∈ others, ∃ old ∈ pollfds,
      pollfd.owner = old.owner ∧ pollfd.events = old.events) :
    Sound rules fresh others log none := by
  refine ⟨sound.distinct, sound.named, ?_, sound.cancelled, sound.matched⟩
  intro pollfd inside
  obtain ⟨old, member, owner, events⟩ := filled pollfd inside
  rw [owner, events]
  exact sound.entries old member

theorem Sound.addRule {cancels : Option Nat} (sound : Sound rules fresh pollfds log cancels)
    (direction : Direction) :
    Sound (rules ++ [⟨fresh, direction⟩]) (fresh + 1) pollfds log cancels := by
  have ids : (rules ++ [(⟨fresh, direction⟩ : Rule)]).map Rule.id =
      rules.map Rule.id ++ [fresh] := List.map_append
  refine ⟨?_, ?_, sound.entries, ?_, sound.matched⟩
  · rw [ids]
    refine List.nodup_append.mpr ⟨sound.distinct, List.nodup_singleton _, ?_⟩
    intro id member other new
    rw [List.mem_singleton.mp new]
    exact Nat.ne_of_lt (sound.named id member)
  · intro id member
    rw [ids, List.mem_append] at member
    rcases member with old | new
    · exact Nat.lt_succ_of_lt (sound.named id old)
    · rw [List.mem_singleton.mp new]
      exact Nat.lt_succ_self fresh
  · intro id present
    apply sound.cancelled
    rw [ids, List.mem_append, List.mem_singleton] at present
    rcases present with (old | rfl) | unused
    · exact Or.inl old
    · exact Or.inr (Nat.le_refl _)
    · exact Or.inr (Nat.le_of_succ_le unused)

end

structure Recorded (rules : List Rule) (fresh : Nat) (call : Call) : Prop where
  sound : Sound rules fresh call.pollfds call.log call.phase.cancels
  placed : Placed (rules.map Rule.id) (call.pollfds.map PollFd.owner) call.phase

section

variable {rules rest : List Rule} {fresh : Nat} {call after : Call} {pending : List Nat}
  {id : Nat}

theorem Recorded.sound_at (recorded : Recorded rules fresh call) {phase : Phase}
    {cancelling : Option Nat} (here : call.phase = phase) (cancels : phase.cancels = cancelling) :
    Sound rules fresh call.pollfds call.log cancelling := by
  rw [← cancels, ← here]
  exact recorded.sound

theorem Call.Looks.sound {idx : Nat} {pollfd : PollFd} (looks : call.Looks rules idx pollfd pending)
    (recorded : Recorded rules fresh call) :
    Sound rules fresh call.pollfds (call.looked idx pollfd).log none :=
  (recorded.sound_at looks.phase rfl).examine (List.mem_of_getElem? looks.entry) idx

theorem Recorded.steps (recorded : Recorded rules fresh call)
    (steps : Steps rules call rest after) : Recorded rest fresh after := by
  cases steps with
  | stays => exact recorded
  | exits here => exact ⟨recorded.sound_at here.phase rfl, trivial⟩
  | polls here =>
      exact ⟨recorded.sound_at here.phase rfl, here.ahead.trans (List.append_nil _)⟩
  | cancels here =>
      exact ⟨(recorded.sound_at here.phase rfl).cancel _, _, here.ahead⟩
  | asks here => exact ⟨recorded.sound_at here.phase rfl, _, here.ahead⟩
  | builds here direction interested fd =>
      refine ⟨(recorded.sound_at here.phase rfl).build _ direction interested fd, _, ?_, rfl⟩
      change _ = _ ++ _
      rw [here.ahead, List.map_append, List.append_assoc]
      rfl
  | ends phase other => exact ⟨recorded.sound_at phase rfl, trivial⟩
  | begins phase owners filled =>
      have all := recorded.placed
      rw [phase] at all
      refine ⟨(recorded.sound_at phase rfl).poll filled, _, ⟨⟨[], rfl⟩, ?_⟩, rfl⟩
      exact owners.trans all.symm
  | succeeds here => exact ⟨recorded.sound_at here.phase rfl, trivial⟩
  | faults looks exception => exact ⟨looks.sound recorded, trivial⟩
  | hangsUp looks intact hungUp =>
      exact ⟨(looks.sound recorded).cancel _, _, looks.ahead⟩
  | calls looks intact attached ready count =>
      refine ⟨?_, _, looks.ahead⟩
      exact (looks.sound recorded).call (List.mem_of_getElem? looks.entry)
        (List.mem_append_right _ (List.mem_singleton.mpr rfl)) (bne_iff_ne.mp ready)
  | passes looks intact attached idle =>
      exact ⟨looks.sound recorded, _, looks.ahead.step, rfl⟩
  | erases here =>
      have sound := recorded.sound_at here.phase rfl
      refine ⟨sound.erase (mem_of_ahead here.ahead), _, ?_, rfl⟩
      rw [map_erase]
      exact here.ahead.erase sound.distinct
  | questions here => exact ⟨recorded.sound_at here.phase rfl, _, here.ahead⟩
  | complains here => exact ⟨recorded.sound_at here.phase rfl, trivial⟩
  | serves here | accepts here =>
      exact ⟨recorded.sound_at here.phase rfl, _, here.ahead.step, rfl⟩

theorem Recorded.addRule (recorded : Recorded rules fresh call)
    (first : call.phase.settingUp = true) (direction : Direction) :
    Recorded (rules ++ [⟨fresh, direction⟩]) (fresh + 1) call := by
  obtain ⟨sound, placed⟩ := recorded
  refine ⟨sound.addRule direction, ?_⟩
  have longer {owners pending : List Nat} {id : Nat}
      (ahead : Ahead (rules.map Rule.id) owners (id :: pending) .setup) :
      ∃ pending, Ahead ((rules ++ [(⟨fresh, direction⟩ : Rule)]).map Rule.id) owners
        (id :: pending) .setup := by
    refine ⟨pending ++ [fresh], ?_⟩
    change _ = _
    rw [List.map_append, ahead, List.append_assoc]
    rfl
  cases phase : call.phase with
  | cancelling pass id | asking pass id =>
      rw [phase] at first placed
      obtain ⟨pending, ahead⟩ := placed
      cases pass with
      | setup => exact longer ahead
      | results idx => cases first
  | top | calling | polling | returned | threw | undefined =>
      rw [phase] at first
      cases first

end

/-! ## Whole runs -/

theorem ids_mapIdx (directions : List Direction) :
    (directions.mapIdx fun id direction => (⟨id, direction⟩ : Rule)).map Rule.id =
      List.range directions.length := by
  apply List.ext_getElem
  · simp
  · intro position _ _
    simp

theorem recorded_start (directions : List Direction) :
    Recorded (waits directions).init.rules (waits directions).init.fresh
      (Call.start (waits directions).init.rules) := by
  have ids : (waits directions).init.rules.map Rule.id = List.range directions.length :=
    ids_mapIdx directions
  refine ⟨⟨?_, ?_, nofun, ?_, matched_nil⟩, _, rfl, rfl⟩
  · rw [ids]
    exact List.nodup_range
  · intro id member
    rw [ids] at member
    exact List.mem_range.mp member
  · intro id _
    rfl

structure Kept (loop : Loop) (call : Call) : Prop where
  single : loop.calls = [call]
  recorded : Recorded loop.rules loop.fresh call ∨
    ((∃ exception, call.phase = .threw exception) ∧ Matched call.log)

theorem Kept.next {loop : Loop} {call : Call} {op : Op} (kept : Kept loop call)
    (possible : loop.possible op = true) (steady : loop.steady op = true) :
    ∃ call, Kept (loop.next op) call := by
  obtain ⟨single, recorded | ⟨⟨exception, threw⟩, _⟩⟩ := kept
  · obtain ⟨rules, fresh, calls⟩ := loop
    cases single
    have does := next_does recorded.sound.distinct recorded.placed possible steady
    generalize Loop.next ⟨rules, fresh, [call]⟩ op = after at does ⊢
    cases does with
    | steps steps => exact ⟨_, rfl, Or.inl (recorded.steps steps)⟩
    | adds first direction => exact ⟨call, rfl, Or.inl (recorded.addRule first direction)⟩
    | throws exception => exact ⟨_, rfl, Or.inr ⟨⟨exception, rfl⟩, recorded.sound.matched⟩⟩
  · rw [not_possible_of_threw single threw] at possible
    cases possible

theorem steadyWaits_kept {directions : List Direction} {loop : Loop}
    (reached : (steadyWaits directions).Reachable loop) : ∃ call, Kept loop call := by
  refine Machine.invariant (fun loop => ∃ call, Kept loop call) ?_ ?_ reached
  · exact ⟨_, rfl, Or.inl (recorded_start directions)⟩
  · rintro loop op ⟨possible, steady⟩ ⟨call, kept⟩
    exact kept.next possible steady

/-- While callbacks leave the second loop alone, every rule is matched with its own entry,
no index is out of range and no iterator dangles. -/
theorem rules_match_pollfds {directions : List Direction} {loop : Loop}
    (reached : (steadyWaits directions).Reachable loop) :
    ∀ call ∈ loop.calls, Matched call.log ∧ call.phase ≠ .undefined := by
  obtain ⟨call, single, recorded⟩ := steadyWaits_kept reached
  rw [single]
  intro other member
  rw [List.mem_singleton.mp member]
  rcases recorded with ⟨sound, placed⟩ | ⟨⟨exception, threw⟩, matched⟩
  · refine ⟨sound.matched, ?_⟩
    intro undefined
    rw [undefined] at placed
    exact placed
  · exact ⟨matched, by rw [threw]; nofun⟩

theorem rules_match_pollfds_mixed :
    let loop := (steadyWaits [.In, .Out, .In, .In]).run
      (steadyWaits [.In, .Out, .In, .In]).init
      [.advance { fd := 3, eof := true }, .addRule .Out, .resume true { fd := 3 },
        .advance { fd := 4 }, .resume false { fd := 4 },
        .advance { fd := 5 }, .resume true { fd := 5 },
        .advance { fd := 6 }, .resume true { fd := 6 },
        .advance { fd := 7 }, .resume false { fd := 7 },
        .advance { fd := 0 }, .poll (.ready [0, 0x0010, 0x0001, 0]),
        .advance { fd := 4 }, .advance { fd := 5 }, .resume false { fd := 5 },
        .advance { fd := 6 }, .resume false { fd := 6, readCount := 1 },
        .advance { fd := 7 }, .advance { fd := 0 }]
    ∃ call ∈ loop.calls, Matched call.log ∧ call.phase = .returned .success := by
  intro loop
  have reached : (steadyWaits [.In, .Out, .In, .In]).Reachable loop :=
    Machine.reachable_run _ _ (by decide)
  exact ⟨_, List.mem_cons_self, (rules_match_pollfds reached _ List.mem_cons_self).1,
    by decide⟩

/-- The callback of the only rule adds a second one, and the second loop goes on to it
with an index behind the last entry. -/
theorem added_rule_examined_out_of_range :
    ∃ loop, (waits [.In]).Reachable loop ∧ ∃ call ∈ loop.calls,
      call.log.getLast? = some (.examined 1 1 none) ∧ call.pollfds.length = 1 ∧
      call.phase = .undefined ∧ ¬Matched call.log := by
  refine ⟨_, Machine.reachable_run (waits [.In])
    [.advance { fd := 3 }, .resume true { fd := 3 }, .advance { fd := 3 },
      .poll (.ready [0x0001]), .advance { fd := 3 }, .addRule .In,
      .resume false { fd := 3, readCount := 1 }, .advance { fd := 4 }] (by decide),
    _, List.mem_cons_self, by decide, by decide, by decide, ?_⟩
  intro matched
  obtain ⟨pollfd, absent, _⟩ := matched _ (.examined 1 1 none) [] rfl
  cases absent

end Sponge.EventLoop
