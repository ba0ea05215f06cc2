import Sponge.Util.EventLoop.Lifetime

namespace Sponge.EventLoop

/-! What the result of a call says about the rules that were polled. -/

/-- The rule behind an entry got what the entry calls for and nothing else. -/
structure Served (log : List Event) (pollfd : PollFd) : Prop where
  intact : pollfd.revents &&& (POLLERR ||| POLLNVAL) = 0
  called : .called pollfd.owner ∈ log ↔ pollfd.ready = true
  cancelled : .cancelled pollfd.owner ∈ log ↔ pollfd.hungUp = true

def Quiet (log : List Event) : Prop :=
  ∀ id, .called id ∉ log

structure Serving (ids : List Nat) (pollfds : List PollFd) (log : List Event) (idx : Nat) :
    Prop where
  covered : ∀ id ∈ ids, id ∈ pollfds.map PollFd.owner
  distinct : (pollfds.map PollFd.owner).Nodup
  served : ∀ k < idx, ∀ pollfd, pollfds[k]? = some pollfd → Served log pollfd
  untouched : ∀ k ≥ idx, ∀ pollfd, pollfds[k]? = some pollfd →
    .called pollfd.owner ∉ log ∧ .cancelled pollfd.owner ∉ log

/-- What has been done for the rules when a call is in this phase. -/
def Stage (ids : List Nat) (pollfds : List PollFd) (log : List Event) : Phase → Prop
  | .top .setup _ | .cancelling .setup _ | .asking .setup _ | .polling => Quiet log
  | .top (.results idx) _ => Serving ids pollfds log idx
  | .cancelling (.results idx) _ | .asking (.results idx) _ | .calling idx _ _ =>
      Serving ids pollfds log (idx + 1)
  | .returned .success =>
      (∀ id ∈ ids, id ∈ pollfds.map PollFd.owner) ∧ ∀ pollfd ∈ pollfds, Served log pollfd
  | .returned .timeout | .returned .exit => Quiet log
  | .threw _ | .undefined => True

/-! ## One entry -/

theorem Quiet.snoc {log : List Event} (quiet : Quiet log) {event : Event}
    (other : ∀ id, event ≠ .called id) : Quiet (log ++ [event]) := by
  intro id member
  rcases List.mem_append.mp member with old | new
  · exact quiet id old
  · exact other id (List.mem_singleton.mp new).symm

theorem Served.append {log events : List Event} {pollfd : PollFd} (served : Served log pollfd)
    (silent : .called pollfd.owner ∉ events ∧ .cancelled pollfd.owner ∉ events) :
    Served (log ++ events) pollfd := by
  refine ⟨served.intact, ?_, ?_⟩
  · rw [List.mem_append, or_iff_left silent.1]
    exact served.called
  · rw [List.mem_append, or_iff_left silent.2]
    exact served.cancelled

section

variable {ids : List Nat} {pollfds : List PollFd} {log events : List Event} {idx : Nat}
  {pollfd : PollFd}

theorem Serving.apart (serving : Serving ids pollfds log idx) {first second : Nat}
    {other : PollFd} (here : pollfds[first]? = some pollfd)
    (there : pollfds[second]? = some other) (different : first ≠ second) :
    other.owner ≠ pollfd.owner := by
  intro same
  have inside : first < (pollfds.map PollFd.owner).length := by
    rw [List.length_map]
    exact (List.getElem?_eq_some_iff.mp here).1
  apply different
  apply (List.getElem?_inj inside serving.distinct).mp
  rw [List.getElem?_map, List.getElem?_map, here, there, Option.map_some, Option.map_some, same]

theorem Serving.step (serving : Serving ids pollfds log idx)
    (entry : pollfds[idx]? = some pollfd) (served : Served (log ++ events) pollfd)
    (others : ∀ id, id ≠ pollfd.owner → .called id ∉ events ∧ .cancelled id ∉ events) :
    Serving ids pollfds (log ++ events) (idx + 1) := by
  refine ⟨serving.covered, serving.distinct, ?_, ?_⟩
  · intro k below other there
    by_cases same : k = idx
    · rw [same, entry] at there
      cases there
      exact served
    · have apart := serving.apart entry there (Ne.symm same)
      exact (serving.served k (by omega) other there).append (others _ apart)
  · intro k above other there
    obtain ⟨notCalled, notCancelled⟩ := serving.untouched k (by omega) other there
    have apart := others _ (serving.apart entry there (by omega))
    rw [List.mem_append, List.mem_append, not_or, not_or]
    exact ⟨⟨notCalled, apart.1⟩, notCancelled, apart.2⟩

theorem Serving.erase (serving : Serving ids pollfds log idx) {fewer : List Nat}
    (subset : ∀ id ∈ fewer, id ∈ ids) (id : Nat) :
    Serving fewer pollfds (log ++ [.erased id]) idx := by
  refine ⟨fun id member => serving.covered id (subset id member), serving.distinct, ?_, ?_⟩
  · intro k below other there
    exact (serving.served k below other there).append (by simp)
  · intro k above other there
    obtain ⟨notCalled, notCancelled⟩ := serving.untouched k above other there
    simp [notCalled, notCancelled]

theorem Serving.finish (serving : Serving ids pollfds log idx)
    (last : (pollfds.map PollFd.owner).drop idx = []) :
    ∀ pollfd ∈ pollfds, Served log pollfd := by
  intro pollfd member
  obtain ⟨k, there⟩ := List.mem_iff_getElem?.mp member
  have inside := (List.getElem?_eq_some_iff.mp there).1
  have past := List.drop_eq_nil_iff.mp last
  rw [List.length_map] at past
  exact serving.served k (by omega) pollfd there

end

/-! ## The steps of a call -/

section

variable {rules rest : List Rule} {fresh : Nat} {call after : Call} {pending : List Nat}

def Call.Staged (call : Call) (rules : List Rule) : Prop :=
  Stage (rules.map Rule.id) call.pollfds call.log call.phase

theorem Call.Staged.at (staged : call.Staged rules) {phase : Phase} (here : call.phase = phase) :
    Stage (rules.map Rule.id) call.pollfds call.log phase :=
  here ▸ staged

theorem Recorded.serving_start (recorded : Recorded rules fresh call)
    (quiet : Quiet call.log) (phase : call.phase = .polling) {pollfds : List PollFd}
    (owners : pollfds.map PollFd.owner = call.pollfds.map PollFd.owner) :
    Serving (rules.map Rule.id) pollfds call.log 0 := by
  obtain ⟨sound, placed⟩ := recorded
  rw [phase] at sound placed
  have same : rules.map Rule.id = pollfds.map PollFd.owner := placed.trans owners.symm
  refine ⟨fun id member => same ▸ member, same ▸ sound.distinct, ?_, ?_⟩
  · intro k below
    exact absurd below (Nat.not_lt_zero k)
  · intro k _ pollfd there
    have member : pollfd.owner ∈ rules.map Rule.id := by
      rw [same]
      exact List.mem_map_of_mem (List.mem_of_getElem? there)
    exact ⟨quiet _, sound.not_cancelled member⟩

theorem Call.Looks.served {idx : Nat} {pollfd : PollFd}
    (looks : call.Looks rules idx pollfd pending) (staged : call.Staged rules) {events : List Event}
    (intact : pollfd.revents &&& (POLLERR ||| POLLNVAL) = 0)
    (called : .called pollfd.owner ∈ events ↔ pollfd.ready = true)
    (cancelled : .cancelled pollfd.owner ∈ events ↔ pollfd.hungUp = true)
    (others : ∀ id, id ≠ pollfd.owner → .called id ∉ events ∧ .cancelled id ∉ events) :
    Serving (rules.map Rule.id) call.pollfds (call.log ++ events) (idx + 1) := by
  have serving : Serving _ _ _ _ := staged.at looks.phase
  obtain ⟨notCalled, notCancelled⟩ := serving.untouched idx (Nat.le_refl _) pollfd looks.entry
  refine serving.step looks.entry ⟨intact, ?_, ?_⟩ others
  · rw [List.mem_append, or_iff_right notCalled]
    exact called
  · rw [List.mem_append, or_iff_right notCancelled]
    exact cancelled

theorem PollFd.ready_of_hungUp {pollfd : PollFd} (hungUp : pollfd.hungUp = true) :
    pollfd.ready = false := by
  rw [PollFd.hungUp, Bool.and_eq_true, Bool.not_eq_true'] at hungUp
  exact hungUp.2

theorem Recorded.staged (recorded : Recorded rules fresh call) (staged : call.Staged rules)
    (steps : Steps rules call rest after) : after.Staged rest := by
  cases steps with
  | stays => exact staged
  | exits here | polls here | asks here =>
      have quiet := staged.at here.phase
      exact quiet
  | cancels here | builds here => exact Quiet.snoc (staged.at here.phase) (by simp)
  | @ends phase result other =>
      have quiet := staged.at phase
      cases result with
      | success => exact absurd rfl other
      | timeout | exit => exact quiet
  | begins phase owners _ => exact recorded.serving_start (staged.at phase) phase owners
  | succeeds here =>
      have serving : Serving _ _ _ _ := staged.at here.phase
      exact ⟨serving.covered, serving.finish here.ahead.2⟩
  | faults | complains => exact trivial
  | hangsUp looks intact hungUp =>
      change Serving _ _ (call.log ++ [_] ++ [_]) _
      rw [List.append_assoc]
      refine looks.served staged intact ?_ (iff_of_true (by simp) hungUp) ?_
      · simp [PollFd.ready_of_hungUp hungUp]
      · intro id different
        simp [different]
  | calls looks intact attached ready _ =>
      change Serving _ _ (call.log ++ [_] ++ [_]) _
      rw [List.append_assoc]
      refine looks.served staged intact (iff_of_true (by simp) ready) ?_ ?_
      · simp [attached]
      · intro id different
        simp [different]
  | passes looks intact attached idle =>
      exact looks.served staged intact (by simp [idle]) (by simp [attached]) (by simp)
  | @erases pass id _ here =>
      cases pass with
      | setup => exact Quiet.snoc (staged.at here.phase) (by simp)
      | results idx =>
          refine Serving.erase (staged.at here.phase) ?_ id
          intro other member
          rw [map_erase] at member
          exact List.mem_of_mem_filter member
  | questions here | serves here | accepts here =>
      have serving := staged.at here.phase
      exact serving

theorem Call.Staged.addRule (staged : call.Staged rules)
    (first : call.phase.settingUp = true) (more : List Rule) : call.Staged more := by
  unfold Call.Staged at staged ⊢
  cases phase : call.phase with
  | cancelling pass id =>
      cases pass with
      | setup =>
          rw [phase] at staged
          exact staged
      | results idx =>
          rw [phase] at first
          cases first
  | asking pass id =>
      cases pass with
      | setup =>
          rw [phase] at staged
          exact staged
      | results idx =>
          rw [phase] at first
          cases first
  | top | calling | polling | returned | threw | undefined =>
      rw [phase] at first
      cases first

end

/-! ## Whole calls -/

structure Tended (loop : Loop) (call : Call) : Prop where
  single : loop.calls = [call]
  staged : call.Staged loop.rules
  recorded : Recorded loop.rules loop.fresh call ∨ ∃ exception, call.phase = .threw exception

theorem Tended.next {loop : Loop} {call : Call} {op : Op} (tended : Tended loop call)
    (possible : loop.possible op = true) (steady : loop.steady op = true) :
    ∃ call, Tended (loop.next op) call := by
  obtain ⟨single, staged, recorded | ⟨exception, threw⟩⟩ := tended
  · obtain ⟨rules, fresh, calls⟩ := loop
    cases single
    have does := next_does recorded.sound.distinct recorded.placed possible steady
    generalize Loop.next ⟨rules, fresh, [call]⟩ op = after at does ⊢
    cases does with
    | steps steps =>
        exact ⟨_, rfl, recorded.staged staged steps, Or.inl (recorded.steps steps)⟩
    | adds first direction =>
        exact ⟨call, rfl, staged.addRule first _, Or.inl (recorded.addRule first direction)⟩
    | throws exception => exact ⟨_, rfl, trivial, Or.inr ⟨exception, rfl⟩⟩
  · rw [not_possible_of_threw single threw] at possible
    cases possible

theorem steadyWaits_tended {directions : List Direction} {loop : Loop}
    (reached : (steadyWaits directions).Reachable loop) : ∃ call, Tended loop call := by
  refine Machine.invariant (fun loop => ∃ call, Tended loop call) ?_ ?_ reached
  · have quiet : Quiet [] := fun _ => List.not_mem_nil
    exact ⟨_, rfl, quiet, Or.inl (recorded_start directions)⟩
  · rintro loop op ⟨possible, steady⟩ ⟨call, tended⟩
    exact tended.next possible steady

structure Reports (loop : Loop) (call : Call) : Prop where
  success : call.phase = .returned .success →
    (∀ id ∈ loop.rules.map Rule.id, id ∈ call.pollfds.map PollFd.owner) ∧
      ∀ pollfd ∈ call.pollfds, Served call.log pollfd
  quiet : call.phase = .returned .timeout ∨ call.phase = .returned .exit → Quiet call.log

/-- `Success` means that every rule that is left was polled and every rule that was polled
got what its entry called for; with the other results no callback was called. -/
theorem results_tell_service {directions : List Direction} {loop : Loop}
    (reached : (steadyWaits directions).Reachable loop) :
    ∀ call ∈ loop.calls, Reports loop call := by
  obtain ⟨call, single, staged, _⟩ := steadyWaits_tended reached
  rw [single]
  intro other member
  rw [List.mem_singleton.mp member]
  unfold Call.Staged at staged
  refine ⟨?_, ?_⟩
  · intro phase
    rw [phase] at staged
    exact staged
  · rintro (phase | phase)
    · rw [phase] at staged
      exact staged
    · rw [phase] at staged
      exact staged

theorem results_tell_service_hangup :
    let loop := (steadyWaits [.In, .Out, .In]).run (steadyWaits [.In, .Out, .In]).init
      [.advance { fd := 3 }, .resume true { fd := 3 }, .advance { fd := 4 },
        .resume true { fd := 4 }, .advance { fd := 5 }, .resume false { fd := 5 },
        .advance { fd := 0 }, .poll (.ready [0x0001, 0x0010, 0x0010]),
        .advance { fd := 3 }, .resume false { fd := 3, readCount := 1 },
        .advance { fd := 4 }, .resume false { fd := 4 }, .advance { fd := 5 },
        .advance { fd := 0 }]
    loop.rules.map Rule.id = [0, 2] ∧
      ∀ call ∈ loop.calls, call.phase = .returned .success ∧ Reports loop call := by
  intro loop
  have reached : (steadyWaits [.In, .Out, .In]).Reachable loop :=
    Machine.reachable_run _ _ (by decide)
  have returned : ∀ call ∈ loop.calls, call.phase = .returned .success := by decide
  exact ⟨by decide, fun call member =>
    ⟨returned call member, results_tell_service reached call member⟩⟩

/-- `Success` does not mean that a rule was triggered: here the only event is a hangup on a
descriptor that nobody is interested in, and the next call will find it again. -/
example :
    let loop := (steadyWaits [.In, .In]).run (steadyWaits [.In, .In]).init
      [.advance { fd := 3 }, .resume true { fd := 3 }, .advance { fd := 4 },
        .resume false { fd := 4 }, .advance { fd := 0 }, .poll (.ready [0, 0x0010]),
        .advance { fd := 3 }, .advance { fd := 4 }, .advance { fd := 0 }]
    ∀ call ∈ loop.calls, call.phase = .returned .success ∧
      ∀ event ∈ call.log, event ≠ .called event.rule ∧ event ≠ .cancelled event.rule := by
  decide

end Sponge.EventLoop
