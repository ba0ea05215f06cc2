import Sponge.Util.EventLoop

namespace Sponge.EventLoop

/-! All that a call of `wait_next_event` can do next, as long as the rules are in their
places: the case analysis of the code, made once. -/

/-! ## Positions in the rule list -/

section

variable {rules : List Rule} {front pending : List Nat} {id : Nat}

theorem successor_eq (ids : rules.map Rule.id = front ++ id :: pending)
    (distinct : (rules.map Rule.id).Nodup) : successor rules id = pending.head? := by
  induction rules generalizing front with
  | nil => cases front <;> cases ids
  | cons rule rest induction =>
      rw [List.map_cons] at ids distinct
      rw [successor]
      cases front with
      | nil =>
          obtain ⟨here, behind⟩ := List.cons.inj ids
          rw [if_pos here, ← behind, begin]
      | cons other front =>
          obtain ⟨here, behind⟩ := List.cons.inj ids
          obtain ⟨apart, distinct⟩ := List.nodup_cons.mp distinct
          have differs : rule.id ≠ id := by
            rintro rfl
            exact apart (behind ▸ List.mem_append_right _ List.mem_cons_self)
          rw [if_neg differs]
          exact induction behind distinct

theorem exists_find (member : id ∈ rules.map Rule.id) :
    ∃ rule, find rules id = some rule := by
  obtain ⟨rule, inside, named⟩ := List.mem_map.mp member
  apply Option.isSome_iff_exists.mp
  rw [find, List.find?_isSome]
  exact ⟨rule, inside, by simp [named]⟩

theorem map_erase (rules : List Rule) (id : Nat) :
    (erase rules id).map Rule.id = (rules.map Rule.id).filter (· != id) := by
  rw [erase, List.filter_map]
  rfl

theorem filter_middle (distinct : (front ++ id :: pending).Nodup) :
    (front ++ id :: pending).filter (· != id) = front ++ pending := by
  obtain ⟨_, _, apart⟩ := List.nodup_append.mp distinct
  have absent : id ∉ front := fun member => apart id member id List.mem_cons_self rfl
  rw [← distinct.erase_eq_filter id, List.erase_append_right _ absent, List.erase_cons_head]

end

/-- The rules still to come in a pass. In the second pass these are the owners of the
entries still to come. -/
def Ahead (ids owners pending : List Nat) : Pass → Prop
  | .setup => ids = owners ++ pending
  | .results idx => (∃ front, ids = front ++ pending) ∧ owners.drop idx = pending

section

variable {ids owners pending : List Nat} {id : Nat} {pass : Pass}

theorem Ahead.split (ahead : Ahead ids owners pending pass) :
    ∃ front, ids = front ++ pending := by
  cases pass with
  | setup => exact ⟨owners, ahead⟩
  | results idx => exact ahead.1

theorem Ahead.erase (ahead : Ahead ids owners (id :: pending) pass) (distinct : ids.Nodup) :
    Ahead (ids.filter (· != id)) owners pending pass.next := by
  cases pass with
  | setup =>
      change ids = _ at ahead
      rw [ahead] at distinct ⊢
      exact filter_middle distinct
  | results idx =>
      obtain ⟨⟨front, split⟩, later⟩ := ahead
      rw [split] at distinct ⊢
      refine ⟨⟨front, filter_middle distinct⟩, ?_⟩
      rw [← List.drop_drop, later, List.drop_one, List.tail_cons]

theorem Ahead.step {idx : Nat} (ahead : Ahead ids owners (id :: pending) (.results idx)) :
    Ahead ids owners pending (.results (idx + 1)) := by
  obtain ⟨⟨front, split⟩, later⟩ := ahead
  refine ⟨⟨front ++ [id], by rw [split, List.append_assoc]; rfl⟩, ?_⟩
  rw [← List.drop_drop, later, List.drop_one, List.tail_cons]

end

def Placed (ids owners : List Nat) : Phase → Prop
  | .top pass it => ∃ pending, Ahead ids owners pending pass ∧ it = pending.head?
  | .cancelling pass id | .asking pass id =>
      ∃ pending, Ahead ids owners (id :: pending) pass
  | .calling idx id _ => ∃ pending, Ahead ids owners (id :: pending) (.results idx)
  | .polling => ids = owners
  | .returned _ | .threw _ => True
  | .undefined => False

section

variable {rules : List Rule} {pending : List Nat} {id : Nat}

theorem mem_of_ahead {owners : List Nat} {pass : Pass}
    (ahead : Ahead (rules.map Rule.id) owners (id :: pending) pass) :
    id ∈ rules.map Rule.id := by
  obtain ⟨front, split⟩ := ahead.split
  rw [split]
  exact List.mem_append_right _ List.mem_cons_self

theorem moveOn_eq {owners : List Nat} {pass : Pass} (call : Call)
    (ahead : Ahead (rules.map Rule.id) owners (id :: pending) pass)
    (distinct : (rules.map Rule.id).Nodup) :
    call.moveOn rules pass id = { call with phase := .top pass.next pending.head? } := by
  obtain ⟨rule, found⟩ := exists_find (mem_of_ahead ahead)
  obtain ⟨front, split⟩ := ahead.split
  simp only [Call.moveOn, found, successor_eq split distinct]

theorem entry_at {pollfds : List PollFd} {idx : Nat}
    (later : (pollfds.map PollFd.owner).drop idx = id :: pending) :
    ∃ pollfd, pollfds[idx]? = some pollfd ∧ pollfd ∈ pollfds ∧ pollfd.owner = id := by
  have here : (pollfds.map PollFd.owner)[idx]? = some id := by
    rw [← List.head?_drop, later, List.head?_cons]
  rw [List.getElem?_map] at here
  obtain ⟨pollfd, entry, owner⟩ := Option.map_eq_some_iff.mp here
  exact ⟨pollfd, entry, List.mem_of_getElem? entry, owner⟩

end

section

variable {pollfds : List PollFd}

theorem mem_filled {revents : List UInt16} {pollfd : PollFd}
    (inside : pollfd ∈ List.zipWith PollFd.fill pollfds revents) :
    ∃ old ∈ pollfds, ∃ bits, pollfd = old.fill bits := by
  induction pollfds generalizing revents with
  | nil => cases inside
  | cons first pollfds induction =>
      cases revents with
      | nil => cases inside
      | cons bits revents =>
          rcases List.mem_cons.mp inside with rfl | later
          · exact ⟨first, List.mem_cons_self, bits, rfl⟩
          · obtain ⟨old, member, filled⟩ := induction later
            exact ⟨old, List.mem_cons_of_mem _ member, filled⟩

theorem owners_filled {revents : List UInt16} (all : revents.length = pollfds.length) :
    (List.zipWith PollFd.fill pollfds revents).map PollFd.owner =
      pollfds.map PollFd.owner := by
  induction pollfds generalizing revents with
  | nil => rfl
  | cons first pollfds induction =>
      cases revents with
      | nil => cases all
      | cons bits revents =>
          exact congrArg (first.owner :: ·) (induction (Nat.succ.inj all))

end

/-! ## The steps -/

def PollFd.ready (pollfd : PollFd) : Bool :=
  pollfd.revents &&& pollfd.events != 0

/-- A hangup is all there is on a descriptor that was asked about. -/
def PollFd.hungUp (pollfd : PollFd) : Bool :=
  pollfd.revents &&& POLLHUP != 0 && pollfd.events != 0 && !pollfd.ready

structure Call.At (call : Call) (rules : List Rule) (phase : Phase) (pending : List Nat)
    (pass : Pass) : Prop where
  phase : call.phase = phase
  ahead : Ahead (rules.map Rule.id) (call.pollfds.map PollFd.owner) pending pass

structure Call.Looks (call : Call) (rules : List Rule) (idx : Nat) (pollfd : PollFd)
    (pending : List Nat) : Prop extends
    Call.At call rules (.top (.results idx) (some pollfd.owner)) (pollfd.owner :: pending)
      (.results idx) where
  entry : call.pollfds[idx]? = some pollfd

def Call.looked (call : Call) (idx : Nat) (pollfd : PollFd) : Call :=
  { call with log := call.log ++ [.examined pollfd.owner idx (some pollfd)] }

/-- What the loop does by itself, behind `poll`, or when a callback has returned; and the
rules it leaves. -/
inductive Steps (rules : List Rule) (call : Call) : List Rule → Call → Prop where
  | stays : Steps rules call rules call
  | exits (here : call.At rules (.top .setup none) [] .setup) :
      Steps rules call rules { call with phase := .returned .exit }
  | polls (here : call.At rules (.top .setup none) [] .setup) :
      Steps rules call rules { call with phase := .polling }
  | cancels {id : Nat} {pending : List Nat}
      (here : call.At rules (.top .setup (some id)) (id :: pending) .setup) :
      Steps rules call rules (call.cancel .setup id)
  | asks {id : Nat} {pending : List Nat}
      (here : call.At rules (.top .setup (some id)) (id :: pending) .setup) :
      Steps rules call rules { call with phase := .asking .setup id }
  | builds {id : Nat} {pending : List Nat}
      (here : call.At rules (.asking .setup id) (id :: pending) .setup)
      (direction : Direction) (interested : Bool) (fd : Int) :
      Steps rules call rules
        { phase := .top .setup pending.head?
          pollfds := call.pollfds ++ [⟨id, fd, if interested then direction.events else 0, 0⟩]
          somethingToPoll := call.somethingToPoll || interested
          log := call.log ++ [.built id direction interested] }
  | ends (phase : call.phase = .polling) {result : Result} (other : result ≠ .success) :
      Steps rules call rules { call with phase := .returned result }
  | begins (phase : call.phase = .polling) {pollfds : List PollFd}
      (owners : pollfds.map PollFd.owner = call.pollfds.map PollFd.owner)
      (filled : ∀ pollfd ∈ pollfds, ∃ old ∈ call.pollfds,
        pollfd.owner = old.owner ∧ pollfd.events = old.events) :
      Steps rules call rules
        { call with phase := .top (.results 0) (begin rules), pollfds := pollfds }
  | succeeds {idx : Nat} (here : call.At rules (.top (.results idx) none) [] (.results idx)) :
      Steps rules call rules { call with phase := .returned .success }
  | faults {idx : Nat} {pollfd : PollFd} {pending : List Nat}
      (looks : call.Looks rules idx pollfd pending) (exception : SystemException) :
      Steps rules call rules { call.looked idx pollfd with phase := .threw exception }
  | hangsUp {idx : Nat} {pollfd : PollFd} {pending : List Nat}
      (looks : call.Looks rules idx pollfd pending)
      (intact : pollfd.revents &&& (POLLERR ||| POLLNVAL) = 0) (hungUp : pollfd.hungUp = true) :
      Steps rules call rules ((call.looked idx pollfd).cancel (.results idx) pollfd.owner)
  | calls {idx : Nat} {pollfd : PollFd} {pending : List Nat}
      (looks : call.Looks rules idx pollfd pending)
      (intact : pollfd.revents &&& (POLLERR ||| POLLNVAL) = 0) (attached : pollfd.hungUp = false)
      (ready : pollfd.ready = true) (count : UInt32) :
      Steps rules call rules
        { call.looked idx pollfd with
          phase := .calling idx pollfd.owner count
          log := (call.looked idx pollfd).log ++ [.called pollfd.owner] }
  | passes {idx : Nat} {pollfd : PollFd} {pending : List Nat}
      (looks : call.Looks rules idx pollfd pending)
      (intact : pollfd.revents &&& (POLLERR ||| POLLNVAL) = 0) (attached : pollfd.hungUp = false)
      (idle : pollfd.ready = false) :
      Steps rules call rules
        { call.looked idx pollfd with phase := .top (.results (idx + 1)) pending.head? }
  | erases {pass : Pass} {id : Nat} {pending : List Nat}
      (here : call.At rules (.cancelling pass id) (id :: pending) pass) :
      Steps rules call (erase rules id)
        { call with phase := .top pass.next pending.head?, log := call.log ++ [.erased id] }
  | questions {idx id : Nat} {count : UInt32} {pending : List Nat}
      (here : call.At rules (.calling idx id count) (id :: pending) (.results idx)) :
      Steps rules call rules { call with phase := .asking (.results idx) id }
  | complains {idx id : Nat} {pending : List Nat}
      (here : call.At rules (.asking (.results idx) id) (id :: pending) (.results idx)) :
      Steps rules call rules { call with phase := .threw busyWait }
  | serves {idx id : Nat} {count : UInt32} {pending : List Nat}
      (here : call.At rules (.calling idx id count) (id :: pending) (.results idx)) :
      Steps rules call rules
        { call with phase := .top (.results (idx + 1)) pending.head? }
  | accepts {idx id : Nat} {pending : List Nat}
      (here : call.At rules (.asking (.results idx) id) (id :: pending) (.results idx)) :
      Steps rules call rules
        { call with phase := .top (.results (idx + 1)) pending.head? }

section

variable {rules : List Rule} {call : Call} {id : Nat}

theorem setUp_steps {it : Option Nat} (phase : call.phase = .top .setup it)
    (placed : Placed (rules.map Rule.id) (call.pollfds.map PollFd.owner) (.top .setup it))
    (descriptor : FileDescriptor) : Steps rules call rules (call.setUp rules it descriptor) := by
  obtain ⟨pending, ahead, rfl⟩ := placed
  cases pending with
  | nil =>
      simp only [List.head?_nil, Call.setUp]
      split
      next => exact .exits ⟨phase, ahead⟩
      next => exact .polls ⟨phase, ahead⟩
  | cons id pending =>
      obtain ⟨rule, found⟩ := exists_find (mem_of_ahead ahead)
      simp only [List.head?_cons, Call.setUp, found]
      split
      next => exact .cancels ⟨phase, ahead⟩
      next =>
        split
        next => exact .cancels ⟨phase, ahead⟩
        next => exact .asks ⟨phase, ahead⟩

theorem examine_steps {idx : Nat} (distinct : (rules.map Rule.id).Nodup)
    (phase : call.phase = .top (.results idx) (some id))
    (placed : Placed (rules.map Rule.id) (call.pollfds.map PollFd.owner)
      (.top (.results idx) (some id)))
    (descriptor : FileDescriptor) :
    Steps rules call rules (call.examine rules idx id descriptor) := by
  obtain ⟨pending, ahead, here⟩ := placed
  cases pending with
  | nil => cases here
  | cons next pending =>
      cases here
      obtain ⟨pollfd, entry, _, rfl⟩ := entry_at ahead.2
      obtain ⟨rule, found⟩ := exists_find (mem_of_ahead ahead)
      have looks : call.Looks rules idx pollfd pending := ⟨⟨phase, ahead⟩, entry⟩
      simp only [Call.examine, entry, found]
      split
      next => exact .faults looks _
      next healthy =>
        have intact := not_not.mp healthy
        split
        next hungUp => exact .hangsUp looks intact hungUp
        next stays =>
          have attached : pollfd.hungUp = false := Bool.eq_false_of_not_eq_true stays
          split
          next ready => exact .calls looks intact attached ready _
          next idle =>
            rw [moveOn_eq _ ahead distinct]
            exact .passes looks intact attached (Bool.eq_false_of_not_eq_true idle)

theorem advance_steps (distinct : (rules.map Rule.id).Nodup)
    (placed : Placed (rules.map Rule.id) (call.pollfds.map PollFd.owner) call.phase)
    (descriptor : FileDescriptor) : Steps rules call rules (call.advance rules descriptor) := by
  unfold Call.advance
  split
  next it phase =>
    rw [phase] at placed
    exact setUp_steps phase placed descriptor
  next idx phase =>
    rw [phase] at placed
    obtain ⟨pending, ahead, here⟩ := placed
    obtain rfl := List.head?_eq_none_iff.mp here.symm
    exact .succeeds ⟨phase, ahead⟩
  next idx id phase =>
    rw [phase] at placed
    exact examine_steps distinct phase placed descriptor
  next => exact .stays

theorem polled_steps (phase : call.phase = .polling) (outcome : PollOutcome)
    (filled : ∀ revents, outcome = .ready revents → revents.length = call.pollfds.length) :
    Steps rules call rules (call.polled rules outcome) := by
  cases outcome with
  | timeout => exact .ends phase (by decide)
  | failed errno =>
      simp only [Call.polled]
      split
      next => exact .ends phase (by decide)
      next => exact .begins phase rfl fun pollfd inside => ⟨pollfd, inside, rfl, rfl⟩
  | ready revents =>
      refine .begins phase (owners_filled (filled revents rfl)) ?_
      intro pollfd inside
      obtain ⟨old, member, bits, rfl⟩ := mem_filled inside
      exact ⟨old, member, rfl, rfl⟩

theorem resume_steps (distinct : (rules.map Rule.id).Nodup)
    (placed : Placed (rules.map Rule.id) (call.pollfds.map PollFd.owner) call.phase)
    (answer : Bool) (descriptor : FileDescriptor) :
    Steps rules call (call.resume rules answer descriptor).1
      (call.resume rules answer descriptor).2 := by
  unfold Call.resume
  split
  next pass id phase =>
    rw [phase] at placed
    obtain ⟨pending, ahead⟩ := placed
    rw [moveOn_eq _ ahead distinct]
    exact .erases ⟨phase, ahead⟩
  next id phase =>
    rw [phase] at placed
    obtain ⟨pending, ahead⟩ := placed
    obtain ⟨rule, found⟩ := exists_find (mem_of_ahead ahead)
    simp only [Call.build, found]
    rw [moveOn_eq _ ahead distinct]
    exact .builds ⟨phase, ahead⟩ rule.direction answer descriptor.fd
  next idx id countBefore phase =>
    rw [phase] at placed
    obtain ⟨pending, ahead⟩ := placed
    obtain ⟨rule, found⟩ := exists_find (mem_of_ahead ahead)
    simp only [found]
    split
    next => exact .questions ⟨phase, ahead⟩
    next =>
      rw [moveOn_eq _ ahead distinct]
      exact .serves ⟨phase, ahead⟩
  next idx id phase =>
    rw [phase] at placed
    obtain ⟨pending, ahead⟩ := placed
    split
    next => exact .complains ⟨phase, ahead⟩
    next =>
      rw [moveOn_eq _ ahead distinct]
      exact .accepts ⟨phase, ahead⟩
  next => exact .stays

end

/-! ## A loop with one call -/

/-- What a permitted operation does to the only call there is: a step of its own, a rule
that a callback of the first loop adds, or an exception. -/
inductive Loop.Does (rules : List Rule) (fresh : Nat) (call : Call) : Op → Loop → Prop where
  | steps {op : Op} {rest : List Rule} {after : Call} (steps : Steps rules call rest after) :
      Does rules fresh call op ⟨rest, fresh, [after]⟩
  | adds (first : call.phase.settingUp = true) (direction : Direction) :
      Does rules fresh call (.addRule direction)
        ⟨rules ++ [⟨fresh, direction⟩], fresh + 1, [call]⟩
  | throws (exception : SystemException) :
      Does rules fresh call (.throw exception)
        ⟨rules, fresh, [{ call with phase := .threw exception }]⟩

theorem polling_of_possible {rules : List Rule} {fresh : Nat} {call : Call} {below : List Call}
    {outcome : PollOutcome}
    (possible : Loop.possible ⟨rules, fresh, call :: below⟩ (.poll outcome) = true) :
    call.phase = .polling ∧
      ∀ revents, outcome = .ready revents → revents.length = call.pollfds.length := by
  cases outcome with
  | timeout | failed => exact ⟨beq_iff_eq.mp possible, fun _ same => by cases same⟩
  | ready revents =>
      obtain ⟨polling, filled⟩ := Bool.and_eq_true_iff.mp possible
      refine ⟨beq_iff_eq.mp polling, ?_⟩
      intro others same
      cases same
      exact beq_iff_eq.mp filled

theorem next_does {rules : List Rule} {fresh : Nat} {call : Call} {op : Op}
    (distinct : (rules.map Rule.id).Nodup)
    (placed : Placed (rules.map Rule.id) (call.pollfds.map PollFd.owner) call.phase)
    (possible : Loop.possible ⟨rules, fresh, [call]⟩ op = true)
    (steady : Loop.steady ⟨rules, fresh, [call]⟩ op = true) :
    Loop.Does rules fresh call op (Loop.next ⟨rules, fresh, [call]⟩ op) := by
  cases op with
  | advance descriptor => exact .steps (advance_steps distinct placed descriptor)
  | poll outcome =>
      obtain ⟨polling, filled⟩ := polling_of_possible possible
      exact .steps (polled_steps polling outcome filled)
  | addRule direction => exact .adds (Bool.and_eq_true_iff.mp steady).1 direction
  | waitNextEvent => cases steady
  | resume answer descriptor => exact .steps (resume_steps distinct placed answer descriptor)
  | throw exception => exact .throws exception
  | leave => exact absurd (Bool.and_eq_true_iff.mp possible).2 (by simp)

theorem not_possible_of_threw {loop : Loop} {call : Call} (single : loop.calls = [call])
    {exception : SystemException} (threw : call.phase = .threw exception) (op : Op) :
    loop.possible op = false := by
  unfold Loop.possible
  rw [single]
  cases op with
  | poll outcome => cases outcome <;> simp [threw]
  | leave => simp
  | advance | addRule | waitNextEvent | resume | throw => simp [threw, Phase.atTop, Phase.busy]

end Sponge.EventLoop
