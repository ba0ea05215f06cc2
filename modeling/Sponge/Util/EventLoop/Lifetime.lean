import Sponge.Util.EventLoop.Matching

namespace Sponge.EventLoop

/-! What happens to a rule over all the calls of `wait_next_event` on one loop. -/

def Event.rule : Event → Nat
  | .built id _ _ | .examined id _ _ | .called id | .cancelled id | .erased id => id

/-- Behind its cancellation nothing happens to a rule but that it is erased, once. -/
def Settled (log : List Event) : Prop :=
  ∀ front id back, log = front ++ .cancelled id :: back →
    back.filter (fun event => event.rule == id) <+: [.erased id]

theorem settled_nil : Settled [] := by
  intro front id back whole
  cases front <;> cases whole

theorem Settled.snoc {log : List Event} (settled : Settled log) {event : Event}
    (late : .cancelled event.rule ∈ log → event = .erased event.rule ∧ event ∉ log) :
    Settled (log ++ [event]) := by
  intro front id back whole
  rcases List.eq_nil_or_concat back with rfl | ⟨back, last, rfl⟩
  · exact List.nil_prefix
  · rw [List.concat_eq_append, ← List.cons_append, ← List.append_assoc] at whole
    obtain ⟨rfl, same⟩ := List.append_inj' whole rfl
    cases same
    have before := settled front id back rfl
    rw [List.concat_eq_append, List.filter_append]
    by_cases here : event.rule = id
    · obtain ⟨erased, absent⟩ := late (by simp [here])
      rw [here] at erased
      subst erased
      -- The rule was not erased so far, so nothing has followed its cancellation yet.
      have nothing : back.filter (fun event => event.rule == id) = [] := by
        rcases List.prefix_cons_iff.mp before with empty | ⟨rest, filled, _⟩
        · exact empty
        · have member : Event.erased id ∈ back.filter (fun event => event.rule == id) := by
            rw [filled]
            exact List.mem_cons_self
          exact absurd (List.mem_append_right _
            (List.mem_cons_of_mem _ (List.mem_of_mem_filter member))) absent
      rw [nothing, List.nil_append, List.filter_singleton]
      simp [here]
    · have other : [event].filter (fun event => event.rule == id) = [] := by
        simp [here]
      rw [other, List.append_nil]
      exact before

/-- The rules that were ever added are those in the list and those that were erased. -/
structure Lived (rules : List Rule) (fresh : Nat) (log : List Event) : Prop where
  settled : Settled log
  erased : ∀ id, .erased id ∈ log ↔ id < fresh ∧ id ∉ rules.map Rule.id

section

variable {rules : List Rule} {fresh : Nat} {pollfds : List PollFd} {log : List Event}
  {id : Nat}

theorem Sound.not_cancelled (sound : Sound rules fresh pollfds log none)
    (member : id ∈ rules.map Rule.id) : .cancelled id ∉ log := by
  have count := sound.cancelled id (Or.inl member)
  rw [if_neg nofun] at count
  exact List.count_eq_zero.mp count

theorem Lived.record (lived : Lived rules fresh log)
    (sound : Sound rules fresh pollfds log none) {event : Event}
    (member : event.rule ∈ rules.map Rule.id) (stays : ∀ id, event ≠ .erased id) :
    Lived rules fresh (log ++ [event]) := by
  refine ⟨lived.settled.snoc fun cancelled => ?_, fun other => ?_⟩
  · exact absurd cancelled (sound.not_cancelled member)
  · rw [List.mem_append, List.mem_singleton, ← lived.erased other]
    exact or_iff_left (stays other).symm

theorem Lived.erase (lived : Lived rules fresh log)
    (sound : Sound rules fresh pollfds log (some id)) (member : id ∈ rules.map Rule.id) :
    Lived (erase rules id) fresh (log ++ [.erased id]) := by
  have absent : .erased id ∉ log := fun erased => ((lived.erased id).mp erased).2 member
  refine ⟨lived.settled.snoc fun _ => ⟨rfl, absent⟩, fun other => ?_⟩
  rw [List.mem_append, List.mem_singleton, lived.erased other, map_erase, List.mem_filter]
  by_cases same : other = id
  · subst same
    simp [sound.named other member]
  · simp [same]

theorem Lived.addRule {cancels : Option Nat} (lived : Lived rules fresh log)
    (sound : Sound rules fresh pollfds log cancels) (direction : Direction) :
    Lived (rules ++ [⟨fresh, direction⟩]) (fresh + 1) log := by
  refine ⟨lived.settled, fun id => ?_⟩
  rw [lived.erased id, List.map_append, List.mem_append, List.map_singleton,
    List.mem_singleton]
  constructor
  · rintro ⟨old, gone⟩
    refine ⟨Nat.lt_succ_of_lt old, ?_⟩
    rintro (member | rfl)
    · exact gone member
    · exact Nat.lt_irrefl _ old
  · rintro ⟨below, gone⟩
    obtain ⟨absent, other⟩ := not_or.mp gone
    exact ⟨Nat.lt_of_le_of_ne (Nat.le_of_lt_succ below) other, absent⟩

end

/-! ## What a call adds to the log -/

section

variable {rules rest : List Rule} {fresh : Nat} {call after : Call} {pending : List Nat}

theorem Call.Looks.lived {idx : Nat} {pollfd : PollFd} (looks : call.Looks rules idx pollfd pending)
    (recorded : Recorded rules fresh call) (lived : Lived rules fresh call.log) :
    Lived rules fresh (call.looked idx pollfd).log :=
  @Lived.record _ _ _ _ lived (recorded.sound_at looks.phase rfl)
    (.examined pollfd.owner idx (some pollfd)) (mem_of_ahead looks.ahead) (by simp)

theorem Recorded.lived (recorded : Recorded rules fresh call) (lived : Lived rules fresh call.log)
    (steps : Steps rules call rest after) : Lived rest fresh after.log := by
  cases steps with
  | stays | exits | polls | asks | ends | begins | succeeds | questions | complains | serves
  | accepts => exact lived
  | @cancels id _ here =>
      exact @Lived.record _ _ _ _ lived (recorded.sound_at here.phase rfl) (.cancelled id)
        (mem_of_ahead here.ahead) (by simp)
  | @builds id _ here direction interested _ =>
      exact @Lived.record _ _ _ _ lived (recorded.sound_at here.phase rfl)
        (.built id direction interested) (mem_of_ahead here.ahead) (by simp)
  | faults looks | passes looks => exact looks.lived recorded lived
  | @hangsUp _ pollfd _ looks =>
      exact @Lived.record _ _ _ _ (looks.lived recorded lived) (looks.sound recorded)
        (.cancelled pollfd.owner) (mem_of_ahead looks.ahead) (by simp)
  | @calls _ pollfd _ looks =>
      exact @Lived.record _ _ _ _ (looks.lived recorded lived) (looks.sound recorded)
        (.called pollfd.owner) (mem_of_ahead looks.ahead) (by simp)
  | erases here =>
      exact lived.erase (recorded.sound_at here.phase rfl) (mem_of_ahead here.ahead)

end

/-! ## A loop and all its calls -/

inductive Move where
  | install (direction : Direction)
  | enter
  | inside (op : Op)
  | finish
  deriving DecidableEq, Repr

/-- A loop, with what its earlier calls have done. The log of a call goes on from there. -/
structure Life where
  loop : Loop := { rules := [], fresh := 0, calls := [] }
  past : List Event := []
  deriving DecidableEq, Repr

def Life.history (life : Life) : List Event :=
  match life.loop.calls with
  | [] => life.past
  | call :: _ => call.log

def Life.next (life : Life) : Move → Life
  | .install direction =>
      { life with
        loop :=
          { life.loop with
            rules := life.loop.rules ++ [⟨life.loop.fresh, direction⟩]
            fresh := life.loop.fresh + 1 } }
  | .enter =>
      { life with
        loop :=
          { life.loop with calls := [{ Call.start life.loop.rules with log := life.past }] } }
  | .inside op => { life with loop := life.loop.next op }
  | .finish => { loop := { life.loop with calls := [] }, past := life.history }

/-- No `cancel` throws. -/
def Loop.calm (loop : Loop) : Op → Bool
  | .throw _ => loop.calls.all fun call => call.phase.cancels.isNone
  | .advance _ | .poll _ | .addRule _ | .waitNextEvent | .resume _ _ | .leave => true

def Life.permits (life : Life) : Move → Bool
  | .install _ | .enter => life.loop.calls.isEmpty
  | .inside op => life.loop.possible op && life.loop.steady op && life.loop.calm op
  | .finish => !life.loop.calls.isEmpty && life.loop.calls.all fun call => call.phase.over

def lives : Machine Life Move where
  init := {}
  guard life move := life.permits move = true
  next := Life.next

instance (life : Life) (move : Move) : Decidable (lives.guard life move) :=
  inferInstanceAs (Decidable (life.permits move = true))

inductive Current (loop : Loop) (past : List Event) : Prop where
  | idle (still : loop.calls = []) (sound : Sound loop.rules loop.fresh [] past none)
      (lived : Lived loop.rules loop.fresh past)
  | running (call : Call) (single : loop.calls = [call])
      (recorded : Recorded loop.rules loop.fresh call)
      (lived : Lived loop.rules loop.fresh call.log)

theorem current_init : Current lives.init.loop lives.init.past := by
  refine .idle rfl ⟨List.nodup_nil, nofun, nofun, fun _ _ => rfl, matched_nil⟩
    ⟨settled_nil, fun id => ?_⟩
  constructor
  · nofun
  · rintro ⟨below, _⟩
    exact absurd below (Nat.not_lt_zero id)

theorem Recorded.sound_of_over {rules : List Rule} {fresh : Nat} {call : Call}
    (recorded : Recorded rules fresh call) (ended : call.phase.over = true) :
    Sound rules fresh [] call.log none := by
  have sound := recorded.sound
  have quiet : call.phase.cancels = none := by
    cases phase : call.phase with
    | cancelling pass id =>
        rw [phase] at ended
        cases ended
    | top | asking | calling | polling | returned | threw | undefined => rfl
  rw [quiet] at sound
  exact ⟨sound.distinct, sound.named, nofun, sound.cancelled, sound.matched⟩

theorem Current.install {loop : Loop} {past : List Event} (current : Current loop past)
    (still : loop.calls = []) (direction : Direction) :
    Current
      { loop with
        rules := loop.rules ++ [⟨loop.fresh, direction⟩]
        fresh := loop.fresh + 1 } past := by
  cases current with
  | idle _ sound lived =>
      exact .idle still (sound.addRule direction) (lived.addRule sound direction)
  | running call single _ _ =>
      rw [still] at single
      cases single

theorem Current.enter {loop : Loop} {past : List Event} (current : Current loop past)
    (still : loop.calls = []) :
    Current { loop with calls := [{ Call.start loop.rules with log := past }] } past := by
  cases current with
  | idle _ sound lived => exact .running _ rfl ⟨sound, _, rfl, rfl⟩ lived
  | running call single _ _ =>
      rw [still] at single
      cases single

theorem Current.inside {loop : Loop} {past : List Event} (current : Current loop past) {op : Op}
    (possible : loop.possible op = true) (steady : loop.steady op = true)
    (calm : loop.calm op = true) : Current (loop.next op) past := by
  obtain ⟨rules, fresh, calls⟩ := loop
  cases current with
  | idle still _ _ =>
      cases still
      cases possible
  | running call single recorded lived =>
      cases single
      have does := next_does recorded.sound.distinct recorded.placed possible steady
      generalize Loop.next ⟨rules, fresh, [call]⟩ op = after at does ⊢
      cases does with
      | steps steps => exact .running _ rfl (recorded.steps steps) (recorded.lived lived steps)
      | adds first direction =>
          exact .running call rfl (recorded.addRule first direction)
            (lived.addRule recorded.sound direction)
      | throws exception =>
          have quiet : call.phase.cancels = none :=
            Option.isNone_iff_eq_none.mp (Bool.and_eq_true_iff.mp calm).1
          exact .running _ rfl ⟨recorded.sound_at rfl quiet, trivial⟩ lived

theorem Current.finish {life : Life} (current : Current life.loop life.past)
    (ended : life.permits .finish = true) :
    Current { life.loop with calls := [] } life.history := by
  obtain ⟨busy, done⟩ := Bool.and_eq_true_iff.mp ended
  cases current with
  | idle still _ _ =>
      rw [still] at busy
      cases busy
  | running call single recorded lived =>
      have past : life.history = call.log := by
        unfold Life.history
        rw [single]
      rw [single] at done
      rw [past]
      exact .idle rfl (recorded.sound_of_over (Bool.and_eq_true_iff.mp done).1) lived

theorem lives_current {life : Life} (reached : lives.Reachable life) :
    Current life.loop life.past := by
  refine Machine.invariant (fun life : Life => Current life.loop life.past) current_init ?_
    reached
  intro life move permitted current
  cases move with
  | install direction => exact current.install (List.isEmpty_iff.mp permitted) direction
  | enter => exact current.enter (List.isEmpty_iff.mp permitted)
  | inside op =>
      obtain ⟨allowed, calm⟩ := Bool.and_eq_true_iff.mp permitted
      obtain ⟨possible, steady⟩ := Bool.and_eq_true_iff.mp allowed
      exact current.inside possible steady calm
  | finish => exact current.finish permitted

theorem Current.history {life : Life} (current : Current life.loop life.past) :
    Matched life.history ∧ Lived life.loop.rules life.loop.fresh life.history := by
  unfold Life.history
  cases current with
  | idle still sound lived =>
      rw [still]
      exact ⟨sound.matched, lived⟩
  | running call single recorded lived =>
      rw [single]
      exact ⟨recorded.sound.matched, lived⟩

theorem Matched.cancelled_of_erased {log : List Event} {id : Nat} (matched : Matched log)
    (erased : .erased id ∈ log) : .cancelled id ∈ log := by
  obtain ⟨front, back, rfl⟩ := List.append_of_mem erased
  have once : front.count (.cancelled id) = 1 := matched front (.erased id) back rfl
  apply List.mem_append_left
  apply List.count_pos_iff.mp
  rw [once]
  exact Nat.one_pos

structure Retires (life : Life) : Prop where
  settled : Settled life.history
  kept : ∀ id < life.loop.fresh, id ∈ life.loop.rules.map Rule.id ∨
    .cancelled id ∈ life.history ∧ .erased id ∈ life.history
  gone : ∀ id, .erased id ∈ life.history → id ∉ life.loop.rules.map Rule.id
  defined : ∀ call ∈ life.loop.calls, call.phase ≠ .undefined

/-- Over the whole life of a loop whose callbacks leave the second pass alone and whose
`cancel`s do not throw, a rule stays in the list until it is cancelled, and behind that
nothing happens to it but that it is erased, once. -/
theorem rules_stay_until_cancelled {life : Life} (reached : lives.Reachable life) :
    Retires life := by
  have current := lives_current reached
  obtain ⟨matched, lived⟩ := current.history
  refine ⟨lived.settled, ?_, fun id erased => ((lived.erased id).mp erased).2, ?_⟩
  · intro id named
    by_cases member : id ∈ life.loop.rules.map Rule.id
    · exact Or.inl member
    · have erased := (lived.erased id).mpr ⟨named, member⟩
      exact Or.inr ⟨matched.cancelled_of_erased erased, erased⟩
  · intro call member undefined
    cases current with
    | idle still _ _ =>
        rw [still] at member
        cases member
    | running other single recorded _ =>
        rw [single, List.mem_singleton] at member
        have placed := recorded.placed
        rw [← member, undefined] at placed
        exact placed

theorem rules_stay_until_cancelled_twice :
    let life := lives.run lives.init
      [.install .In, .enter, .inside (.advance { fd := 3 }), .inside (.resume true { fd := 3 }),
        .inside (.advance { fd := 3 }), .inside (.poll (.ready [1])),
        .inside (.advance { fd := 3 }), .inside (.resume true { fd := 3, readCount := 1 }),
        .inside (.advance { fd := 3 }), .finish, .install .Out, .enter,
        .inside (.advance { fd := 3, eof := true }), .inside (.resume true { fd := 3 }),
        .inside (.advance { fd := 4 }), .inside (.resume false { fd := 4 }),
        .inside (.advance { fd := 4 }), .finish]
    Retires life ∧ life.loop.rules = [⟨1, .Out⟩] ∧ .called 0 ∈ life.history := by
  intro life
  have reached : lives.Reachable life := Machine.reachable_run _ _ (by decide)
  exact ⟨rules_stay_until_cancelled reached, by decide, by decide⟩

end Sponge.EventLoop
