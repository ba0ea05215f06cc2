import Mathlib.Tactic

namespace Sponge

/-! Programs that call their environment, what may be seen of them, and rules for proving
something about all of it. -/

/-- A program returns, or makes a call and goes on with the reply. One that has used up
its turns is `pending`. -/
inductive Interaction (Call Reply Result : Type) where
  | returns (result : Result)
  | pending
  | calls (call : Call) (next : Reply → Interaction Call Reply Result)

namespace Interaction

variable {Call Reply Result Other : Type}

def bind : Interaction Call Reply Result → (Result → Interaction Call Reply Other) →
    Interaction Call Reply Other
  | .returns result, rest => rest result
  | .pending, _ => .pending
  | .calls call next, rest => .calls call fun reply => (next reply).bind rest

instance : Monad (Interaction Call Reply) where
  pure := .returns
  bind := bind

def perform (call : Call) : Interaction Call Reply Reply :=
  .calls call .returns

/-- What has been seen of a run at some moment: the calls and replies so far, and the
result once it is there. A run that waits for a reply may wait for ever. -/
inductive Runs (allows : Call → Reply → Prop) :
    Interaction Call Reply Result → List (Call × Reply) → Option Result → Prop where
  | returns (result : Result) : Runs allows (.returns result) [] (some result)
  | pending : Runs allows .pending [] none
  | waits (call : Call) (next : Reply → Interaction Call Reply Result) :
      Runs allows (.calls call next) [] none
  | calls {call : Call} {next : Reply → Interaction Call Reply Result} {reply : Reply}
      {trace : List (Call × Reply)} {outcome : Option Result} (allowed : allows call reply)
      (rest : Runs allows (next reply) trace outcome) :
      Runs allows (.calls call next) ((call, reply) :: trace) outcome

def follow : Interaction Call Reply Result → List Reply →
    List (Call × Reply) × Option Result
  | .returns result, _ => ([], some result)
  | .pending, _ => ([], none)
  | .calls _ _, [] => ([], none)
  | .calls call next, reply :: rest =>
      ((call, reply) :: (follow (next reply) rest).1, (follow (next reply) rest).2)

theorem runs_follow {allows : Call → Reply → Prop} (program : Interaction Call Reply Result)
    (replies : List Reply)
    (allowed : ∀ pair ∈ (program.follow replies).1, allows pair.1 pair.2) :
    Runs allows program (program.follow replies).1 (program.follow replies).2 := by
  induction program generalizing replies with
  | returns result => exact .returns result
  | pending => exact .pending
  | calls call next induction =>
      cases replies with
      | nil => exact .waits call next
      | cons reply rest =>
          exact .calls (allowed _ List.mem_cons_self)
            (induction reply rest fun pair member => allowed pair (List.mem_cons_of_mem _ member))

theorem follow_bind (program : Interaction Call Reply Result)
    (rest : Result → Interaction Call Reply Other) (replies later : List Reply)
    {trace : List (Call × Reply)} {result : Result}
    (followed : program.follow replies = (trace, some result))
    (consumed : trace.length = replies.length) :
    (program.bind rest).follow (replies ++ later) =
      (trace ++ ((rest result).follow later).1, ((rest result).follow later).2) := by
  induction program generalizing replies trace with
  | returns other =>
      cases followed
      rw [List.eq_nil_of_length_eq_zero consumed.symm]
      rfl
  | pending => cases followed
  | calls call next induction =>
      cases replies with
      | nil => cases followed
      | cons reply replies =>
          obtain ⟨rfl, ended⟩ := Prod.mk.inj followed
          have tail := induction reply replies (Prod.ext rfl ended)
            (Nat.succ.inj consumed)
          rw [List.cons_append, bind, follow, tail]
          rfl

/-! ## Proving something about every run -/

/-- Every run after `past` is, at every moment, as `post` says. -/
def Ensures (allows : Call → Reply → Prop) (post : List (Call × Reply) → Option Result → Prop) :
    List (Call × Reply) → Interaction Call Reply Result → Prop
  | past, .returns result => post past (some result)
  | past, .pending => post past none
  | past, .calls call next => post past none ∧
      ∀ reply, allows call reply → Ensures allows post (past ++ [(call, reply)]) (next reply)

section

variable {allows : Call → Reply → Prop}
  {post : List (Call × Reply) → Option Result → Prop} {past : List (Call × Reply)}

theorem Ensures.of_runs {program : Interaction Call Reply Result}
    (ensures : Ensures allows post past program) {trace : List (Call × Reply)}
    {outcome : Option Result} (runs : Runs allows program trace outcome) :
    post (past ++ trace) outcome := by
  induction runs generalizing past with
  | returns result => simpa [Ensures] using ensures
  | pending => simpa [Ensures] using ensures
  | waits call next => simpa using ensures.1
  | calls allowed _ induction => simpa using induction (ensures.2 _ allowed)

theorem Ensures.mono {weaker : List (Call × Reply) → Option Result → Prop}
    {program : Interaction Call Reply Result} (ensures : Ensures allows post past program)
    (implies : ∀ trace outcome, post trace outcome → weaker trace outcome) :
    Ensures allows weaker past program := by
  induction program generalizing past with
  | returns result => exact implies _ _ ensures
  | pending => exact implies _ _ ensures
  | calls call next induction =>
      exact ⟨implies _ _ ensures.1, fun reply allowed => induction reply (ensures.2 reply allowed)⟩

theorem Ensures.bind {program : Interaction Call Reply Result}
    {rest : Result → Interaction Call Reply Other}
    {final : List (Call × Reply) → Option Other → Prop}
    (ensures : Ensures allows (fun trace outcome =>
      match outcome with
      | none => final trace none
      | some result => Ensures allows final trace (rest result)) past program) :
    Ensures allows final past (program >>= rest) := by
  induction program generalizing past with
  | returns result => exact ensures
  | pending => exact ensures
  | calls call next induction =>
      exact ⟨ensures.1, fun reply allowed => induction reply (ensures.2 reply allowed)⟩

end

end Interaction

/-! ## Methods: an object's state, and exceptions that leave it as it is -/

/-- A method of an object with this state: it may throw, and what it has done to the
object by then stays done. -/
abbrev Method (Call Reply Error State : Type) :=
  ExceptT Error (StateT State (Interaction Call Reply))

namespace Method

variable {Call Reply Error State Result Other : Type}

def start (method : Method Call Reply Error State Result) (state : State) :
    Interaction Call Reply (Except Error Result × State) :=
  method.run.run state

def perform (call : Call) : Method Call Reply Error State Reply :=
  ExceptT.lift (StateT.lift (.perform call))

def liftExcept (attempt : Except Error Result) : Method Call Reply Error State Result :=
  ExceptT.mk (pure attempt)

def pending : Method Call Reply Error State Result :=
  ExceptT.lift (StateT.lift .pending)

/-- What is to hold when a method returns, when it throws, and at every moment before. -/
structure Post (Call Reply Error State Result : Type) where
  returned : Result → State → List (Call × Reply) → Prop
  threw : Error → State → List (Call × Reply) → Prop
  paused : List (Call × Reply) → Prop

def Post.Holds (post : Post Call Reply Error State Result) (trace : List (Call × Reply)) :
    Option (Except Error Result × State) → Prop
  | none => post.paused trace
  | some (.ok result, state) => post.returned result state trace
  | some (.error error, state) => post.threw error state trace

def Ensures (allows : Call → Reply → Prop) (method : Method Call Reply Error State Result)
    (state : State) (past : List (Call × Reply))
    (post : Post Call Reply Error State Result) : Prop :=
  Interaction.Ensures allows post.Holds past (method.start state)

section

variable {allows : Call → Reply → Prop} {state : State} {past : List (Call × Reply)}
  {post : Post Call Reply Error State Result}

theorem ensures_throw {error : Error} (threw : post.threw error state past) :
    Ensures allows (throw error) state past post :=
  threw

theorem Ensures.bind {method : Method Call Reply Error State Other}
    {rest : Other → Method Call Reply Error State Result}
    (ensures : Ensures allows method state past
      { returned := fun result state trace => Ensures allows (rest result) state trace post
        threw := post.threw
        paused := post.paused }) :
    Ensures allows (method >>= rest) state past post := by
  apply Interaction.Ensures.bind
  apply Interaction.Ensures.mono ensures
  intro trace outcome holds
  match outcome with
  | none => exact holds
  | some (.ok result, state) => exact holds
  | some (.error error, state) => exact holds

theorem ensures_get {rest : State → Method Call Reply Error State Result}
    (ensures : Ensures allows (rest state) state past post) :
    Ensures allows (get >>= rest) state past post :=
  ensures

theorem ensures_set {other : State} {rest : PUnit → Method Call Reply Error State Result}
    (ensures : Ensures allows (rest .unit) other past post) :
    Ensures allows (set other >>= rest) state past post :=
  ensures

theorem ensures_modify {change : State → State}
    {rest : PUnit → Method Call Reply Error State Result}
    (ensures : Ensures allows (rest .unit) (change state) past post) :
    Ensures allows (modify change >>= rest) state past post :=
  ensures

theorem ensures_perform {call : Call} {rest : Reply → Method Call Reply Error State Result}
    (paused : post.paused past)
    (replied : ∀ reply, allows call reply →
      Ensures allows (rest reply) state (past ++ [(call, reply)]) post) :
    Ensures allows (perform call >>= rest) state past post :=
  ⟨paused, replied⟩

theorem ensures_mapError {Cause : Type} {attempt : Except Cause Other} {wrap : Cause → Error}
    {rest : Other → Method Call Reply Error State Result}
    (returned : ∀ value, attempt = .ok value → Ensures allows (rest value) state past post)
    (threw : ∀ cause, attempt = .error cause → post.threw (wrap cause) state past) :
    Ensures allows (liftExcept (attempt.mapError wrap) >>= rest) state past post := by
  cases attempt with
  | ok value => exact returned value rfl
  | error cause => exact threw cause rfl

end

/-! ## Complete runs -/

structure Completes (method : Method Call Reply Error State Result) (state : State)
    (replies : List Reply) (result : Result) (after : State)
    (trace : List (Call × Reply)) : Prop where
  followed : (method.start state).follow replies = (trace, some (.ok result, after))
  consumed : trace.length = replies.length

theorem completes_pure (result : Result) (state : State) :
    Completes (pure result : Method Call Reply Error State Result) state [] result state [] :=
  ⟨rfl, rfl⟩

section

variable {state after : State} {result : Result} {replies : List Reply}
  {trace : List (Call × Reply)}

theorem completes_get {rest : State → Method Call Reply Error State Result}
    (completes : Completes (rest state) state replies result after trace) :
    Completes (get >>= rest) state replies result after trace :=
  ⟨completes.followed, completes.consumed⟩

theorem completes_set {other : State} {rest : PUnit → Method Call Reply Error State Result}
    (completes : Completes (rest .unit) other replies result after trace) :
    Completes (set other >>= rest) state replies result after trace :=
  ⟨completes.followed, completes.consumed⟩

theorem completes_modify {change : State → State}
    {rest : PUnit → Method Call Reply Error State Result}
    (completes : Completes (rest .unit) (change state) replies result after trace) :
    Completes (modify change >>= rest) state replies result after trace :=
  ⟨completes.followed, completes.consumed⟩

theorem completes_mapError {Cause : Type} {attempt : Except Cause Other}
    {wrap : Cause → Error} {value : Other}
    {rest : Other → Method Call Reply Error State Result} (returned : attempt = .ok value)
    (completes : Completes (rest value) state replies result after trace) :
    Completes (liftExcept (attempt.mapError wrap) >>= rest) state replies result after trace := by
  rw [returned]
  exact ⟨completes.followed, completes.consumed⟩

theorem completes_perform {call : Call} {reply : Reply}
    {rest : Reply → Method Call Reply Error State Result}
    (completes : Completes (rest reply) state replies result after trace) :
    Completes (perform call >>= rest) state (reply :: replies) result after
      ((call, reply) :: trace) := by
  constructor
  · have followed : ((perform call >>= rest).start state).follow (reply :: replies) =
        ((call, reply) :: (((rest reply).start state).follow replies).1,
          (((rest reply).start state).follow replies).2) := rfl
    rw [followed, completes.followed]
  · rw [List.length_cons, List.length_cons, completes.consumed]

end

theorem Completes.bind {method : Method Call Reply Error State Other}
    {rest : Other → Method Call Reply Error State Result} {state middle after : State}
    {replies later : List Reply} {value : Other} {result : Result}
    {front back : List (Call × Reply)} (first : Completes method state replies value middle front)
    (second : Completes (rest value) middle later result after back) :
    Completes (method >>= rest) state (replies ++ later) result after (front ++ back) := by
  constructor
  · have joined := Interaction.follow_bind (method.start state)
      (fun outcome : Except Error Other × State => (ExceptT.bindCont rest outcome.1).run outcome.2)
      replies later first.followed first.consumed
    have ended : ((ExceptT.bindCont rest (.ok value)).run middle).follow later =
        (back, some (.ok result, after)) := second.followed
    rw [ended] at joined
    exact joined
  · rw [List.length_append, List.length_append, first.consumed, second.consumed]

end Method

end Sponge
