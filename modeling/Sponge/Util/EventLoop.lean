import Sponge.Data.Machine
import Sponge.Util.FileDescriptor

namespace Sponge.EventLoop

/-! `wait_next_event` as a machine. What the file descriptors, the kernel and the callbacks
do is the operation; what the loop does with it is the step. A running callback may add
rules and may call `wait_next_event` again. -/

inductive Direction where
  | In
  | Out
  deriving DecidableEq, Repr

def Direction.events : Direction → UInt16
  | .In => 0x0001
  | .Out => 0x0004

def POLLERR : UInt16 := 0x0008
def POLLHUP : UInt16 := 0x0010
def POLLNVAL : UInt16 := 0x0020

def EINTR : Int := 4

/-- A node of the rule list. Its `id` is the identity that a `std::list` iterator keeps;
its three callbacks are in the operations. -/
structure Rule where
  id : Nat
  direction : Direction
  deriving DecidableEq, Repr

def Rule.serviceCount (rule : Rule) (descriptor : FileDescriptor) : UInt32 :=
  if rule.direction = .In then descriptor.readCount else descriptor.writeCount

structure PollFd where
  owner : Nat
  fd : Int
  events : UInt16
  revents : UInt16
  deriving DecidableEq, Repr

def PollFd.fill (pollfd : PollFd) (revents : UInt16) : PollFd :=
  { pollfd with revents := revents }

inductive Result where
  | success
  | timeout
  | exit
  deriving DecidableEq, Repr

inductive Pass where
  | setup
  | results (idx : Nat)
  deriving DecidableEq, Repr

def Pass.next : Pass → Pass
  | .setup => .setup
  | .results idx => .results (idx + 1)

/-- Where a call stands. An iterator is the `id` of its node, or `none` at the end. -/
inductive Phase where
  | top (pass : Pass) (it : Option Nat)
  | cancelling (pass : Pass) (id : Nat)
  | asking (pass : Pass) (id : Nat)
  | calling (idx id : Nat) (countBefore : UInt32)
  | polling
  | returned (result : Result)
  | threw (exception : SystemException)
  | undefined
  deriving DecidableEq, Repr

inductive Event where
  | built (id : Nat) (direction : Direction) (interested : Bool)
  | examined (id idx : Nat) (pollfd : Option PollFd)
  | called (id : Nat)
  | cancelled (id : Nat)
  | erased (id : Nat)
  deriving DecidableEq, Repr

structure Call where
  phase : Phase
  pollfds : List PollFd := []
  somethingToPoll : Bool := false
  log : List Event := []
  deriving DecidableEq, Repr

structure Loop where
  rules : List Rule
  fresh : Nat
  calls : List Call
  deriving DecidableEq, Repr

/-! ## Iterators -/

def find (rules : List Rule) (id : Nat) : Option Rule :=
  rules.find? fun rule => rule.id == id

def begin (rules : List Rule) : Option Nat :=
  (rules.map Rule.id).head?

def successor : (rules : List Rule) → (id : Nat) → Option Nat
  | [], _ => none
  | rule :: rest, id => if rule.id = id then begin rest else successor rest id

def erase (rules : List Rule) (id : Nat) : List Rule :=
  rules.filter fun rule => rule.id != id

/-- `++it`, undefined for an iterator whose node is gone. -/
def Call.moveOn (call : Call) (rules : List Rule) (pass : Pass) (id : Nat) : Call :=
  match find rules id with
  | none => { call with phase := .undefined }
  | some _ => { call with phase := .top pass.next (successor rules id) }

/-! ## The steps of a call -/

def Call.cancel (call : Call) (pass : Pass) (id : Nat) : Call :=
  { call with phase := .cancelling pass id, log := call.log ++ [.cancelled id] }

def Call.setUp (call : Call) (rules : List Rule) (it : Option Nat)
    (descriptor : FileDescriptor) : Call :=
  match it with
  | none =>
      if !call.somethingToPoll then { call with phase := .returned .exit }
      else { call with phase := .polling }
  | some id =>
      match find rules id with
      | none => { call with phase := .undefined }
      | some rule =>
          if rule.direction = .In ∧ descriptor.eof then call.cancel .setup id
          else if descriptor.closed then call.cancel .setup id
          else { call with phase := .asking .setup id }

def Call.build (call : Call) (rules : List Rule) (id : Nat) (interested : Bool)
    (descriptor : FileDescriptor) : Call :=
  match find rules id with
  | none => { call with phase := .undefined }
  | some rule =>
      let events := if interested then rule.direction.events else 0
      Call.moveOn
        { call with
          pollfds := call.pollfds ++ [⟨id, descriptor.fd, events, 0⟩]
          somethingToPoll := call.somethingToPoll || interested
          log := call.log ++ [.built id rule.direction interested] } rules .setup id

inductive PollOutcome where
  | timeout
  | failed (errno : Int)
  | ready (revents : List UInt16)
  deriving DecidableEq, Repr

/-- Behind `poll`. An error other than `EINTR` is caught and passed over. -/
def Call.polled (call : Call) (rules : List Rule) : PollOutcome → Call
  | .timeout => { call with phase := .returned .timeout }
  | .failed errno =>
      if errno = EINTR then { call with phase := .returned .exit }
      else { call with phase := .top (.results 0) (begin rules) }
  | .ready revents =>
      { call with
        phase := .top (.results 0) (begin rules)
        pollfds := List.zipWith PollFd.fill call.pollfds revents }

/-- The second loop looks at `pollfds[idx]`, which is undefined behind the end. -/
def Call.examine (call : Call) (rules : List Rule) (idx id : Nat)
    (descriptor : FileDescriptor) : Call :=
  let call : Call := { call with log := call.log ++ [.examined id idx call.pollfds[idx]?] }
  match call.pollfds[idx]? with
  | none => { call with phase := .undefined }
  | some pollfd =>
      if pollfd.revents &&& (POLLERR ||| POLLNVAL) ≠ 0 then
        { call with
          phase := .threw
            (.thrown (.runtimeError "EventLoop: error on polled file descriptor")) }
      else
        match find rules id with
        | none => { call with phase := .undefined }
        | some rule =>
            let pollReady := pollfd.revents &&& pollfd.events != 0
            let pollHup := pollfd.revents &&& POLLHUP != 0
            if pollHup && pollfd.events != 0 && !pollReady then
              call.cancel (.results idx) id
            else if pollReady then
              { call with
                phase := .calling idx id (rule.serviceCount descriptor)
                log := call.log ++ [.called id] }
            else call.moveOn rules (.results idx) id

def Call.advance (call : Call) (rules : List Rule) (descriptor : FileDescriptor) : Call :=
  match call.phase with
  | .top .setup it => call.setUp rules it descriptor
  | .top (.results _) none => { call with phase := .returned .success }
  | .top (.results idx) (some id) => call.examine rules idx id descriptor
  | _ => call

def busyWait : SystemException :=
  .thrown (.runtimeError
    "EventLoop: busy wait detected: callback did not read/write fd and is still interested")

/-- The running callback returns; `answer` is what `interest` says. -/
def Call.resume (call : Call) (rules : List Rule) (answer : Bool)
    (descriptor : FileDescriptor) : List Rule × Call :=
  match call.phase with
  | .cancelling pass id =>
      ((erase rules id),
        Call.moveOn { call with log := call.log ++ [.erased id] } rules pass id)
  | .asking .setup id => (rules, call.build rules id answer descriptor)
  | .calling idx id countBefore =>
      match find rules id with
      | none => (rules, { call with phase := .undefined })
      | some rule =>
          if countBefore = rule.serviceCount descriptor then
            (rules, { call with phase := .asking (.results idx) id })
          else (rules, call.moveOn rules (.results idx) id)
  | .asking (.results idx) id =>
      if answer then (rules, { call with phase := .threw busyWait })
      else (rules, call.moveOn rules (.results idx) id)
  | _ => (rules, call)

def Call.start (rules : List Rule) : Call :=
  { phase := .top .setup (begin rules) }

/-! ## The machine -/

inductive Op where
  | advance (descriptor : FileDescriptor)
  | poll (outcome : PollOutcome)
  | addRule (direction : Direction)
  | waitNextEvent
  | resume (answer : Bool) (descriptor : FileDescriptor)
  | throw (exception : SystemException)
  | leave
  deriving DecidableEq, Repr

def Phase.busy : Phase → Bool
  | .cancelling _ _ | .asking _ _ | .calling _ _ _ => true
  | _ => false

def Phase.atTop : Phase → Bool
  | .top _ _ => true
  | _ => false

def Phase.over : Phase → Bool
  | .returned _ | .threw _ => true
  | _ => false

/-- What can happen next to the innermost call. `poll` fills in every entry. -/
def Loop.possible (loop : Loop) (op : Op) : Bool :=
  match loop.calls with
  | [] => false
  | call :: below =>
      match op with
      | .advance _ => call.phase.atTop
      | .poll (.ready revents) =>
          call.phase == .polling && revents.length == call.pollfds.length
      | .poll _ => call.phase == .polling
      | .addRule _ | .waitNextEvent | .resume _ _ | .throw _ => call.phase.busy
      | .leave => call.phase.over && !below.isEmpty

def Loop.next (loop : Loop) (op : Op) : Loop :=
  match loop.calls with
  | [] => loop
  | call :: below =>
      match op with
      | .advance descriptor =>
          { loop with calls := call.advance loop.rules descriptor :: below }
      | .poll outcome => { loop with calls := call.polled loop.rules outcome :: below }
      | .addRule direction =>
          { loop with
            rules := loop.rules ++ [⟨loop.fresh, direction⟩]
            fresh := loop.fresh + 1 }
      | .waitNextEvent => { loop with calls := Call.start loop.rules :: call :: below }
      | .resume answer descriptor =>
          let (rules, call) := call.resume loop.rules answer descriptor
          { loop with rules := rules, calls := call :: below }
      | .throw exception =>
          { loop with calls := { call with phase := .threw exception } :: below }
      | .leave => { loop with calls := below }

def waits (directions : List Direction) : Machine Loop Op where
  init :=
    let rules := directions.mapIdx fun id direction => ⟨id, direction⟩
    { rules := rules, fresh := directions.length, calls := [Call.start rules] }
  guard loop op := loop.possible op = true
  next := Loop.next

instance (directions : List Direction) (loop : Loop) (op : Op) :
    Decidable ((waits directions).guard loop op) :=
  inferInstanceAs (Decidable (loop.possible op = true))

def Phase.settingUp : Phase → Bool
  | .cancelling .setup _ | .asking .setup _ => true
  | _ => false

/-- Callbacks do not call `wait_next_event`, and those of the second loop add no rule. -/
def Loop.steady (loop : Loop) : Op → Bool
  | .addRule _ => loop.calls.all fun call => call.phase.settingUp
  | .waitNextEvent => false
  | .advance _ | .poll _ | .resume _ _ | .throw _ | .leave => true

def steadyWaits (directions : List Direction) : Machine Loop Op :=
  (waits directions).restrict fun loop op => loop.steady op = true

instance (directions : List Direction) (loop : Loop) (op : Op) :
    Decidable ((steadyWaits directions).guard loop op) :=
  inferInstanceAs (Decidable (loop.possible op = true ∧ loop.steady op = true))

end Sponge.EventLoop
