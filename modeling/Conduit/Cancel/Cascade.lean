import Conduit.Cancel.Ticket

/-!
How a cancellation spreads. Cancelling a ticket sets its reason, wakes its waiters and then goes
through the handlers one by one; a link starts another such round above it on the stack. A throw out
of a callback that runs in line ends all rounds that it passes, and the handlers left in them are
lost.
-/

namespace Conduit.Cancel

open Dispatch

inductive Answer where
  | unknownSource
  | unknownTicket
  | fired (first : Bool)
  | dropped (existed : Bool)
  | linked (n : Nat)
  | text (s : String)
  deriving DecidableEq, Inhabited

/-- A callback that started, and a waiter that was served. -/
inductive Note where
  | fired (label : String) (reason : Reason)
  | waited (label : String) (reason : Reason)
  deriving DecidableEq, Inhabited

/-- The rest of the round of handlers of a ticket, which gives `after` in the end, or the callback
of one handler. -/
inductive Frame where
  | round (ticket : Nat) (reason : Reason) (rest : List Handler) (after : Reply Answer)
  | call (number : Nat) (c : Callback) (reason : Reason)

abbrev signature : Signature where
  State := Tickets
  Action := Action
  Answer := Answer
  Frame := Frame
  Task := Task
  Note := Note
  Tag := String

/-- Cancels a ticket; the frames `k` follow its round. -/
def cancel (s : Tickets) (t : Nat) (reason : Reason) (k : List Frame) : Turn signature :=
  match s.reason? t with
  | some _ =>
    { state := s, next := if k.isEmpty then .reply (.own (.fired false)) else .enter k }
  | none =>
    { state := s.settle t reason
      wakes := s.waitersOf t
      next := .enter (.round t reason (s.handlersOf t) (.own (.fired true)) :: k) }

/-- Starts the callback of a handler, in line or on a context. -/
def start (number : Nat) (c : Callback) (context : Option Context) (reason : Reason)
    (k : List Frame) : Next signature :=
  match context with
  | none => .enter (.call number c reason :: k)
  | some d => .perform d (.call number c reason) k

def resume (s : Tickets) : Frame → Turn signature
  | .round _ _ [] after => { state := s, next := .reply after }
  | .round t reason (⟨n, .callback c context⟩ :: rest) after =>
    { state := s, next := start n c context reason [.round t reason rest after] }
  | .round t reason (⟨_, .link target⟩ :: rest) after =>
    if s.Alive target then cancel s target reason [.round t reason rest after]
    else { state := s, next := .enter [.round t reason rest after] }
  | .call _ c reason =>
    { state := s
      notes := [.fired c.label reason]
      next := .script c.label c.script c.throws [] }

/-- Adds a handler to a ticket; it starts at once if the ticket has a reason. -/
def register (s : Tickets) (t : Nat) (c : Callback) (context : Option Context) : Turn signature :=
  match s.reason? t with
  | none => { state := s.addHandler t (.callback c context) }
  | some reason => { state := s.number, next := start s.registered c context reason [] }

/-- The line that describes a source or else a ticket. -/
def describe? (s : Tickets) (id : String) : Option String :=
  match s.sources.lookup id, s.kept.lookup id with
  | some t, _ =>
    let cancelled := if (s.reason? t).isSome then "true" else "false"
    some ("CancelTicketSource \x7b cancelled: " ++ cancelled ++ " \x7d")
  | none, some t =>
    let reason := match s.reason? t with
      | some r => "Some(" ++ r.name ++ ")"
      | none => "None"
    some ("CancelTicket \x7b reason: " ++ reason ++ " \x7d")
  | none, none => none

def reply (s : Tickets) (a : Answer) : Turn signature := { state := s, next := .reply (.own a) }

def exec (view : View) (s : Tickets) : Action → Turn signature
  | .source id => { state := s.addSource id }
  | .linked id ids =>
    let ts := ids.filterMap s.ticket?
    reply (s.addLinked id ts) (.linked ts.length)
  | .never id =>
    { state := s.addTicket.keep id s.tickets.length }
  | .keep id of =>
    match s.ticket? of with
    | none => reply s .unknownTicket
    | some t => { state := s.keep id t }
  | .drop id =>
    reply (s.drop id) (.dropped ((s.sources.lookup id).isSome || (s.kept.lookup id).isSome))
  | .cancel id =>
    match s.sources.lookup id with
    | none => reply s .unknownSource
    | some t => cancel s t .requested []
  | .cancelAfter id ms =>
    match s.sources.lookup id with
    | none => reply s .unknownSource
    | some t => { state := s.addTimer t ms, wakes := [.timer s.timers.length] }
  | .timeout id ms =>
    { state := (s.addSource id).addTimer s.tickets.length ms
      wakes := [.timer s.timers.length] }
  | .handler ticket label context script throws =>
    match s.ticket? ticket with
    | none => reply s .unknownTicket
    | some t =>
      match context with
      | none => register s t ⟨label, script, throws⟩ none
      | some name =>
        match view.context? name with
        | none => { state := s, next := .reply .unknownContext }
        | some c => register s t ⟨label, script, throws⟩ (some c)
  | .wait ticket label =>
    match s.ticket? ticket with
    | none => reply s .unknownTicket
    | some t => { state := s.addWaiter t label, wakes := [.waiter s.waiters.length] }
  | .describe id =>
    match describe? s id with
    | none => reply s .unknownTicket
    | some text => reply s (.text text)

/-- A timer has come to its time. -/
def expire (s : Tickets) (k : Nat) (timer : Timer) : Turn signature :=
  let s' := { s with timers := s.timers.set k { timer with finished := true } }
  if s.Alive timer.ticket then cancel s' timer.ticket .timeout [] else { state := s' }

def poll (s : Tickets) : Task → Turn signature
  | .waiter k =>
    match s.waiters[k]? with
    | none => { state := s }
    | some w =>
      match w.finished, s.reason? w.ticket with
      | false, some reason =>
        { state := { s with waiters := s.waiters.set k { w with finished := true } }
          notes := [.waited w.label reason] }
      | _, _ => { state := s }
  | .timer k =>
    match s.timers[k]? with
    | none => { state := s }
    | some timer =>
      if timer.finished then { state := s }
      else
        let due := timer.due.getD (s.clock + timer.ms)
        if due ≤ s.clock then expire s k timer
        else { state := { s with timers := s.timers.set k { timer with due := some due } } }

/-- A millisecond passes; the timers that have come to their time are woken. -/
def tick (s : Tickets) : Tickets × List Task :=
  let clock := s.clock + 1
  ({ s with clock }, s.timers.zipIdx.filterMap fun (timer, k) =>
    match timer.due with
    | some due => if due ≤ clock ∧ timer.finished = false then some (.timer k) else none
    | none => none)

/-- Tickets, and the cascades of their handlers. -/
abbrev component : Component where
  toSignature := signature
  decTask := inferInstance
  exec := exec
  resume := resume
  unwind s _ := (s, [])
  poll := poll
  tick := tick

end Conduit.Cancel
