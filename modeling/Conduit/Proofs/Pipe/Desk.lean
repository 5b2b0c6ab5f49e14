import Conduit.Proofs.Dispatch.Config
import Conduit.Proofs.Pipe.History
import Conduit.Proofs.Pipe.Served

/-!
What is left of a run of pipes when devices and callbacks are forgotten: the hub, the request that is
served, and the requests that have been woken. Every step of a configuration is a few moves of its
desk (`Shape.moves`), with the same deeds.
-/

namespace Conduit.Pipe

open Dispatch

/-- Where the requests on pipes stand. -/
structure Desk where
  hub : Hub
  receivers : Nat
  /-- The request whose turn runs, and whether it has made its last report. -/
  current : Option (Nat × Bool)
  /-- Whether it goes on now: nothing runs above it. -/
  now : Bool
  ready : List Nat

/-- A request as it is issued. -/
def Job.Initial : Job → Prop
  | .read _ delivered => delivered = 0
  | .write data => data ≠ []
  | .flush => True
  | .release => False

theorem Job.initial_read (length : Nat) : (Job.read length 0).Initial := rfl

theorem Job.initial_ofData (data : Bytes) : (Job.ofData data).Initial := by
  unfold Job.ofData
  split
  · trivial
  · rename_i h
    simpa [Initial] using h

/-- Where a request stands after a step that leads to `adv`, whether it goes on at once, and what its
receiver is told. -/
inductive Leads (r : Nat) (k : Option Nat) : Advance → Option (Nat × Bool) → Bool → List Deed → Prop where
  | idle : Leads r k .idle none false []
  | again : Leads r k .again (some (r, false)) true []
  | crash : Leads r k .crash (some (r, true)) true (k.toList.map (.lost · false))
  | report {j e last} (now : Bool) (h : k = some j) :
      Leads r k (.report e last) (some (r, last)) now [.told j e]

namespace Desk

/-- A request is served: it has been woken first, or its turn goes on. -/
inductive Serves (d : Desk) (r : Nat) : List Nat → Prop where
  | poll {rest} (hc : d.current = none) (hr : d.ready = r :: rest) : Serves d r rest
  | resume (hc : d.current = some (r, false)) (hn : d.now = true) : Serves d r d.ready

/-- The moves of a desk, and what is done in them. -/
inductive Move (d : Desk) : List Deed → Desk → Prop where
  | quiet (now : Bool) (h : d.now = true → now = true) : Move d [] { d with now }
  | opens (e : End) : Move d [.opened e] { d with hub := d.hub.addPort e.chunk }
  | feed {p : Nat} {port : Port} (hp : d.hub.ports[p]? = some port) :
      Move d [] { d with ready := woken d.ready port.holder.toList }
  | refuse {p job} {port : Port} (hj : job.Initial) (hp : d.hub.ports[p]? = some port)
      (hc : port.closed = true) :
      Move d [.asked d.receivers p job, .told d.receivers job.closedEvent]
        { d with receivers := d.receivers + 1 }
  | ask {p job} (hj : job.Initial) (hc : d.hub.isClosed p = false) :
      Move d [.asked d.receivers p job] { d with
        hub := (d.hub.submit p job (some d.receivers)).1
        receivers := d.receivers + 1
        ready := woken d.ready [d.hub.requests.length] }
  | close {p} (hn : d.now = false) : Move d [] { d with
      hub := (d.hub.close p).1
      ready := woken d.ready (d.hub.close p).2 }
  | serve {r : Nat} {rest us wakes adv current now ds} {q q' : Request} {port port' : Port}
      (hs : d.Serves r rest)
      (hq : d.hub.requests[r]? = some q) (hp : d.hub.ports[q.port]? = some port)
      (hf : q.phase ≠ .finished) (hv : Served r q port us q' port' wakes adv)
      (hl : Leads r q.receiver adv current now ds) :
      Move d (us.map (.used q.receiver) ++ ds) { d with
        hub := d.hub.put r q' port'
        current, now
        ready := woken rest wakes }
  | skip {r : Nat} {rest} (hs : d.Serves r rest)
      (h : ∀ (q : Request) (port : Port), d.hub.requests[r]? = some q → d.hub.ports[q.port]? = some port →
        q.phase = .finished) : Move d [] { d with current := none, now := false, ready := rest }
  | finish {r} (hc : d.current = some (r, true)) : Move d [] { d with
      hub := (d.hub.finish r).1
      current := none
      now := false
      ready := woken d.ready (d.hub.finish r).2 }
  | unwind {r} (hc : d.current = some (r, false)) (hn : d.now = false) :
      Move d ((d.hub.requests[r]?.bind (·.receiver)).toList.map (.lost · true)) { d with
        hub := (d.hub.finish r).1
        current := none
        ready := woken d.ready (d.hub.finish r).2 }

/-- Several moves. -/
inductive Moves (d : Desk) : List Deed → Desk → Prop where
  | none : Moves d [] d
  | more {ds d' ds' d''} (h : Moves d ds d') (m : Move d' ds' d'') : Moves d (ds ++ ds') d''

theorem Move.moves {d d' : Desk} {ds : List Deed} (m : d.Move ds d') : d.Moves ds d' := by
  simpa using Moves.none.more m

theorem Moves.trans {d d' d'' : Desk} {ds ds' : List Deed} (h : d.Moves ds d')
    (h' : d'.Moves ds' d'') : d.Moves (ds ++ ds') d'' := by
  induction h' with
  | none => simpa using h
  | more _ m ih =>
    rw [← List.append_assoc]
    exact ih.more m

end Desk

/-- The request that a frame belongs to, and whether it has made its last report. -/
def Frame.request? : Frame → Option (Nat × Bool)
  | .serve r => some (r, false)
  | .finish r => some (r, true)
  | .deliver _ _ => none

def Task.request? : Task → Option Nat
  | .request r => some r
  | .collector _ => none

/-- The requests whose turns run. -/
def held (c : Config component) : List (Nat × Bool) :=
  (c.next.toList ++ c.stack).filterMap Frame.request?

/-- The desk of a configuration. -/
def desk (c : Config component) : Desk where
  hub := c.state.hub
  receivers := c.state.receivers.length
  current := (held c).head?
  now := (c.next.bind Frame.request?).isSome
  ready := c.ready.filterMap Task.request?

/-- Requests have receivers, except those that let go of a device. -/
def Session.Addressed (s : Session) : Prop :=
  ∀ (r : Nat) (q : Request), s.hub.requests[r]? = some q →
    (q.receiver = none ↔ q.job = .release) ∧ ∀ k, q.receiver = some k → k < s.receivers.length

/-- The names of a session stand for ports that it has. -/
def Session.Housed (s : Session) : Prop :=
  ∀ (id : String) (h : Handle), s.handles.lookup id = some h → ∀ p ∈ h.ports,
    p < s.hub.ports.length

/-- At most one request has its turn, and only reports wait. -/
structure Shape (c : Config component) : Prop where
  alone : (held c).length ≤ 1
  stack : ∀ f ∈ c.stack, f.request?.isSome
  waiting : ∀ line ∈ c.waiting, ∀ f ∈ line, f.request? = none
  addressed : c.state.Addressed

end Conduit.Pipe
