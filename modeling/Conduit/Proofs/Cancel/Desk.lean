import Conduit.Proofs.Cancel.History
import Conduit.Proofs.Cancel.Housed
import Conduit.Proofs.Dispatch.Config

/-!
What is left of a run of tickets when names, timers and waiters are forgotten: the tickets, the
rounds that are under way, and the callbacks that are to start. Every step of a configuration is a
few moves of its desk, with the same deeds.
-/

namespace Conduit.Cancel

open Dispatch

/-- The rest of a round. -/
structure Round where
  ticket : Nat
  reason : Reason
  rest : List Handler

/-- Where tickets and their handlers stand. -/
structure Desk where
  tickets : List Ticket
  registered : Nat
  /-- The rounds under way, the uppermost first. -/
  rounds : List Round
  /-- The callback that starts now. -/
  now : Option (Nat × Reason)
  /-- The callbacks in the lines of contexts. -/
  waiting : List (Nat × Reason)

namespace Desk

def reason? (d : Desk) (t : Nat) : Option Reason := d.tickets[t]?.bind (·.reason)

/-- The callback of a handler is run or handed to a context, which may run it at once, keep it in a
line or drop it. -/
inductive Gives (d : Desk) (n : Nat) (r : Reason) : Way → Desk → Prop where
  | inLine : Gives d n r .inLine { d with now := some (n, r) }
  | direct (c : Context) : Gives d n r (.on c) { d with now := some (n, r) }
  | queued (c : Context) {a b} (h : d.waiting = a ++ b) :
      Gives d n r (.on c) { d with waiting := a ++ (n, r) :: b }
  | dropped (c : Context) : Gives d n r (.on c) d

theorem Gives.tickets {d d' : Desk} {n : Nat} {r : Reason} {way : Way} (hg : d.Gives n r way d') :
    d'.tickets = d.tickets ∧ d'.registered = d.registered ∧ d'.rounds = d.rounds := by
  cases hg <;> exact ⟨rfl, rfl, rfl⟩

/-- The moves of a desk, and what is done in them. Nothing but its start can happen before a callback
that starts now. -/
inductive Move (d : Desk) : List Deed → Desk → Prop where
  | create (hn : d.now = none) : Move d [] { d with tickets := d.tickets ++ [{}] }
  | register {t : Nat} (a : Reaction) (hn : d.now = none) (ht : t < d.tickets.length)
      (hr : d.reason? t = none) : Move d [.registered t d.registered none] { d with
        tickets := d.tickets.modify t fun k =>
          { k with handlers := k.handlers ++ [⟨d.registered, a⟩] }
        registered := d.registered + 1 }
  | registerLate {t r way d'} (hn : d.now = none) (hr : d.reason? t = some r)
      (hg : Gives { d with registered := d.registered + 1 } d.registered r way d') :
      Move d [.registered t d.registered (some r), .reacted t d.registered r way true] d'
  | linkLate {t r} (hn : d.now = none) (hr : d.reason? t = some r) :
      Move d [.registered t d.registered (some r), .reacted t d.registered r .link true]
        { d with registered := d.registered + 1 }
  | fail {t r r'} (hn : d.now = none) (hr : d.reason? t = some r') :
      Move d [.attempted t r false, .answered t false] d
  | win {t r k} (hn : d.now = none) (ht : d.tickets[t]? = some k) (hr : k.reason = none) :
      Move d [.attempted t r true] { d with
        tickets := d.tickets.set t { reason := some r, handlers := [] }
        rounds := ⟨t, r, k.handlers⟩ :: d.rounds }
  | react {t r n c context rest rs way d'} (hn : d.now = none)
      (hd : d.rounds = ⟨t, r, ⟨n, .callback c context⟩ :: rest⟩ :: rs)
      (hg : Gives { d with rounds := ⟨t, r, rest⟩ :: rs } n r way d') :
      Move d [.reacted t n r way false] d'
  | follow {t r n target rest rs} (hn : d.now = none)
      (hd : d.rounds = ⟨t, r, ⟨n, .link target⟩ :: rest⟩ :: rs) :
      Move d [.reacted t n r .link false] { d with rounds := ⟨t, r, rest⟩ :: rs }
  | finish {t r rs} (hn : d.now = none) (hd : d.rounds = ⟨t, r, []⟩ :: rs) :
      Move d [.answered t true] { d with rounds := rs }
  | leave {t r rest rs} (hn : d.now = none) (hd : d.rounds = ⟨t, r, rest⟩ :: rs) :
      Move d [.broken t (rest.map (·.number))] { d with rounds := rs }
  | begin {n r a b} (hn : d.now = none) (hw : d.waiting = a ++ (n, r) :: b) :
      Move d [] { d with now := some (n, r), waiting := a ++ b }
  | start {n r} (hn : d.now = some (n, r)) : Move d [.started n r] { d with now := none }

/-- Several moves. -/
inductive Moves (d : Desk) : List Deed → Desk → Prop where
  | none : Moves d [] d
  | more {ds d' ds' d''} (h : Moves d ds d') (m : Move d' ds' d'') : Moves d (ds ++ ds') d''

theorem Move.moves {d d' : Desk} {ds : List Deed} (m : d.Move ds d') : d.Moves ds d' := by
  simpa using Moves.none.more m

theorem Moves.trans {d d' d'' : Desk} {ds ds' : List Deed} (h : d.Moves ds d')
    (h' : d'.Moves ds' d'') : d.Moves (ds ++ ds') d'' := by
  induction h' with
  | none => simpa using h
  | more _ m ih =>
    rw [← List.append_assoc]
    exact ih.more m

/-- What every move keeps is kept by several moves. -/
theorem Moves.keep {d d' : Desk} {h ds : List Deed} (m : d.Moves ds d') (P : List Deed → Desk → Prop)
    (hP : ∀ {h d ds d'}, P h d → Move d ds d' → P (h ++ ds) d') (hd : P h d) : P (h ++ ds) d' := by
  induction m with
  | none => simpa using hd
  | more _ m ih =>
    rw [← List.append_assoc]
    exact hP ih m

end Desk

def Frame.round? : Frame → Option Round
  | .round t r rest _ => some ⟨t, r, rest⟩
  | .call _ _ _ => none

def Frame.call? : Frame → Option (Nat × Reason)
  | .round _ _ _ _ => none
  | .call n _ r => some (n, r)

@[simp] theorem rounds_call (n : Nat) (c : Callback) (r : Reason) (k : List Frame) :
    (.call n c r :: k).filterMap Frame.round? = k.filterMap Frame.round? := rfl

@[simp] theorem rounds_round (t : Nat) (r : Reason) (rest : List Handler) (after : Reply Answer)
    (k : List Frame) : (.round t r rest after :: k).filterMap Frame.round? =
      ⟨t, r, rest⟩ :: k.filterMap Frame.round? := rfl

/-- The desk of a configuration. -/
def desk (c : Config component) : Desk where
  tickets := c.state.tickets
  registered := c.state.registered
  rounds := (c.next.toList ++ c.stack).filterMap Frame.round?
  now := c.next.bind Frame.call?
  waiting := c.waiting.flatten.filterMap Frame.call?

/-- The links of a round lead to one of the first `n` tickets, and the round answers the attempt
that was the first. -/
def Frame.Within (n : Nat) : Frame → Prop
  | .round _ _ rest after => (∀ a ∈ rest, a.Within n) ∧ after = .own (.fired true)
  | .call _ _ _ => True

/-- Only callbacks wait in lines, and only rounds on the stack. -/
structure Shape (c : Config component) : Prop where
  housed : c.state.Housed
  within : ∀ f ∈ c.next.toList ++ c.stack, f.Within c.state.tickets.length
  stack : ∀ f ∈ c.stack, f.call? = none
  waiting : ∀ line ∈ c.waiting, ∀ f ∈ line, f.round? = none

end Conduit.Cancel
