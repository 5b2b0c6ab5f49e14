import Conduit.Dispatch.Context

/-!
The registry of observers: who is to be told, and on which context. A registration has a token that
no other one ever has, and a pair of observer and context is registered at most once. The registry
does not keep observers alive; every change to it prunes the registrations whose observer is gone.
-/

namespace Conduit.Observer

open Dispatch

/-- The registration of an observer on a context. -/
structure Registration where
  token : Nat
  observer : Nat
  context : Context
  deriving DecidableEq, Inhabited

structure Registry where
  nextToken : Nat := 0
  entries : List Registration := []
  deriving DecidableEq, Inhabited

namespace Registry

/-- Drops the registrations whose observer is gone. -/
def prune (r : Registry) (alive : Nat → Bool) : Registry :=
  { r with entries := r.entries.filter fun e => alive e.observer }

/-- The registration of a pair of observer and context. -/
def find? (r : Registry) (observer : Nat) (context : Context) : Option Registration :=
  r.entries.find? fun e => e.observer = observer ∧ e.context.identity = context.identity

/-- Registers an observer on a context and gives the token, which is that of the registration
already there if there is one. -/
def add (r : Registry) (alive : Nat → Bool) (observer : Nat) (context : Context) :
    Registry × Nat :=
  let r := r.prune alive
  match r.find? observer context with
  | some e => (r, e.token)
  | none =>
    ({ nextToken := r.nextToken + 1
       entries := r.entries ++ [{ token := r.nextToken, observer, context }] }, r.nextToken)

/-- Removes the registrations of an observer and gives their number. -/
def remove (r : Registry) (alive : Nat → Bool) (observer : Nat) : Registry × Nat :=
  let left := r.entries.filter fun e => e.observer ≠ observer
  ({ r with entries := left }.prune alive, r.entries.length - left.length)

/-- Removes the element at a position; the last one takes its place. -/
def swapRemove {α : Type} (l : List α) (i : Nat) : List α :=
  match l.getLast? with
  | none => l
  | some x => (l.set i x).dropLast

/-- Removes the registration with a token, and tells whether there was one. -/
def removeToken (r : Registry) (alive : Nat → Bool) (token : Nat) : Registry × Bool :=
  match r.entries.findIdx? (·.token = token) with
  | none => (r.prune alive, false)
  | some i => ({ r with entries := swapRemove r.entries i }.prune alive, true)

/-- Whether a registration is still there. -/
def IsActive (r : Registry) (e : Registration) : Prop := ∃ f ∈ r.entries, f.token = e.token

instance (r : Registry) (e : Registration) : Decidable (r.IsActive e) := by
  unfold IsActive; infer_instance

/-- The number of registrations whose observer is still there. -/
def count (r : Registry) (alive : Nat → Bool) : Nat := (r.entries.filter (alive ·.observer)).length

end Registry

end Conduit.Observer
