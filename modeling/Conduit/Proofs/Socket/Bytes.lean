import Conduit.Proofs.Pipe.Sink
import Conduit.Proofs.Socket.Carriage
import Conduit.Proofs.Socket.Hangup

/-!
Bytes from one end of a link to the other. An end is a descriptor; its pipes are all that were ever
made on connections over it. What the reports of reads bring at one end is, in the same order, what
the reports of writes count at the other, from the first byte on.
-/

namespace Conduit.Socket

open Dispatch
open Kernel (Whim)

/-- A port of a pipe that was made on a connection over the descriptor `d`. -/
def MadeOver (past : List (Moment component)) (d p : Nat) : Prop :=
  ∃ s view id name k x, ⟨s, .exec view (.pipe id name)⟩ ∈ past ∧ s.connectionOf? id = some k ∧
    s.connections[k]? = some x ∧ x.descriptor = some d ∧ IsEnd s.hub.ports.length p

/-- What comes of the bytes that are written to pipes at the end `d` of a link, and read from pipes
at the end `e`. -/
structure BytesContract {m : Machine component} (x : Execution m) (d e : Nat) : Prop where
  /-- The bytes that reads report are the first of those that writes report as accepted. -/
  carried : Pipe.delivered (plugged x.machine.state.plugs e) (traffic x.past) <+:
    Pipe.credited (plugged x.machine.state.plugs d) (traffic x.past)
  /-- The pipes that count at an end are at least those that were made over it. -/
  pipes : ∀ b p, MadeOver x.past b p → plugged x.machine.state.plugs b p = true
  /-- Reads report what the system hands out, byte for byte and in order. -/
  delivered : Pipe.delivered (plugged x.machine.state.plugs e) (traffic x.past) =
    Pipe.handed (plugged x.machine.state.plugs e) (traffic x.past)
  /-- Writes report what the system accepts, byte for byte and in order. -/
  credited : Pipe.credited (plugged x.machine.state.plugs d) (traffic x.past) =
    Pipe.taken (plugged x.machine.state.plugs d) (traffic x.past)
  /-- What a write says is left when it ends was never accepted from it. -/
  left : ∀ k p data w, .asked k p (.write data) ∈ traffic x.past →
    .write w ∈ Pipe.events k (traffic x.past) → w.done = true →
    Pipe.moved k (traffic x.past) ++ w.remaining = data

section Runs

variable {m : Machine component} [Blank m]

/-- What the reports bring and count is what the system does. -/
theorem balanced (x : Execution m) (on : Nat → Bool) :
    Pipe.Balanced on [] (traffic x.past) := by
  have := recorded_start.induction x.run (fun past c =>
    (pipeDesk c).Tallied (traffic past) ∧ Pipe.Balanced on [] (traffic past)) ?_ ?_
  · exact this.2.2
  · refine ⟨fun r q k hq => ?_, ⟨rfl, rfl⟩⟩
    obtain ⟨reachable, whims, rfl⟩ := Blank.opens (m := m)
    simp [pipeDesk, Machine.config, Machine.bare, opening] at hq
  · rintro past c moments c' hc - hp ⟨ht, hb⟩
    rw [List.nil_append] at hc
    obtain ⟨ht', hb'⟩ := ht.moves hc.plumbed.sound hc.ledger on hp.moves
    rw [traffic_append]
    exact ⟨ht', hb.append hb'⟩

theorem left_of_done (x : Execution m) {k p : Nat} {data : Bytes} {w : Pipe.WriteEvent}
    (hasked : .asked k p (.write data) ∈ traffic x.past)
    (hw : .write w ∈ Pipe.events k (traffic x.past)) (hdone : w.done = true) :
    Pipe.moved k (traffic x.past) ++ w.remaining = data := by
  obtain ⟨-, hj, hacc⟩ := (recorded x).ledger.accounts.asked k p _ hasked
  obtain ⟨port, f, -, ht, -⟩ := hacc.tale
  have hc := (ht.write hj).contract
  obtain ⟨a₁, a₂, ha⟩ := Pipe.tell_of_mem_events hw
  -- Nothing is done for the request after its last report.
  obtain rfl := hc.last a₁ w a₂ ha hdone
  obtain ⟨w', he, hacc⟩ := hc.account a₁ _ [] ha
  cases he
  rw [Pipe.moved, ha]
  simpa [Pipe.Act.moved] using hacc

end Runs

/-- Bytes end to end. What reads report at one end of a link is a prefix of what writes report as
accepted at the other, whatever is done and closed in between, and what a write says is left counts
for nothing. -/
theorem bytes_contract {reachable : Bool} {whims : List Whim}
    (x : Execution (opening reachable whims)) {d e : Nat}
    (h : x.machine.state.system.Joined d e) : BytesContract x d e where
  carried := by
    have hd : Pipe.delivered _ _ = Pipe.handed _ _ :=
      (balanced x (plugged x.machine.state.plugs e)).delivered
    have hc : Pipe.credited _ _ = Pipe.taken _ _ :=
      (balanced x (plugged x.machine.state.plugs d)).credited
    rw [hd, hc]
    exact (carriage x).in_order h
  pipes b p hp := by
    obtain ⟨s, view, id, name, k, connection, hq, hk, hconnection, hb, hend⟩ := hp
    obtain ⟨-, hplug⟩ := plug_of_pipe x hq hk hconnection hend
    simp [plugged, hplug, hb]
  delivered := (balanced x _).delivered
  credited := (balanced x _).credited
  left _ _ _ _ hasked hw hdone := left_of_done x hasked hw hdone

/-- An attempt to accept and the first write are interrupted. Of the bytes that are written, two go at
first and then the rest; a read would block once, brings one byte, and is interrupted. -/
def moods : List Whim :=
  [.obey, .obey, .fail 4, .obey, .obey, .obey, .obey, .obey, .obey, .fail 4, .partly 2, .obey,
    .fail 11, .partly 1, .fail 4]

/-- A socket connects to another one and writes; less is read at the other end, which is then
closed. -/
def conversation : Execution (opening true moods) :=
  let address : Address := .inet4 .loopback 80
  (ExecutionBy.begin (opening true moods)).perform 20
    [.own (.socket "server" false [] default), .own (.bind "server" (.known address) .stream),
      .own (.listen "server" 1), .own (.accept "server" "loop" ""),
      .own (.socket "client" false [] default),
      .own (.connect "client" (.known address) .stream none ""), .own (.connected "client" "one"),
      .own (.next "loop" (some "two") false), .own (.pipe "one" "out"), .own (.pipe "two" "in"),
      .own (.startWrite "out" (some "write") [1, 2, 3]), .own (.startRead "in" (some "read") 2),
      .own (.close "two")]

set_option maxRecDepth 8000 in
theorem bytes_contract_conversation : conversation.machine.state.system.Joined 1 2 ∧
    Pipe.delivered (plugged conversation.machine.state.plugs 2)
      (traffic conversation.past) = [1, 2] ∧
    [1, 2] <+: Pipe.credited (plugged conversation.machine.state.plugs 1)
      (traffic conversation.past) := by
  have hjoined : conversation.machine.state.system.Joined 1 2 := ⟨rfl, _, rfl⟩
  have hdelivered : Pipe.delivered (plugged conversation.machine.state.plugs 2)
      (traffic conversation.past) = [1, 2] := rfl
  exact ⟨hjoined, hdelivered, hdelivered ▸ (bytes_contract conversation hjoined).carried⟩

end Conduit.Socket
