import Conduit.Proofs.Pipe.Credit
import Conduit.Proofs.Socket.Plumbing
import Conduit.Proofs.Socket.Respect

/-!
What pipes have to do with streams. Requests work the descriptors that their ports are plugged into,
and nobody else does; so at every point of a run streams carry the bytes that the uses of their
descriptors tell of.
-/

namespace Conduit.Pipe

open Dispatch

/-- Deeds that use no device. -/
def Unused (ds : List Deed) : Prop := ∀ o u, .used o u ∉ ds

theorem Unused.gained {ds : List Deed} (h : Unused ds) (g : Use → Bytes) (on : Nat → Bool) :
    gained g on ds = [] := by
  rw [Pipe.gained, List.flatMap_eq_nil_iff]
  intro d hd
  cases d with
  | used o u => exact absurd hd (h o u)
  | _ => rfl

theorem gained_map (g : Use → Bytes) (on : Nat → Bool) (o : Option Nat) (us : List Use) :
    gained g on (us.map (.used o)) = us.flatMap fun u => if on u.port then g u else [] := by
  simp [gained, List.flatMap_map]

end Conduit.Pipe

namespace Conduit.Socket

open Dispatch
open Kernel (System Log)
open Pipe (Use)

/-- A port that is plugged into the descriptor `d`. -/
def plugged (plugs : List Plug) (d p : Nat) : Bool := (plugs[p]?).bind (·.descriptor) = some d

/-- What descriptors accepted and handed out, by what was done on the ports. -/
def logOf (plugs : List Plug) (h : List Pipe.Deed) : Log where
  accepted d := Pipe.taken (plugged plugs d) h
  handed d := Pipe.handed (plugged plugs d) h

/-- The log after more uses of ports. -/
def logAfter (log : Log) (plugs : List Plug) (us : List Use) : Log where
  accepted d := log.accepted d ++ us.flatMap fun u => if plugged plugs d u.port then u.taken else []
  handed d := log.handed d ++ us.flatMap fun u => if plugged plugs d u.port then u.handed else []

theorem logAfter_nil (log : Log) (plugs : List Plug) : logAfter log plugs [] = log := by
  simp [logAfter]

theorem logOf_unused (plugs : List Plug) (h : List Pipe.Deed) {ds : List Pipe.Deed}
    (hds : Pipe.Unused ds) : logOf plugs (h ++ ds) = logOf plugs h := by
  simp [logOf, Pipe.gained_append, hds.gained]

theorem logOf_uses (plugs : List Plug) (h : List Pipe.Deed) (o : Option Nat) (us : List Use)
    {ds : List Pipe.Deed} (hds : Pipe.Unused ds) :
    logOf plugs (h ++ (us.map (.used o) ++ ds)) = logAfter (logOf plugs h) plugs us := by
  rw [← List.append_assoc, logOf_unused _ _ hds]
  simp [logOf, logAfter, Pipe.gained_append, Pipe.gained_map]

/-! ### Uses of devices -/

theorem plugged_of_grows {plugs plugs' : List Plug} (h : plugs <+: plugs') {p d : Nat}
    (hd : (plugs[p]?).bind (·.descriptor) = some d) (b : Nat) : plugged plugs' b p = decide (b = d) := by
  obtain ⟨plug, hplug, hdesc⟩ := Option.bind_eq_some_iff.mp hd
  obtain ⟨later, rfl⟩ := h
  have hlt := (List.getElem?_eq_some_iff.mp hplug).1
  simp [plugged, List.getElem?_append_left hlt, hplug, hdesc, eq_comm]

/-- A use of a port that is plugged into the descriptor `d`. -/
theorem logAfter_singleton {plugs plugs' : List Plug} (h : plugs <+: plugs') {u : Use} {d : Nat}
    (hd : (plugs[u.port]?).bind (·.descriptor) = some d) (log : Log) :
    logAfter log plugs' [u] = (log.accept d u.taken).hand d u.handed := by
  simp [logAfter, Log.accept, Log.hand, plugged_of_grows h hd]

theorem handed_read (p want : Nat) (answer : Pipe.Poll (Except OsError Bytes)) :
    (Use.read p want answer).handed = Kernel.brought answer := by
  rcases answer with (e | data) | again <;> rfl

theorem taken_write (p : Nat) (offered : Bytes) (answer : Pipe.Poll (Except OsError Nat)) :
    (Use.write p offered answer).taken = Kernel.accepted offered answer := by
  rcases answer with (e | n) | again <;> rfl

/-- What the devices do on the way from one state to another, with all records of it. -/
def Works (a b : (System × List Plug) × List Use) : Prop :=
  ∃ us, b.2 = a.2 ++ us ∧ a.1.1.Alike b.1.1 ∧ ∀ plugs, a.1.2 <+: plugs → ∀ log,
    a.1.1.Streams log → b.1.1.Streams (logAfter log plugs us)

theorem Works.refl (a : (System × List Plug) × List Use) : Works a a :=
  ⟨[], (List.append_nil _).symm, .refl _, fun plugs _ log h => by rwa [logAfter_nil]⟩

/-- A use that moves nothing. -/
theorem Works.idle {w : System × List Plug} {us : List Use} {u : Use} (hh : u.handed = [])
    (ht : u.taken = []) : Works (w, us) (w, us ++ [u]) := by
  refine ⟨[u], rfl, .refl _, fun plugs _ log h => ?_⟩
  have : logAfter log plugs [u] = log := by simp [logAfter, hh, ht]
  rwa [this]

theorem recording_read_works (a : (System × List Plug) × List Use) (p want : Nat) :
    Works a (devices.recording.read a p want).1 := by
  obtain ⟨⟨s, plugs⟩, us⟩ := a
  cases hd : (plugs[p]?).bind (·.descriptor) with
  | none =>
    have hread : (devices.recording.read ((s, plugs), us) p want).1 =
        ((s, plugs), us ++ [.read p want (.ready (.error (.simple .notConnected)))]) := by
      simp [Pipe.Devices.recording, devices, hd]
    rw [hread]
    exact .idle rfl rfl
  | some d =>
    have hread : (devices.recording.read ((s, plugs), us) p want).1 =
        (((Calls.read s d want).1, plugs), us ++ [.read p want (Calls.read s d want).2]) := by
      simp [Pipe.Devices.recording, devices, hd]
    rw [hread]
    refine ⟨_, rfl, (Calls.read_reads s d want).alike, fun plugs' hplugs log hs => ?_⟩
    rw [logAfter_singleton hplugs (by exact hd), handed_read,
      show (Use.read p want _).taken = [] from rfl, Log.accept_nil]
    exact (Calls.read_reads s d want).streams hs

theorem recording_write_works (a : (System × List Plug) × List Use) (p : Nat) (offered : Bytes) :
    Works a (devices.recording.write a p offered).1 := by
  obtain ⟨⟨s, plugs⟩, us⟩ := a
  cases hd : (plugs[p]?).bind (·.descriptor) with
  | none =>
    have hwrite : (devices.recording.write ((s, plugs), us) p offered).1 =
        ((s, plugs), us ++ [.write p offered (.ready (.error (.simple .notConnected)))]) := by
      simp [Pipe.Devices.recording, devices, hd]
    rw [hwrite]
    exact .idle rfl rfl
  | some d =>
    have hwrite : (devices.recording.write ((s, plugs), us) p offered).1 =
        (((Calls.write s d offered).1, plugs),
          us ++ [.write p offered (Calls.write s d offered).2]) := by
      simp [Pipe.Devices.recording, devices, hd]
    rw [hwrite]
    refine ⟨_, rfl, (Calls.write_writes s d offered).alike, fun plugs' hplugs log hs => ?_⟩
    rw [logAfter_singleton hplugs (by exact hd), taken_write,
      show (Use.write p offered _).handed = [] from rfl, Log.hand_nil]
    exact (Calls.write_writes s d offered).streams hs

/-- A step of a request does to the system what its uses tell of. -/
theorem advance_works (s : Sockets) (r : Nat) :
    s.system.Alike (s.hub.advance devices (s.system, s.plugs) r).2.1.1 ∧
      ∀ plugs, s.plugs <+: plugs → ∀ log, s.system.Streams log →
        (s.hub.advance devices (s.system, s.plugs) r).2.1.1.Streams
          (logAfter log plugs (s.hub.uses devices (s.system, s.plugs) r)) := by
  -- Devices that record their uses do the same, and their record is what the request used.
  obtain ⟨us, hus, halike, hstreams⟩ := Pipe.Hub.advance_devices (R := Works) .refl
    recording_read_works recording_write_works (fun _ _ => .idle rfl rfl) s.hub
    ((s.system, s.plugs), []) r
  rw [Pipe.Hub.advance_recording devices s.hub (s.system, s.plugs) [] r]
  have huses : s.hub.uses devices (s.system, s.plugs) r = us := hus
  rw [huses]
  exact ⟨halike, hstreams⟩

/-! ### Turns -/

/-- What was done in `ds` has left streams carrying their bytes. -/
structure Carries (s s' : Sockets) (ds : List Pipe.Deed) : Prop where
  exclusive : s.Exclusive → s'.Exclusive
  streams : s.Exclusive → ∀ plugs h, s.plugs <+: plugs → s.system.Streams (logOf plugs h) →
    s'.system.Streams (logOf plugs (h ++ ds))

section Turns

variable {s s' s'' : Sockets} {ds : List Pipe.Deed}

theorem Sockets.Respects.carries (h : s.Respects s') (hds : Pipe.Unused ds) : Carries s s' ds :=
  ⟨h.exclusive, fun hs plugs h' _ hl => logOf_unused plugs h' hds ▸ h.streams hs _ hl⟩

theorem Carries.respects (h : Carries s s' ds) (h' : s'.Respects s'') : Carries s s'' ds :=
  ⟨fun hs => h'.exclusive (h.exclusive hs), fun hs plugs past hp hl =>
    h'.streams (h.exclusive hs) _ (h.streams hs plugs past hp hl)⟩

theorem unused_nil : Pipe.Unused [] := fun _ _ h => nomatch h

theorem unused_jobTraffic (s : Sockets) (p : Nat) (job : Pipe.Job) :
    Pipe.Unused (jobTraffic s p job) := by
  intro o u h
  unfold jobTraffic at h
  split at h <;> simp at h

theorem unused_execTraffic (s : Sockets) (a : Action) : Pipe.Unused (execTraffic s a) := by
  intro o u h
  unfold execTraffic at h
  split at h
  · split at h <;> simp [ends] at h
  · split at h
    · exact unused_jobTraffic s _ _ o u h
    · cases h
  · split at h
    · exact unused_jobTraffic s _ _ o u h
    · cases h
  · cases h

theorem unused_heardBy (k : Option Nat) (adv : Pipe.Advance) : Pipe.Unused (heardBy k adv) := by
  intro o u h
  unfold heardBy at h
  split at h <;> simp at h

theorem serve_carries (s : Sockets) (r : Nat) :
    Carries s (s.advanceRequest r).1 (serveTraffic s r) := by
  obtain ⟨halike, hstreams⟩ := advance_works s r
  rw [← Sockets.system_advanceRequest] at halike hstreams
  have hreleases : s.Releases (s.advanceRequest r).1 := by
    obtain ⟨hub, collectors, system, h, -⟩ := s.advanceRequest_eq r
    rw [h]
    exact .of_eq rfl rfl rfl
  refine ⟨hreleases.exclusive (halike.spares none), fun _ plugs h hp hl => ?_⟩
  rw [serveTraffic, logOf_uses _ _ _ _ (unused_heardBy _ _)]
  exact hstreams plugs hp _ hl

theorem resume_carries (s : Sockets) (f : Frame) :
    Carries s (s.resume f).state (trafficAt ⟨s, .resume f⟩) := by
  cases f with
  | serve r => exact serve_carries s r
  | finish r => exact (finish_respects s r).carries unused_nil
  | conclude a => exact (conclude_respects s a).carries unused_nil
  | announce c =>
    have hannounce : s.Respects (s.announce c) := respects_of_eq rfl rfl rfl rfl
    exact hannounce.carries unused_nil
  | attend c => exact (attend_respects s c).carries unused_nil

theorem poll_carries (s : Sockets) (t : Task) :
    Carries s (s.poll t).state (trafficAt ⟨s, .poll t⟩) := by
  cases t with
  | request r => exact serve_carries s r
  | attempt a => exact (pursue_respects s a).carries unused_nil
  | acceptor c => exact (attend_respects s c).carries unused_nil
  | alarm i =>
    obtain ⟨alarms, tickets, h⟩ := s.ring_eq i
    have hring : s.Respects (s.ring i) := h ▸ respects_of_eq rfl rfl rfl rfl
    exact hring.carries unused_nil

variable {c c' : Config component} {t : Turn signature}

/-- What nothing owns is closed after a turn, and after a frame that is dropped. -/
theorem Carries.takes {s : Sockets} (h : Carries s t.state ds)
    (ht : c.Takes (Sockets.tidy t) c') (hn : c.next = none) : Carries s c'.state ds := by
  have hreap := h.respects (reap_respects t.state)
  rcases takes_cases ht hn with ⟨-, hs⟩ | ⟨_, w, _, -, -, hs | hs⟩
  · exact hs ▸ hreap
  · exact hs ▸ hreap
  · exact hs ▸ (hreap.respects (unwind_respects _ w)).respects (reap_respects _)

/-- Every step leaves streams carrying their bytes. -/
theorem step_carries {cause : Option (Dispatch.Cause component)} (h : c.Step cause c') :
    Carries c.state c'.state (traffic (c.moment cause)) := by
  have single {q : Moment component} {s' : Sockets} (h : Carries c.state s' (trafficAt q)) :
      Carries c.state s' (traffic [q]) := by
    rwa [show traffic [q] = trafficAt q from List.append_nil _]
  have same (hs : c'.state = c.state) : Carries c.state c'.state [] :=
    hs ▸ (Sockets.Respects.refl c.state).carries unused_nil
  cases h with
  | still hf => exact same hf.state_eq
  | @exec view a _ hn ht =>
    exact single (q := ⟨c.state, .exec view a⟩)
      (((run_respects c.state view a).carries (unused_execTraffic _ a)).takes ht hn)
  | @resume f _ hn ht => exact single ((resume_carries c.state f).takes ht rfl)
  | @poll t ts _ hn hk hr ht => exact single ((poll_carries c.state t).takes ht hn)
  | @unwind f k _ hn hk hf =>
    subst hf
    exact ((unwind_respects c.state f).trans (reap_respects _)).carries unused_nil
  | tick hn =>
    have htick : c.state.Respects { c.state with clock := c.state.clock + 1 } :=
      respects_of_eq rfl rfl rfl rfl
    exact htick.carries unused_nil
  | begin hn hv => exact same rfl
  | opened hn hf => exact same hf.state_eq

end Turns

/-! ### Runs -/

variable {m : Machine component} [Blank m]

theorem exclusive_blank : (m.state : Sockets).Exclusive := by
  obtain ⟨reachable, whims, rfl⟩ := Blank.opens (m := m)
  have nobody (o : Owner) (d : Nat) : ¬Sockets.Owns (opening reachable whims).state o d := by
    cases o <;> simp [opening, Sockets.Owns]
  exact ⟨fun o d h => absurd h (nobody o d), fun o d h => absurd h (nobody o d),
    fun o _ d h => absurd h (nobody o d)⟩

theorem streams_blank : (m.state : Sockets).system.Streams {} := by
  obtain ⟨reachable, whims, rfl⟩ := Blank.opens (m := m)
  refine ⟨fun d t o a ht => ?_, fun d e hj => ?_, fun d e hj => ?_, fun d _ _ => ⟨rfl, rfl, ?_⟩⟩
  · simp [opening, System.type?] at ht
  · simp [opening, System.Joined, System.type?] at hj
  · simp [opening, System.Joined, System.type?] at hj
  · simp [opening, System.inbox]

/-- At every point of an execution streams carry the bytes that the pipes tell of. -/
theorem carriage (x : Execution m) :
    x.machine.state.system.Streams (logOf x.machine.state.plugs (traffic x.past)) := by
  -- Plugs are only added; so a step may be told with those that are there in the end.
  have := x.run.config_induction (fun past c => Recorded c (traffic past) ∧ c.state.Exclusive ∧
    ∀ plugs, c.state.plugs <+: plugs → c.state.system.Streams (logOf plugs (traffic past))) ?_ ?_
  · have hstreams := this.2.2 _ List.prefix_rfl
    rwa [Machine.config_state] at hstreams
  · rw [Machine.config_state]
    exact ⟨recorded_start, exclusive_blank, fun _ _ => streams_blank⟩
  · rintro past c cause c' ⟨hc, hexclusive, hstreams⟩ hs
    obtain ⟨hp, hc'⟩ := hc.step hs
    have hcarries := step_carries hs
    rw [traffic_append]
    refine ⟨hc', hcarries.exclusive hexclusive, fun plugs hplugs => ?_⟩
    have hold := List.IsPrefix.trans hp.leaves.plugs hplugs
    exact hcarries.streams hexclusive plugs _ hold (hstreams plugs hold)

end Conduit.Socket
