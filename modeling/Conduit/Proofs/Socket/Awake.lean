import Conduit.Proofs.Socket.Grounded

/-!
Whoever can go on has been woken. Every turn ends with waking the tasks that can go on, so a task
that can go on is among those that the reactor is to serve, and a run that has come to rest has left
none behind.
-/

namespace Conduit.Socket

open Dispatch

/-- Every task that can go on has been woken. -/
def Awake (c : Config component) : Prop := ∀ t : Task, t ∈ c.state.runnable → t ∈ c.ready

/-- A configuration whose state has just woken its tasks. -/
theorem awake_of_woken {c : Config component} {s : Sockets} {ready : List component.Task}
    (ts : List Task) (hs : c.state = s) (hready : c.ready = woken ready (ts ++ s.runnable)) :
    Awake c := by
  intro t ht
  rw [hready]
  exact mem_woken.mpr (.inr (List.mem_append_right ts (hs ▸ ht)))

theorem awake_takes {c c' : Config component} {t : Turn signature}
    (h : c.Takes (Sockets.tidy t) c') (hn : c.next = none) : Awake c' := by
  rcases h.frames hn with ⟨-, hs, hr⟩ | ⟨d, w, k, -, -, ⟨hs, hr⟩ | ⟨hs, hr⟩⟩
  · exact awake_of_woken t.wakes hs hr
  · exact awake_of_woken t.wakes hs hr
  · exact awake_of_woken [] hs hr

theorem step_awake {c c' : Config component} {cause : Option (Dispatch.Cause component)}
    (hc : Awake c) (h : c.Step cause c') : Awake c' := by
  cases h with
  | still hf =>
    intro t ht
    rw [hf.ready_eq]
    exact hc t (hf.state_eq ▸ ht)
  | exec hn ht => exact awake_takes (t := Sockets.run c.state _ _) ht hn
  | resume hn ht => exact awake_takes (t := Sockets.resume c.state _) ht rfl
  | @unwind f k _ hn hk hf => exact hf ▸ awake_of_woken [] rfl rfl
  | poll hn hk hr ht => exact awake_takes (t := Sockets.poll c.state _) ht hn
  | tick hn => exact awake_of_woken [] rfl rfl
  | begin hn hv => exact hc
  | opened hn hf =>
    intro t ht
    rw [hf.ready_eq]
    exact hc t (hf.state_eq ▸ ht)

variable {m : Machine component} [Blank m]

theorem awake (x : Execution m) : Awake x.machine.config := by
  refine x.run.config_induction (fun _ c => Awake c) ?_ fun _ _ _ _ => step_awake
  obtain ⟨reachable, whims, rfl⟩ := Blank.opens (m := m)
  intro t ht
  cases ht

/-- Who can go on does not depend on what the system does of itself. -/
theorem runnable_undone (s : Sockets) (t : Kernel.System) :
    ({ s with system := s.system.undo t } : Sockets).runnable = s.runnable := by
  have hattempt (x : Attempt) :
      ({ s with system := s.system.undo t } : Sockets).isAttemptReady x = s.isAttemptReady x := by
    unfold Sockets.isAttemptReady
    simp only [Kernel.System.isSettled_undo]
    rfl
  have hacceptor (x : Acceptor) :
      ({ s with system := s.system.undo t } : Sockets).isAcceptorReady x = s.isAcceptorReady x := rfl
  have hrequest (r : Nat) :
      ({ s with system := s.system.undo t } : Sockets).isRequestReady r = s.isRequestReady r := rfl
  unfold Sockets.runnable
  simp only [hattempt, hacceptor, hrequest]

/-- A task that can go on is among those that the reactor is to serve. -/
theorem mem_ready (x : Execution m) {t : Task} (ht : t ∈ x.machine.state.runnable) :
    .own t ∈ x.machine.ready := by
  have hawake := awake x t (by rwa [Machine.config_state])
  rw [Machine.config_ready] at hawake
  exact mem_ownTasks.mp hawake

/-- When nothing is left to serve, no task can go on. -/
theorem runnable_of_rest (x : Execution m) (hx : x.machine.advance? = none) :
    x.machine.state.runnable = [] := by
  refine List.eq_nil_iff_forall_not_mem.mpr fun t ht => ?_
  have hmem := mem_ready x ht
  rw [Machine.ready_of_advance? hx] at hmem
  cases hmem

/-- When nothing is left to serve, no attempt would be decided if it were taken up again. -/
theorem not_ready_of_rest (x : Execution m) (hx : x.machine.advance? = none) {a : Nat}
    {z : Attempt} (hz : x.machine.state.attempts[a]? = some z) :
    x.machine.state.isAttemptReady z = false := by
  refine Bool.eq_false_iff.mpr fun hready => ?_
  have hmem : Task.attempt a ∈ x.machine.state.runnable := by
    refine List.mem_append_left _ (List.mem_append_left _ (List.mem_append_left _ ?_))
    refine List.mem_filterMap.mpr ⟨(z, a), List.mk_mem_zipIdx_iff_getElem?.mpr hz, ?_⟩
    simp [hready]
  rw [runnable_of_rest x hx] at hmem
  cases hmem

end Conduit.Socket
