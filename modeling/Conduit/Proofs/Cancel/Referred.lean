import Conduit.Proofs.Cancel.Housed
import Conduit.Proofs.Dispatch.Frames
import Conduit.Cancel.Cascade

/-!
A ticket to which nobody refers is forgotten: whoever refers to a ticket has it from someone who did,
so no step brings it back.
-/

namespace Conduit.Cancel

open Dispatch

namespace Tickets

variable {s s' : Tickets} {t u : Nat}

theorem alive_congr (h₁ : s'.sources = s.sources) (h₂ : s'.kept = s.kept)
    (h₃ : s'.waiters = s.waiters) : s'.Alive t → s.Alive t := by
  unfold Alive
  rw [h₁, h₂, h₃]
  exact id

theorem alive_of_source {id : String} (h : s.sources.lookup id = some t) : s.Alive t := by
  obtain ⟨l₁, l₂, he, -⟩ := List.lookup_eq_some_iff.mp h
  exact .inl ⟨(id, t), he ▸ List.mem_append_right l₁ List.mem_cons_self, rfl⟩

theorem alive_of_ticket {id : String} (h : s.ticket? id = some t) : s.Alive t := by
  rcases Option.or_eq_some_iff.mp h with h | ⟨-, h⟩
  · obtain ⟨l₁, l₂, he, -⟩ := List.lookup_eq_some_iff.mp h
    exact .inr (.inl ⟨(id, t), he ▸ List.mem_append_right l₁ List.mem_cons_self, rfl⟩)
  · exact alive_of_source h

theorem alive_nameSource {id : String} (h : (s.nameSource id u).Alive t) : u = t ∨ s.Alive t := by
  rcases h with ⟨e, he, ht⟩ | h
  · rcases List.mem_cons.mp he with rfl | he
    · exact .inl ht
    · exact .inr (.inl ⟨e, (List.mem_filter.mp he).1, ht⟩)
  · exact .inr (.inr h)

theorem alive_keep {id : String} (h : (s.keep id u).Alive t) : u = t ∨ s.Alive t := by
  rcases h with h | ⟨e, he, ht⟩ | h
  · exact .inr (.inl h)
  · rcases List.mem_cons.mp he with rfl | he
    · exact .inl ht
    · exact .inr (.inr (.inl ⟨e, (List.mem_filter.mp he).1, ht⟩))
  · exact .inr (.inr (.inr h))

theorem alive_drop {id : String} (h : (s.drop id).Alive t) : s.Alive t := by
  rcases h with ⟨e, he, ht⟩ | ⟨e, he, ht⟩ | h
  · exact .inl ⟨e, (List.mem_filter.mp he).1, ht⟩
  · exact .inr (.inl ⟨e, (List.mem_filter.mp he).1, ht⟩)
  · exact .inr (.inr h)

theorem alive_addWaiter {label : String} (h : (s.addWaiter u label).Alive t) :
    u = t ∨ s.Alive t := by
  rcases h with h | h | ⟨w, hw, ht, hf⟩
  · exact .inr (.inl h)
  · exact .inr (.inr (.inl h))
  · rcases List.mem_append.mp hw with hw | hw
    · exact .inr (.inr (.inr ⟨w, hw, ht, hf⟩))
    · rw [List.mem_singleton.mp hw] at ht
      exact .inl ht

/-- A waiter that has been served refers to nothing. -/
theorem alive_finish {k : Nat} {w : Waiter}
    (h : ({ s with waiters := s.waiters.set k { w with finished := true } } : Tickets).Alive t) :
    s.Alive t := by
  rcases h with h | h | ⟨v, hv, ht, hf⟩
  · exact .inl h
  · exact .inr (.inl h)
  · rcases List.mem_or_eq_of_mem_set hv with hv | rfl
    · exact .inr (.inr ⟨v, hv, ht, hf⟩)
    · cases hf

theorem alive_links (target : Nat) (ts : List Nat) :
    (ts.foldl (fun s t => s.link target t) s).Alive t → s.Alive t := by
  induction ts generalizing s with
  | nil => exact id
  | cons u ts ih =>
    intro h
    have h : (s.link target u).Alive t := ih h
    unfold link at h
    split at h
    · exact alive_congr rfl rfl rfl h
    · split at h
      · exact alive_congr rfl rfl rfl h
      · exact alive_congr rfl rfl rfl h

end Tickets

section Turns

variable {s : Tickets} {t : Nat}

open Tickets

theorem alive_cancel {u : Nat} {r : Reason} {k : List Frame}
    (h : (cancel s u r k).state.Alive t) : s.Alive t := by
  unfold cancel at h
  split at h
  · exact h
  · exact alive_congr rfl rfl rfl h

theorem alive_register {u : Nat} {cb : Callback} {context : Option Context}
    (h : (register s u cb context).state.Alive t) : s.Alive t := by
  unfold register at h
  split at h
  · exact alive_congr rfl rfl rfl h
  · exact alive_congr rfl rfl rfl h

/-- An action gives names to new tickets and to tickets that have been referred to. -/
theorem alive_exec (ht : t < s.tickets.length) {view : View} {a : Action}
    (h : (exec view s a).state.Alive t) : s.Alive t := by
  have hnew : s.tickets.length ≠ t := Nat.ne_of_gt ht
  cases a with
  | source id => exact alive_congr rfl rfl rfl ((alive_nameSource h).resolve_left hnew)
  | linked id ids =>
    have hlinks := (alive_nameSource
      (show (nameSource _ id s.tickets.length).Alive t from h)).resolve_left hnew
    have hadd : s.addTicket.Alive t := alive_links _ _ hlinks
    exact alive_congr rfl rfl rfl hadd
  | never id => exact alive_congr rfl rfl rfl ((alive_keep h).resolve_left hnew)
  | keep id of =>
    simp only [Cancel.exec] at h
    split at h
    · exact h
    · rename_i u hu
      rcases alive_keep h with rfl | h
      · exact alive_of_ticket hu
      · exact h
  | drop id => exact alive_drop h
  | cancel id =>
    simp only [Cancel.exec] at h
    split at h
    · exact h
    · exact alive_cancel h
  | cancelAfter id ms =>
    simp only [Cancel.exec] at h
    split at h
    · exact h
    · exact alive_congr rfl rfl rfl h
  | timeout id ms =>
    have h : ((s.addTicket.nameSource id s.tickets.length).addTimer s.tickets.length ms).Alive t := h
    have h := alive_congr (s := s.addTicket.nameSource id s.tickets.length) rfl rfl rfl h
    exact alive_congr rfl rfl rfl ((alive_nameSource h).resolve_left hnew)
  | handler ticket label context script throws =>
    simp only [Cancel.exec] at h
    split at h
    · exact h
    · split at h
      · exact alive_register h
      · split at h
        · exact h
        · exact alive_register h
  | wait ticket label =>
    simp only [Cancel.exec] at h
    split at h
    · exact h
    · rename_i u hu
      rcases alive_addWaiter h with rfl | h
      · exact alive_of_ticket hu
      · exact h
  | describe id =>
    simp only [Cancel.exec] at h
    split at h
    · exact h
    · exact h

theorem alive_resume {f : Frame} (h : (resume s f).state.Alive t) : s.Alive t := by
  rcases f with ⟨u, r, _ | ⟨⟨n, cb | target⟩, rest⟩, after⟩ | ⟨n, cb, r⟩
  · exact h
  · exact h
  · simp only [Cancel.resume] at h
    split at h
    · exact alive_cancel h
    · exact h
  · exact h

theorem alive_poll {task : Task} (h : (poll s task).state.Alive t) : s.Alive t := by
  cases task with
  | waiter k =>
    simp only [Cancel.poll] at h
    split at h
    · exact h
    · split at h
      · exact alive_finish h
      · exact h
  | timer k =>
    simp only [Cancel.poll] at h
    split at h
    · exact h
    · split at h
      · exact h
      · split at h
        · unfold expire at h
          dsimp only at h
          split at h
          · have hset := alive_cancel h
            exact alive_congr rfl rfl rfl hset
          · exact alive_congr rfl rfl rfl h
        · exact alive_congr rfl rfl rfl h

end Turns

/-- No step brings a ticket back to which nobody refers. -/
theorem alive_step {c c' : Config component} {cause : Option (Cause component)} {t : Nat}
    (ht : t < c.state.tickets.length) (h : c.Step cause c') (halive : c'.state.Alive t) :
    c.state.Alive t := by
  have takes {d : Config component} {w : Turn signature} (h : d.Takes w c') : w.state.Alive t := by
    have hstate : c'.state = w.state := h.state_eq id fun _ _ => rfl
    exact hstate ▸ halive
  cases h with
  | still hf => exact hf.state_eq ▸ halive
  | exec hn h => exact alive_exec ht (takes h)
  | resume hn h => exact alive_resume (takes h)
  | unwind hn hk hf =>
    subst hf
    exact halive
  | poll hn hk hr h => exact alive_poll (takes h)
  | tick hn => exact halive
  | begin hn hv => exact halive
  | opened hn hf => exact hf.state_eq ▸ halive

end Conduit.Cancel
