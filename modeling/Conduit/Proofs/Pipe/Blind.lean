import Conduit.Proofs.Pipe.Served

/-!
Who watches a port matters to nobody until the port is closed. A hub is the same to every request when
the watchers are forgotten, and a step of a request that holds its port is also the same whether the
request has waited for the device before or not.
-/

namespace Conduit.Pipe

def Port.blind (q : Port) : Port := { q with watchers := [] }

namespace Hub

/-- The hub when it is forgotten who watches. -/
def blind (h : Hub) : Hub := { h with ports := h.ports.map Port.blind }

variable {h h' : Hub} {p r : Nat}

@[simp] theorem blind_setPhase (h : Hub) (r : Nat) (phase : Phase) :
    (h.setPhase r phase).blind = h.blind.setPhase r phase := rfl

@[simp] theorem blind_setJob (h : Hub) (r : Nat) (job : Job) :
    (h.setJob r job).blind = h.blind.setJob r job := rfl

theorem blind_modifyPort (h : Hub) (p : Nat) {f g : Port → Port}
    (hf : ∀ q, (f q).blind = g q.blind) : (h.modifyPort p f).blind = h.blind.modifyPort p g := by
  have hports : (h.ports.modify p f).map Port.blind = (h.ports.map Port.blind).modify p g := by
    apply List.ext_getElem?
    intro i
    simp only [List.getElem?_map, List.getElem?_modify]
    cases h.ports[i]? with
    | none => rfl
    | some q => by_cases hi : p = i <;> simp [hi, hf]
  exact congrArg (fun ports => { h with ports }) hports

theorem modifyPort_id (h : Hub) (p : Nat) : h.modifyPort p id = h := by
  unfold modifyPort
  rw [List.modify_id]

@[simp] theorem blind_leave (h : Hub) (p r : Nat) : (h.leave p r).blind = h.blind.leave p r :=
  h.blind_modifyPort p fun _ => rfl

@[simp] theorem blind_watch (h : Hub) (p r : Nat) : (h.watch p r).blind = h.blind := by
  have hwatch : (h.watch p r).blind = h.blind.modifyPort p id := h.blind_modifyPort p fun _ => rfl
  rw [hwatch, modifyPort_id]

theorem requests_of_blind (hh : h'.blind = h.blind) : h'.requests = h.requests := by
  show h'.blind.requests = h.blind.requests
  rw [hh]

theorem ports_of_blind (hh : h'.blind = h.blind) :
    h'.ports.map Port.blind = h.ports.map Port.blind := by
  show h'.blind.ports = h.blind.ports
  rw [hh]

theorem length_of_blind (hh : h'.blind = h.blind) : h'.ports.length = h.ports.length := by
  simpa using congrArg List.length (ports_of_blind hh)

/-- Nothing else of a port is forgotten. -/
theorem eq_of_blind {port port' : Port} (he : port'.blind = port.blind) :
    port' = { port with watchers := port'.watchers } := by
  cases port
  cases port'
  simpa [Port.blind] using he

theorem port_of_blind (hh : h'.blind = h.blind) {port : Port} (hp : h.ports[p]? = some port) :
    ∃ watchers, h'.ports[p]? = some { port with watchers } := by
  have hports : (h'.ports[p]?).map Port.blind = (h.ports[p]?).map Port.blind := by
    rw [← List.getElem?_map, ← List.getElem?_map, ports_of_blind hh]
  rw [hp, Option.map_some] at hports
  obtain ⟨port', hp', he⟩ := Option.map_eq_some_iff.mp hports
  exact ⟨port'.watchers, by rw [hp', ← eq_of_blind he]⟩

theorem no_port_of_blind (hh : h'.blind = h.blind) (hp : h.ports[p]? = none) :
    h'.ports[p]? = none := by
  rw [List.getElem?_eq_none_iff] at hp ⊢
  rwa [length_of_blind hh]

theorem isClosed_of_blind (hh : h'.blind = h.blind) (p : Nat) : h'.isClosed p = h.isClosed p := by
  unfold isClosed
  cases hp : h.ports[p]? with
  | none => rw [no_port_of_blind hh hp]
  | some port =>
    obtain ⟨_, hp'⟩ := port_of_blind hh hp
    rw [hp']
    rfl

theorem holder_of_blind (hh : h'.blind = h.blind) (p : Nat) :
    h'.ports[p]?.bind (·.holder) = h.ports[p]?.bind (·.holder) := by
  cases hp : h.ports[p]? with
  | none => rw [no_port_of_blind hh hp]
  | some port =>
    obtain ⟨_, hp'⟩ := port_of_blind hh hp
    rw [hp']
    rfl

theorem addPort_of_blind (hh : h'.blind = h.blind) (chunk : Nat) :
    (h'.addPort chunk).blind = (h.addPort chunk).blind := by
  simp only [addPort, blind, List.map_append, ports_of_blind hh, requests_of_blind hh]

theorem submit_of_blind (hh : h'.blind = h.blind) (p : Nat) (job : Job) (receiver : Option Nat) :
    (h'.submit p job receiver).1.blind = (h.submit p job receiver).1.blind ∧
      (h'.submit p job receiver).2 = (h.submit p job receiver).2 := by
  simp only [submit, blind, ports_of_blind hh, requests_of_blind hh, and_self]

theorem modifyPort_of_blind (hh : h'.blind = h.blind) (p : Nat) {f : Port → Port}
    (hf : ∀ q, (f q).blind = (f q.blind).blind) :
    (h'.modifyPort p f).blind = (h.modifyPort p f).blind := by
  have hmodify (h : Hub) : (h.modifyPort p f).blind = h.blind.modifyPort p fun q => (f q).blind :=
    h.blind_modifyPort p hf
  rw [hmodify, hmodify, hh]

theorem leave_of_blind (hh : h'.blind = h.blind) (p r : Nat) :
    (h'.leave p r).blind = (h.leave p r).blind := by
  rw [blind_leave, blind_leave, hh]

theorem setPhase_of_blind (hh : h'.blind = h.blind) (r : Nat) (phase : Phase) :
    (h'.setPhase r phase).blind = (h.setPhase r phase).blind := by
  rw [blind_setPhase, blind_setPhase, hh]

theorem setJob_of_blind (hh : h'.blind = h.blind) (r : Nat) (job : Job) :
    (h'.setJob r job).blind = (h.setJob r job).blind := by
  rw [blind_setJob, blind_setJob, hh]

theorem unlock_of_blind (hh : h'.blind = h.blind) (p r : Nat) :
    (h'.unlock p r).1.blind = (h.unlock p r).1.blind ∧ (h'.unlock p r).2 = (h.unlock p r).2 := by
  unfold unlock
  cases hp : h.ports[p]? with
  | none =>
    rw [no_port_of_blind hh hp]
    exact ⟨hh, rfl⟩
  | some port =>
    obtain ⟨_, hp'⟩ := port_of_blind hh hp
    rw [hp']
    dsimp only
    split
    · exact ⟨modifyPort_of_blind hh p fun _ => rfl, rfl⟩
    · exact ⟨hh, rfl⟩

theorem finish_of_blind (hh : h'.blind = h.blind) (r : Nat) :
    (h'.finish r).1.blind = (h.finish r).1.blind ∧ (h'.finish r).2 = (h.finish r).2 := by
  unfold finish
  rw [requests_of_blind hh]
  cases h.requests[r]? with
  | none => exact ⟨hh, rfl⟩
  | some q => exact unlock_of_blind (leave_of_blind (setPhase_of_blind hh r .finished) q.port r) q.port r

theorem release_of_blind (hh : h'.blind = h.blind) (p r : Nat) :
    (h'.release p r).1.blind = (h.release p r).1.blind ∧ (h'.release p r).2 = (h.release p r).2 :=
  finish_of_blind (modifyPort_of_blind hh p fun _ => rfl) r

variable {D : Type}

/-- Hubs that are the same but for the watchers, and for the phase of one request. -/
def SameBut (r : Nat) (h h' : Hub) : Prop :=
  ∀ phase, (h'.setPhase r phase).blind = (h.setPhase r phase).blind

theorem sameBut_of_blind (hh : h'.blind = h.blind) (r : Nat) : SameBut r h h' :=
  setPhase_of_blind hh r

/-- What is done with an answer is the same however the request stood before. -/
theorem answered_sameBut {α : Type} (hh : SameBut r h h') (w w' : Bool) (answer : Poll α)
    {go : Hub → α → Hub × Advance} (hgo : ∀ {k k' : Hub} a, k'.blind = k.blind →
      (go k' a).1.blind = (go k a).1.blind ∧ (go k' a).2 = (go k a).2) :
    (h'.answered p r w' answer go).1.blind = (h.answered p r w answer go).1.blind ∧
      (h'.answered p r w' answer go).2 = (h.answered p r w answer go).2 := by
  cases answer with
  | pending again =>
    refine ⟨?_, rfl⟩
    have hwatch (h : Hub) (w : Bool) : (if w then h else h.watch p r).blind = h.blind := by
      cases w
      · exact h.blind_watch p r
      · rfl
    simp only [answered, blind_setPhase, hwatch]
    exact hh (.holding true)
  | ready a =>
    have hleave (h : Hub) : ((h.leave p r).setPhase r (.holding false)).blind =
        (h.setPhase r (.holding false)).blind.leave p r := by
      rw [blind_setPhase, blind_leave]
      rfl
    have hk : ((h'.leave p r).setPhase r (.holding false)).blind =
        ((h.leave p r).setPhase r (.holding false)).blind := by
      rw [hleave, hleave, hh]
    obtain ⟨hhub, hadv⟩ := hgo a hk
    exact ⟨hhub, by simp only [answered, hadv]⟩

theorem readAnswered_of_blind (hh : h'.blind = h.blind) (r length delivered : Nat)
    (a : Except OsError Bytes) :
    (h'.readAnswered r length delivered a).1.blind = (h.readAnswered r length delivered a).1.blind ∧
      (h'.readAnswered r length delivered a).2 = (h.readAnswered r length delivered a).2 := by
  match a with
  | .ok [] => exact ⟨hh, rfl⟩
  | .ok (b :: data) => exact ⟨setJob_of_blind hh r _, rfl⟩
  | .error e =>
    unfold readAnswered
    dsimp only
    split <;> exact ⟨hh, rfl⟩

theorem writeAnswered_of_blind (hh : h'.blind = h.blind) (r : Nat) (rest : Bytes)
    (a : Except OsError Nat) :
    (h'.writeAnswered r rest a).1.blind = (h.writeAnswered r rest a).1.blind ∧
      (h'.writeAnswered r rest a).2 = (h.writeAnswered r rest a).2 := by
  match a with
  | .ok 0 => exact ⟨hh, rfl⟩
  | .ok (k + 1) => exact ⟨setJob_of_blind hh r _, rfl⟩
  | .error e =>
    unfold writeAnswered
    dsimp only
    split <;> exact ⟨hh, rfl⟩

theorem flushAnswered_of_blind (hh : h'.blind = h.blind) (a : Except OsError Unit) :
    (h'.flushAnswered a).1.blind = (h.flushAnswered a).1.blind ∧
      (h'.flushAnswered a).2 = (h.flushAnswered a).2 := by
  match a with
  | .ok () => exact ⟨hh, rfl⟩
  | .error e => exact ⟨hh, rfl⟩

/-- The request holds a port that is open, and works its device now. -/
structure Working (h : Hub) (r : Nat) (q : Request) (port : Port) (w : Bool) : Prop where
  request : h.requests[r]? = some q
  place : h.ports[q.port]? = some port
  phase : q.phase = .holding w
  job : q.job ≠ .release
  opened : port.closed = false
  kept : port.released = false
  fits : w = true ∨ overflows port.chunk q.job = false

theorem Working.advance {q : Request} {port : Port} {w : Bool} (hw : h.Working r q port w)
    (dev : Devices D) (d : D) :
    Hub.advance dev h d r = work dev h d r q.port port.chunk w q.job := by
  unfold Hub.advance
  have hfits : (!w && overflows port.chunk q.job) = false := by
    rcases hw.fits with hw | hv
    · simp [hw]
    · simp [hv]
  simp [hw.request, hw.place, hw.phase, hw.job, hw.kept, hfits, hw.opened]

/-- A flush asks its device once. -/
theorem Working.uses_flush {q : Request} {port : Port} {w : Bool} (hw : h.Working r q port w)
    (hq : q.job = .flush) (dev : Devices D) (d : D) :
    h.uses dev d r = [.flush q.port (dev.flush d q.port).2] := by
  unfold uses
  rw [hw.advance, hq]
  rfl

theorem setPhase_setPhase (h : Hub) (r : Nat) (phase phase' : Phase) :
    (h.setPhase r phase).setPhase r phase' = h.setPhase r phase' := by
  have hrequests : (h.requests.modify r fun q => { q with phase }).modify r
      (fun q => { q with phase := phase' }) = h.requests.modify r fun q => { q with phase := phase' } := by
    apply List.ext_getElem?
    intro i
    simp only [List.getElem?_modify]
    cases h.requests[i]? with
    | none => rfl
    | some q => by_cases hi : r = i <;> simp [hi]
  exact congrArg (fun requests => { h with requests }) hrequests

theorem blind_leave_eq {port : Port} (hp : h.ports[p]? = some port) (hr : r ∉ port.line) :
    (h.leave p r).blind = h.blind := by
  have hports : (h.leave p r).ports.map Port.blind = h.ports.map Port.blind := by
    apply List.ext_getElem?
    intro i
    simp only [leave, modifyPort, List.getElem?_map, List.getElem?_modify]
    by_cases hi : p = i
    · subst hi
      simp [hp, Port.blind, List.erase_of_not_mem hr]
    · simp [hi]
  exact congrArg (fun ports => { h with ports }) hports

section Retry

variable {q : Request} {port : Port} {w : Bool}

/-- When its device is interrupted a request is as it was, but for who watches and for its phase. -/
theorem Working.retry (hw : h.Working r q port w) (hfits : overflows port.chunk q.job = false) :
    Working ((h.leave q.port r).setPhase r (.holding false)) r { q with phase := .holding false }
      (port.without r) false where
  request := by simp [setPhase, leave, modifyPort, hw.request]
  place := by simp [setPhase, leave, modifyPort, hw.place, Port.without]
  phase := rfl
  job := hw.job
  opened := hw.opened
  kept := hw.kept
  fits := .inr hfits

theorem SameBut.retry (hh : h.SameBut r h') (hw : h.Working r q port w) (hr : r ∉ port.line) :
    SameBut r ((h.leave q.port r).setPhase r (.holding false)) h' := by
  intro phase
  rw [setPhase_setPhase]
  refine (hh phase).trans ?_
  rw [blind_setPhase, blind_setPhase, blind_leave_eq hw.place hr]

end Retry

/-- A step in which no device is worked is the same for hubs that are the same but for the watchers. -/
theorem advance_of_blind (hh : h'.blind = h.blind) (hn : ∀ q port w, ¬h.Working r q port w)
    {E : Type} (dev : Devices D) (d : D) (dev' : Devices E) (d' : E) :
    (advance dev' h' d' r).1.blind = (advance dev h d r).1.blind ∧
      (advance dev h d r).2.1 = d ∧ (advance dev' h' d' r).2.1 = d' ∧
      (advance dev' h' d' r).2.2 = (advance dev h d r).2.2 := by
  unfold advance
  rw [requests_of_blind hh]
  cases hq : h.requests[r]? with
  | none => exact ⟨hh, rfl, rfl, rfl⟩
  | some q =>
    dsimp only
    cases hp : h.ports[q.port]? with
    | none =>
      rw [no_port_of_blind hh hp]
      exact ⟨hh, rfl, rfl, rfl⟩
    | some port =>
      obtain ⟨_, hp'⟩ := port_of_blind hh hp
      rw [hp']
      dsimp only
      cases hphase : q.phase with
      | finished => exact ⟨hh, rfl, rfl, rfl⟩
      | fresh =>
        dsimp only
        split
        · exact ⟨hh, rfl, rfl, rfl⟩
        · split
          · refine ⟨setPhase_of_blind (modifyPort_of_blind hh q.port fun _ => rfl) r _, rfl, rfl, rfl⟩
          · have hwatch (k : Hub) : (if q.job = .release then k else k.watch q.port r).blind =
                k.blind := by
              split
              · rfl
              · exact k.blind_watch q.port r
            have hline : (h'.modifyPort q.port fun p => { p with line := p.line ++ [r] }).blind =
                (h.modifyPort q.port fun p => { p with line := p.line ++ [r] }).blind :=
              modifyPort_of_blind hh q.port fun _ => rfl
            refine ⟨?_, rfl, rfl, rfl⟩
            simp only [blind_setPhase, hwatch, hline]
      | queued =>
        dsimp only
        split
        · obtain ⟨hhub, hwakes⟩ := unlock_of_blind (leave_of_blind hh q.port r) q.port r
          exact ⟨hhub, rfl, rfl, by rw [hwakes]⟩
        · split
          · exact ⟨setPhase_of_blind (leave_of_blind hh q.port r) r _, rfl, rfl, rfl⟩
          · exact ⟨hh, rfl, rfl, rfl⟩
      | holding w =>
        dsimp only
        split
        · obtain ⟨hhub, hwakes⟩ := release_of_blind hh q.port r
          exact ⟨hhub, rfl, rfl, by rw [hwakes]⟩
        rename_i hjob
        split
        · exact ⟨hh, rfl, rfl, rfl⟩
        rename_i hkept
        split
        · exact ⟨hh, rfl, rfl, rfl⟩
        rename_i hfits
        split
        · exact ⟨hh, rfl, rfl, rfl⟩
        rename_i hopened
        -- Past all the guards the request works its device.
        refine absurd ⟨hq, hp, hphase, hjob, by simpa using hopened, by simpa using hkept, ?_⟩
          (hn q port w)
        cases w <;> simp_all

end Hub

end Conduit.Pipe
