import Conduit.Proofs.Dispatch.Follow
import Conduit.Proofs.Pipe.Blind
import Conduit.Proofs.Pipe.Moves

/-!
Scripts from which the interruptions of reads and writes are taken out, and those of flushes too if
`all` are. A request whose device is interrupted while it reads or writes tries again at once and
tells nobody; so its turns lead to a turn that agrees with the one that the request takes when the
device is not interrupted.
-/

namespace Conduit.Pipe

open Dispatch

def Item.isInterruption : Item → Bool
  | .fault e => e.kind = .interrupted
  | _ => false

def FlushItem.isInterruption : FlushItem → Bool
  | .fault e => e.kind = .interrupted
  | _ => false

def steadyItems (items : List Item) : List Item := items.filter fun i => !i.isInterruption

def steadyFlushes (all : Bool) (flushes : List FlushItem) : List FlushItem :=
  flushes.filter fun i => !(i.isInterruption && all)

/-- The device that is not interrupted when it reads or writes. -/
def Scripted.steady (all : Bool) (d : Scripted) : Scripted :=
  { d with items := steadyItems d.items, flushes := steadyFlushes all d.flushes }

mutual

/-- The action with devices that are not interrupted when they read or write. -/
def Action.steady (all : Bool) : Action → Action
  | .source id device limits => .source id (device.steady all) limits
  | .sink id device limits => .sink id (device.steady all) limits
  | .feed id items flushes => .feed id (steadyItems items) (flushes.map (steadyFlushes all))
  | .requestRead id req context length script throws =>
    .requestRead id req context length (fun n => steadyOps all (script n)) throws
  | .requestWrite id req context data script throws =>
    .requestWrite id req context data (fun n => steadyOps all (script n)) throws
  | .pair id source sink => .pair id source sink
  | .split id source sink => .split id source sink
  | .readAll id req length => .readAll id req length
  | .writeAll id req data => .writeAll id req data
  | .close id => .close id
  | .drop id => .drop id
  | .describe id => .describe id

def steadyOps (all : Bool) : List (Op Action) → List (Op Action)
  | [] => []
  | op :: rest => steadyOp all op :: steadyOps all rest

def steadyOp (all : Bool) : Op Action → Op Action
  | .own a => .own (a.steady all)
  | .context o => .context o

end

def Receiver.steady (all : Bool) : Receiver → Receiver
  | .callback req context calls script throws =>
    .callback req context calls (fun n => steadyOps all (script n)) throws
  | .collector k => .collector k

/-- Sessions over devices and with scripts of which one has no interruptions, apart from hubs. -/
structure Session.Beside (all : Bool) (s s' : Session) : Prop where
  devices : s'.devices = s.devices.map (Scripted.steady all)
  io : s'.io = s.io
  handles : s'.handles = s.handles
  receivers : s'.receivers = s.receivers.map (Receiver.steady all)
  collectors : s'.collectors = s.collectors

structure Session.Alike (all : Bool) (s s' : Session) : Prop extends s.Beside all s' where
  hub : s'.hub.blind = s.hub.blind

/-- Pipes over devices that are interrupted beside pipes over devices that are not. -/
def steadying (all : Bool) : Recast component := ⟨Action.steady all, Session.Alike all⟩

theorem steadyOps_eq (all : Bool) (ops : List (Op Action)) :
    steadyOps all ops = ops.map (steadying all).op := by
  induction ops with
  | nil => rfl
  | cons op ops ih =>
    rw [steadyOps, List.map_cons, ih]
    cases op <;> rfl

/-! ### Devices -/

section Devices

variable {all : Bool} {ds ds' : List Scripted} {p : Nat}

/-- The device of a port is interrupted, and goes on as one of `ds'`. -/
def Interrupted (ds : List Scripted) (p : Nat) (e : OsError) (ds' : List Scripted) : Prop :=
  ∃ d rest, ds[p]? = some d ∧ d.items = .fault e :: rest ∧ e.kind = .interrupted ∧
    ds' = ds.set p { d with items := rest }

/-- How much of its script the device of a port has left. -/
def itemsLeft (ds : List Scripted) (p : Nat) : Nat := (ds[p]?.map (·.items.length)).getD 0

theorem Interrupted.steady {e : OsError} (h : Interrupted ds p e ds') :
    ds'.map (Scripted.steady all) = ds.map (Scripted.steady all) := by
  obtain ⟨d, rest, hd, hitems, he, rfl⟩ := h
  have hsame : ({ d with items := rest } : Scripted).steady all = d.steady all := by
    simp [Scripted.steady, steadyItems, hitems, Item.isInterruption, he]
  apply List.ext_getElem?
  intro i
  rw [List.getElem?_map, List.getElem?_map, List.getElem?_set]
  split
  · rename_i hi
    subst hi
    obtain ⟨hlt, rfl⟩ := List.getElem?_eq_some_iff.mp hd
    simp [hlt, hsame]
  · rfl

theorem Interrupted.left_lt {e : OsError} (h : Interrupted ds p e ds') : itemsLeft ds' p < itemsLeft ds p := by
  obtain ⟨d, rest, hd, hitems, -, rfl⟩ := h
  obtain ⟨hlt, rfl⟩ := List.getElem?_eq_some_iff.mp hd
  simp [itemsLeft, hlt, hitems]

/-- A device that is not interrupted gives the same answer, and goes on from it as the other one. -/
def AnswersAlike (all : Bool) {α : Type} (f : Scripted → Scripted × Poll α) (d : Scripted) : Prop :=
  f (d.steady all) = ((f d).1.steady all, (f d).2)

theorem read_steady (d : Scripted) (want : Nat) :
    (∃ e rest, e.kind = .interrupted ∧ d.items = .fault e :: rest ∧
      d.read want = ({ d with items := rest }, .ready (.error e))) ∨
    AnswersAlike all (·.read want) d := by
  obtain ⟨items, flushes, auto, accepted, flushed⟩ := d
  cases items with
  | nil => exact .inr rfl
  | cons i rest =>
    cases i with
    | bytes b =>
      right
      simp only [AnswersAlike, Scripted.steady, steadyItems, List.filter_cons, Item.isInterruption,
        Bool.not_false, if_true, Scripted.read]
      cases b.drop want <;> rfl
    | fault e =>
      by_cases he : e.kind = .interrupted
      · exact .inl ⟨e, rest, he, rfl, rfl⟩
      · right
        simp [AnswersAlike, Scripted.steady, steadyItems, Item.isInterruption, he, Scripted.read]
    | ended stays => cases stays <;> exact .inr rfl
    | accept | pending => exact .inr rfl

theorem write_steady (d : Scripted) (offered : Bytes) :
    (∃ e rest, e.kind = .interrupted ∧ d.items = .fault e :: rest ∧
      d.write offered = ({ d with items := rest }, .ready (.error e))) ∨
    AnswersAlike all (·.write offered) d := by
  obtain ⟨items, flushes, auto, accepted, flushed⟩ := d
  cases items with
  | nil =>
    right
    by_cases hauto : auto = 0 <;> simp [AnswersAlike, Scripted.steady, steadyItems, Scripted.write,
      hauto, Scripted.accept]
  | cons i rest =>
    cases i with
    | fault e =>
      by_cases he : e.kind = .interrupted
      · exact .inl ⟨e, rest, he, rfl, rfl⟩
      · right
        simp [AnswersAlike, Scripted.steady, steadyItems, Item.isInterruption, he, Scripted.write]
    | bytes | accept | pending | ended => exact .inr rfl

theorem flush_steady (d : Scripted) :
    (∃ e, all = true ∧ e.kind = .interrupted ∧ d.flush.2 = .ready (.error e)) ∨
    AnswersAlike all (·.flush) d := by
  obtain ⟨items, flushes, auto, accepted, flushed⟩ := d
  cases flushes with
  | nil => exact .inr rfl
  | cons i rest =>
    cases i with
    | fault e =>
      by_cases he : e.kind = .interrupted ∧ all = true
      · exact .inl ⟨e, he.2, he.1, rfl⟩
      · right
        have hkeep : steadyFlushes all (.fault e :: rest) = .fault e :: steadyFlushes all rest :=
          List.filter_cons_of_pos (by simpa [FlushItem.isInterruption, Decidable.imp_iff_not_or] using he)
        simp only [AnswersAlike, Scripted.steady, hkeep, Scripted.flush]
    | succeed | pending | stall => exact .inr rfl

/-- The devices that are not interrupted answer alike. -/
def AskedAlike (all : Bool) {α : Type} (f : Scripted → Scripted × Poll α) (ds : List Scripted)
    (p : Nat) : Prop :=
  Scripted.asked f (ds.map (Scripted.steady all)) p =
    ((Scripted.asked f ds p).1.map (Scripted.steady all), (Scripted.asked f ds p).2)

theorem asked_steady {α : Type} {f : Scripted → Scripted × Poll α} {ds : List Scripted} {p : Nat}
    (hf : ∀ d, ds[p]? = some d → AnswersAlike all f d) : AskedAlike all f ds p := by
  unfold AskedAlike Scripted.asked
  rw [List.getElem?_map]
  cases hd : ds[p]? with
  | none => rfl
  | some d =>
    have hd := hf d hd
    unfold AnswersAlike at hd
    simp only [Option.map_some, hd, List.map_set]

theorem asked_interrupted {α : Type} {f : Scripted → Scripted × Poll (Except OsError α)}
    (hf : ∀ d, (∃ e rest, e.kind = .interrupted ∧ d.items = .fault e :: rest ∧
      f d = ({ d with items := rest }, .ready (.error e))) ∨ AnswersAlike all f d)
    (ds : List Scripted) (p : Nat) :
    (∃ ds' e, Interrupted ds p e ds' ∧ Scripted.asked f ds p = (ds', .ready (.error e))) ∨
    AskedAlike all f ds p := by
  cases hd : ds[p]? with
  | none =>
    right
    apply asked_steady
    simp [hd]
  | some d =>
    rcases hf d with ⟨e, rest, he, hitems, hf⟩ | hf
    · refine .inl ⟨_, e, ⟨d, rest, hd, hitems, he, rfl⟩, ?_⟩
      simp only [Scripted.asked, hd, hf]
    · right
      apply asked_steady
      intro d' hd'
      obtain rfl : d = d' := Option.some.inj (hd.symm.trans hd')
      exact hf

/-- No flush is interrupted, unless those of the twin are too. -/
def Unbroken (all : Bool) (ds : List Scripted) (p : Nat) : Job → Prop
  | .flush => all = true → ∀ e, (Scripted.asked (·.flush) ds p).2 = .ready (.error e) →
    e.kind ≠ .interrupted
  | _ => True

theorem Unbroken.of_ne {job : Job} (h : job ≠ .flush) : Unbroken all ds p job := by
  cases job with
  | flush => exact absurd rfl h
  | _ => trivial

theorem asked_flush (h : Unbroken all ds p .flush) : AskedAlike all (·.flush) ds p := by
  apply asked_steady
  intro d hd
  rcases flush_steady d with ⟨e, hall, he, hflush⟩ | halike
  · have hasked : (Scripted.asked (·.flush) ds p).2 = .ready (.error e) := by
      simp only [Scripted.asked, hd, hflush]
    exact absurd he (h hall e hasked)
  · exact halike

end Devices

/-! ### Steps of requests -/

/-- Outcomes of a step that are the same but for watchers and interruptions. -/
structure SameOutcome (all : Bool) (a b : Hub × List Scripted × List Nat × Advance) : Prop where
  hub : b.1.blind = a.1.blind
  devices : b.2.1 = a.2.1.map (Scripted.steady all)
  rest : b.2.2 = a.2.2

section Work

variable {all : Bool} {h h' : Hub} {r p chunk : Nat}

/-- Answers that are not interruptions lead to the same outcome. -/
theorem SameOutcome.answered {α : Type} (hh : h.SameBut r h') (w w' : Bool) {ds : List Scripted}
    {f : Scripted → Scripted × Poll α} {go : Hub → α → Hub × Advance}
    (hgo : ∀ {k k' : Hub} a, k'.blind = k.blind →
      (go k' a).1.blind = (go k a).1.blind ∧ (go k' a).2 = (go k a).2)
    (hasked : AskedAlike all f ds p) :
    SameOutcome all
      (let a := Scripted.asked f ds p
       let b := h.answered p r w a.2 go
       (b.1, a.1, b.2))
      (let a := Scripted.asked f (ds.map (Scripted.steady all)) p
       let b := h'.answered p r w' a.2 go
       (b.1, a.1, b.2)) := by
  obtain ⟨hhub, hrest⟩ := Hub.answered_sameBut (p := p) hh w w' (Scripted.asked f ds p).2 hgo
  dsimp only
  rw [show Scripted.asked f (ds.map (Scripted.steady all)) p = _ from hasked]
  exact ⟨hhub, rfl, hrest⟩

/-- A request whose device is interrupted lets nobody know, and else it does what it does with a
device that is not interrupted. -/
theorem work_steady (p chunk : Nat) (hh : h.SameBut r h') (ds : List Scripted) (w w' : Bool) {job : Job}
    (hjob : job ≠ .release) (hfl : Unbroken all ds p job) :
    (∃ ds' e, Interrupted ds p e ds' ∧ job ≠ .flush ∧ h.work Scripted.devices ds r p chunk w job =
      ((h.leave p r).setPhase r (.holding false), ds', [], .again)) ∨
    SameOutcome all (h.work Scripted.devices ds r p chunk w job)
      (h'.work Scripted.devices (ds.map (Scripted.steady all)) r p chunk w' job) := by
  cases job with
  | release => exact absurd rfl hjob
  | read length delivered =>
    rcases asked_interrupted (read_steady · (Hub.want chunk length delivered)) ds p with
      ⟨ds', e, hint, hasked⟩ | hasked
    · left
      refine ⟨ds', e, hint, by simp, ?_⟩
      obtain ⟨_, _, -, -, he, -⟩ := hint
      simp [Hub.work, Scripted.devices, hasked, Hub.answered, Hub.readAnswered, he]
    · exact .inr (.answered hh w w'
        (fun a hk => Hub.readAnswered_of_blind hk r length delivered a) hasked)
  | write rest =>
    rcases asked_interrupted (write_steady · (rest.take chunk)) ds p with
      ⟨ds', e, hint, hasked⟩ | hasked
    · left
      refine ⟨ds', e, hint, by simp, ?_⟩
      obtain ⟨_, _, -, -, he, -⟩ := hint
      simp [Hub.work, Scripted.devices, hasked, Hub.answered, Hub.writeAnswered, he]
    · exact .inr (.answered hh w w' (fun a hk => Hub.writeAnswered_of_blind hk r rest a) hasked)
  | flush =>
    exact .inr (.answered hh w w' (fun a hk => Hub.flushAnswered_of_blind hk a) (asked_flush hfl))

end Work

/-- Where requests hold their ports: they do not wait in line, and have the buffers that they need. -/
def Hub.Fit (h : Hub) : Prop :=
  ∀ (r : Nat) (q : Request) (port : Port) (w : Bool), h.requests[r]? = some q →
    h.ports[q.port]? = some port → q.phase = .holding w → port.closed = false →
    r ∉ port.line ∧ (w = true → overflows port.chunk q.job = false)

section Turns

variable {all : Bool} {s s' : Session} {r : Nat}

theorem report_steady (hs : s.Beside all s') (k : Nat) (e : Event) (ks : List Frame) :
    report s' k e ks = (steadying all).next (report s k e ks) := by
  unfold report
  rw [hs.receivers, List.getElem?_map]
  cases s.receivers[k]? with
  | none => rfl
  | some c => cases c <;> rfl

theorem endCollector_alike (hs : s.Alike all s') (r : Nat) :
    (endCollector s r).1.Alike all (endCollector s' r).1 ∧ (endCollector s' r).2 = (endCollector s r).2 := by
  unfold endCollector
  rw [Hub.requests_of_blind hs.hub, hs.receivers]
  cases (s.hub.requests[r]?.bind (·.receiver)) with
  | none => exact ⟨hs, rfl⟩
  | some k =>
    simp only [Option.bind_some, List.getElem?_map]
    cases s.receivers[k]? with
    | none => exact ⟨hs, rfl⟩
    | some c =>
      cases c with
      | callback => exact ⟨hs, rfl⟩
      | collector k =>
        refine ⟨⟨⟨hs.devices, hs.io, hs.handles, rfl, ?_⟩, hs.hub⟩, rfl⟩
        show s'.collectors.modify k _ = s.collectors.modify k _
        rw [hs.collectors]

theorem finish_alike (hs : s.Alike all s') (r : Nat) :
    (finish s r).1.Alike all (finish s' r).1 ∧ (finish s' r).2 = (finish s r).2 := by
  obtain ⟨hhub, hwakes⟩ := Hub.finish_of_blind hs.hub r
  have hs' : ({ s with hub := (s.hub.finish r).1 } : Session).Alike all
      { s' with hub := (s'.hub.finish r).1 } :=
    ⟨⟨hs.devices, hs.io, hs.handles, hs.receivers, hs.collectors⟩, hhub⟩
  obtain ⟨halike, hmore⟩ := endCollector_alike hs' r
  refine ⟨halike, ?_⟩
  show (s'.hub.finish r).2.map Task.request ++ _ = (s.hub.finish r).2.map Task.request ++ _
  rw [hwakes]
  exact congrArg _ hmore

/-- A step with the same outcome makes the same turn. -/
theorem serve_same (hs : s.Beside all s') (h : SameOutcome all
      (s.hub.advance Scripted.devices s.devices r) (s'.hub.advance Scripted.devices s'.devices r)) :
    (steadying all).Turns (serve s r) (serve s' r) := by
  rcases ha : s.hub.advance Scripted.devices s.devices r with ⟨hub, devices, wakes₁, adv₁⟩
  rcases ha' : s'.hub.advance Scripted.devices s'.devices r with ⟨hub', devices', wakes, adv⟩
  rw [ha, ha'] at h
  obtain ⟨hhub, hdevices, hrest⟩ := h
  dsimp only at hhub hdevices hrest
  obtain ⟨rfl, rfl⟩ := Prod.mk.inj hrest
  have hs' : ({ s with hub, devices } : Session).Alike all { s' with hub := hub', devices := devices' } :=
    ⟨⟨hdevices, hs.io, hs.handles, hs.receivers, hs.collectors⟩, hhub⟩
  rw [serve_eq ha, serve_eq ha']
  cases adv with
  | idle | again => exact ⟨hs', rfl, rfl, rfl⟩
  | crash =>
    obtain ⟨halike, hmore⟩ := finish_alike hs' r
    exact ⟨halike, rfl, congrArg (wakes.map Task.request ++ ·) hmore, rfl⟩
  | report e last =>
    have hreceiver : receiver? { s' with hub := hub', devices := devices' } r =
        receiver? { s with hub, devices } r := by
      show hub'.requests[r]?.bind _ = _
      rw [Hub.requests_of_blind hhub]
      rfl
    dsimp only
    rw [hreceiver]
    cases receiver? { s with hub, devices } r with
    | none => exact ⟨hs', rfl, rfl, rfl⟩
    | some k => exact ⟨hs', rfl, rfl, report_steady hs'.toBeside k e _⟩

/-- A request whose device is interrupted tries again, until it has another answer. -/
theorem serve_working {q q' : Request} {port port' : Port} {w w' : Bool} (hs : s.Beside all s')
    (hw : s.hub.Working r q port w) (hw' : s'.hub.Working r q' port' w')
    (hh : s.hub.SameBut r s'.hub) (hport : q'.port = q.port) (hjob : q'.job = q.job)
    (hchunk : port'.chunk = port.chunk) (hline : r ∉ port.line)
    (hfits : Hub.overflows port.chunk q.job = false)
    (hfl : Unbroken all s.devices q.port q.job) :
    (steadying all).Agrees reports (serve s r) (serve s' r) := by
  -- On the script that is left: an interruption uses up an item, while the twin stays where it is.
  generalize hn : itemsLeft s.devices q.port = n
  induction n using Nat.strongRecOn generalizing s q port w with
  | ind n ih =>
    have ha := hw.advance Scripted.devices s.devices
    have ha' := hw'.advance Scripted.devices s'.devices
    rw [hport, hjob, hchunk, hs.devices] at ha'
    rcases work_steady q.port port.chunk hh s.devices w w' hw.job hfl with
      ⟨ds', e, hint, hflush, hwork⟩ | hsame
    · have hserve : serve s r =
          { state :=
              { s with hub := (s.hub.leave q.port r).setPhase r (.holding false), devices := ds' }
            next := .enter [.serve r] } :=
        serve_eq (ha.trans hwork)
      have hs' : Session.Beside all
          { s with hub := (s.hub.leave q.port r).setPhase r (.holding false), devices := ds' } s' :=
        ⟨hs.devices.trans hint.steady.symm, hs.io, hs.handles, hs.receivers, hs.collectors⟩
      obtain ⟨u, hu, hturns⟩ := ih (itemsLeft ds' q.port) (hn ▸ hint.left_lt) hs' (hw.retry hfits)
        (hh.retry hw hline) hport hjob hchunk (fun hr => hline (List.mem_of_mem_erase hr)) hfits
        (.of_ne hflush) rfl
      rw [hserve]
      exact ⟨u, .again rfl rfl rfl rfl hu, hturns⟩
    · refine ⟨_, .done _, serve_same hs ?_⟩
      rw [ha, hs.devices, ha']
      exact hsame

end Turns

end Conduit.Pipe
