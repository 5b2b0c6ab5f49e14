import Conduit.Proofs.Pipe.Carried
import Conduit.Proofs.Pipe.Steady

/-!
Pipes over devices that are interrupted follow pipes over devices that are not: each of their turns
agrees with one of the twin, after the retries. Closing a port is left out. It wakes the requests that
watch the port in the order in which they began to, and a request that tries again begins anew. Nor
may a flush be interrupted when the twin has no interruptions of flushes.
-/

namespace Conduit.Pipe

open Dispatch

/-- Requests are where `Hub.Fit` says at every point of an execution. -/
theorem fit (x : Execution start) : x.machine.state.hub.Fit := by
  intro r q port w hq hp hphase hopen
  -- The invariant of the desk says where every request is; only two of the places hold a port.
  obtain ⟨hk, -⟩ := ledger x
  have hhub : (desk x.machine.config).hub = x.machine.state.hub := by simp [desk]
  rw [← hhub] at hq hp
  obtain ⟨port', hp', hplace, -⟩ := hk.sound.place r q hq
  obtain rfl : port = port' := Option.some.inj (hp.symm.trans hp')
  have htidy := (hk.sound.port q.port port hp).tidy
  cases hplace with
  | waiting _ hh _ _ _ hv => exact ⟨htidy.not_mem_line hh, fun _ => hv⟩
  | active hph hh =>
    obtain rfl : w = false := by simpa [hphase] using hph
    exact ⟨htidy.not_mem_line hh, by simp⟩
  | closing _ _ _ hcl => simp [hopen] at hcl
  | fresh hph | lined hph | finished hph => simp [hphase] at hph

/-- Whether an end is closed at a moment. -/
def closes (q : Moment component) : Bool :=
  match q.cause with
  | .exec _ (.close _) => true
  | _ => false

/-- No end is closed in a run. -/
def Unclosed (past : List (Moment component)) : Prop := ∀ q ∈ past, closes q = false

instance (past : List (Moment component)) : Decidable (Unclosed past) := List.decidableBAll ..

/-- No flush is interrupted. -/
def Smooth (h : List Deed) : Prop :=
  ∀ o p e, .used o (.flush p (.ready (.error e))) ∈ h → e.kind ≠ .interrupted

section Turns

variable {all : Bool} {s s' : Session} {r : Nat}

theorem agrees_of_turns {t t' : Turn signature} (h : (steadying all).Turns t t') :
    (steadying all).Agrees reports t t' :=
  ⟨t, Settles.done (C := component) t, h⟩

theorem unbroken {q : Request} {port : Port} {w : Bool} (hw : s.hub.Working r q port w)
    (h : all = true → Smooth (serveDeeds s r)) : Unbroken all s.devices q.port q.job := by
  cases hq : q.job with
  | flush =>
    intro hall e he
    have huses : s.hub.uses Scripted.devices s.devices r = [.flush q.port (.ready (.error e))] := by
      rw [hw.uses_flush hq, ← he]
      rfl
    refine h hall (receiver? s r) q.port e ?_
    simp [serveDeeds, huses]
  | _ => trivial

theorem serve_agrees (hs : s.Alike all s') (hfit : s.hub.Fit) (r : Nat)
    (hsmooth : all = true → Smooth (serveDeeds s r)) :
    (steadying all).Agrees reports (serve s r) (serve s' r) := by
  by_cases hw : ∃ q port w, s.hub.Working r q port w
  · obtain ⟨q, port, w, hw⟩ := hw
    obtain ⟨watchers, hp'⟩ := Hub.port_of_blind hs.hub hw.place
    obtain ⟨hline, hv⟩ := hfit r q port w hw.request hw.place hw.phase hw.opened
    have hfits : Hub.overflows port.chunk q.job = false := hw.fits.elim hv id
    have hq' : s'.hub.requests[r]? = some q := by rw [Hub.requests_of_blind hs.hub, hw.request]
    have hw' : s'.hub.Working r q { port with watchers } w :=
      ⟨hq', hp', hw.phase, hw.job, hw.opened, hw.kept, hw.fits⟩
    exact serve_working hs.toBeside hw hw' (Hub.sameBut_of_blind hs.hub r) rfl rfl rfl hline hfits
      (unbroken hw hsmooth)
  · -- Nobody is interrupted who does not work a device.
    have hn : ∀ q port w, ¬s.hub.Working r q port w := fun q port w h => hw ⟨q, port, w, h⟩
    obtain ⟨hhub, hd, hd', hrest⟩ :=
      Hub.advance_of_blind hs.hub hn Scripted.devices s.devices Scripted.devices s'.devices
    exact agrees_of_turns (serve_same hs.toBeside ⟨hhub, by rw [hd, hd', hs.devices], hrest⟩)

theorem reply_turns (hs : s.Alike all s') (a : Answer) :
    (steadying all).Turns (reply s a) (reply s' a) :=
  ⟨hs, rfl, rfl, rfl⟩

section Parts

variable (hs : s.Alike all s')

include hs

theorem hub_alike {hub hub' : Hub} (hh : hub'.blind = hub.blind) :
    Session.Alike all { s with hub } { s' with hub := hub' } :=
  ⟨⟨hs.devices, hs.io, hs.handles, hs.receivers, hs.collectors⟩, hh⟩

theorem devices_alike {ds ds' : List Scripted} (hd : ds' = ds.map (Scripted.steady all)) :
    Session.Alike all { s with devices := ds } { s' with devices := ds' } :=
  ⟨⟨hd, hs.io, hs.handles, hs.receivers, hs.collectors⟩, hs.hub⟩

theorem receivers_alike {cs cs' : List Receiver} (hc : cs' = cs.map (Receiver.steady all)) :
    Session.Alike all { s with receivers := cs } { s' with receivers := cs' } :=
  ⟨⟨hs.devices, hs.io, hs.handles, hc, hs.collectors⟩, hs.hub⟩

theorem collectors_alike {cs cs' : List (String × Collector)} (hc : cs' = cs) :
    Session.Alike all { s with collectors := cs } { s' with collectors := cs' } :=
  ⟨⟨hs.devices, hs.io, hs.handles, hs.receivers, hc⟩, hs.hub⟩

end Parts

theorem addPort_alike (hs : s.Alike all s') (id : String) (d : Scripted) (chunk : Nat) :
    (s.addPort id d chunk).Alike all (s'.addPort id (d.steady all) chunk) := by
  refine ⟨⟨?_, ?_, hs.handles, hs.receivers, hs.collectors⟩, Hub.addPort_of_blind hs.hub chunk⟩
  · simp only [Session.addPort, hs.devices, List.map_append, List.map_cons, List.map_nil]
  · simp only [Session.addPort, hs.io, Hub.length_of_blind hs.hub]

theorem bind_alike (hs : s.Alike all s') (id : String) (h : Handle) :
    (s.bind id h).Alike all (s'.bind id h) := by
  refine ⟨⟨hs.devices, hs.io, ?_, hs.receivers, hs.collectors⟩, hs.hub⟩
  simp only [Session.bind, hs.handles]

theorem unbind_alike (hs : s.Alike all s') (id : String) : (s.unbind id).Alike all (s'.unbind id) := by
  refine ⟨⟨hs.devices, hs.io, ?_, hs.receivers, hs.collectors⟩, hs.hub⟩
  simp only [Session.unbind, hs.handles]

theorem addReceiver_alike (hs : s.Alike all s') (c : Receiver) :
    (s.addReceiver c).Alike all (s'.addReceiver (c.steady all)) := by
  refine ⟨⟨hs.devices, hs.io, hs.handles, ?_, hs.collectors⟩, hs.hub⟩
  simp only [Session.addReceiver, hs.receivers, List.map_append, List.map_cons, List.map_nil]

/-- What is put behind a script is put behind the one without interruptions. -/
theorem feed_steady (all : Bool) (ds : List Scripted) (p : Nat) (items : List Item)
    (flushes : Option (List FlushItem)) :
    (ds.map (Scripted.steady all)).modify p (fun d =>
        { d with
          items := d.items ++ steadyItems items
          flushes := (flushes.map (steadyFlushes all)).getD d.flushes }) =
      (ds.modify p fun d =>
        { d with items := d.items ++ items, flushes := flushes.getD d.flushes }).map
          (Scripted.steady all) := by
  apply List.ext_getElem?
  intro i
  rw [List.getElem?_modify, List.getElem?_map, List.getElem?_map, List.getElem?_modify]
  cases ds[i]? with
  | none => rfl
  | some d =>
    by_cases hi : p = i
    · cases flushes <;> simp [hi, Scripted.steady, steadyItems]
    · simp [hi]

theorem request_turns (hs : s.Alike all s') (p : Nat) (job : Job) (c : Receiver) (more : List Task) :
    (steadying all).Turns (request s p job c more) (request s' p job (c.steady all) more) := by
  have hadd := addReceiver_alike hs c
  have hk : s'.receivers.length = s.receivers.length := by rw [hs.receivers, List.length_map]
  unfold request
  dsimp only
  rw [Hub.isClosed_of_blind hadd.hub, hk]
  split
  · exact ⟨hadd, rfl, rfl, report_steady hadd.toBeside _ _ _⟩
  · obtain ⟨hhub, hr⟩ := Hub.submit_of_blind hadd.hub p job (some s.receivers.length)
    refine ⟨hub_alike hadd hhub, rfl, ?_, rfl⟩
    show Task.request _ :: more = Task.request _ :: more
    rw [hr]

theorem collect_turns (hs : s.Alike all s') (p : Nat) (job : Job) (req : String) (g : Gathered) :
    (steadying all).Turns (collect s p job req g) (collect s' p job req g) := by
  have hs' := collectors_alike hs (congrArg (· ++ [(req, { gathered := g })]) hs.collectors)
  have hk : s'.collectors.length = s.collectors.length := by rw [hs.collectors]
  unfold collect
  dsimp only
  rw [hk]
  exact request_turns hs' p job (.collector s.collectors.length) [.collector s.collectors.length]

theorem describe_alike (hs : s.Alike all s') (h : Handle) : s'.describe h = s.describe h := by
  have hc := Hub.isClosed_of_blind hs.hub
  unfold Session.describe
  simp only [hc]

/-- An action that closes nothing makes the same turn as its twin. -/
theorem exec_turns (hs : s.Alike all s') (view : View) (a : Action) (ha : ∀ id, a ≠ .close id) :
    (steadying all).Turns (exec view s a) (exec view s' (a.steady all)) := by
  have hlen := Hub.length_of_blind hs.hub
  cases a with
  | close id => exact absurd rfl (ha id)
  | source id d limits =>
    simp only [Action.steady, exec, hlen]
    exact ⟨bind_alike (addPort_alike hs id d _) id _, rfl, rfl, rfl⟩
  | sink id d limits =>
    simp only [Action.steady, exec, hlen]
    exact ⟨bind_alike (addPort_alike hs id d _) id _, rfl, rfl, rfl⟩
  | feed id items flushes =>
    have hio : s'.io.lookup id = s.io.lookup id := by rw [hs.io]
    simp only [Action.steady, exec, hio]
    cases s.io.lookup id with
    | none => exact reply_turns hs _
    | some p =>
      have hd := feed_steady all s.devices p items flushes
      rw [← hs.devices] at hd
      refine ⟨devices_alike hs hd, rfl, ?_, rfl⟩
      simp only [Hub.holder_of_blind hs.hub]
  | pair id source sink =>
    simp only [Action.steady, exec, hs.handles]
    split
    · exact ⟨bind_alike hs id _, rfl, rfl, rfl⟩
    · exact reply_turns hs _
  | split id source sink =>
    simp only [Action.steady, exec, hs.handles]
    split
    · exact ⟨bind_alike (bind_alike (unbind_alike hs id) source _) sink _, rfl, rfl, rfl⟩
    · exact reply_turns (unbind_alike hs id) _
  | requestRead id req context length script throws =>
    simp only [Action.steady, exec, Session.source?, hs.handles]
    split
    · exact reply_turns hs _
    · exact ⟨hs, rfl, rfl, rfl⟩
    · exact request_turns hs _ _ _ _
  | requestWrite id req context data script throws =>
    simp only [Action.steady, exec, Session.sink?, hs.handles]
    split
    · exact reply_turns hs _
    · exact ⟨hs, rfl, rfl, rfl⟩
    · exact request_turns hs _ _ _ _
  | readAll id req length =>
    simp only [Action.steady, exec, Session.source?, hs.handles]
    split
    · exact reply_turns hs _
    · exact collect_turns hs _ _ _ _
  | writeAll id req data =>
    simp only [Action.steady, exec, Session.sink?, hs.handles]
    split
    · exact reply_turns hs _
    · exact collect_turns hs _ _ _ _
  | drop id =>
    simp only [Action.steady, exec, hs.handles]
    exact reply_turns (unbind_alike hs id) _
  | describe id =>
    simp only [Action.steady, exec, hs.handles]
    split
    · exact reply_turns hs _
    · rw [describe_alike hs]
      exact reply_turns hs _

theorem deliver_turns (hs : s.Alike all s') (k : Nat) (e : Event) :
    (steadying all).Turns (deliver s k e) (deliver s' k e) := by
  have hc : s'.receivers[k]? = s.receivers[k]?.map (Receiver.steady all) := by
    rw [hs.receivers, List.getElem?_map]
  unfold deliver
  rw [hc]
  cases s.receivers[k]? with
  | none => exact ⟨hs, rfl, rfl, rfl⟩
  | some c =>
    cases c with
    | collector j =>
      exact ⟨collectors_alike hs (by rw [hs.collectors]), rfl, rfl, rfl⟩
    | callback req context calls script throws =>
      refine ⟨receivers_alike hs (by rw [hs.receivers, List.map_set]; rfl), rfl, rfl, ?_⟩
      simp only [Option.map_some, Receiver.steady, Recast.next, steadyOps_eq]

theorem collector_turns (hs : s.Alike all s') (k : Nat) :
    (steadying all).Turns (poll s (.collector k)) (poll s' (.collector k)) := by
  have hc : s'.collectors[k]? = s.collectors[k]? := by rw [hs.collectors]
  unfold poll
  dsimp only
  rw [hc]
  split
  · exact ⟨hs, rfl, rfl, rfl⟩
  · split
    · exact ⟨hs, rfl, rfl, rfl⟩
    · exact ⟨collectors_alike hs (by rw [hs.collectors]), rfl, rfl, rfl⟩

theorem reports_next (all : Bool) (n : Next signature) : reports ((steadying all).next n) = reports n := by
  cases n <;> rfl

/-- Retries aside, pipes over devices that are interrupted do what pipes over others do. -/
theorem steadying_follows (all : Bool) : (steadying all).Follows reports (·.hub.Fit)
    fun q => closes q = false ∧ (all = true → Smooth (deedsAt q)) where
  exec view a hs _ h := by
    refine agrees_of_turns (exec_turns hs view a ?_)
    rintro id rfl
    exact absurd h.1 (by simp [closes])
  resume f hs hfit h := by
    cases f with
    | serve r => exact serve_agrees hs hfit r h.2
    | finish r =>
      obtain ⟨halike, hwakes⟩ := finish_alike hs r
      exact agrees_of_turns ⟨halike, rfl, hwakes, rfl⟩
    | deliver k e => exact agrees_of_turns (deliver_turns hs k e)
  poll t hs hfit h := by
    cases t with
    | request r => exact serve_agrees hs hfit r h.2
    | collector k => exact agrees_of_turns (collector_turns hs k)
  unwind s s' f hs := by
    cases f with
    | serve r | finish r => exact finish_alike hs r
    | deliver => exact ⟨hs, rfl⟩
  tick s s' hs := ⟨hs, rfl⟩
  told := reports_next all

end Turns

end Conduit.Pipe
