import Conduit.Proofs.Dispatch.Fifo
import Conduit.Proofs.Pipe.Carried

/-!
What stands below the frames of pipes on the stack. A request has its turn right above the task of
the reactor, and a callback that has waited in the line of a venue is called right above whoever
moves the line. So a throw that passes a request ends the task, and one out of a serial context or a
thread passes nothing.
-/

namespace Conduit.Pipe

open Dispatch Machine

/-- The context of a callback. -/
def Receiver.context? : Receiver → Option Context
  | .callback _ c _ _ _ => some c
  | .collector _ => none

/-- The contexts of the receivers; those of collectors have none. -/
def Session.contexts (s : Session) : List (Option Context) := s.receivers.map (·.context?)

/-- The context of a receiver. -/
def Session.context? (s : Session) (k : Nat) : Option Context := s.contexts[k]?.join

theorem Session.length_contexts (s : Session) : s.contexts.length = s.receivers.length :=
  List.length_map ..

/-- A receiver keeps its context. -/
theorem Session.context?_mono {s s' : Session} (h : s.contexts <+: s'.contexts) {k : Nat}
    (hk : k < s.contexts.length) : s'.context? k = s.context? k := by
  obtain ⟨later, h⟩ := h
  unfold context?
  rw [← h, List.getElem?_append_left hk]

theorem Session.lt_of_context? {s : Session} {k : Nat} {c : Context} (h : s.context? k = some c) :
    k < s.contexts.length := by
  unfold context? at h
  cases hk : s.contexts[k]? with
  | none => simp [hk] at h
  | some o => exact (List.getElem?_eq_some_iff.mp hk).1

/-! ### Turns -/

section Turns

variable (view : View) (s : Session)

theorem request_receivers (p : Nat) (job : Job) (receiver : Receiver) (more : List Task) :
    (request s p job receiver more).state.receivers = s.receivers ++ [receiver] := by
  unfold request
  dsimp only
  split <;> rfl

/-- A request is reported of at once, or not at all for now. -/
theorem request_goes (p : Nat) (job : Job) (receiver : Receiver) (more : List Task) :
    (∃ r, (request s p job receiver more).next = .reply r) ∨
      ∃ e, (request s p job receiver more).next =
        report (request s p job receiver more).state s.receivers.length e [] := by
  unfold request
  dsimp only
  split
  · exact .inr ⟨_, rfl⟩
  · exact .inl ⟨_, rfl⟩

theorem close_receivers (ps : List Nat) : (s.close ps).1.receivers = s.receivers := by
  unfold Session.close
  generalize ([] : List Nat) = ws
  induction ps generalizing s ws with
  | nil => rfl
  | cons p ps ih => rw [List.foldl_cons, ih]

/-- What an action does to the receivers, and how it goes on. -/
theorem exec_goes (a : Action) : s.receivers <+: (exec view s a).state.receivers ∧
    ((∃ r, (exec view s a).next = .reply r) ∨ ∃ e, (exec view s a).next =
      report (exec view s a).state s.receivers.length e []) := by
  have hreply {t : Turn signature} (hs : t.state.receivers = s.receivers)
      (hn : ∃ r, t.next = .reply r) : s.receivers <+: t.state.receivers ∧
        ((∃ r, t.next = .reply r) ∨ ∃ e, t.next = report t.state s.receivers.length e []) :=
    ⟨hs ▸ List.prefix_rfl, .inl hn⟩
  have hrequest (s' : Session) (hs : s'.receivers = s.receivers) (p : Nat) (job : Job)
      (receiver : Receiver) (more : List Task) :
      let t := request s' p job receiver more
      s.receivers <+: t.state.receivers ∧
        ((∃ r, t.next = .reply r) ∨ ∃ e, t.next = report t.state s.receivers.length e []) :=
    ⟨request_receivers s' p job receiver more ▸ hs ▸ List.prefix_append .., hs ▸ request_goes ..⟩
  cases a with
  | source | sink | drop => exact hreply rfl ⟨_, rfl⟩
  | feed | pair | split | describe =>
    simp only [exec]
    split <;> exact hreply rfl ⟨_, rfl⟩
  | requestRead | requestWrite =>
    simp only [exec]
    split
    · exact hreply rfl ⟨_, rfl⟩
    · exact hreply rfl ⟨_, rfl⟩
    · exact hrequest s rfl ..
  | readAll | writeAll =>
    simp only [exec]
    split
    · exact hreply rfl ⟨_, rfl⟩
    · exact hrequest { s with collectors := s.collectors ++ _ } rfl ..
  | close id =>
    simp only [exec]
    split
    · exact hreply rfl ⟨_, rfl⟩
    · exact hreply (close_receivers ..) ⟨_, rfl⟩

/-- The rest of a request after a report. -/
def restOf (r : Nat) (last : Bool) : Frame := if last then .finish r else .serve r

theorem restOf_request? (r : Nat) (last : Bool) : (restOf r last).request? = some (r, last) := by
  cases last <;> rfl

/-- What a request that goes on does to the receivers, and how it goes on. -/
theorem serve_goes (r : Nat) : (serve s r).state.receivers = s.receivers ∧
    ((∃ a, (serve s r).next = .reply a) ∨ (serve s r).next = .enter [.serve r] ∨
      ∃ k e last, receiver? (serve s r).state r = some k ∧
        (serve s r).next = report (serve s r).state k e [restOf r last]) := by
  unfold serve
  dsimp only
  split
  · exact ⟨rfl, .inl ⟨_, rfl⟩⟩
  · exact ⟨rfl, .inr (.inl rfl)⟩
  · exact ⟨finish_receivers .., .inl ⟨_, rfl⟩⟩
  · split
    · exact ⟨rfl, .inl ⟨_, rfl⟩⟩
    · rename_i e last _ _ k hk
      exact ⟨rfl, .inr (.inr ⟨k, e, last, hk, rfl⟩)⟩

theorem deliver_goes (k : Nat) (e : Event) : (deliver s k e).state.contexts = s.contexts ∧
    ((∃ a, (deliver s k e).next = .reply a) ∨
      ∃ tag ops throws, (deliver s k e).next = .script tag ops throws []) := by
  unfold deliver
  split
  · exact ⟨rfl, .inl ⟨_, rfl⟩⟩
  · exact ⟨rfl, .inl ⟨_, rfl⟩⟩
  · rename_i req c calls script throws hk
    refine ⟨?_, .inr ⟨_, _, _, rfl⟩⟩
    obtain ⟨hk, he⟩ := List.getElem?_eq_some_iff.mp hk
    have hk' : k < (s.receivers.map (·.context?)).length := by simpa using hk
    have hc : (s.receivers.map (·.context?))[k] = some c := by simp [he, Receiver.context?]
    simp only [Session.contexts, List.map_set]
    rw [show (Receiver.callback req c (calls + 1) script throws).context? = some c from rfl,
      ← hc, List.set_getElem_self]

theorem collect_goes (k : Nat) : (poll s (.collector k)).state.contexts = s.contexts ∧
    ∃ a, (poll s (.collector k)).next = .reply a := by
  unfold poll
  dsimp only
  split
  · exact ⟨rfl, _, rfl⟩
  · split <;> exact ⟨rfl, _, rfl⟩

/-- What a report that is given to a context is. -/
theorem report_perform {s : Session} {k : Nat} {e : Event} {ks ks' : List Frame} {c : Context}
    {w : Frame} (h : report s k e ks = .perform c w ks') :
    w = .deliver k e ∧ s.context? k = some c ∧ ks' = ks := by
  unfold report at h
  split at h
  · rename_i hk
    cases h
    exact ⟨rfl, by simp [Session.context?, Session.contexts, hk, Receiver.context?], rfl⟩
  · cases h
  · cases h

end Turns

/-- The request whose turn it is. -/
def requestOf (q : Moment component) : Option Nat :=
  match q.cause with
  | .resume (.serve r) | .poll (.request r) => some r
  | _ => none

theorem cause_of_requestOf {m : Machine component} {q : Moment component} {r : Nat}
    (hq : m.moment? = some q) (hr : requestOf q = some r) :
    m.cause? = some (.resume (.serve r)) ∨ m.cause? = some (.poll (.request r)) := by
  obtain ⟨cause, hcause, rfl⟩ := Option.map_eq_some_iff.mp hq
  unfold requestOf at hr
  split at hr
  · rename_i h
    cases hr
    exact .inl (hcause.trans (congrArg some h))
  · rename_i h
    cases hr
    exact .inr (hcause.trans (congrArg some h))
  · cases hr

/-- How the machine goes on after a turn. -/
inductive Goes (q : Moment component) (t : Turn signature) : Prop where
  | reply {a} (h : t.next = .reply a)
  | script {tag ops throws} (h : t.next = .script tag ops throws [])
  /-- A request that is issued finds its port closed. -/
  | refused {e} (h : t.next = report t.state q.state.receivers.length e [])
  | again {r} (hr : requestOf q = some r) (h : t.next = .enter [.serve r])
  | reports {r k e last} (hr : requestOf q = some r) (hk : receiver? t.state r = some k)
      (h : t.next = report t.state k e [restOf r last])

theorem turn_goes {q : Moment component} {t : Turn signature} (ht : q.turn? = some t) :
    Goes q t := by
  have hserve {s : Session} {cause : Cause component} {r : Nat}
      (hr : requestOf ⟨s, cause⟩ = some r) : Goes ⟨s, cause⟩ (serve s r) := by
    obtain ⟨-, ⟨a, h⟩ | h | ⟨k, e, last, hk, h⟩⟩ := serve_goes s r
    · exact .reply h
    · exact .again hr h
    · exact .reports hr hk h
  obtain ⟨s, cause⟩ := q
  cases cause with
  | exec view a =>
    obtain rfl : exec view s a = t := Option.some.inj ht
    obtain ⟨-, ⟨r, h⟩ | ⟨e, h⟩⟩ := exec_goes view s a
    · exact .reply h
    · exact .refused h
  | resume f =>
    obtain rfl : resume s f = t := Option.some.inj ht
    cases f with
    | serve r => exact hserve rfl
    | finish r => exact .reply rfl
    | deliver k e =>
      obtain ⟨-, ⟨a, h⟩ | ⟨tag, ops, throws, h⟩⟩ := deliver_goes s k e
      · exact .reply h
      · exact .script h
  | poll u =>
    obtain rfl : poll s u = t := Option.some.inj ht
    cases u with
    | request r => exact hserve rfl
    | collector k =>
      obtain ⟨-, a, h⟩ := collect_goes s k
      exact .reply h
  | unwind | tick => cases ht

/-- Work that is given to a context is a report for a callback of that context. -/
theorem Goes.perform {q : Moment component} {t : Turn signature} (h : Goes q t) {c : Context}
    {w : Frame} {ks : List Frame} (hn : t.next = .perform c w ks) :
    ∃ k e, w = .deliver k e ∧ t.state.context? k = some c ∧ (ks = [] ∨ ∃ r last,
      requestOf q = some r ∧ receiver? t.state r = some k ∧ ks = [restOf r last]) := by
  cases h with
  | reply h | script h | again _ h => cases h.symm.trans hn
  | refused h =>
    obtain ⟨hw, hc, rfl⟩ := report_perform (h.symm.trans hn)
    exact ⟨_, _, hw, hc, .inl rfl⟩
  | reports hr hk h =>
    obtain ⟨hw, hc, rfl⟩ := report_perform (h.symm.trans hn)
    exact ⟨_, _, hw, hc, .inr ⟨_, _, hr, hk, rfl⟩⟩

/-! ### Steps -/

theorem unwind_contexts (s : Session) (f : Frame) : (unwind s f).1.contexts = s.contexts := by
  cases f with
  | serve r | finish r => exact congrArg (List.map _) (finish_receivers s r)
  | deliver => rfl

theorem after_contexts (q : Moment component) : q.state.contexts <+: q.after.contexts := by
  obtain ⟨s, cause⟩ := q
  have hsame {s' : Session} (h : s'.contexts = s.contexts) : s.contexts <+: s'.contexts :=
    h ▸ List.prefix_rfl
  match cause with
  | .exec view a => exact (exec_goes view s a).1.map _
  | .resume (.serve r) | .poll (.request r) =>
    exact hsame (congrArg (List.map _) (serve_goes s r).1)
  | .resume (.finish r) => exact hsame (congrArg (List.map _) (finish_receivers s r))
  | .resume (.deliver k e) => exact hsame (deliver_goes s k e).1
  | .unwind f => exact hsame (unwind_contexts s f)
  | .poll (.collector k) => exact hsame (collect_goes s k).1
  | .tick => exact hsame rfl

/-- A step keeps the contexts of the receivers, as its turn has left them. -/
theorem advance?_contexts {m m' : Machine component} (hm : m.advance? = some m') :
    m.state.contexts <+: m'.state.contexts ∧
      ∀ t, m.turn? = some t → m'.state.contexts = t.state.contexts := by
  have hstep := advance?_config hm
  rw [← m.config_state, ← m'.config_state]
  cases hc : m.cause? with
  | none =>
    rw [hc] at hstep
    exact ⟨hstep.state_eq ▸ List.prefix_rfl, fun t ht => by simp [turn?_of_no_cause hc] at ht⟩
  | some cause =>
    rw [hc] at hstep
    have hafter : m'.config.state.contexts = (Moment.mk m.config.state cause).after.contexts := by
      rcases hstep.state_cases with h | ⟨-, -, w, -, -, -, -, -, h⟩
      · rw [h]
      · rw [h]
        exact unwind_contexts _ w
    refine ⟨hafter ▸ after_contexts ⟨m.config.state, cause⟩, fun t ht => ?_⟩
    rw [hafter, Moment.after_of_turn?]
    simpa [turn?, moment?, hc] using ht

theorem run_contexts {m₀ m : Machine component} {past : List (Moment component)}
    (h : Run m₀ past m) : m₀.state.contexts <+: m.state.contexts := by
  induction h with
  | start => exact List.prefix_rfl
  | advance _ hm ih => exact ih.trans (advance?_contexts hm).1
  | request => assumption
  | @strike _ m _ _ ih =>
    obtain ⟨ready, he, -⟩ := wakeAll_eq { m with state := (component.tick m.state).1 }
      (component.tick m.state).2
    rw [strike, he]
    exact ih
  | proceed _ hm _ _ _ ih => rwa [proceed_state hm]
  | reorder _ hf => cases hf

/-! ### Lines and stacks -/

/-- What waits in the line of a venue is reports for callbacks whose context is the venue. -/
theorem mem_line {m : Machine component} {past : List (Moment component)} (hrun : Run start past m)
    {v : Nat} {w : Frame} (hw : w ∈ m.line v) :
    ∃ k e c, w = .deliver k e ∧ m.state.context? k = some c ∧ c.place = .venue v := by
  have ho := fresh_orderly (C := component) ({} : Session)
  have hw : w ∈ accepted v m.journal := by
    rw [lines (hrun.orderly ho) v]
    exact List.mem_append_right _ hw
  obtain ⟨q, hq, t, c, ks, ht, hn, hc⟩ := (hrun.of_accepted ho hw).resolve_left (by
    simp [start, accepted])
  have htick : q.cause ≠ .tick := by
    intro h
    simp [Moment.turn?, h] at ht
  obtain ⟨past₁, m₁, m₂, past₂, -, hm₁, hstep, hlater, -⟩ := hrun.split hq htick
  obtain ⟨k, e, rfl, hk, -⟩ := (turn_goes ht).perform hn
  have hturn : m₁.turn? = some t := by simp [turn?, hm₁, ht]
  have hgrow := run_contexts hlater
  rw [(advance?_contexts hstep).2 t hturn] at hgrow
  exact ⟨k, e, c, rfl, (Session.context?_mono hgrow (Session.lt_of_context? hk)).trans hk, hc⟩

/-- Whoever moves the line of a venue comes next on the stack. -/
inductive Mover (v : Nat) : List (Dispatch.Frame component) → Prop where
  | turn {lower} : Mover v (.turn (.venue v) :: lower)
  | drain {left ran lower} : Mover v (.drain v left ran :: lower)

/-- What is below a frame on the stack. -/
def Seat (s : Session) (lower : List (Dispatch.Frame component)) : Frame → Prop
  | .serve _ | .finish _ => lower = [.task]
  | .deliver k _ => k < s.contexts.length ∧
      ∀ c v, s.context? k = some c → c.place = .venue v → Mover v lower

/-- All frames of a stack are where they belong. -/
def Seated (s : Session) : List (Dispatch.Frame component) → Prop
  | [] => True
  | .own f :: lower => Seat s lower f ∧ Seated s lower
  | _ :: lower => Seated s lower

section Seated

variable {s s' : Session} {k k' lower : List (Dispatch.Frame component)} {v : Nat}

theorem Mover.kept (h : Mover v k) (hk : AllKept k k') : Mover v k' := by
  cases h with
  | turn =>
    cases hk with
    | cons hf _ =>
      cases hf
      exact .turn
  | drain =>
    cases hk with
    | cons hf _ =>
      cases hf
      exact .drain

theorem Seat.kept {f : Frame} (h : Seat s k f) (hk : AllKept k k') : Seat s k' f := by
  cases f with
  | serve | finish =>
    obtain rfl : k = [.task] := h
    exact hk.eq_task
  | deliver j e => exact ⟨h.1, fun c v hc hv => (h.2 c v hc hv).kept hk⟩

theorem Seated.kept (h : Seated s k) (hk : AllKept k k') : Seated s k' := by
  induction hk with
  | nil => trivial
  | @cons f _ _ _ hf hk ih =>
    cases hf with
    | same =>
      cases f with
      | own f => exact ⟨h.1.kept hk, ih h.2⟩
      | _ => exact ih h
    | widened => exact ih h

theorem Seated.mono (h : Seated s k) (hs : s.contexts <+: s'.contexts) : Seated s' k := by
  induction k with
  | nil => trivial
  | cons f k ih =>
    cases f with
    | own f =>
      refine ⟨?_, ih h.2⟩
      cases f with
      | serve | finish => exact h.1
      | deliver j e =>
        refine ⟨Nat.lt_of_lt_of_le h.1.1 hs.length_le, fun c v hc => h.1.2 c v ?_⟩
        rwa [← Session.context?_mono hs h.1.1]
    | _ => exact ih h

theorem Seated.tail (h : Seated s k) : Seated s k.tail := by
  cases k with
  | nil => trivial
  | cons f k =>
    cases f with
    | own => exact h.2
    | _ => exact h

theorem Seated.below {m : Machine component} (h : Seated s m.stack) : Seated s m.below := by
  unfold Machine.below
  split
  · exact h
  · exact h.tail

theorem Seated.of_bare (h : Seated s lower) (hk : owned k = []) : Seated s (k ++ lower) := by
  induction k with
  | nil => exact h
  | cons f k ih =>
    cases f with
    | own => simp at hk
    | _ => exact ih hk

/-- A report comes above what is left of its request. -/
theorem Seated.report {j : Nat} {e : Event} {ks : List Frame}
    (h : Seated s (ks.map Dispatch.Frame.own ++ lower)) :
    Seated s (Next.frames (C := component) (report s j e ks) ++ lower) := by
  have hlt {receiver : Receiver} (hj : s.receivers[j]? = some receiver) :
      j < s.contexts.length := by
    rw [s.length_contexts]
    exact (List.getElem?_eq_some_iff.mp hj).1
  have hcontext {receiver : Receiver} (hj : s.receivers[j]? = some receiver) :
      s.context? j = receiver.context? := by
    simp [Session.context?, Session.contexts, hj]
  unfold Pipe.report
  split
  · rename_i req c calls script throws hj
    simp only [Next.frames]
    cases hplace : c.place with
    | venue v => exact h
    | direct | pool =>
      refine ⟨⟨hlt hj, fun c' v hc' hv => ?_⟩, h⟩
      rw [hcontext hj] at hc'
      cases hc'
      simp [hplace] at hv
  · rename_i i hj
    exact ⟨⟨hlt hj, fun c' v hc' => by simp [hcontext hj, Receiver.context?] at hc'⟩, h⟩
  · exact h

end Seated

/-- What is taken from a line belongs above whoever moves it. -/
theorem Seated.lifted {m : Machine component} {past : List (Moment component)}
    {k lower : List (Dispatch.Frame component)} (hrun : Run start past m)
    (h : Seated m.state lower) (hk : Lifted m.floor.line k) : Seated m.state (k ++ lower) := by
  have hseat {v : Nat} {w : Frame} {rest : List Frame} {below : List (Dispatch.Frame component)}
      (hl : m.line v = w :: rest) (hbelow : Mover v below) : Seat m.state below w := by
    obtain ⟨j, e, c, rfl, hc, hv⟩ := mem_line hrun (v := v) (w := w) (by simp [hl])
    refine ⟨Session.lt_of_context? hc, fun c' v' hc' hv' => ?_⟩
    obtain rfl := Option.some.inj (hc.symm.trans hc')
    obtain rfl : v = v' := by simpa [hv] using hv'
    exact hbelow
  cases hk with
  | bare hk => exact h.of_bare hk
  | served hl => exact ⟨hseat hl .turn, h⟩
  | drained hl => exact ⟨hseat hl .drain, h⟩

/-- What a step puts on the stack belongs there; a request has its turn right above a task. -/
theorem Seated.raised {m m' : Machine component} {past : List (Moment component)}
    (hrun : Run start past m) (hm : m.advance? = some m')
    {k lower : List (Dispatch.Frame component)}
    (h : Seated m.state lower) (hk : m.Raised k)
    (hbase : ∀ q r, m.moment? = some q → requestOf q = some r → lower = [.task]) :
    Seated m'.state (k ++ lower) := by
  obtain ⟨hgrow, hturn⟩ := advance?_contexts hm
  rcases hk with ⟨t, ht, rfl⟩ | ⟨-, hlifted⟩
  · have hsame := hturn t ht
    obtain ⟨q, hq, hqt⟩ := Option.bind_eq_some_iff.mp ht
    refine Seated.mono (s := t.state) ?_ (hsame ▸ List.prefix_rfl)
    have h := h.mono (hsame ▸ hgrow)
    have hrequest {r : Nat} (hr : requestOf q = some r) (last : Bool) :
        Seated t.state (.own (restOf r last) :: lower) := by
      refine ⟨?_, h⟩
      cases last <;> exact hbase q r hq hr
    cases turn_goes hqt with
    | reply hn =>
      rw [hn]
      exact h
    | @script _ ops _ hn =>
      rw [hn]
      cases ops <;> exact h
    | refused hn =>
      rw [hn]
      exact Seated.report (show Seated t.state ([].map Dispatch.Frame.own ++ lower) from h)
    | again hr hn =>
      rw [hn]
      exact hrequest hr false
    | reports hr _ hn =>
      rw [hn]
      exact Seated.report (hrequest hr _)
  · exact (Seated.lifted hrun h hlifted).mono hgrow

/-- All frames of the stack are where they belong, at every point of an execution. -/
theorem seated {m : Machine component} {past : List (Moment component)} (h : Run start past m) :
    Seated m.state m.stack := by
  induction h with
  | start => trivial
  | @advance past m m' h hm ih =>
    have hadvance := hm
    unfold Machine.advance? at hm
    split at hm
    · rename_i hstep
      cases hm
      obtain ⟨k, lower, hs, hkept, -, hk⟩ := step?_keeps hstep
      rw [hs]
      refine Seated.raised h hadvance (ih.below.kept hkept) hk fun q r hq hr => ?_
      -- A request that goes on has been right above the task.
      rcases cause_of_requestOf hq hr with hcause | hcause
      · obtain ⟨⟨b, hc⟩, rest, hs⟩ := stack_of_resume hcause
        rw [hs] at ih
        obtain rfl : rest = [.task] := ih.1
        have hbelow : m.below = [.task] := by simp [Machine.below, hc, hs]
        exact (hbelow ▸ hkept).eq_task
      · simp [step?_of_poll hcause] at hstep
    · rename_i hstep
      obtain ⟨k, lower, hs, hkept, -, hk⟩ := poll?_keeps hstep hm
      rw [hs, hkept.eq_task]
      exact Seated.raised h hadvance (by trivial) hk fun _ _ _ _ => rfl
  | request => trivial
  | @strike _ m _ hm =>
    have hs : m.strike.stack = m.stack := (wakeAll_stack _ _).1
    rw [hs, stack_of_step? hm]
    trivial
  | @proceed past m v q n h hm _ _ _ _ =>
    obtain ⟨k, lower, hs, hkept, -, hk⟩ :=
      serve_keeps { m with stack := [], control := .back .done } v (some n) .done
    cases hkept
    rw [proceed_state hm]
    rw [show (m.proceed v n).stack = k ++ [] from hs]
    exact Seated.lifted h trivial hk
  | reorder _ hf => cases hf

end Conduit.Pipe
