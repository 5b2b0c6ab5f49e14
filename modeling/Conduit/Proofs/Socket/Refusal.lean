import Conduit.Proofs.Dispatch.Paths
import Conduit.Proofs.Socket.Lifecycle
import Conduit.Proofs.Socket.Release

/-!
Binding and listening that fail. What is reported names the step that failed, and options are set in
order up to the first that is rejected. A shared socket is left as it was, and so is everything
else: nothing is kept of the descriptor that was made, and a socket that could not listen keeps its
own. A socket that listens, but whose descriptor cannot be watched for news, has lost it.
-/

namespace Conduit.Socket

open Dispatch
open Kernel (System Whim)

/-- The options are set on the descriptor `d` one after the other, and none is rejected. -/
inductive Sets (d : Nat) : System → List SocketOption → System → Prop where
  | nil (sys : System) : Sets d sys [] sys
  | cons {sys sys₁ sys' o rest} (ho : sys.setOption d o = .ok sys₁)
      (hrest : Sets d sys₁ rest sys') : Sets d sys (o :: rest) sys'

namespace Plan

variable (p : Plan) (system : System) (a : Address) (type : SocketType)

/-- A step of binding fails: the system that is left, and what is reported. The options after the
first that is rejected do not matter. -/
inductive Fails : System → Fault → Prop where
  | unsupported (ht : ¬a.family.Supports type) : Fails system (.ofOs .create (.number 91))
  | uncreated {e} (ht : a.family.Supports type) (hc : system.create a.family type = .error e) :
      Fails system (.ofOs .create e)
  | rejected {d sys₁ sys₂ before o rest e} (ht : a.family.Supports type)
      (hc : system.create a.family type = .ok (sys₁, d)) (hp : p.options = before ++ o :: rest)
      (hs : Sets d sys₁ before sys₂) (ho : sys₂.setOption d o = .error e) :
      Fails system (.ofOs (.setOption o.level o.name) e)
  /-- Calls on the descriptor cannot be made to return at once. -/
  | unheeded {d sys₁ sys₂ sys₃ e} (ht : a.family.Supports type)
      (hc : system.create a.family type = .ok (sys₁, d)) (hs : Sets d sys₁ p.options sys₂)
      (hn : sys₂.heed = (sys₃, .error e)) : Fails (system.undo sys₃) (.ofOs .create e)
  | refused {d sys₁ sys₂ sys₃ e} (ht : a.family.Supports type)
      (hc : system.create a.family type = .ok (sys₁, d)) (hs : Sets d sys₁ p.options sys₂)
      (hn : sys₂.heed = (sys₃, .ok ())) (hb : sys₃.bind d a = .error e) :
      Fails (system.undo sys₃) (.ofOs .bind e)

/-- Every step of binding succeeds. -/
inductive Binds : System → Nat → Prop where
  | intro {d sys₁ sys₂ sys₃ sys'} (ht : a.family.Supports type)
      (hc : system.create a.family type = .ok (sys₁, d)) (hs : Sets d sys₁ p.options sys₂)
      (hn : sys₂.heed = (sys₃, .ok ())) (hb : sys₃.bind d a = .ok sys') : Binds sys' d

end Plan

section Plans

variable {p : Plan} {sys sys' left : System} {d : Nat} {a : Address} {type : SocketType} {f : Fault}

theorem applyOptions_ok {os : List SocketOption} :
    Plan.applyOptions sys d os = .ok sys' ↔ Sets d sys os sys' := by
  induction os generalizing sys with
  | nil =>
    refine ⟨fun h => ?_, fun h => ?_⟩
    · cases h
      exact .nil _
    · cases h
      rfl
  | cons o os ih =>
    refine ⟨fun h => ?_, fun h => ?_⟩
    · unfold Plan.applyOptions at h
      split at h
      · exact .cons ‹_› (ih.mp h)
      · cases h
    · cases h with
      | cons ho hrest =>
        unfold Plan.applyOptions
        rw [ho]
        exact ih.mpr hrest

/-- The first option that is rejected is reported. -/
theorem applyOptions_error {os : List SocketOption} : Plan.applyOptions sys d os = .error f ↔
    ∃ before o rest sys₁ e, os = before ++ o :: rest ∧ Sets d sys before sys₁ ∧
      sys₁.setOption d o = .error e ∧ f = .ofOs (.setOption o.level o.name) e := by
  induction os generalizing sys with
  | nil =>
    refine ⟨fun h => ?_, ?_⟩
    · cases h
    · rintro ⟨before, o, rest, -, -, h, -⟩
      cases before <;> cases h
  | cons o os ih =>
    refine ⟨fun h => ?_, ?_⟩
    · unfold Plan.applyOptions at h
      split at h
      · rename_i ho
        obtain ⟨before, o', rest, sys₁, e, rfl, hs, he, hf⟩ := ih.mp h
        exact ⟨o :: before, o', rest, sys₁, e, rfl, .cons ho hs, he, hf⟩
      · rename_i e ho
        cases h
        exact ⟨[], o, os, sys, e, rfl, .nil sys, ho, rfl⟩
    · rintro ⟨before, o', rest, sys₁, e, hos, hs, he, hf⟩
      unfold Plan.applyOptions
      cases hs with
      | nil =>
        obtain ⟨rfl, -⟩ := List.cons.inj hos
        rw [he, hf]
      | cons ho hrest =>
        obtain ⟨rfl, rfl⟩ := List.cons.inj hos
        rw [ho]
        exact ih.mpr ⟨_, o', rest, sys₁, e, rfl, hrest, he, hf⟩

/-- Whatever fails, everything that has been made is taken back. -/
theorem Plan.Fails.undone (h : p.Fails sys a type left f) : ∃ t, left = sys.undo t := by
  cases h with
  | unheeded => exact ⟨_, rfl⟩
  | refused => exact ⟨_, rfl⟩
  | _ => exact ⟨sys, rfl⟩

/-- What fails is reported. -/
theorem bind_of_fails (hp : p.closed = false) (h : p.Fails sys a type left f) :
    p.bind sys a type = (left, .error f) := by
  unfold Plan.bind Plan.prepare Family.checkType
  rw [hp]
  cases h with
  | unsupported ht => simp [ht]
  | uncreated ht hc => simp [ht, hc]
  | rejected ht hc hoptions hs ho =>
    have happly := applyOptions_error.mpr ⟨_, _, _, _, _, hoptions, hs, ho, rfl⟩
    simp [ht, hc, happly]
  | unheeded ht hc hs hn => simp [ht, hc, applyOptions_ok.mpr hs, hn]
  | refused ht hc hs hn hb => simp [ht, hc, applyOptions_ok.mpr hs, hn, hb]

theorem bind_of_binds (hp : p.closed = false) (h : p.Binds sys a type sys' d) :
    p.bind sys a type = (sys', .ok d) := by
  unfold Plan.bind Plan.prepare Family.checkType
  obtain ⟨ht, hc, hs, hn, hb⟩ := h
  simp [hp, ht, hc, applyOptions_ok.mpr hs, hn, hb]

theorem fails_or_binds (p : Plan) (sys : System) (a : Address) (type : SocketType) :
    (∃ left f, p.Fails sys a type left f) ∨ ∃ sys' d, p.Binds sys a type sys' d := by
  by_cases ht : a.family.Supports type
  · cases hc : sys.create a.family type with
    | error e => exact .inl ⟨_, _, .uncreated ht hc⟩
    | ok made =>
      cases happly : Plan.applyOptions made.1 made.2 p.options with
      | error f =>
        obtain ⟨before, o, rest, sys₁, e, hoptions, hs, ho, -⟩ := applyOptions_error.mp happly
        exact .inl ⟨_, _, .rejected ht hc hoptions hs ho⟩
      | ok sys₂ =>
        have hs := applyOptions_ok.mp happly
        obtain ⟨sys₃, hn | ⟨e, hn⟩⟩ : ∃ sys₃, sys₂.heed = (sys₃, .ok ()) ∨
            ∃ e, sys₂.heed = (sys₃, .error e) := by
          cases h : sys₂.heed with
          | mk sys₃ r => cases r <;> simp
        · cases hb : sys₃.bind made.2 a with
          | error e => exact .inl ⟨_, _, .refused ht hc hs hn hb⟩
          | ok sys' => exact .inr ⟨_, _, .intro ht hc hs hn hb⟩
        · exact .inl ⟨_, _, .unheeded ht hc hs hn⟩
  · exact .inl ⟨_, _, .unsupported ht⟩

end Plans

/-! ### Shared sockets -/

/-- The call that is about to run fails, and all that it leaves is the answer and the system. -/
def Refuses (m : Machine component) (left : System) (f : Fault) : Prop :=
  m.step? = some
    { m with state := { m.state with system := left }, control := .back (.own (.failed f)) }

/-- The call that is about to run is answered. -/
def Answers (m : Machine component) (a : Answer) (P : Sockets → Prop) : Prop :=
  ∃ m', m.step? = some m' ∧ m'.control = .back (.own a) ∧ P m'.state

/-- The shared socket in the slot `i` is told to listen. Its descriptor does, and cannot be watched
for news. -/
inductive Strips (q : Moment component) (i : Nat) : Prop where
  | intro {view id backlog b d system left e}
      (hcause : q.cause = .exec view (.listen id backlog))
      (hh : q.state.handle? id = some (.shared i)) (hi : q.state.slots[i]? = some (.bound b))
      (hd : b.descriptor = some d) (hlisten : q.state.system.listen d backlog = .ok system)
      (hheed : system.heed = (left, .error e))

/-- What the shared socket in the slot `i` promises when binding or listening fails. -/
structure RefusalContract {m : Machine component} (x : Execution m) (i : Nat) : Prop where
  /-- Nothing is left of a bind that fails, and the socket can be bound as before. -/
  bind : ∀ id target type a p, x.machine.control = .run (.own (.bind id target type)) →
    x.machine.state.handle? id = some (.shared i) → x.machine.state.resolve target = some a →
    x.machine.state.slots[i]? = some (.unbound p) →
    (∀ left f, p.Fails x.machine.state.system a type left f →
      (∃ t, left = x.machine.state.system.undo t) ∧ Refuses x.machine left f) ∧
    (∀ system d, p.Binds x.machine.state.system a type system d →
      Answers x.machine .succeeded fun s => s.slots[i]? = some (.bound ⟨some d, p.limits⟩)) ∧
    ((∃ left f, p.Fails x.machine.state.system a type left f) ∨
      ∃ system d, p.Binds x.machine.state.system a type system d)
  /-- A socket that could not listen has its descriptor, and can listen with it. One whose descriptor
  listens and cannot be watched loses it, and the descriptor is closed. -/
  listen : ∀ id backlog b d, x.machine.control = .run (.own (.listen id backlog)) →
    x.machine.state.handle? id = some (.shared i) →
    x.machine.state.slots[i]? = some (.bound b) → b.descriptor = some d →
    (∀ e, x.machine.state.system.listen d backlog = .error e →
      Refuses x.machine x.machine.state.system (.ofOs .listen e)) ∧
    ∀ system left r, x.machine.state.system.listen d backlog = .ok system →
      system.heed = (left, r) →
      match r with
      | .ok () => Answers x.machine .succeeded fun s =>
          ∃ l, s.slots[i]? = some (.listening l) ∧ s.ListensOn l d
      | .error e => Answers x.machine (.failed (.ofOs .listen e)) fun s =>
          s.slots[i]? = some (.bound { b with descriptor := none }) ∧ s.system.isOpen d = false
  /-- It can connect with it as well. -/
  connect : ∀ id target type ticket context a c b,
    x.machine.control = .run (.own (.connect id target type ticket context)) →
    x.machine.state.handle? id = some (.shared i) → x.machine.state.resolve target = some a →
    x.machine.view.context? context = some c →
    (∀ name, ticket = some name → (x.machine.state.tickets.sources.lookup name).isSome) →
    x.machine.state.slots[i]? = some (.bound b) →
    Answers x.machine .succeeded fun s => ∃ n, s.slots[i]? = some (.connecting n) ∧
      ∃ z, s.attempts[n]? = some z ∧ z.prepared = opened b.descriptor
  /-- A socket that is bound without a descriptor has lost it in that way, and does not listen. -/
  bare : ∀ b, x.machine.state.slots[i]? = some (.bound b) → b.descriptor = none →
    (∃ q ∈ x.past, Strips q i) ∧
    ∀ id backlog, x.machine.control = .run (.own (.listen id backlog)) →
      x.machine.state.handle? id = some (.shared i) →
      Refuses x.machine x.machine.state.system .closed

section Contract

variable {m : Machine component} {s : Sockets} {id : String} {i : Nat}

/-! ### What has been lost -/

/-- Listening strips a slot only where its descriptor listens and cannot be watched. -/
theorem strips_of_listen {view : View} {q : Moment component} {backlog : Int32} {h : Handle}
    (hcause : q.cause = .exec view (.listen id backlog)) (hh : q.state.handle? id = some h)
    (hs : .stripped i ∈ strippings q.state h backlog) : Strips q i := by
  unfold strippings at hs
  split at hs
  · rename_i j b hst
    split at hs
    · cases hs
    · rename_i d hopened
      split at hs
      · cases hs
      · rename_i system hlisten
        split at hs
        · rename_i left e hheed
          cases List.mem_singleton.mp hs
          have hi := q.state.slot_of_stage hst (by simp)
          have hd : b.descriptor = some d := by
            cases hb : b.descriptor <;> simp_all [opened]
          exact .intro hcause hh hi hd hlisten hheed
        · cases hs
  · cases hs

theorem strips_of_deed {q : Moment component} (h : .stripped i ∈ deedsAt q) : Strips q i := by
  have told {next : Next signature} (h : .stripped i ∈ dispatches next) : False := by
    unfold dispatches at h
    split at h <;> simp at h
  have asked {next : Next signature} (h : .stripped i ∈ started q.state next) : False := by
    unfold started at h
    split at h <;> simp at h
  unfold deedsAt at h
  split at h
  · rename_i view act hcause
    cases act with
    | listen id backlog =>
      simp only [doneBy] at h
      split at h
      · exact strips_of_listen hcause ‹_› h
      · cases h
    | connect => exact (asked h).elim
    | close id =>
      simp only [doneBy, closings] at h
      split at h <;> simp at h
    | _ => cases h
  · simp at h
  · exact (told h).elim
  · exact (told h).elim
  · cases h
  · cases h

/-- A slot is bound without a descriptor only if it has lost it. -/
theorem stripped_of_bare {m₀ : Machine component} [Blank m₀] (x : Execution m₀) {b : Bound}
    (hi : x.machine.state.slots[i]? = some (.bound b)) (hb : b.descriptor = none) :
    ∃ q ∈ x.past, Strips q i := by
  have h := x.run.config_induction
    (fun past c => ∀ b, c.state.slots[i]? = some (.bound b) → b.descriptor = none →
      .stripped i ∈ deeds past) ?_ fun past c cause c' ih hstep b hi hb => ?_
  · rw [Machine.config_state] at h
    obtain ⟨q, hq, hdeed⟩ := List.mem_flatMap.mp (h b hi hb)
    exact ⟨q, hq, strips_of_deed hdeed⟩
  · obtain ⟨reachable, whims, rfl⟩ := Blank.opens (m := m₀)
    intro b hi
    cases hi
  · rw [deeds_append]
    rcases (step_move hstep).bare hi hb with h | h
    · exact List.mem_append_left _ (ih b h hb)
    · exact List.mem_append_right _ h

/-! ### What is answered -/

/-- A call that answers is answered, and what nobody owns afterwards is closed. -/
theorem answers_of_reply {act : Action} {a : Answer} {P : Sockets → Prop}
    (hrun : m.control = .run (.own act))
    (hnext : (m.state.run m.view act).next = .reply (.own a))
    (h : P (m.state.run m.view act).state.reap) : Answers m a P := by
  have hstep := Machine.step?_own hrun
  have hnext : (component.exec m.view m.state act).next = .reply (.own a) := hnext
  rw [Machine.take_reply hnext] at hstep
  refine ⟨_, hstep, rfl, ?_⟩
  show P (m.hear (component.exec m.view m.state act)).state
  rw [Machine.hear_state]
  exact h

theorem stage_of_slot {st : Stage} (hi : s.slots[i]? = some st) : s.stageOf (.shared i) = st := by
  simp [Sockets.stageOf, hi]

/-- A call that is answered with a failure at once leaves everything as it was. -/
theorem refuses_of_reply {m₀ : Machine component} [Blank m₀] (x : Execution m₀) {act : Action}
    {f : Fault} (t : System) (hrun : x.machine.control = .run (.own act))
    (hturn : x.machine.state.run x.machine.view act =
      { x.machine.state with system := x.machine.state.system.undo t }.reply (.failed f)) :
    Refuses x.machine (x.machine.state.system.undo t) f := by
  have hstep := Machine.step?_own hrun
  have hexec : component.exec x.machine.view x.machine.state act =
      Sockets.tidy ({ x.machine.state with
        system := x.machine.state.system.undo t }.reply (.failed f)) :=
    congrArg Sockets.tidy hturn
  rw [hexec, take_undone x t] at hstep
  exact hstep

section Calls

variable {m₀ : Machine component} [Blank m₀] (x : Execution m₀) {target : Target}
  {type : SocketType} {backlog : Int32} {a : Address}

theorem bind_refuses {p : Plan} {left : System} {f : Fault}
    (hrun : x.machine.control = .run (.own (.bind id target type)))
    (hh : x.machine.state.handle? id = some (.shared i))
    (ha : x.machine.state.resolve target = some a)
    (hi : x.machine.state.slots[i]? = some (.unbound p))
    (hf : p.Fails x.machine.state.system a type left f) : Refuses x.machine left f := by
  obtain ⟨t, rfl⟩ := hf.undone
  refine refuses_of_reply x t hrun ?_
  simp only [Sockets.run, withAddress_eq ha, withHandle_eq hh, Sockets.bind, stage_of_slot hi,
    bind_of_fails ((lively x).unbound i p hi) hf]
  rfl

theorem bind_succeeds {p : Plan} {system : System} {d : Nat}
    (hrun : x.machine.control = .run (.own (.bind id target type)))
    (hh : x.machine.state.handle? id = some (.shared i))
    (ha : x.machine.state.resolve target = some a)
    (hi : x.machine.state.slots[i]? = some (.unbound p))
    (hb : p.Binds x.machine.state.system a type system d) :
    Answers x.machine .succeeded fun s => s.slots[i]? = some (.bound ⟨some d, p.limits⟩) := by
  have hturn : x.machine.state.run x.machine.view (.bind id target type) =
      ({ x.machine.state with system }.setStage id (.shared i)
        (.bound ⟨some d, p.limits⟩)).reply .succeeded := by
    simp only [Sockets.run, withAddress_eq ha, withHandle_eq hh, Sockets.bind, stage_of_slot hi,
      bind_of_binds ((lively x).unbound i p hi) hb]
  refine answers_of_reply hrun (by rw [hturn]; rfl) ?_
  rw [hturn]
  exact List.getElem?_set_self (List.getElem?_eq_some_iff.mp hi).1

variable {b : Bound} {d : Nat}

theorem listen_closed (hrun : x.machine.control = .run (.own (.listen id backlog)))
    (hh : x.machine.state.handle? id = some (.shared i))
    (hi : x.machine.state.slots[i]? = some (.bound b)) (hb : b.descriptor = none) :
    Refuses x.machine x.machine.state.system .closed := by
  refine refuses_of_reply x x.machine.state.system hrun ?_
  have hopened : opened b.descriptor = .error .closed := by rw [hb]; rfl
  simp only [Sockets.run, withHandle_eq hh, Sockets.listen, stage_of_slot hi, hopened]
  rfl

theorem listen_refuses {e : OsError} (hrun : x.machine.control = .run (.own (.listen id backlog)))
    (hh : x.machine.state.handle? id = some (.shared i))
    (hi : x.machine.state.slots[i]? = some (.bound b)) (hd : opened b.descriptor = .ok d)
    (he : x.machine.state.system.listen d backlog = .error e) :
    Refuses x.machine x.machine.state.system (.ofOs .listen e) := by
  refine refuses_of_reply x x.machine.state.system hrun ?_
  simp only [Sockets.run, withHandle_eq hh, Sockets.listen, stage_of_slot hi, hd, he]
  rfl

theorem listen_succeeds {m : Machine component} {system left : System}
    (hrun : m.control = .run (.own (.listen id backlog)))
    (hh : m.state.handle? id = some (.shared i)) (hi : m.state.slots[i]? = some (.bound b))
    (hd : opened b.descriptor = .ok d) (hlisten : m.state.system.listen d backlog = .ok system)
    (hheed : system.heed = (left, .ok ())) :
    Answers m .succeeded fun s => ∃ l, s.slots[i]? = some (.listening l) ∧ s.ListensOn l d := by
  let l : Listener := { descriptor := some d, limits := b.limits }
  have hturn : m.state.run m.view (.listen id backlog) =
      ({ m.state with system := left, listeners := m.state.listeners ++ [l] }.setStage id
        (.shared i) (.listening m.state.listeners.length)).reply .succeeded := by
    simp only [Sockets.run, withHandle_eq hh, Sockets.listen, stage_of_slot hi, hd, hlisten, hheed]
    rfl
  refine answers_of_reply hrun (by rw [hturn]; rfl) ?_
  rw [hturn]
  exact ⟨_, List.getElem?_set_self (List.getElem?_eq_some_iff.mp hi).1,
    l, List.getElem?_concat_length, rfl⟩

/-- A descriptor that cannot be watched is given up. -/
theorem listen_strips {system left : System} {e : OsError}
    (hrun : x.machine.control = .run (.own (.listen id backlog)))
    (hh : x.machine.state.handle? id = some (.shared i))
    (hi : x.machine.state.slots[i]? = some (.bound b)) (hd : opened b.descriptor = .ok d)
    (hlisten : x.machine.state.system.listen d backlog = .ok system)
    (hheed : system.heed = (left, .error e)) :
    Answers x.machine (.failed (.ofOs .listen e)) fun s =>
      s.slots[i]? = some (.bound { b with descriptor := none }) ∧ s.system.isOpen d = false := by
  have hst := stage_of_slot hi
  let s : Sockets := { x.machine.state with system := left }.setStage id (.shared i)
    (.bound { b with descriptor := none })
  have hturn : x.machine.state.run x.machine.view (.listen id backlog) =
      s.reply (.failed (.ofOs .listen e)) := by
    simp only [Sockets.run, withHandle_eq hh, Sockets.listen, hst, hd, hlisten, hheed]
    rfl
  have hopen : Sockets.stageOf { x.machine.state with system := left } (.shared i) ≠ .closed := by
    have : Sockets.stageOf { x.machine.state with system := left } (.shared i) = .bound b := hst
    simp [this]
  have hy : x.machine.state.Yields s :=
    (Sockets.Yields.withSystem ((System.listen_thins hlisten).trans
      (System.retains_of_heed hheed).thins)).trans (.strip id hopen b.limits)
  have hold : x.machine.state.Claims (.owner (.slot i)) d := ⟨_, hi, held_of_opened hd⟩
  have hgone : ¬s.Claims (.owner (.slot i)) d := Sockets.not_owns_closed (h := .shared i) rfl
  obtain ⟨hclaims, hunowned⟩ := (titled x).given_up (hy.withholds d) hold hgone
  refine answers_of_reply hrun (by rw [hturn]; rfl) ?_
  rw [hturn]
  exact ⟨List.getElem?_set_self (List.getElem?_eq_some_iff.mp hi).1,
    Sockets.shut_reap hunowned hclaims⟩

theorem connect_succeeds {m : Machine component} {ticket : Option String} {context : String}
    {c : Context} (hrun : m.control = .run (.own (.connect id target type ticket context)))
    (hh : m.state.handle? id = some (.shared i)) (ha : m.state.resolve target = some a)
    (hc : m.view.context? context = some c)
    (ht : ∀ name, ticket = some name → (m.state.tickets.sources.lookup name).isSome)
    (hi : m.state.slots[i]? = some (.bound b)) :
    Answers m .succeeded fun s => ∃ n, s.slots[i]? = some (.connecting n) ∧
      ∃ z, s.attempts[n]? = some z ∧ z.prepared = opened b.descriptor := by
  obtain ⟨t, hturn⟩ := run_connect_eq (s := m.state) hh ha hc ht
  have hstart : m.state.connect id (.shared i) a type t c =
      m.state.startAttempt id (.shared i)
        { prepared := opened b.descriptor, target := a, ticket := t, context := c
          limits := b.limits, slot := some i } := by
    simp only [Sockets.connect, stage_of_slot hi]
    rfl
  rw [hstart] at hturn
  refine answers_of_reply hrun (by rw [hturn]; rfl) ?_
  rw [hturn]
  exact ⟨_, List.getElem?_set_self (List.getElem?_eq_some_iff.mp hi).1, _,
    List.getElem?_concat_length, rfl⟩

end Calls

/-- Shared sockets whose binding or listening fails are as they were. -/
theorem refusal_contract {reachable : Bool} {whims : List Whim}
    (x : Execution (opening reachable whims)) (i : Nat) : RefusalContract x i where
  bind id target type a p hrun hh ha hi :=
    ⟨fun left f hf => ⟨hf.undone, bind_refuses x hrun hh ha hi hf⟩,
      fun system d => bind_succeeds x hrun hh ha hi, fails_or_binds p x.machine.state.system a type⟩
  listen id backlog b d hrun hh hi hb := by
    have hopened : opened b.descriptor = .ok d := by rw [hb]; rfl
    refine ⟨fun e => listen_refuses x hrun hh hi hopened, fun system left r hlisten hheed => ?_⟩
    split
    · exact listen_succeeds hrun hh hi hopened hlisten hheed
    · exact listen_strips x hrun hh hi hopened hlisten hheed
  connect id target type ticket context a c b hrun hh ha hc ht hi :=
    connect_succeeds hrun hh ha hc ht hi
  bare b hi hb := ⟨stripped_of_bare x hi hb, fun id backlog hrun hh => listen_closed x hrun hh hi hb⟩

/-- A socket is given an address that is taken, and then one that is free. It cannot listen on it,
and connects. Another one listens, but the system runs out of memory when it is to be watched. -/
def turnedAway : Execution (opening false [.obey, .obey, .obey, .obey, .fail 12]) :=
  let path (n : UInt8) : Target := .known (.unix ((UnixPath.ofBytes? [n]).getD .unnamed))
  (ExecutionBy.begin (opening false [.obey, .obey, .obey, .obey, .fail 12])).perform 10
    [.own (.socket "first" true [] default), .own (.bind "first" (path 112) .datagram),
      .own (.socket "second" true [⟨1, 2, .int 1⟩] default),
      .own (.bind "second" (path 112) .datagram), .own (.bind "second" (path 113) .datagram),
      .own (.listen "second" 1), .own (.socket "third" true [] default),
      .own (.bind "third" (path 114) .stream), .own (.listen "third" 1),
      .own (.connect "second" (path 112) .datagram none "")]

set_option maxRecDepth 8000 in
theorem refusal_contract_turnedAway :
    turnedAway.machine.state.system.descriptors.map (·.closed) = [false, false, true] ∧
    turnedAway.machine.state.attempts.map (fun z => (z.prepared, z.progress)) =
      [(.ok 1, .delivered (.ok 0))] ∧
    RefusalContract turnedAway 1 ∧ ∃ q ∈ turnedAway.past, Strips q 2 :=
  ⟨rfl, rfl, refusal_contract turnedAway 1, ((refusal_contract turnedAway 2).bare _ rfl rfl).1⟩

end Contract

end Conduit.Socket
