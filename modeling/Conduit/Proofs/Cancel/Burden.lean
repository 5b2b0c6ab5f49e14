import Conduit.Cancel.Cascade
import Conduit.Proofs.Dispatch.Tariff

/-!
What a cancellation costs. The price of a handler is that of its script, with all that the script
registers in turn; a ticket holds back the prices of its handlers, and gives them up when it is
cancelled. So every turn is cheaper than what it is for, although handlers cancel, link and register
anew.
-/

namespace Conduit.Cancel

open Dispatch

mutual

/-- The price of an action: the step itself, and the handlers that it registers. -/
def Action.price : Action → Nat
  | .linked _ ids => 2 * ids.length + 1
  | .cancel _ => 2
  | .handler _ _ _ script _ => scriptPrice script + 5
  | .source _ | .never _ | .keep _ _ | .drop _ | .cancelAfter _ _ | .timeout _ _ | .wait _ _
  | .describe _ => 1

def scriptPrice : List (Op Action) → Nat
  | [] => 0
  | op :: ops => opPrice op + 1 + scriptPrice ops

def opPrice : Op Action → Nat
  | .context _ => 1
  | .own a => a.price

end

def Callback.price (c : Callback) : Nat := scriptPrice c.script + 1

/-- A callback may have to wait in line before it is run; a link may cancel another ticket. -/
def Handler.price (a : Handler) : Nat :=
  match a.reaction with
  | .callback c _ => c.price + 3
  | .link _ => 2

def handlersPrice (hs : List Handler) : Nat := (hs.map Handler.price).sum

def Frame.price : Frame → Nat
  | .round _ _ rest _ => handlersPrice rest + 1
  | .call _ c _ => c.price

/-- What tickets hold back. -/
def Tickets.price (s : Tickets) : Nat := (s.tickets.map fun k => handlersPrice k.handlers).sum

/-- The tariff of tickets. -/
def tariff : Tariff component := ⟨Action.price, Frame.price, Tickets.price⟩

theorem tariff_script (ops : List (Op Action)) : tariff.script ops = scriptPrice ops := by
  induction ops with
  | nil => rfl
  | cons op ops ih =>
    rw [Tariff.script_cons, ih, scriptPrice]
    cases op <;> rfl

@[simp] theorem handlersPrice_nil : handlersPrice [] = 0 := rfl

@[simp] theorem handlersPrice_cons (a : Handler) (hs : List Handler) :
    handlersPrice (a :: hs) = a.price + handlersPrice hs := by
  simp [handlersPrice]

/-! ### What tickets hold back -/

namespace Tickets

variable {s : Tickets} {t : Nat}

theorem price_addTicket (s : Tickets) : s.addTicket.price = s.price := by
  simp [price, addTicket]

/-- A ticket that is cancelled gives up its handlers. -/
theorem price_settle (s : Tickets) (t : Nat) (r : Reason) :
    (s.settle t r).price + handlersPrice (s.handlersOf t) = s.price := by
  cases ht : s.tickets[t]? with
  | none =>
    have hset : s.tickets.set t { reason := some r, handlers := [] } = s.tickets :=
      List.set_eq_of_length_le (List.getElem?_eq_none_iff.mp ht)
    simp [price, settle, handlersOf, ht, hset]
  | some k =>
    have h := Tariff.sum_set (l := s.tickets.map fun k => handlersPrice k.handlers) (i := t) (a := 0)
      (b := handlersPrice k.handlers) (by simp [ht])
    rw [show handlersPrice (s.handlersOf t) = handlersPrice k.handlers by simp [handlersOf, ht]]
    simpa [price, settle, List.map_set] using h

/-- A ticket keeps another handler. -/
theorem price_addHandler (s : Tickets) (t : Nat) (a : Reaction) :
    (s.addHandler t a).price ≤ s.price + Handler.price ⟨s.registered, a⟩ := by
  cases ht : s.tickets[t]? with
  | none =>
    have hsame := List.modify_eq_self (f := fun k : Ticket =>
      { k with handlers := k.handlers ++ [⟨s.registered, a⟩] }) (List.getElem?_eq_none_iff.mp ht)
    simp [price, addHandler, hsame]
  | some k =>
    have h := Tariff.sum_set (l := s.tickets.map fun k => handlersPrice k.handlers) (i := t)
      (a := handlersPrice (k.handlers ++ [⟨s.registered, a⟩])) (b := handlersPrice k.handlers)
      (by simp [ht])
    have happend : handlersPrice (k.handlers ++ [⟨s.registered, a⟩]) =
        handlersPrice k.handlers + Handler.price ⟨s.registered, a⟩ := by simp [handlersPrice]
    rw [happend] at h
    have hprice : (s.addHandler t a).price = ((s.tickets.map fun k => handlersPrice k.handlers).set t
        (handlersPrice k.handlers + Handler.price ⟨s.registered, a⟩)).sum := by
      simp [price, addHandler, List.modify_eq_set, List.map_set, ht, happend]
    rw [hprice, price]
    omega

/-- Each link that is made costs as much as it may cost to follow it. -/
theorem price_link (s : Tickets) (target t : Nat) : (s.link target t).price ≤ s.price + 2 := by
  unfold link
  split
  · exact s.price_addHandler t (.link target)
  · have h := s.number.price_settle target ‹_›
    have hnumber : s.number.price = s.price := rfl
    split
    · omega
    · omega

theorem price_addLinked (s : Tickets) (id : String) (ts : List Nat) :
    (s.addLinked id ts).price ≤ s.price + 2 * ts.length := by
  have hlinks (target : Nat) (s : Tickets) :
      (ts.foldl (fun s t => s.link target t) s).price ≤ s.price + 2 * ts.length := by
    induction ts generalizing s with
    | nil => exact Nat.le_refl _
    | cons t ts ih =>
      have hlink := s.price_link target t
      have hrest := ih (s.link target t)
      rw [List.foldl_cons, List.length_cons]
      omega
  have h := hlinks s.tickets.length s.addTicket
  rw [price_addTicket] at h
  exact h

end Tickets

/-! ### Every turn is paid for -/

section Turns

variable (k : List Frame)

theorem tariff_turn (t : Turn signature) : tariff.turn t = t.state.price + tariff.next t.next := rfl

@[simp] theorem tariff_frames_nil : tariff.frames ([] : List Frame) = 0 := rfl

@[simp] theorem tariff_frames_cons (f : Frame) : tariff.frames (f :: k) = f.price + tariff.frames k :=
  Tariff.frames_cons tariff f k

@[simp] theorem tariff_reply (r : Reply Answer) : tariff.next (.reply r) = 0 := rfl

@[simp] theorem tariff_enter : tariff.next (.enter k) = tariff.frames k := rfl

@[simp] theorem tariff_perform (d : Context) (w : Frame) :
    tariff.next (.perform d w k) = w.price + 2 + tariff.frames k := rfl

@[simp] theorem tariff_next_script (tag : String) (ops : List (Op Action)) (throws : Bool) :
    tariff.next (.script tag ops throws k) = scriptPrice ops + tariff.frames k :=
  congrArg (· + tariff.frames k) (tariff_script ops)

/-- A ticket that is cancelled pays for its round with what it held back. -/
theorem turn_cancel (s : Tickets) (t : Nat) (r : Reason) :
    tariff.turn (cancel s t r k) ≤ s.price + 1 + tariff.frames k := by
  unfold cancel
  split
  · rw [tariff_turn]
    dsimp only
    split
    · rw [tariff_reply]
      omega
    · rw [tariff_enter]
      omega
  · have h := s.price_settle t r
    rw [tariff_turn, tariff_enter, tariff_frames_cons, Frame.price]
    dsimp only
    omega

/-- A handler that reacts pays for its callback, in line or not. -/
theorem next_start (n : Nat) (c : Callback) (context : Option Context) (r : Reason) :
    tariff.next (start n c context r k) ≤ c.price + 2 + tariff.frames k := by
  cases context with
  | none =>
    rw [start, tariff_enter, tariff_frames_cons, Frame.price]
    omega
  | some d => exact Nat.le_refl _

theorem turn_register (s : Tickets) (t : Nat) (c : Callback) (context : Option Context) :
    tariff.turn (register s t c context) ≤ s.price + (c.price + 3) := by
  unfold register
  split
  · exact s.price_addHandler t (.callback c context)
  · have h := next_start [] s.registered c context ‹_›
    have hnumber : s.number.price = s.price := rfl
    rw [tariff_frames_nil] at h
    rw [tariff_turn]
    dsimp only
    omega

theorem turn_exec (view : View) (s : Tickets) (a : Action) :
    tariff.turn (exec view s a) < s.price + a.price := by
  -- Most actions leave the handlers of all tickets as they are, and give a reply.
  have hreply {t : Turn signature} (hs : t.state.price = s.price) (hn : tariff.next t.next = 0)
      (ha : 0 < a.price) : tariff.turn t < s.price + a.price := by
    rw [tariff_turn, hs, hn]
    omega
  cases a with
  | source id | never id | timeout id ms =>
    exact hreply s.price_addTicket rfl (by simp [Action.price])
  | linked id ids =>
    have h := s.price_addLinked id (ids.filterMap s.ticket?)
    have hlen := List.length_filterMap_le s.ticket? ids
    have hturn : tariff.turn (exec view s (.linked id ids)) =
        (s.addLinked id (ids.filterMap s.ticket?)).price := rfl
    rw [hturn, Action.price]
    omega
  | drop id => exact hreply rfl rfl (by simp [Action.price])
  | keep id of =>
    simp only [exec]
    split <;> exact hreply rfl rfl (by simp [Action.price])
  | cancel id =>
    simp only [exec]
    split
    · exact hreply rfl rfl (by simp [Action.price])
    · have h := turn_cancel [] s ‹_› .requested
      rw [tariff_frames_nil] at h
      rw [Action.price]
      omega
  | cancelAfter id ms =>
    simp only [exec]
    split <;> exact hreply rfl rfl (by simp [Action.price])
  | handler ticket label context script throws =>
    have hregister (t : Nat) (d : Option Context) :
        tariff.turn (register s t ⟨label, script, throws⟩ d) <
          s.price + (Action.handler ticket label context script throws).price := by
      have h := turn_register s t ⟨label, script, throws⟩ d
      rw [Callback.price] at h
      rw [Action.price]
      dsimp only at h
      omega
    simp only [exec]
    split
    · exact hreply rfl rfl (by simp [Action.price])
    · split
      · exact hregister _ none
      · split
        · exact hreply rfl rfl (by simp [Action.price])
        · exact hregister _ (some _)
  | wait ticket label =>
    simp only [exec]
    split <;> exact hreply rfl rfl (by simp [Action.price])
  | describe id =>
    simp only [exec]
    split <;> exact hreply rfl rfl (by simp [Action.price])

theorem turn_resume (s : Tickets) (f : Frame) : tariff.turn (resume s f) < s.price + f.price := by
  cases f with
  | round t r rest after =>
    cases rest with
    | nil => exact Nat.lt_succ_self _
    | cons a rest =>
      obtain ⟨n, reaction⟩ := a
      rw [Frame.price, handlersPrice_cons]
      cases reaction with
      | callback c context =>
        have h := next_start [.round t r rest after] n c context r
        rw [tariff_frames_cons, tariff_frames_nil, Frame.price] at h
        rw [resume, tariff_turn, Handler.price]
        dsimp only
        omega
      | link target =>
        have h := turn_cancel [.round t r rest after] s target r
        rw [tariff_frames_cons, tariff_frames_nil, Frame.price] at h
        simp only [resume, Handler.price]
        split
        · omega
        · rw [tariff_turn, tariff_enter, tariff_frames_cons, tariff_frames_nil, Frame.price]
          dsimp only
          omega
  | call n c r =>
    rw [resume, tariff_turn, tariff_next_script, tariff_frames_nil, Frame.price, Callback.price]
    dsimp only
    omega

/-- All that tickets do is paid for. -/
theorem tariff_sound : tariff.Sound where
  exec := turn_exec
  resume := turn_resume
  unwind _ _ := Nat.le_refl _
  frame f := by cases f <;> exact Nat.succ_pos _

end Turns

end Conduit.Cancel
