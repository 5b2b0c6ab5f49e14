import Conduit.Cancel.Cascade
import Conduit.Proofs.Dispatch.Run

/-!
What tickets do in a run: handlers are registered, attempts to cancel are made and answered, handlers
react and their callbacks start. All of it is read off the turns of the run. A handler has a number,
and handlers are numbered in the order in which they are registered, on whatever ticket.
-/

namespace Conduit.Cancel

open Dispatch

/-- How a handler reacts: its callback is run in line or handed to a context, or its link is
followed. -/
inductive Way where
  | inLine
  | on (c : Context)
  | link

inductive Deed where
  /-- A handler was registered on a ticket that had the reason `found`. -/
  | registered (ticket number : Nat) (found : Option Reason)
  /-- Someone tried to cancel a ticket, and the ticket had no reason if `first`. -/
  | attempted (ticket : Nat) (reason : Reason) (first : Bool)
  /-- An attempt to cancel a ticket gave its answer. -/
  | answered (ticket : Nat) (first : Bool)
  /-- A handler of a ticket reacted; if `late`, in the turn in which it was registered. -/
  | reacted (ticket number : Nat) (reason : Reason) (way : Way) (late : Bool)
  /-- The callback of a handler started. -/
  | started (number : Nat) (reason : Reason)
  /-- A throw passed the round of a ticket, and these handlers were left in it. -/
  | broken (ticket : Nat) (left : List Nat)

/-- The callback that a turn runs or hands to a context is that of a handler of the ticket. -/
def handed (t : Nat) (late : Bool) : Next signature → List Deed
  | .enter (.call n _ r :: _) => [.reacted t n r .inLine late]
  | .perform c (.call n _ r) _ => [.reacted t n r (.on c) late]
  | _ => []

/-- The answer that a turn gives to an attempt. -/
def answer (t : Nat) : Next signature → List Deed
  | .reply (.own (.fired first)) => [.answered t first]
  | _ => []

/-- The ticket on which an action registers a callback. -/
def registers? (view : View) (s : Tickets) : Action → Option Nat
  | .handler ticket _ none _ _ => s.ticket? ticket
  | .handler ticket _ (some name) _ _ =>
    if (view.context? name).isSome then s.ticket? ticket else none
  | _ => none

/-- The ticket that an action tries to cancel. -/
def cancels? (s : Tickets) : Action → Option Nat
  | .cancel id => s.sources.lookup id
  | _ => none

/-- What is done when a new ticket is linked to others. A link to a ticket that has a reason is
followed at once. -/
def linkDeeds (s : Tickets) (target : Nat) : List Nat → List Deed
  | [] => []
  | t :: ts =>
    (match s.reason? t with
    | none => [.registered t s.registered none]
    | some r =>
      [.registered t s.registered (some r), .reacted t s.registered r .link true,
        .attempted target r (s.reason? target).isNone,
        .answered target (s.reason? target).isNone]) ++
      linkDeeds (s.link target t) target ts

/-- The tickets that an action links a new one to. -/
def links? (s : Tickets) : Action → List Nat
  | .linked _ ids => ids.filterMap s.ticket?
  | _ => []

/-- What is done when an action runs. -/
def execDeeds (view : View) (s : Tickets) (a : Action) : List Deed :=
  (registers? view s a).toList.flatMap (fun t =>
    .registered t s.registered (s.reason? t) :: handed t true (exec view s a).next) ++
  (cancels? s a).toList.flatMap (fun t =>
    .attempted t .requested (s.reason? t).isNone :: answer t (exec view s a).next) ++
  linkDeeds s.addTicket s.tickets.length (links? s a)

/-- What is done when the link to a ticket is followed. A ticket that nobody refers to is left
alone. -/
def followDeeds (s : Tickets) (target : Nat) (reason : Reason) : List Deed :=
  if s.Alive target then
    .attempted target reason (s.reason? target).isNone ::
      if (s.reason? target).isSome then [.answered target false] else []
  else []

/-- What is done when a round goes on. -/
def roundDeeds (s : Tickets) (t : Nat) (reason : Reason) (rest : List Handler)
    (after : Reply Answer) : List Deed :=
  match rest with
  | [] => answer t (resume s (.round t reason rest after)).next
  | ⟨_, .callback _ _⟩ :: _ => handed t false (resume s (.round t reason rest after)).next
  | ⟨n, .link target⟩ :: _ => .reacted t n reason .link false :: followDeeds s target reason

/-- The ticket that a timer tries to cancel when it is served. -/
def expires? (s : Tickets) (k : Nat) : Option Nat :=
  (s.timers[k]?.filter fun timer => timer.finished = false ∧
    timer.due.getD (s.clock + timer.ms) ≤ s.clock ∧ s.Alive timer.ticket).map (·.ticket)

/-- What is done at a moment. -/
def deedsAt : Moment component → List Deed
  | ⟨s, .exec view a⟩ => execDeeds view s a
  | ⟨s, .resume (.round t reason rest after)⟩ => roundDeeds s t reason rest after
  | ⟨_, .resume (.call n _ reason)⟩ => [.started n reason]
  | ⟨s, .poll (.timer k)⟩ => (expires? s k).toList.flatMap fun t =>
      .attempted t .timeout (s.reason? t).isNone :: answer t (poll s (.timer k)).next
  | ⟨_, .unwind (.round t _ rest _)⟩ => [.broken t (rest.map (·.number))]
  | _ => []

/-- What was done at the moments of a run, in order. -/
def deeds (past : List (Moment component)) : List Deed := past.flatMap deedsAt

/-- No tickets yet. -/
def initial : Machine component := { state := ({} : Tickets) }

/-- What was done in an execution. -/
def history {m : Machine component} (x : Execution m) : List Deed := deeds x.past

@[simp] def Deed.attempt? (t : Nat) : Deed → Option (Reason × Bool)
  | .attempted t' r first => if t' = t then some (r, first) else none
  | _ => none

/-- The attempts to cancel a ticket, in order: the reason, and whether it was the first. -/
def attempts (t : Nat) (h : List Deed) : List (Reason × Bool) := h.filterMap (·.attempt? t)

@[simp] def Deed.answer? (t : Nat) : Deed → Option Bool
  | .answered t' first => if t' = t then some first else none
  | _ => none

/-- The answers that attempts to cancel a ticket got. -/
def answers (t : Nat) (h : List Deed) : List Bool := h.filterMap (·.answer? t)

@[simp] def Deed.number? : Deed → Option Nat
  | .registered _ n _ => some n
  | _ => none

/-- The handlers that were registered, in order. -/
def numbers (h : List Deed) : List Nat := h.filterMap (·.number?)

@[simp] def Deed.early? (t : Nat) : Deed → Option Nat
  | .registered t' n none => if t' = t then some n else none
  | _ => none

/-- The handlers that were registered on a ticket before it had a reason, in order. -/
def early (t : Nat) (h : List Deed) : List Nat := h.filterMap (·.early? t)

@[simp] def Deed.late? (t : Nat) : Deed → Option Nat
  | .registered t' n (some _) => if t' = t then some n else none
  | _ => none

/-- The handlers that were registered on a ticket when it had a reason, in order. -/
def late (t : Nat) (h : List Deed) : List Nat := h.filterMap (·.late? t)

@[simp] def Deed.reaction? (t : Nat) (l : Bool) : Deed → Option Nat
  | .reacted t' n _ _ l' => if t' = t ∧ l' = l then some n else none
  | _ => none

/-- The handlers of a ticket that reacted in a round or, if `l`, when they were registered. -/
def reactions (t : Nat) (l : Bool) (h : List Deed) : List Nat := h.filterMap (·.reaction? t l)

@[simp] def Deed.left? (t : Nat) : Deed → Option (List Nat)
  | .broken t' left => if t' = t then some left else none
  | _ => none

/-- What was left in the rounds of a ticket that a throw passed. -/
def breaks (t : Nat) (h : List Deed) : List (List Nat) := h.filterMap (·.left? t)

@[simp] def Deed.response? : Deed → Option (Nat × Reason)
  | .reacted _ n r _ _ => some (n, r)
  | _ => none

/-- The handlers that reacted, on whatever ticket, and the reasons that they were given. -/
def responses (h : List Deed) : List (Nat × Reason) := h.filterMap (·.response?)

@[simp] def Deed.start? : Deed → Option (Nat × Reason)
  | .started n r => some (n, r)
  | _ => none

/-- The handlers whose callbacks started, in order, and the reasons that they were given. -/
def starts (h : List Deed) : List (Nat × Reason) := h.filterMap (·.start?)

section Reading

variable (t : Nat) (l : Bool) (e : Deed) (h h' : List Deed)

@[simp] theorem deeds_append (past later : List (Moment component)) :
    deeds (past ++ later) = deeds past ++ deeds later := List.flatMap_append

theorem filterMap_cons_toList {α β : Type} (f : α → Option β) (a : α) (as : List α) :
    (a :: as).filterMap f = (f a).toList ++ as.filterMap f := by
  cases ha : f a <;> simp [ha]

@[simp] theorem attempts_nil : attempts t [] = [] := rfl

@[simp] theorem attempts_cons : attempts t (e :: h) = (e.attempt? t).toList ++ attempts t h :=
  filterMap_cons_toList ..

@[simp] theorem attempts_append : attempts t (h ++ h') = attempts t h ++ attempts t h' :=
  List.filterMap_append

@[simp] theorem answers_nil : answers t [] = [] := rfl

@[simp] theorem answers_cons : answers t (e :: h) = (e.answer? t).toList ++ answers t h :=
  filterMap_cons_toList ..

@[simp] theorem answers_append : answers t (h ++ h') = answers t h ++ answers t h' :=
  List.filterMap_append

@[simp] theorem numbers_nil : numbers [] = [] := rfl

@[simp] theorem numbers_cons : numbers (e :: h) = e.number?.toList ++ numbers h :=
  filterMap_cons_toList ..

@[simp] theorem numbers_append : numbers (h ++ h') = numbers h ++ numbers h' :=
  List.filterMap_append

@[simp] theorem early_nil : early t [] = [] := rfl

@[simp] theorem early_cons : early t (e :: h) = (e.early? t).toList ++ early t h :=
  filterMap_cons_toList ..

@[simp] theorem early_append : early t (h ++ h') = early t h ++ early t h' :=
  List.filterMap_append

@[simp] theorem late_nil : late t [] = [] := rfl

@[simp] theorem late_cons : late t (e :: h) = (e.late? t).toList ++ late t h :=
  filterMap_cons_toList ..

@[simp] theorem late_append : late t (h ++ h') = late t h ++ late t h' :=
  List.filterMap_append

@[simp] theorem reactions_nil : reactions t l [] = [] := rfl

@[simp] theorem reactions_cons : reactions t l (e :: h) = (e.reaction? t l).toList ++ reactions t l h :=
  filterMap_cons_toList ..

@[simp] theorem reactions_append : reactions t l (h ++ h') = reactions t l h ++ reactions t l h' :=
  List.filterMap_append

@[simp] theorem breaks_nil : breaks t [] = [] := rfl

@[simp] theorem breaks_cons : breaks t (e :: h) = (e.left? t).toList ++ breaks t h :=
  filterMap_cons_toList ..

@[simp] theorem breaks_append : breaks t (h ++ h') = breaks t h ++ breaks t h' :=
  List.filterMap_append

@[simp] theorem responses_nil : responses [] = [] := rfl

@[simp] theorem responses_cons : responses (e :: h) = e.response?.toList ++ responses h :=
  filterMap_cons_toList ..

@[simp] theorem responses_append : responses (h ++ h') = responses h ++ responses h' :=
  List.filterMap_append

@[simp] theorem starts_nil : starts [] = [] := rfl

@[simp] theorem starts_cons : starts (e :: h) = e.start?.toList ++ starts h :=
  filterMap_cons_toList ..

@[simp] theorem starts_append : starts (h ++ h') = starts h ++ starts h' :=
  List.filterMap_append

theorem mem_early {t n : Nat} {h : List Deed} :
    n ∈ early t h ↔ .registered t n none ∈ h := by
  induction h with
  | nil => simp
  | cons e h ih =>
    rw [early_cons, List.mem_append, ih, List.mem_cons]
    refine or_congr_left ?_
    cases e with
    | registered t' n' found => cases found <;> simp [eq_comm]
    | _ => simp

theorem mem_late {t n : Nat} {h : List Deed} :
    n ∈ late t h ↔ ∃ r, .registered t n (some r) ∈ h := by
  induction h with
  | nil => simp
  | cons e h ih =>
    rw [late_cons, List.mem_append, ih]
    simp only [List.mem_cons, exists_or]
    refine or_congr_left ?_
    cases e with
    | registered t' n' found => cases found <;> simp [eq_comm]
    | _ => simp

theorem mem_reactions {t n : Nat} {l : Bool} {h : List Deed} :
    n ∈ reactions t l h ↔ ∃ r way, .reacted t n r way l ∈ h := by
  induction h with
  | nil => simp
  | cons e h ih =>
    rw [reactions_cons, List.mem_append, ih]
    simp only [List.mem_cons, exists_or]
    refine or_congr_left ?_
    cases e with
    | reacted => simp only [Deed.reaction?, Option.mem_toList, Deed.reacted.injEq]; grind
    | _ => simp

theorem mem_responses {n : Nat} {r : Reason} {h : List Deed} :
    (n, r) ∈ responses h ↔ ∃ t way l, .reacted t n r way l ∈ h := by
  induction h with
  | nil => simp
  | cons e h ih =>
    rw [responses_cons, List.mem_append, ih]
    simp only [List.mem_cons, exists_or]
    refine or_congr_left ?_
    cases e <;> simp [eq_comm]

theorem mem_starts {n : Nat} {r : Reason} {h : List Deed} :
    (n, r) ∈ starts h ↔ .started n r ∈ h := by
  induction h with
  | nil => simp
  | cons e h ih =>
    rw [starts_cons, List.mem_append, ih, List.mem_cons]
    refine or_congr_left ?_
    cases e <;> simp [eq_comm]

end Reading

/-- Handlers are left in a round only when a throw passes it. -/
theorem broken_passed {q : Moment component} {t : Nat} {left : List Nat}
    (h : .broken t left ∈ deedsAt q) : q.passed = true := by
  have hhanded (u : Nat) (l : Bool) (next : Next signature) : .broken t left ∉ handed u l next := by
    unfold handed
    split <;> simp
  have hanswer (u : Nat) (next : Next signature) : .broken t left ∉ answer u next := by
    unfold answer
    split <;> simp
  have hlinks (s : Tickets) (target : Nat) (ts : List Nat) :
      .broken t left ∉ linkDeeds s target ts := by
    induction ts generalizing s with
    | nil => simp [linkDeeds]
    | cons u ts ih =>
      unfold linkDeeds
      cases s.reason? u <;> simp [ih]
  obtain ⟨s, cause⟩ := q
  cases cause with
  | exec view a => simp [deedsAt, execDeeds, hhanded, hanswer, hlinks] at h
  | resume f =>
    cases f with
    | round u r rest after =>
      cases rest with
      | nil => exact (hanswer _ _ h).elim
      | cons a rest =>
        obtain ⟨n, reaction⟩ := a
        cases reaction with
        | callback => exact (hhanded _ _ _ h).elim
        | link target =>
          simp only [deedsAt, roundDeeds, followDeeds] at h
          split at h
          · split at h <;> simp at h
          · simp at h
    | call => simp [deedsAt] at h
  | unwind => rfl
  | poll task =>
    cases task with
    | waiter => simp [deedsAt] at h
    | timer k => simp [deedsAt, hanswer] at h
  | tick => simp [deedsAt] at h

theorem breaks_of_undisturbed {past : List (Moment component)} (hu : Undisturbed past) (t : Nat) :
    breaks t (deeds past) = [] := by
  refine List.filterMap_eq_nil_iff.mpr fun d hd => ?_
  obtain ⟨q, hq, hd⟩ := List.mem_flatMap.mp hd
  cases d with
  | broken u left => simpa [hu q hq] using broken_passed hd
  | _ => rfl

end Conduit.Cancel
