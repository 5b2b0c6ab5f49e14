import Conduit.Proofs.Dispatch.Config

/-!
What a step of a machine does to the lines of its venues. A floor is what is left of a machine when
states, names and tasks of the component are forgotten: the venues, the stack on which they are
served, and what the journal tells of lines. Every step of a machine is a path of moves on its floor,
of which at most the last one is told in the journal.
-/

namespace Conduit.Dispatch

variable {C : Component}

/-! ### What the journal tells of a line -/

namespace Entry

/-- The work that joins the line of a venue. -/
def joins (v : Nat) : Entry C → Option C.Frame
  | .queued u work => if u = v then some work else none
  | _ => none

/-- The work that leaves the line of a venue and is begun. -/
def begins (v : Nat) : Entry C → Option C.Frame
  | .began u work => if u = v then some work else none
  | _ => none

/-- Whether a turn of a venue ends. -/
def ends (v : Nat) : Entry C → Bool
  | .ended (.venue u) => u = v
  | _ => false

/-- Whether the line of any venue is concerned. -/
def isOfLine : Entry C → Bool
  | .queued .. | .began .. | .ended (.venue _) => true
  | _ => false

variable {e : Entry C}

theorem eq_began {v : Nat} {w : C.Frame} (h : e.begins v = some w) : e = .began v w := by
  unfold begins at h
  split at h
  · split at h
    · rename_i hu
      cases h
      rw [hu]
    · cases h
  · cases h

theorem joins_of_other (h : e.isOfLine = false) (v : Nat) : e.joins v = none := by
  cases e <;> first | rfl | cases h

theorem begins_of_other (h : e.isOfLine = false) (v : Nat) : e.begins v = none := by
  cases e <;> first | rfl | cases h

theorem ends_of_other (h : e.isOfLine = false) (v : Nat) : e.ends v = false := by
  rcases e with _ | _ | _ | _ | (_ | _) <;> first | rfl | cases h

end Entry

/-- All work that has joined the line of a venue, oldest first. -/
def accepted (v : Nat) (journal : List (Entry C)) : List C.Frame :=
  (journal.filterMap (·.joins v)).reverse

/-- All work of a venue that has been begun, oldest first. -/
def begun (v : Nat) (journal : List (Entry C)) : List C.Frame :=
  (journal.filterMap (·.begins v)).reverse

/-- How many turns of a venue have ended. -/
def ended (v : Nat) (journal : List (Entry C)) : Nat := journal.countP (·.ends v)

section Journal

variable (v : Nat) (e : Entry C) (journal : List (Entry C))

@[simp] theorem accepted_cons :
    accepted v (e :: journal) = accepted v journal ++ (e.joins v).toList := by
  cases h : e.joins v <;> simp [accepted, h]

@[simp] theorem begun_cons : begun v (e :: journal) = begun v journal ++ (e.begins v).toList := by
  cases h : e.begins v <;> simp [begun, h]

@[simp] theorem ended_cons : ended v (e :: journal) = ended v journal + (e.ends v).toNat := by
  cases h : e.ends v <;> simp [ended, h]

@[simp] theorem accepted_filter :
    accepted v (journal.filter (·.isOfLine)) = accepted v journal := by
  induction journal with
  | nil => rfl
  | cons e journal ih =>
    cases h : e.isOfLine <;> simp [h, ih, Entry.joins_of_other]

@[simp] theorem begun_filter : begun v (journal.filter (·.isOfLine)) = begun v journal := by
  induction journal with
  | nil => rfl
  | cons e journal ih =>
    cases h : e.isOfLine <;> simp [h, ih, Entry.begins_of_other]

@[simp] theorem ended_filter : ended v (journal.filter (·.isOfLine)) = ended v journal := by
  induction journal with
  | nil => rfl
  | cons e journal ih =>
    cases h : e.isOfLine <;> simp [h, ih, Entry.ends_of_other]

end Journal

/-! ### Frames that belong to a line -/

namespace Frame

/-- A frame of a turn of a venue, or of the one who serves it. -/
def isOfLine : Frame C → Bool
  | .turn (.venue _) | .serve .. => true
  | _ => false

/-- A frame that neither belongs to a line nor moves one. -/
def isPlain : Frame C → Bool
  | .own _ | .script .. | .turn .pool | .task => true
  | _ => false

/-- The venue whose line a frame serves. -/
def serves? : Frame C → Option Nat
  | .serve v _ _ => some v
  | _ => none

theorem isOfLine_of_isPlain {f : Frame C} (h : f.isPlain) : f.isOfLine = false := by
  rcases f with _ | _ | (_ | _) | _ | _ | _ <;> simp_all [isPlain, isOfLine]

/-- Whether a frame is a turn of a venue. -/
def turns (v : Nat) : Frame C → Bool
  | .turn (.venue u) => u = v
  | _ => false

/-- A frame that serves the line of `v` serves it to the end. -/
def widen (v : Nat) : Frame C → Frame C
  | .serve w left after => .serve w (if w = v then none else left) after
  | f => f

end Frame

/-- The venues whose lines are being served. -/
def servings (stack : List (Frame C)) : List Nat := stack.filterMap (·.serves?)

/-- The venues that the reactor is to serve. -/
def lines (ready : List (Task C)) : List Nat :=
  ready.filterMap fun
    | .serve v => some v
    | .own _ => none

/-- Above everyone who serves a line there is the turn of the work that he has begun. -/
inductive Nested : List (Frame C) → Prop where
  | nil : Nested []
  | other {g k} (hg : g.isOfLine = false) (h : Nested k) : Nested (g :: k)
  | turn {v left after k} (h : Nested k) : Nested (.turn (.venue v) :: .serve v left after :: k)

/-! ### Stacks -/

section Stack

variable {g : Frame C} {k s : List (Frame C)} {v : Nat}

@[simp] theorem Frame.serves?_serve (left : Option Nat) (after : Reply C.Answer) :
    (Frame.serve v left after : Frame C).serves? = some v := rfl

@[simp] theorem Frame.serves?_turn (site : Site) : (Frame.turn site : Frame C).serves? = none := rfl

@[simp] theorem Frame.turns_serve (u : Nat) (left : Option Nat) (after : Reply C.Answer) :
    (Frame.serve v left after : Frame C).turns u = false := rfl

@[simp] theorem Frame.turns_turn (u : Nat) :
    (Frame.turn (.venue v) : Frame C).turns u = decide (v = u) := rfl

theorem Frame.serves?_of_other (h : g.isOfLine = false) : g.serves? = none := by
  cases g <;> first | rfl | cases h

theorem Frame.turns_of_other (h : g.isOfLine = false) (v : Nat) : g.turns v = false := by
  rcases g with _ | _ | (_ | _) | _ | _ | _ <;> first | rfl | cases h

@[simp] theorem Frame.serves?_widen (v : Nat) (g : Frame C) : (g.widen v).serves? = g.serves? := by
  cases g <;> rfl

@[simp] theorem Frame.turns_widen (v u : Nat) (g : Frame C) : (g.widen v).turns u = g.turns u := by
  rcases g with _ | _ | (_ | _) | _ | _ | _ <;> rfl

@[simp] theorem Frame.isOfLine_widen (v : Nat) (g : Frame C) :
    (g.widen v).isOfLine = g.isOfLine := by
  rcases g with _ | _ | (_ | _) | _ | _ | _ <;> rfl

@[simp] theorem servings_cons (g : Frame C) (k : List (Frame C)) :
    servings (g :: k) = g.serves?.toList ++ servings k := by
  cases h : g.serves? <;> simp [servings, h]

theorem servings_other (h : g.isOfLine = false) : servings (g :: k) = servings k := by
  simp [Frame.serves?_of_other h]

theorem countP_turns_other (h : g.isOfLine = false) (v : Nat) :
    (g :: k).countP (·.turns v) = k.countP (·.turns v) := by
  simp [Frame.turns_of_other h]

theorem servings_of_plain (hk : ∀ g ∈ k, g.isPlain) : servings (k ++ s) = servings s := by
  have h : servings k = [] := List.filterMap_eq_nil_iff.mpr fun g hg =>
    Frame.serves?_of_other (Frame.isOfLine_of_isPlain (hk g hg))
  rw [servings, List.filterMap_append]
  exact congrArg (· ++ servings s) h

theorem countP_turns_of_plain (hk : ∀ g ∈ k, g.isPlain) (v : Nat) :
    (k ++ s).countP (·.turns v) = s.countP (·.turns v) := by
  have h : k.countP (·.turns v) = 0 := List.countP_eq_zero.mpr fun g hg => by
    simp [Frame.turns_of_other (Frame.isOfLine_of_isPlain (hk g hg))]
  rw [List.countP_append, h, Nat.zero_add]

@[simp] theorem servings_widen (v : Nat) (s : List (Frame C)) :
    servings (s.map (·.widen v)) = servings s := by
  rw [servings, List.filterMap_map]
  exact congrArg (List.filterMap · s) (funext (Frame.serves?_widen v))

namespace Nested

theorem of_plain (h : Nested s) (hk : ∀ g ∈ k, g.isPlain) : Nested (k ++ s) := by
  induction k with
  | nil => exact h
  | cons g k ih =>
    refine .other (Frame.isOfLine_of_isPlain (hk g List.mem_cons_self)) (ih fun g' hg' => ?_)
    exact hk g' (List.mem_cons_of_mem g hg')

theorem widen (h : Nested s) (v : Nat) : Nested (s.map (·.widen v)) := by
  induction h with
  | nil => exact .nil
  | other hg _ ih => exact .other ((Frame.isOfLine_widen v _).trans hg) ih
  | turn _ ih => exact .turn ih

theorem not_serve {left : Option Nat} {after : Reply C.Answer} :
    ¬Nested (.serve v left after :: k) := by
  rintro ⟨⟩
  contradiction

theorem of_other (h : Nested (g :: k)) (hg : g.isOfLine = false) : Nested k := by
  cases h with
  | other _ h => exact h
  | turn _ => cases hg

/-- A venue whose line nobody serves has no turn. -/
theorem no_turn (h : Nested s) (hv : v ∉ servings s) : s.countP (·.turns v) = 0 := by
  induction h with
  | nil => rfl
  | other hg _ ih =>
    simp only [servings_cons, Frame.serves?_of_other hg, Option.toList_none, List.nil_append] at hv
    simp [Frame.turns_of_other hg, ih hv]
  | @turn w left after k _ ih =>
    simp only [servings_cons, List.mem_append, not_or] at hv
    have hw : w ≠ v := by
      rintro rfl
      exact hv.2.1 (by simp)
    simp [hw, ih hv.2.2]

/-- A venue has no more turns than there are who serve its line. -/
theorem turns_le (h : Nested s) (v : Nat) : s.countP (·.turns v) ≤ (servings s).count v := by
  induction h with
  | nil => exact Nat.zero_le _
  | other hg _ ih =>
    rw [countP_turns_other hg, servings_other hg]
    exact ih
  | @turn w left after k _ ih =>
    by_cases hw : w = v
    · subst hw
      simp [ih]
    · simp [hw, ih]

end Nested

end Stack

/-! ### Venues -/

namespace Venue

variable {W : Type} {q : Venue W}

/-- Nothing has been done with a venue. -/
structure IsNew (q : Venue W) : Prop where
  waiting : q.waiting = []
  accepting : q.accepting = true
  handle : q.handle = true

/-- The handle of a venue is taken when it stops taking work, and only a thread does so. -/
structure Sound (q : Venue W) : Prop where
  handle : q.handle = q.accepting
  closes : q.accepting = false → q.kind = .thread

theorem IsNew.sound (h : q.IsNew) : q.Sound where
  handle := h.handle.trans h.accepting.symm
  closes ha := absurd (h.accepting.symm.trans ha) nofun

/-- The line of a thread that has not been stopped waits for others. -/
theorem goesOn_thread (hk : q.kind = .thread) : q.goesOn = !q.accepting := by
  simp [goesOn, hk, VenueKind.isEager]

theorem goesOn_of_isEager (hk : q.kind.isEager = true) : q.goesOn = true := by
  simp [goesOn, hk]

theorem Sound.accepting_of_isEager (h : q.Sound) (hk : q.kind.isEager = true) :
    q.accepting = true := by
  cases ha : q.accepting with
  | true => rfl
  | false =>
    rw [h.closes ha] at hk
    cases hk

/-- Nobody moves by hand a line that goes on by itself. -/
theorem Sound.not_manual (h : q.Sound) (hg : q.goesOn = true) : q.kind ≠ .manual := by
  intro hk
  rw [goesOn, hk, VenueKind.isEager, Bool.false_or, Bool.not_eq_true'] at hg
  exact absurd (hk.symm.trans (h.closes hg)) nofun

end Venue

/-! ### The moves -/

/-- The venues of a machine, its stack, and what the journal tells of lines. -/
structure Floor (C : Component) where
  venues : List (Venue C.Frame)
  /-- The venues that the reactor is to serve. -/
  woken : List Nat
  stack : List (Frame C)
  /-- A reply is on its way to the uppermost frame. -/
  replying : Bool
  journal : List (Entry C)

namespace Floor

variable (f : Floor C)

/-- The line of a venue. -/
def line (v : Nat) : List C.Frame := (f.venues[v]?.map (·.waiting)).getD []

def kind? (v : Nat) : Option VenueKind := f.venues[v]?.map (·.kind)

/-- Whether a venue takes work. -/
def accepts (v : Nat) : Bool := (f.venues[v]?.map (·.accepting)).getD false

/-- Whether the line of a venue goes on by itself. -/
def goesOn (v : Nat) : Bool := (f.venues[v]?.map (·.goesOn)).getD false

/-- The oldest work of a line is begun above some frames. -/
def begin (v : Nat) (q : Venue C.Frame) (w : C.Frame) (rest : List C.Frame) (woken : List Nat)
    (stack : List (Frame C)) : Floor C :=
  { f with
    venues := f.venues.set v { q with waiting := rest }
    woken
    stack := .own w :: stack
    replying := true
    journal := .began v w :: f.journal }

/-- A turn of a venue is over: the uppermost frame is left behind. -/
def endTurn (v : Nat) (k : List (Frame C)) : Floor C :=
  { f with stack := k, replying := true, journal := .ended (.venue v) :: f.journal }

/-- Work joins the end of a line, and who has given it gets a reply. -/
def enqueue (v : Nat) (q : Venue C.Frame) (w : C.Frame) (woken : List Nat) : Floor C :=
  { f with
    venues := f.venues.set v { q with waiting := q.waiting ++ [w] }
    woken
    replying := true
    journal := .queued v w :: f.journal }

/-- A new venue is opened. -/
def opening (q : Venue C.Frame) (woken : List Nat) : Floor C :=
  { f with venues := f.venues ++ [q], woken }

/-- A venue stops taking work, and its handle is taken. -/
def shut (v : Nat) (woken : List Nat) : Floor C :=
  { f with venues := f.venues.modify v fun q => { q with accepting := false, handle := false }, woken }

/-- The moves of a floor, each with what the journal tells of it. -/
inductive Move : Option (Entry C) → Floor C → Prop where
  /-- A frame that belongs to no line is left behind. -/
  | pop {g k} (b : Bool) (hs : f.stack = g :: k) (hg : g.isOfLine = false) :
      Move none { f with stack := k, replying := b }
  /-- Frames that belong to no line come on top of the stack. -/
  | push (k : List (Frame C)) (b : Bool) (hn : Nested f.stack) (hk : ∀ g ∈ k, g.isPlain) :
      Move none { f with stack := k ++ f.stack, replying := b }
  | opened (q : Venue C.Frame) (hq : q.IsNew) {woken}
      (hw : ∀ u ∈ woken, u ∈ f.woken ∨ u = f.venues.length ∧ q.kind.isEager = true)
      (hw' : ∀ u ∈ f.woken, u ∈ woken) : Move none (f.opening q woken)
  /-- A thread is stopped; what waits in its line goes on. -/
  | closed {v q woken} (hq : f.venues[v]? = some q) (hk : q.kind = .thread)
      (hw : ∀ u ∈ woken, u ∈ f.woken ∨ u = v) (hw' : ∀ u ∈ f.woken, u ∈ woken)
      (hv : q.handle = true → q.waiting ≠ [] → v ∈ woken) : Move none (f.shut v woken)
  | widened (v : Nat) : Move none { f with stack := f.stack.map (·.widen v) }
  /-- A line in which nothing waits has been taken up. -/
  | passed {v woken} (hv : f.line v = []) (hw : ∀ u ∈ woken, u ∈ f.woken)
      (hw' : ∀ u ∈ f.woken, u = v ∨ u ∈ woken) : Move none { f with woken }
  /-- Work joins a line, which is woken if it is to be taken up at once. -/
  | queued {v q} (w : C.Frame) (hq : f.venues[v]? = some q) (ha : q.accepting = true) {woken}
      (hw : ∀ u ∈ woken, u ∈ f.woken ∨ u = v ∧ q.kind.isEager = true)
      (hw' : ∀ u ∈ f.woken, u ∈ woken) (hv : q.kind.isEager = true → v ∈ woken) :
      Move (some (.queued v w)) (f.enqueue v q w woken)
  | ended {v k} (hs : f.stack = .turn (.venue v) :: k) :
      Move (some (.ended (.venue v))) (f.endTurn v k)
  /-- Somebody starts to serve a line that is not being served. -/
  | start {v q w rest woken} (left : Option Nat) (after : Reply C.Answer) (hn : Nested f.stack)
      (hq : f.venues[v]? = some q) (hw : q.waiting = w :: rest) (hv : v ∉ servings f.stack)
      (hk : q.kind ≠ .manual)
      (hl : left ≠ none → q.kind.isParallel = true ∧ ∀ u ∈ f.woken, u ∈ woken)
      (hwoken : ∀ u ∈ woken, u ∈ f.woken) (hwoken' : ∀ u ∈ f.woken, u = v ∨ u ∈ woken) :
      Move (some (.began v w))
        (f.begin v q w rest woken (.turn (.venue v) :: .serve v left after :: f.stack))
  /-- The one who serves a line goes on with it. -/
  | next {v q w rest left after k} (hs : f.stack = .serve v left after :: k)
      (hl : left ≠ some 0) (hq : f.venues[v]? = some q) (hw : q.waiting = w :: rest) :
      Move (some (.began v w)) (f.begin v q w rest f.woken
        (.turn (.venue v) :: .serve v (left.map (· - 1)) after :: k))
  /-- The one who serves a line is done with it. -/
  | finish {v left after k} (hs : f.stack = .serve v left after :: k)
      (hl : left = some 0 ∨ f.line v = []) : Move none { f with stack := k, replying := true }
  | drain {v q w rest} (left : Option Nat) (ran : Nat) (hn : Nested f.stack)
      (hq : f.venues[v]? = some q) (hw : q.waiting = w :: rest) (hk : q.kind = .manual) :
      Move (some (.began v w)) (f.begin v q w rest f.woken (.drain v left ran :: f.stack))

/-- Moves of which at most the last one is told. -/
inductive Path : Option (Entry C) → Floor C → Prop where
  | stay : Path none f
  | snoc {g e g'} (h : Path none g) (m : g.Move e g') : Path e g'

/-! What moves do to the venues. -/

section Venues

variable {f : Floor C} {v u : Nat} {q : Venue C.Frame} {w : C.Frame} {l rest : List C.Frame}
  {s : List (Frame C)} {woken : List Nat}

theorem getElem?_set_waiting (hq : f.venues[v]? = some q) (l : List C.Frame) (u : Nat) :
    (f.venues.set v { q with waiting := l })[u]? =
      f.venues[u]?.map fun x => if u = v then { x with waiting := l } else x := by
  rw [List.getElem?_set]
  obtain ⟨hv, rfl⟩ := List.getElem?_eq_some_iff.mp hq
  split
  · rename_i h
    subst h
    simp [hv]
  · rename_i h
    simp [Ne.symm h]

theorem line_of (hq : f.venues[v]? = some q) : f.line v = q.waiting := by simp [line, hq]

theorem kind?_of (hq : f.venues[v]? = some q) : f.kind? v = some q.kind := by simp [kind?, hq]

/-- When work is begun, its line alone changes. -/
theorem map_begin {β : Type} (g : Venue C.Frame → β)
    (hg : ∀ (x : Venue C.Frame) l, g { x with waiting := l } = g x) (hq : f.venues[v]? = some q) :
    (f.begin v q w rest woken s).venues[u]?.map g = f.venues[u]?.map g := by
  simp only [begin, getElem?_set_waiting hq, Option.map_map]
  congr 1
  funext x
  simp only [Function.comp_apply]
  split
  · exact hg x rest
  · rfl

theorem kind?_begin (hq : f.venues[v]? = some q) :
    (f.begin v q w rest woken s).kind? u = f.kind? u :=
  map_begin (·.kind) (fun _ _ => rfl) hq

theorem accepts_begin (hq : f.venues[v]? = some q) :
    (f.begin v q w rest woken s).accepts u = f.accepts u :=
  congrArg (·.getD false) (map_begin (·.accepting) (fun _ _ => rfl) hq)

theorem goesOn_begin (hq : f.venues[v]? = some q) :
    (f.begin v q w rest woken s).goesOn u = f.goesOn u :=
  congrArg (·.getD false) (map_begin (·.goesOn) (fun _ _ => rfl) hq)

theorem line_begin (hq : f.venues[v]? = some q) :
    (f.begin v q w rest woken s).line u = if u = v then rest else f.line u := by
  simp only [line, begin, getElem?_set_waiting hq, Option.map_map]
  split
  · rename_i h
    simp [h, hq]
  · congr 1

theorem kind?_enqueue (hq : f.venues[v]? = some q) :
    (f.enqueue v q w woken).kind? u = f.kind? u :=
  show (f.begin v q w (q.waiting ++ [w]) woken []).kind? u = f.kind? u from kind?_begin hq

theorem accepts_enqueue (hq : f.venues[v]? = some q) :
    (f.enqueue v q w woken).accepts u = f.accepts u :=
  show (f.begin v q w (q.waiting ++ [w]) woken []).accepts u = f.accepts u from accepts_begin hq

theorem goesOn_enqueue (hq : f.venues[v]? = some q) :
    (f.enqueue v q w woken).goesOn u = f.goesOn u :=
  show (f.begin v q w (q.waiting ++ [w]) woken []).goesOn u = f.goesOn u from goesOn_begin hq

theorem line_enqueue (hq : f.venues[v]? = some q) :
    (f.enqueue v q w woken).line u = if u = v then q.waiting ++ [w] else f.line u :=
  show (f.begin v q w (q.waiting ++ [w]) woken []).line u = _ from line_begin hq

theorem kind?_shut : (f.shut v woken).kind? u = f.kind? u := by
  simp only [kind?, shut, List.getElem?_modify]
  cases f.venues[u]? with
  | none => rfl
  | some q =>
    simp only [Option.map_some]
    split <;> rfl

theorem line_shut : (f.shut v woken).line u = f.line u := by
  simp only [line, shut, List.getElem?_modify]
  cases f.venues[u]? with
  | none => rfl
  | some q =>
    simp only [Option.map_some]
    split <;> rfl

theorem accepts_shut (h : u ≠ v) : (f.shut v woken).accepts u = f.accepts u := by
  simp [accepts, shut, Ne.symm h]

theorem goesOn_shut (h : u ≠ v) : (f.shut v woken).goesOn u = f.goesOn u := by
  simp [goesOn, shut, Ne.symm h]

theorem goesOn_shut_self (h : v < f.venues.length) : (f.shut v woken).goesOn v = true := by
  simp [goesOn, shut, h, Venue.goesOn]

theorem lt_of_goesOn (h : f.goesOn v = true) : v < f.venues.length := by
  refine Nat.lt_of_not_le fun hv => ?_
  simp [goesOn, List.getElem?_eq_none hv] at h

theorem goesOn_of (hq : f.venues[v]? = some q) : f.goesOn v = q.goesOn := by simp [goesOn, hq]

theorem lt_of_kind? {kind : VenueKind} (h : f.kind? u = some kind) : u < f.venues.length := by
  obtain ⟨x, hx, -⟩ := Option.map_eq_some_iff.mp h
  exact (List.getElem?_eq_some_iff.mp hx).1

theorem venues_opening (q : Venue C.Frame) (woken : List Nat) (u : Nat) :
    (f.opening q woken).venues[u]? = if u = f.venues.length then some q else f.venues[u]? := by
  simp only [opening]
  rcases Nat.lt_trichotomy u f.venues.length with hu | rfl | hu
  · rw [List.getElem?_append_left hu, if_neg (Nat.ne_of_lt hu)]
  · simp
  · rw [if_neg (Nat.ne_of_gt hu), List.getElem?_eq_none (Nat.le_of_lt hu),
      List.getElem?_eq_none (by simpa using Nat.succ_le_of_lt hu)]

theorem kind?_opening : (f.opening q woken).kind? u =
    if u = f.venues.length then some q.kind else f.kind? u := by
  rw [kind?, venues_opening]
  split <;> rfl

theorem accepts_opening (h : u ≠ f.venues.length) :
    (f.opening q woken).accepts u = f.accepts u := by
  rw [accepts, venues_opening, if_neg h]
  rfl

theorem goesOn_opening (h : u ≠ f.venues.length) :
    (f.opening q woken).goesOn u = f.goesOn u := by
  rw [goesOn, venues_opening, if_neg h]
  rfl

theorem line_opening (hq : q.waiting = []) : (f.opening q woken).line u = f.line u := by
  rw [line, venues_opening]
  split
  · rename_i h
    simp [h, hq, line]
  · rfl

end Venues

/-! What no move takes back: the kind of a venue, and that it no longer takes work. A venue stops to
take work when its handle is taken. -/

section Moves

variable {f f' : Floor C} {e : Option (Entry C)} {v : Nat} {kind : VenueKind}

theorem Move.kind? (m : f.Move e f') (h : f.kind? v = some kind) : f'.kind? v = some kind := by
  cases m with
  | opened => rw [kind?_opening, if_neg (Nat.ne_of_lt (lt_of_kind? h)), h]
  | closed => exact kind?_shut.trans h
  | queued _ hq => exact (kind?_enqueue hq).trans h
  | start _ _ _ hq => exact (kind?_begin hq).trans h
  | next _ _ hq => exact (kind?_begin hq).trans h
  | drain _ _ _ hq => exact (kind?_begin hq).trans h
  | _ => exact h

theorem Path.kind? (p : f.Path e f') (h : f.kind? v = some kind) : f'.kind? v = some kind := by
  induction p with
  | stay => exact h
  | snoc _ m ih => exact m.kind? ih

theorem Move.closed_stays (m : f.Move e f') (h : f.kind? v = some kind) (ha : f.accepts v = false) :
    f'.accepts v = false := by
  cases m with
  | opened => rw [accepts_opening (Nat.ne_of_lt (lt_of_kind? h)), ha]
  | @closed u =>
    by_cases hu : v = u
    · subst hu
      simp only [accepts, shut, List.getElem?_modify_eq]
      cases f.venues[v]? <;> rfl
    · exact (accepts_shut hu).trans ha
  | queued _ hq => exact (accepts_enqueue hq).trans ha
  | start _ _ _ hq => exact (accepts_begin hq).trans ha
  | next _ _ hq => exact (accepts_begin hq).trans ha
  | drain _ _ _ hq => exact (accepts_begin hq).trans ha
  | _ => exact ha

theorem Path.closed_stays (p : f.Path e f') (h : f.kind? v = some kind)
    (ha : f.accepts v = false) : f'.accepts v = false := by
  induction p with
  | stay => exact ha
  | snoc p m ih => exact m.closed_stays (p.kind? h) ih

theorem Move.sound (m : f.Move e f')
    (h : ∀ (v : Nat) (q : Venue C.Frame), f.venues[v]? = some q → q.Sound) :
    ∀ (v : Nat) (q : Venue C.Frame), f'.venues[v]? = some q → q.Sound := by
  have set {u : Nat} {q : Venue C.Frame} (hq : f.venues[u]? = some q) (l : List C.Frame) (v : Nat)
      (q' : Venue C.Frame) (hq' : (f.venues.set u { q with waiting := l })[v]? = some q') :
      q'.Sound := by
    rw [getElem?_set_waiting hq, Option.map_eq_some_iff] at hq'
    obtain ⟨x, hx, rfl⟩ := hq'
    split
    · exact ⟨(h v x hx).handle, (h v x hx).closes⟩
    · exact h v x hx
  cases m with
  | opened q hq =>
    intro v q' hq'
    rw [venues_opening] at hq'
    split at hq'
    · cases hq'
      exact hq.sound
    · exact h v q' hq'
  | @closed u q woken hq hk =>
    intro v q' hq'
    rw [shut, List.getElem?_modify] at hq'
    obtain ⟨x, hx, rfl⟩ := Option.map_eq_some_iff.mp hq'
    split
    · rename_i hu
      subst hu
      obtain rfl := Option.some.inj (hq.symm.trans hx)
      exact ⟨rfl, fun _ => hk⟩
    · exact h v x hx
  | queued w hq => exact set hq _
  | start _ _ _ hq => exact set hq _
  | next _ _ hq => exact set hq _
  | drain _ _ _ hq => exact set hq _
  | _ => exact h

/-- Work of a line that nobody moves by hand is begun in a turn of its own, above the one who serves
the line. -/
theorem Path.began {w : C.Frame} (p : f.Path (some (.began v w)) f') (h : f.kind? v = some kind)
    (hk : kind ≠ .manual) : f'.replying = true ∧
      ∃ left after k, f'.stack = .own w :: .turn (.venue v) :: .serve v left after :: k := by
  cases p with
  | snoc p m =>
    cases m with
    | start left after => exact ⟨rfl, left, after, _, rfl⟩
    | next => exact ⟨rfl, _, _, _, rfl⟩
    | drain _ _ _ hq _ hmanual =>
      have hv := (kind?_of hq).symm.trans (p.kind? h)
      exact absurd ((Option.some.inj hv).symm.trans hmanual) hk

end Moves

end Floor

end Conduit.Dispatch
