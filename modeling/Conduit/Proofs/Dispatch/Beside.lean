import Conduit.Proofs.Dispatch.Padded
import Mathlib.Data.List.Forall2

/-!
Two machines of the same component side by side, one of which has idle work in its lines that the other
one does not have. Whatever the one does, the other one does as well, and they stay side by side.
-/

namespace Conduit.Dispatch

variable {C : Component}

/-- The venue whose line a frame moves. -/
def Frame.moves? : Frame C → Option Nat
  | .drain v _ _ | .serve v _ _ => some v
  | _ => none

/-- A venue without its line. -/
def Venue.front {Work : Type} (q : Venue Work) : Venue Work := { q with waiting := [] }

namespace Machine

/-- What is left of a machine when lines, tasks, stack and journal are forgotten. -/
def shell (m : Machine C) : Machine C :=
  { m with
    venues := m.venues.map (·.front)
    ready := []
    stack := []
    control := .back .done
    journal := [] }

/-- Other work waits for a venue. -/
def refill (m : Machine C) (v : Nat) (l : List C.Frame) : Machine C :=
  { m with venues := m.venues.modify v fun q => { q with waiting := l } }

/-! ### Lines -/

section Lines

variable (m : Machine C) {v u : Nat} {q : Venue C.Frame} {w : C.Frame} {l rest : List C.Frame}
  {left : Option Nat} {after : Reply C.Answer} {ran : Nat}

variable {m} in
theorem line_of (hq : m.venues[v]? = some q) : m.line v = q.waiting := Floor.line_of hq

variable {m} in
theorem exists_of_line (h : m.line v ≠ []) : ∃ q, m.venues[v]? = some q := by
  cases hq : m.venues[v]? with
  | none => exact absurd (by simp [line, floor, Floor.line, hq]) h
  | some q => exact ⟨q, rfl⟩

variable {m} in
theorem refill_eq_set (hq : m.venues[v]? = some q) (l : List C.Frame) :
    m.refill v l = { m with venues := m.venues.set v { q with waiting := l } } := by
  unfold refill
  rw [List.modify_eq_set, hq]
  rfl

variable {m} in
theorem line_refill (hq : m.venues[v]? = some q) (l : List C.Frame) (u : Nat) :
    (m.refill v l).line u = if u = v then l else m.line u := by
  simp only [line, floor, Floor.line, refill, List.getElem?_modify, eq_comm (a := v)]
  split
  · rename_i h
    simp [h, hq]
  · simp

@[simp] theorem shell_refill (v : Nat) (l : List C.Frame) : (m.refill v l).shell = m.shell := by
  have h : (m.venues.modify v fun q => { q with waiting := l }).map (·.front) =
      m.venues.map (·.front) := by
    apply List.ext_getElem?
    intro i
    simp only [List.getElem?_map, List.getElem?_modify]
    cases m.venues[i]? <;> simp
    split <;> rfl
  simp only [shell, refill, h]

theorem next?_eq (v : Nat) : m.next? v = match m.line v with
    | [] => none
    | w :: rest => some (w, (m.refill v rest).record (.began v w)) := by
  unfold next?
  cases hq : m.venues[v]? with
  | none => simp [line, floor, Floor.line, hq]
  | some q =>
    rw [line_of hq]
    cases hw : q.waiting with
    | nil => simp only [hw]
    | cons w rest =>
      simp only [hw, refill_eq_set hq]
      rfl

variable {m}

theorem serve_over (h : left = some 0 ∨ m.line v = []) : m.serve v left after = m.reply after := by
  unfold serve
  rw [next?_eq]
  rcases h with rfl | h
  · rfl
  · rw [h]
    split <;> rfl

theorem serve_begin (h : left ≠ some 0) (hl : m.line v = w :: rest) : m.serve v left after =
    { (m.refill v rest).record (.began v w) with
      stack := .own w :: .turn (.venue v) :: .serve v (left.map (· - 1)) after :: m.stack
      control := .back .done } := by
  unfold serve
  rw [if_neg h, next?_eq, hl]
  rfl

theorem drain_over (h : left = some 0 ∨ m.line v = []) : m.drain v left ran = m.reply (.ran ran) := by
  unfold drain
  rw [next?_eq]
  rcases h with rfl | h
  · rfl
  · rw [h]
    split <;> rfl

theorem drain_begin (h : left ≠ some 0) (hl : m.line v = w :: rest) : m.drain v left ran =
    { (m.refill v rest).record (.began v w) with
      stack := .own w :: .drain v (left.map (· - 1)) (ran + 1) :: m.stack
      control := .back .done } := by
  unfold drain
  rw [if_neg h, next?_eq, hl]
  rfl

end Lines

theorem enqueue_none {m : Machine C} {v : Nat} (hq : m.venues[v]? = none) (w : C.Frame) :
    m.enqueue v w = m := by
  unfold enqueue
  rw [hq]

/-! ### Tasks that are woken -/

section Wake

variable (m : Machine C) (t : Task C)

variable {m} in
theorem nodup_wake (h : m.ready.Nodup) : (m.wake t).ready.Nodup := by
  unfold wake
  split
  · exact h
  · rename_i ht
    simpa [List.nodup_append, h] using fun u hu (hut : u = t) => ht (hut ▸ hu)

variable {m t} in
theorem mem_wake {u : Task C} : u ∈ (m.wake t).ready ↔ u ∈ m.ready ∨ u = t := by
  unfold wake
  split
  · rename_i ht
    exact ⟨.inl, fun h => h.elim id fun hu => hu ▸ ht⟩
  · simp

theorem shell_wake : (m.wake t).shell = m.shell := by
  unfold wake
  split <;> rfl

theorem line_wake : (m.wake t).line = m.line := by
  unfold wake
  split <;> rfl

theorem stack_wake : (m.wake t).stack = m.stack := by
  unfold wake
  split <;> rfl

theorem control_wake : (m.wake t).control = m.control := by
  unfold wake
  split <;> rfl

end Wake

/-! ### Shells -/

section Shells

variable {m m' : Machine C} (h : m'.shell = m.shell)
include h

theorem state_of_shell : m'.state = m.state := by
  have := congrArg Machine.state h
  exact this

theorem names_of_shell : m'.names = m.names := by
  have := congrArg Machine.names h
  exact this

theorem defaultThread_of_shell : m'.defaultThread = m.defaultThread := by
  have := congrArg Machine.defaultThread h
  exact this

theorem length_of_shell : m'.venues.length = m.venues.length := by
  have := congrArg (·.venues.length) h
  simpa [shell] using this

theorem context?_of_shell (id : String) : m'.context? id = m.context? id :=
  congrArg (·.context? id) h

theorem front_of_shell (v : Nat) : m'.venues[v]?.map (·.front) = m.venues[v]?.map (·.front) := by
  have := congrArg (·.venues[v]?) h
  simpa [shell] using this

theorem venue_of_shell {v : Nat} {q : Venue C.Frame} (hq : m.venues[v]? = some q) :
    ∃ q', m'.venues[v]? = some q' ∧ q'.kind = q.kind ∧ q'.accepting = q.accepting := by
  have hfront := front_of_shell h v
  rw [hq] at hfront
  obtain ⟨q', hq', heq⟩ := Option.map_eq_some_iff.mp hfront
  have hkind := congrArg Venue.kind heq
  have haccepting := congrArg Venue.accepting heq
  exact ⟨q', hq', hkind, haccepting⟩

theorem kind_of_shell (v : Nat) : m'.venues[v]?.map (·.kind) = m.venues[v]?.map (·.kind) := by
  have := congrArg (Option.map Venue.kind) (front_of_shell h v)
  simpa [Option.map_map, Function.comp_def, Venue.front] using this

theorem venue?_of_shell (id : String) (kind : VenueKind) : m'.venue? id kind = m.venue? id kind := by
  unfold venue?
  rw [context?_of_shell h]
  split
  · rw [kind_of_shell h]
  · rfl

theorem goesOn_of_shell (v : Nat) : m'.floor.goesOn v = m.floor.goesOn v := by
  have := congrArg (Option.map Venue.goesOn) (front_of_shell h v)
  simp only [Option.map_map] at this
  exact congrArg (Option.getD · false) this

theorem view_of_shell : m'.view = m.view := by
  have hvenue (v : Nat) : (m'.venues[v]?.map fun q => (q.kind, q.name)) =
      m.venues[v]?.map fun q => (q.kind, q.name) := by
    have := congrArg (Option.map fun q : Venue C.Frame => (q.kind, q.name)) (front_of_shell h v)
    simpa [Option.map_map, Function.comp_def, Venue.front] using this
  unfold view
  rw [funext hvenue]
  exact congrArg (fun c : String → Option Context => View.mk c _) (funext (context?_of_shell h))

end Shells

end Machine

/-! ### Machines side by side -/

/-- Frames that belong together. Those who serve a line serve it up to the same place, and a line that
is moved by hand up to some number is none of `held`. -/
inductive Abreast (idle : C.Frame → Prop) (held : List Nat) (line line' : Nat → List C.Frame) :
    Frame C → Frame C → Prop where
  | same {f} (h : f.moves? = none) : Abreast idle held line line' f f
  | drain {v left ran ran'} (h : left ≠ none → v ∉ held) :
      Abreast idle held line line' (.drain v left ran) (.drain v left ran')
  | serve {v left left' after} (h : Reaches idle (line v) (line' v) left left') :
      Abreast idle held line line' (.serve v left after) (.serve v left' after)

/-- Machines that stand at the same point. Where nothing is left to run, it does not matter how it came
to an end. -/
inductive Poised (k : List (Frame C)) : Control C → Control C → Prop where
  | run (op) : Poised k (.run op) (.run op)
  | back (r r') : Poised k (.back r) (.back r')
  | thrown : Poised k .thrown .thrown
  | rest {c c'} (hk : k = []) (h : ∀ op, c ≠ .run op) (h' : ∀ op, c' ≠ .run op) : Poised k c c'

/-- The lines of the second machine hold some idle work more, but only those of `held`. -/
structure Level (idle : C.Frame → Prop) (held : List Nat) (a b : Machine C) : Prop where
  shell : b.shell = a.shell
  lines : ∀ v, Padded idle (a.line v) (b.line v)
  even : ∀ v, v ∉ held → b.line v = a.line v
  /-- Whatever is to be served is to be served in the second machine as well. -/
  awake : ∀ t ∈ a.ready, t ∈ b.ready
  once : a.ready.Nodup

/-- The machines stand side by side: they differ in their lines only. -/
structure Beside (idle : C.Frame → Prop) (held : List Nat) (a b : Machine C) : Prop extends
    Level idle held a b where
  stack : List.Forall₂ (Abreast idle held a.line b.line) a.stack b.stack
  control : Poised a.stack a.control b.control

variable {idle idle' : C.Frame → Prop} {held held' : List Nat} {a b a' b' : Machine C} {v : Nat}
  {k k' s s' : List (Frame C)} {c c' : Control C}

namespace Level

theorem state (h : Level idle held a b) : b.state = a.state := Machine.state_of_shell h.shell

/-- Stack, control and journal are of no concern. -/
theorem go (h : Level idle held a b) (s s' : List (Frame C)) (c c' : Control C) (j j' : List (Entry C)) :
    Level idle held { a with stack := s, control := c, journal := j }
      { b with stack := s', control := c', journal := j' } :=
  ⟨h.shell, h.lines, h.even, h.awake, h.once⟩

/-- Something happens that does not touch the lines. -/
theorem of_lines (h : Level idle held a b) (hshell : b'.shell = a'.shell) (ha : a'.line = a.line)
    (hb : b'.line = b.line) (hra : a'.ready = a.ready) (hrb : b'.ready = b.ready) :
    Level idle held a' b' := by
  refine ⟨hshell, ?_, ?_, ?_, ?_⟩
  · rw [ha, hb]
    exact h.lines
  · rw [ha, hb]
    exact h.even
  · rw [hra, hrb]
    exact h.awake
  · rw [hra]
    exact h.once

theorem mono (h : Level idle held a b) (hi : ∀ w, idle w → idle' w) : Level idle' held a b where
  shell := h.shell
  lines v := (h.lines v).mono hi
  even := h.even
  awake := h.awake
  once := h.once

/-- The lines of a venue change in both machines. -/
theorem refill (h : Level idle held a b) {q q' : Venue C.Frame} (hq : a.venues[v]? = some q)
    (hq' : b.venues[v]? = some q') {l l' : List C.Frame} (hl : Padded idle l l')
    (he : v ∉ held → l' = l) : Level idle held (a.refill v l) (b.refill v l') where
  shell := by simpa using h.shell
  lines u := by
    rw [Machine.line_refill hq, Machine.line_refill hq']
    split
    · exact hl
    · exact h.lines u
  even u hu := by
    rw [Machine.line_refill hq, Machine.line_refill hq']
    split
    · rename_i huv
      exact he (huv ▸ hu)
    · exact h.even u hu
  awake := h.awake
  once := h.once

theorem wake (h : Level idle held a b) (t : Task C) : Level idle held (a.wake t) (b.wake t) where
  shell := by rw [Machine.shell_wake, Machine.shell_wake, h.shell]
  lines := by
    rw [Machine.line_wake, Machine.line_wake]
    exact h.lines
  even := by
    rw [Machine.line_wake, Machine.line_wake]
    exact h.even
  awake u hu := by
    rw [Machine.mem_wake] at hu ⊢
    exact hu.imp_left (h.awake u)
  once := Machine.nodup_wake t h.once

/-- More is to be served in the second machine. -/
theorem wake_right (h : Level idle held a b) (t : Task C) : Level idle held a (b.wake t) where
  shell := by rw [Machine.shell_wake, h.shell]
  lines := by
    rw [Machine.line_wake]
    exact h.lines
  even := by
    rw [Machine.line_wake]
    exact h.even
  awake u hu := Machine.mem_wake.mpr (.inl (h.awake u hu))
  once := h.once

end Level

/-! ### Stacks side by side -/

section Stacks

variable {line line' after after' : Nat → List C.Frame}

theorem Abreast.serves?_eq {f g : Frame C} (h : Abreast idle held line line' f g) :
    g.serves? = f.serves? := by
  cases h <;> rfl

theorem servings_abreast (h : List.Forall₂ (Abreast idle held line line') s s') :
    servings s' = servings s := by
  induction h with
  | nil => rfl
  | cons h _ ih => rw [servings_cons, servings_cons, h.serves?_eq, ih]

/-- Frames stay side by side while the lines change that nobody serves, or in a way that those who serve
them do not notice. -/
theorem relined (h : List.Forall₂ (Abreast idle held line line') s s')
    (hr : ∀ v ∈ servings s, ∀ l l', Reaches idle (line v) (line' v) l l' →
      Reaches idle' (after v) (after' v) l l')
    (hd : ∀ v n ran, .drain v (some n) ran ∈ s → v ∉ held → v ∉ held') :
    List.Forall₂ (Abreast idle' held' after after') s s' := by
  induction h with
  | nil => exact .nil
  | @cons f g s s' hf _ ih =>
    refine .cons ?_ (ih (fun v hv => hr v (by simp [hv])) fun v n ran hmem =>
      hd v n ran (List.mem_cons_of_mem f hmem))
    cases hf with
    | same h => exact .same h
    | @drain v left ran _ h =>
      refine .drain fun hleft => ?_
      obtain ⟨n, rfl⟩ := Option.ne_none_iff_exists'.mp hleft
      exact hd v n ran List.mem_cons_self (h nofun)
    | serve h => exact .serve (hr _ (by simp) _ _ h)

end Stacks

namespace Beside

variable (h : Beside idle held a b)
include h

/-- The machines go on with other frames. -/
theorem go (hs : List.Forall₂ (Abreast idle held a.line b.line) s s') (hc : Poised s c c')
    (j j' : List (Entry C)) :
    Beside idle held { a with stack := s, control := c, journal := j }
      { b with stack := s', control := c', journal := j' } :=
  ⟨h.toLevel.go s s' c c' j j', hs, hc⟩

/-- Frames come on top that move no line. -/
theorem push (k : List (Frame C)) (hk : ∀ f ∈ k, f.moves? = none) (hc : Poised (k ++ a.stack) c c') :
    Beside idle held { a with stack := k ++ a.stack, control := c }
      { b with stack := k ++ b.stack, control := c' } := by
  refine h.go (List.rel_append ?_ h.stack) hc a.journal b.journal
  exact List.forall₂_same.mpr fun f hf => .same (hk f hf)

theorem reply (r r' : Reply C.Answer) : Beside idle held (a.reply r) (b.reply r') :=
  h.go h.stack (.back r r') a.journal b.journal

theorem record (e e' : Entry C) : Beside idle held (a.record e) (b.record e') :=
  h.go h.stack h.control (e :: a.journal) (e' :: b.journal)

theorem mono (hi : ∀ w, idle w → idle' w) : Beside idle' held a b where
  toLevel := h.toLevel.mono hi
  stack := relined h.stack (fun _ _ _ _ hr => hr.mono hi) fun _ _ _ _ hv => hv
  control := h.control

/-- Something happens that touches neither lines nor stacks. -/
theorem of_level (hl : Level idle held a' b') (ha : a'.line = a.line) (hb : b'.line = b.line)
    (hs : a'.stack = a.stack) (hs' : b'.stack = b.stack) (hc : Poised a.stack a'.control b'.control) :
    Beside idle held a' b' where
  toLevel := hl
  stack := by
    rw [ha, hb, hs, hs']
    exact h.stack
  control := by
    rw [hs]
    exact hc

theorem wake (t : Task C) : Beside idle held (a.wake t) (b.wake t) := by
  refine h.of_level (h.toLevel.wake t) (Machine.line_wake a t) (Machine.line_wake b t)
    (Machine.stack_wake a t) (Machine.stack_wake b t) ?_
  rw [Machine.control_wake, Machine.control_wake]
  exact h.control

theorem wake_right (t : Task C) : Beside idle held a (b.wake t) := by
  refine h.of_level (h.toLevel.wake_right t) rfl (Machine.line_wake b t) rfl
    (Machine.stack_wake b t) ?_
  rw [Machine.control_wake]
  exact h.control

theorem withState (st : C.State) : Beside idle held { a with state := st } { b with state := st } := by
  have hshell : ({ b with state := st } : Machine C).shell = ({ a with state := st } : Machine C).shell :=
    congrArg (fun m : Machine C => { m with state := st }) h.shell
  exact h.of_level (h.toLevel.of_lines hshell rfl rfl rfl rfl) rfl rfl rfl rfl h.control

/-- Work joins a line in both machines. -/
theorem refill_append {q q' : Venue C.Frame} (hq : a.venues[v]? = some q) (hq' : b.venues[v]? = some q')
    (w : C.Frame) :
    Beside idle held (a.refill v (a.line v ++ [w])) (b.refill v (b.line v ++ [w])) where
  toLevel := h.toLevel.refill hq hq' ((h.lines v).append (.refl idle [w])) fun hv => by
    rw [h.even v hv]
  stack := by
    refine relined h.stack (fun u _ l l' hr => ?_) fun _ _ _ _ hv => hv
    rw [Machine.line_refill hq, Machine.line_refill hq']
    split
    · rename_i huv
      exact (huv ▸ hr).append (.refl idle [w])
    · exact hr
  control := h.control

theorem pushOwn (k : List C.Frame) (hc : Poised (k.map .own ++ a.stack) a.control b.control) :
    Beside idle held (a.pushOwn k) (b.pushOwn k) :=
  h.push (k.map .own) (by simp [Frame.moves?]) hc

theorem runScript (tag : C.Tag) (ops : List (Op C.Action)) (throws : Bool) :
    Beside idle held (a.runScript tag ops throws) (b.runScript tag ops throws) := by
  cases ops with
  | nil => cases throws <;> exact h.push [] (by simp) (by constructor)
  | cons op rest => exact h.push [.script tag rest throws] (by simp [Frame.moves?]) (.run op)

end Beside

/-! ### Turns -/

section Turns

variable [IsEmpty C.Task]

namespace Machine

variable (m : Machine C)

theorem wakeAll_eq_self (ts : List C.Task) : m.wakeAll ts = m := by
  rw [tasks_eq_nil ts]
  rfl

theorem discard_eq (f : C.Frame) : m.discard f = { m with state := (C.unwind m.state f).1 } :=
  wakeAll_eq_self _ _

theorem hear_eq (t : Turn C.toSignature) : m.hear t = { m with
    state := t.state
    journal := (t.notes.map fun n => Entry.note m.lane n).reverse ++ m.journal } :=
  wakeAll_eq_self _ _

variable {m} in
theorem enqueue_eq {v : Nat} {q : Venue C.Frame} (hq : m.venues[v]? = some q) (w : C.Frame) :
    m.enqueue v w =
      if q.accepting then
        let m' := (m.refill v (m.line v ++ [w])).record (.queued v w)
        if q.kind.isEager then m'.wake (.serve v) else m'
      else { m with state := (C.unwind m.state w).1 } := by
  unfold enqueue
  rw [hq]
  dsimp only
  rw [discard_eq, line_of hq, refill_eq_set hq, Venue.push]
  cases q.accepting <;> rfl

end Machine

namespace Beside

variable (h : Beside idle held a b)
include h

theorem discard (f : C.Frame) : Beside idle held (a.discard f) (b.discard f) := by
  rw [Machine.discard_eq, Machine.discard_eq, h.state]
  exact h.withState _

theorem hear (t : Turn C.toSignature) : Beside idle held (a.hear t) (b.hear t) := by
  rw [Machine.hear_eq, Machine.hear_eq]
  have h := h.withState t.state
  exact h.go h.stack h.control _ _

/-- Both machines give work to a venue. -/
theorem enqueue (v : Nat) (w : C.Frame) : Beside idle held (a.enqueue v w) (b.enqueue v w) := by
  cases hq : a.venues[v]? with
  | none =>
    have hq' : b.venues[v]? = none := by
      simpa [hq] using Machine.front_of_shell h.shell v
    rw [Machine.enqueue_none hq, Machine.enqueue_none hq']
    exact h
  | some q =>
    obtain ⟨q', hq', hkind, haccepting⟩ := Machine.venue_of_shell h.shell hq
    rw [Machine.enqueue_eq hq, Machine.enqueue_eq hq', hkind, haccepting, h.state]
    split
    · have hjoin := (h.refill_append hq hq' w).record (.queued v w) (.queued v w)
      dsimp only
      split
      · exact hjoin.wake (.serve v)
      · exact hjoin
    · exact h.withState _

theorem handOver (d : Context) (w : C.Frame) : Beside idle held (a.handOver d w) (b.handOver d w) := by
  unfold Machine.handOver
  split
  · exact h.push [.own w] (by simp [Frame.moves?]) (.back .done .done)
  · exact h.push [.own w, .turn .pool] (by simp [Frame.moves?]) (.back .done .done)
  · exact (h.enqueue _ w).reply .done .done

/-- Both machines take over the same turn. -/
theorem take {t : Turn C.toSignature} (hc : ∀ k, Poised (k ++ a.stack) a.control b.control) :
    Beside idle held (a.take t) (b.take t) := by
  rw [Machine.take_eq_goOn, Machine.take_eq_goOn]
  have hheard := h.hear t
  have hpush (k : List C.Frame) : Beside idle held ((a.hear t).pushOwn k) ((b.hear t).pushOwn k) := by
    refine hheard.pushOwn k ?_
    rw [Machine.hear_eq, Machine.hear_eq]
    exact hc (k.map .own)
  cases t.next with
  | reply r => exact hheard.reply r r
  | throw => exact hheard.push [] (by simp) .thrown
  | enter k => exact (hpush k).reply .done .done
  | script tag ops throws k => exact (hpush k).runScript tag ops throws
  | perform d w k => exact (hpush k).handOver d w

end Beside

end Turns

/-! ### Operations on contexts -/

namespace Machine

variable (m : Machine C)

theorem line_openVenue (id : String) (kind : VenueKind) (name : String) :
    (m.openVenue id kind name).line = m.line :=
  funext fun v => show (m.floor.opening { kind, name } m.floor.woken).line v = m.floor.line v from
    Floor.line_opening rfl

theorem shell_openVenue (id : String) (kind : VenueKind) (name : String) :
    (m.openVenue id kind name).shell = m.shell.openVenue id kind name := by
  simp [openVenue, bind, shell, Venue.front]

theorem shell_close (v : Nat) : (m.close v).shell = m.shell.close v := by
  have hvenues : (m.venues.modify v fun q => { q with accepting := false, handle := false }).map
      (·.front) = (m.venues.map (·.front)).modify v fun q =>
        { q with accepting := false, handle := false } := by
    apply List.ext_getElem?
    intro i
    simp only [List.getElem?_map, List.getElem?_modify]
    cases m.venues[i]? <;> simp
    split <;> rfl
  simp only [close, shell, hvenues]

end Machine

section Stacks

variable {line line' : Nat → List C.Frame}

theorem abreast_widen (h : List.Forall₂ (Abreast idle held line line') s s') (v : Nat) :
    List.Forall₂ (Abreast idle held line line') (s.map (·.widen v)) (s'.map (·.widen v)) := by
  induction h with
  | nil => exact .nil
  | @cons f _ _ _ hf _ ih =>
    refine .cons ?_ ih
    cases hf with
    | same h =>
      cases f with
      | serve => cases h
      | _ => exact .same h
    | drain h => exact .drain h
    | @serve u left left' after h =>
      refine .serve ?_
      by_cases hu : u = v
      · rw [if_pos hu, if_pos hu]
        exact .all h.padded
      · rw [if_neg hu, if_neg hu]
        exact h

end Stacks

namespace Beside

variable (h : Beside idle held a b)
include h

theorem site?_eq : b.site? = a.site? := by
  unfold Machine.site?
  have hs := h.stack
  generalize a.line = line, b.line = line', a.stack = s, b.stack = s' at hs ⊢
  induction hs with
  | nil => rfl
  | cons hf _ ih =>
    rw [List.findSome?_cons, List.findSome?_cons, ih]
    cases hf <;> rfl

theorem isServing_eq (v : Nat) : b.isServing v = a.isServing v := by
  rw [Bool.eq_iff_iff, Machine.isServing_iff, Machine.isServing_iff, servings_abreast h.stack]

theorem context?_eq (id : String) : b.context? id = a.context? id := Machine.context?_of_shell h.shell id

theorem venue?_eq (id : String) (kind : VenueKind) : b.venue? id kind = a.venue? id kind :=
  Machine.venue?_of_shell h.shell id kind

theorem hasHandle_eq (v : Nat) : b.hasHandle v = a.hasHandle v := by
  have := congrArg (Option.map Venue.handle) (Machine.front_of_shell h.shell v)
  unfold Machine.hasHandle
  cases hb : b.venues[v]? <;> cases ha : a.venues[v]? <;> simp_all [Venue.front]

/-- Names change in both machines. -/
theorem renamed (hshell : b'.shell = a'.shell) (ha : a'.venues = a.venues) (hb : b'.venues = b.venues)
    (hra : a'.ready = a.ready) (hrb : b'.ready = b.ready) (hs : a'.stack = a.stack)
    (hs' : b'.stack = b.stack) (hc : Poised a.stack a'.control b'.control) :
    Beside idle held a' b' := by
  have hline {m m' : Machine C} (hv : m'.venues = m.venues) : m'.line = m.line := by
    funext v
    simp only [Machine.line, Machine.floor, Floor.line, hv]
  exact h.of_level (h.toLevel.of_lines hshell (hline ha) (hline hb) hra hrb) (hline ha) (hline hb)
    hs hs' hc

theorem rename (g : List (String × Context) → List (String × Context)) :
    Beside idle held { a with names := g a.names } { b with names := g b.names } :=
  h.renamed (congrArg (fun m : Machine C => { m with names := g m.names }) h.shell)
    rfl rfl rfl rfl rfl rfl h.control

theorem bind (id : String) (place : Place) : Beside idle held (a.bind id place) (b.bind id place) :=
  h.renamed (congrArg (·.bind id place) h.shell) rfl rfl rfl rfl rfl rfl h.control

theorem openVenue (id : String) (kind : VenueKind) (name : String) :
    Beside idle held (a.openVenue id kind name) (b.openVenue id kind name) := by
  have hshell : (b.openVenue id kind name).shell = (a.openVenue id kind name).shell := by
    rw [Machine.shell_openVenue, Machine.shell_openVenue, h.shell]
  exact h.of_level (h.toLevel.of_lines hshell (a.line_openVenue ..) (b.line_openVenue ..) rfl rfl)
    (a.line_openVenue ..) (b.line_openVenue ..) rfl rfl h.control

theorem close (v : Nat) : Beside idle held (a.close v) (b.close v) := by
  have hshell : (b.close v).shell = (a.close v).shell := by
    rw [Machine.shell_close, Machine.shell_close, h.shell]
  exact h.of_level (h.toLevel.of_lines hshell (a.line_close v) (b.line_close v) rfl rfl)
    (a.line_close v) (b.line_close v) rfl rfl h.control

theorem widen (v : Nat) (r : Reply C.Answer) :
    Beside idle held ((a.widen v).reply r) ((b.widen v).reply r) :=
  h.go (abreast_widen h.stack v) (.back r r) a.journal b.journal

theorem make (id : String) (kind : ContextKind) : Beside idle held (a.make id kind) (b.make id kind) := by
  cases kind with
  | direct => exact (h.bind id .direct).reply .done .done
  | pool => exact (h.bind id .pool).reply .done .done
  | concurrent => exact (h.openVenue id .pool id).reply .done .done
  | manual => exact (h.openVenue id .manual id).reply .done .done
  | serial label =>
    simp only [Machine.make, Machine.length_of_shell h.shell]
    exact ((h.openVenue id .serial label).wake _).reply .done .done
  | thread name => exact (h.openVenue id .thread name).reply .done .done
  | defaultThread =>
    simp only [Machine.make, Machine.defaultThread_of_shell h.shell, Machine.length_of_shell h.shell]
    split
    · exact (h.bind id _).reply .done .done
    · have hopen := h.openVenue id .thread "tether-runloop"
      have hdefault : Beside idle held
          { a.openVenue id .thread "tether-runloop" with defaultThread := some a.venues.length }
          { b.openVenue id .thread "tether-runloop" with defaultThread := some a.venues.length } :=
        hopen.renamed (congrArg (fun m : Machine C => { m with
          defaultThread := some a.venues.length }) hopen.shell) rfl rfl rfl rfl rfl rfl hopen.control
      exact hdefault.reply .done .done
  | copy of =>
    simp only [Machine.make, h.context?_eq, Machine.kind_of_shell h.shell]
    split
    · exact h.reply _ _
    · rename_i c _
      have hbound := (h.bind id c.place).reply .done .done
      have hnamed := h.rename fun names => (id, c) :: names.filter (·.1 ≠ id)
      split
      · split
        · exact hnamed.reply .done .done
        · exact hbound
      · split
        · exact hnamed.reply .done .done
        · exact hbound

end Beside

end Conduit.Dispatch
