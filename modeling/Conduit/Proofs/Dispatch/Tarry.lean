import Conduit.Proofs.Dispatch.Beside

/-!
A machine that tarries: before it goes on as the one beside it does, it runs idle work that the other one
does not have. Each step of this takes some weight off it, and so it comes to an end.
-/

namespace Conduit.Dispatch

variable {C : Component}

/-- Frames that run idle work and nothing else, if `a` is all that is done besides. -/
def Frame.Quiet (idle : C.Frame → Prop) (a : Machine C) : Frame C → Prop
  | .own w => idle w
  | .turn _ | .task => True
  | .serve v _ _ => a.line v = [] ∧ v ∉ servings a.stack
  | .script .. | .drain .. => False

/-- Above what the two machines have in common, the second one runs idle work. -/
structure Tarrying (idle : C.Frame → Prop) (held : List Nat) (a b : Machine C)
    (above below : List (Frame C)) : Prop where
  stack : b.stack = above ++ below
  quiet : ∀ f ∈ above, f.Quiet idle a
  control : above ≠ [] → ∃ r, b.control = .back r
  beside : Beside idle held a { b with stack := below }

/-- The second machine stands beside the first one, or comes to stand there. -/
def Tarries (idle : C.Frame → Prop) (held : List Nat) (a b : Machine C) : Prop :=
  ∃ above below, Tarrying idle held a b above below

namespace Machine

/-- How much there is to be run at most before the machine does anything else: the begin of a piece of
work, the work and the end of its turn, and the turn of a task of the reactor. -/
def weight (m : Machine C) : Nat :=
  4 * ((m.venues.flatMap (·.waiting)).length + m.ready.length) + m.stack.length

/-- Which queues may hold idle work after a queue has been moved: one that has been moved to its end
holds nothing. -/
def clear (m : Machine C) (v : Nat) (left : Option Nat) (held : List Nat) : List Nat :=
  if left = none ∧ m.line v = [] then held.filter (· ≠ v) else held

/-- The same, after the next step of the machine. -/
def clearing (m : Machine C) (held : List Nat) : List Nat :=
  match m.control, m.stack with
  | .run (.context (.drain id left)), _ => (m.venue? id .manual).elim held fun v => m.clear v left held
  | .back _, .drain v left _ :: _ => m.clear v left held
  | _, _ => held

/-- The machine is about to move a line that nobody below moves. -/
def Turning (m : Machine C) : Prop :=
  ∃ r f k v, m.control = .back r ∧ m.stack = f :: k ∧ f.moves? = some v ∧ v ∉ servings k

variable {m : Machine C} {v : Nat} {w : C.Frame} {rest : List C.Frame} {s : List (Frame C)}
  {left : Option Nat} {after : Reply C.Answer} {ran : Nat}

@[simp] theorem refill_line (m : Machine C) (v : Nat) : m.refill v (m.line v) = m := by
  unfold refill
  have hsame : (m.venues.modify v fun q => { q with waiting := m.line v }) = m.venues := by
    apply List.ext_getElem?
    intro i
    rw [List.getElem?_modify]
    split
    · rename_i h
      subst h
      cases hq : m.venues[v]? with
      | none => rfl
      | some q => simp [line_of hq]
    · cases m.venues[i]? <;> rfl
  rw [hsame]

/-- Whoever begins a piece of work has one less to begin. -/
theorem length_refill (hl : m.line v = w :: rest) :
    ((m.refill v rest).venues.flatMap (·.waiting)).length + 1 =
      (m.venues.flatMap (·.waiting)).length := by
  obtain ⟨q, hq⟩ := exists_of_line (m := m) (v := v) (by simp [hl])
  rw [line_of hq] at hl
  unfold refill
  dsimp only
  generalize m.venues = venues at hq
  induction venues generalizing v with
  | nil => cases hq
  | cons x venues ih =>
    cases v with
    | zero =>
      obtain rfl : x = q := by simpa using hq
      simp [hl]
    | succ v =>
      have := ih (by simpa using hq)
      simp only [List.modify_succ_cons, List.flatMap_cons, List.length_append]
      omega

/-- A piece of work that is begun leaves at most three frames. -/
theorem weight_begin (hl : m.line v = w :: rest) (hs : s.length ≤ m.stack.length + 3) (e : Entry C)
    (c : Control C) :
    ({ (m.refill v rest).record e with stack := s, control := c } : Machine C).weight < m.weight := by
  have hlines := length_refill hl
  have hready : (m.refill v rest).ready = m.ready := rfl
  simp only [weight, record, hready]
  omega

/-- Where the machine stands does not matter to the one who serves a line. -/
theorem serve_control (m : Machine C) (c : Control C) :
    ({ m with control := c } : Machine C).serve v left after = m.serve v left after := by
  by_cases h : left = some 0 ∨ m.line v = []
  · rw [serve_over h, serve_over (m := { m with control := c }) h]
    rfl
  · obtain ⟨hl, hne⟩ := not_or.mp h
    obtain ⟨w, rest, hline⟩ := List.exists_cons_of_ne_nil hne
    rw [serve_begin hl hline, serve_begin (m := { m with control := c }) hl hline]
    rfl

theorem drain_control (m : Machine C) (c : Control C) :
    ({ m with control := c } : Machine C).drain v left ran = m.drain v left ran := by
  by_cases h : left = some 0 ∨ m.line v = []
  · rw [drain_over h, drain_over (m := { m with control := c }) h]
    rfl
  · obtain ⟨hl, hne⟩ := not_or.mp h
    obtain ⟨w, rest, hline⟩ := List.exists_cons_of_ne_nil hne
    rw [drain_begin hl hline, drain_begin (m := { m with control := c }) hl hline]
    rfl

theorem clearing_context {held : List Nat} {o : ContextOp} (hc : m.control = .run (.context o))
    (ho : ∀ id left, o ≠ .drain id left) : m.clearing held = held := by
  unfold clearing
  rw [hc]
  cases o with
  | drain id left => exact absurd rfl (ho id left)
  | _ => rfl

/-- A queue is not one of the lines that are served. -/
theorem not_served_manual (ho : m.floor.Orderly) (hv : m.floor.kind? v = some .manual) :
    v ∉ servings m.stack := fun hmem => by
  obtain ⟨f, hf, hserves⟩ := List.mem_filterMap.mp hmem
  cases f with
  | serve u left after =>
    cases hserves
    obtain ⟨kind, hkind, hmanual, -⟩ := ho.servers _ left after hf
    exact hmanual (Option.some.inj (hkind.symm.trans hv))
  | _ => cases hserves

theorem inspect_eq (m : Machine C) (id : String) : ∃ r, m.runContext (.inspect id) = m.reply r := by
  simp only [runContext]
  split
  · exact ⟨_, rfl⟩
  · split
    · split <;> exact ⟨_, rfl⟩
    · exact ⟨_, rfl⟩

end Machine

open Machine

/-- The first machine has moved a line. The second one still stands as beside `a₀`, which is to take this
step. -/
structure Late (idle : C.Frame → Prop) (held : List Nat) (a₀ a b : Machine C) : Prop where
  tarries : Tarries idle held a₀ b
  turning : a₀.Turning
  step : a₀.step? = some a

variable {idle : C.Frame → Prop} {held : List Nat} {a b : Machine C} {v : Nat}

theorem Tarries.of_beside (h : Beside idle held a b) : Tarries idle held a b :=
  ⟨[], b.stack, rfl, nofun, fun hne => absurd rfl hne, h⟩

namespace Beside

/-- Lines change of which nobody takes notice who stays on the stack. -/
theorem relieve (h : Beside idle held a b) {l l' : List C.Frame} (hline : b.line v ≠ [])
    (hl : Padded idle l l') (he : v ∉ held → l' = l) {s s' : List (Frame C)}
    (hs : List.Forall₂ (Abreast idle held a.line b.line) s s') (hv : v ∉ servings s) :
    Level idle held (a.refill v l) (b.refill v l') ∧ List.Forall₂
      (Abreast idle held (a.refill v l).line (b.refill v l').line) s s' ∧
      (a.refill v l).line v = l ∧ (b.refill v l').line v = l' := by
  obtain ⟨q', hq'⟩ := exists_of_line hline
  obtain ⟨q, hq, -⟩ := venue_of_shell h.shell.symm hq'
  refine ⟨h.toLevel.refill hq hq' hl he, ?_, ?_, ?_⟩
  · refine relined hs (fun u hu n n' hr => ?_) fun _ _ _ _ hheld => hheld
    have hne : u ≠ v := fun huv => hv (huv ▸ hu)
    rw [line_refill hq, line_refill hq', if_neg hne, if_neg hne]
    exact hr
  · rw [line_refill hq, if_pos rfl]
  · rw [line_refill hq', if_pos rfl]

/-- A queue that holds the same in both machines holds nothing idle more. -/
theorem forget (h : Beside idle held a b) (hv : b.line v = a.line v) :
    Beside idle (held.filter (· ≠ v)) a b where
  shell := h.shell
  lines := h.lines
  even u hu := by
    by_cases huv : u = v
    · exact huv ▸ hv
    · exact h.even u fun hmem => hu (List.mem_filter.mpr ⟨hmem, by simpa using huv⟩)
  awake := h.awake
  once := h.once
  stack := relined h.stack (fun _ _ _ _ hr => hr) fun _ _ _ _ hheld hmem =>
    hheld (List.mem_filter.mp hmem).1
  control := h.control

/-- The machine beside gets idle work from its line, and the one that has none is still to move. -/
theorem idles (h : Beside idle held a b) (hv : v ∉ servings a.stack) {w : C.Frame} {l : List C.Frame}
    (hw : idle w) (hb : b.line v = w :: l) (hl : Padded idle (a.line v) l) {f g : Frame C}
    {k : List (Frame C)} (hk : ∀ f ∈ k, ∀ m, f.Quiet idle m) {e : Entry C}
    (hfg : ∀ line line' : Nat → List C.Frame, line v = a.line v → line' v = l →
      Abreast idle held line line' f g) :
    Tarries idle held { a with stack := f :: a.stack, control := .back .done }
      { (b.refill v l).record e with
        stack := .own w :: k ++ g :: b.stack
        control := .back .done } := by
  have heven : v ∉ held → l = a.line v := fun hheld => by
    have hlong := hl.length_le
    have hsame := h.even v hheld
    rw [← hsame, hb, List.length_cons] at hlong
    omega
  obtain ⟨hlevel, hstack, hline, hline'⟩ := h.relieve (l := a.line v) (by simp [hb]) hl heven h.stack hv
  rw [refill_line] at hlevel hstack hline
  refine ⟨.own w :: k, g :: b.stack, rfl, ?_, fun _ => ⟨_, rfl⟩, ?_⟩
  · intro f hf
    rcases List.mem_cons.mp hf with rfl | hf
    · exact hw
    · exact hk f hf _
  · exact ⟨hlevel.go _ _ _ _ _ _, .cons (hfg _ _ rfl hline') hstack, .back _ _⟩

/-- Somebody serves a line in both machines. -/
theorem serve (h : Beside idle held a b) (hv : v ∉ servings a.stack) {left left' : Option Nat}
    (hr : Reaches idle (a.line v) (b.line v) left left') (after : Reply C.Answer) :
    Beside idle held (a.serve v left after) (b.serve v left' after) ∨
    Tarries idle held { a with stack := .serve v left after :: a.stack, control := .back .done }
      (b.serve v left' after) ∧ (b.serve v left' after).weight < b.weight := by
  have hbrings := hr.brings
  generalize hla : a.line v = la, hlb : b.line v = lb at hbrings
  cases hbrings with
  | finish hover hover' =>
    rw [serve_over (hover.imp_right hla.trans), serve_over (hover'.imp_right hlb.trans)]
    exact .inl (h.reply after after)
  | both hleft hleft' hgoes =>
    rw [serve_begin hleft hla, serve_begin hleft' hlb]
    obtain ⟨hlevel, hstack, hline, hline'⟩ := h.relieve (by simp [hlb]) hgoes.padded (fun hheld => by
      have := h.even v hheld
      rw [hla, hlb] at this
      exact (List.cons.inj this).2) h.stack hv
    refine .inl ⟨hlevel.go _ _ _ _ _ _, ?_, .back _ _⟩
    refine .cons (.same rfl) (.cons (.same rfl) (.cons (.serve ?_) hstack))
    show Reaches idle ((a.refill v _).line v) ((b.refill v _).line v) _ _
    rw [hline, hline']
    exact hgoes
  | pad hw hleft' hgoes =>
    refine .inr ?_
    rw [serve_begin hleft' hlb]
    subst hla
    refine ⟨h.idles (k := [.turn (.venue v)]) hv hw hlb hgoes.padded (by simp [Frame.Quiet])
      fun line line' hline hline' => ?_, ?_⟩
    · refine .serve ?_
      rw [hline, hline']
      exact hgoes
    · exact weight_begin hlb (by simp) _ _

/-- A queue is moved in both machines. -/
theorem drain (h : Beside idle held a b) (hv : v ∉ servings a.stack) {left : Option Nat}
    (hleft : left ≠ none → v ∉ held) (ran ran' : Nat) :
    Beside idle (a.clear v left held) (a.drain v left ran) (b.drain v left ran') ∧
      b.clear v left held = a.clear v left held ∨
    Tarries idle held { a with stack := .drain v left ran :: a.stack, control := .back .done }
      (b.drain v left ran') ∧ (b.drain v left ran').weight < b.weight ∧ b.clear v left held = held := by
  have hbrings := (h.lines v).brings left fun hne => h.even v (hleft hne)
  generalize hla : a.line v = la, hlb : b.line v = lb at hbrings
  cases hbrings with
  | finish hover hover' =>
    rw [drain_over (hover.imp_right hla.trans), drain_over (hover'.imp_right hlb.trans), clear, clear]
    refine .inl ⟨?_, ?_⟩
    · split
      · rename_i hclear
        have hend := hover'.resolve_left (by simp [hclear.1])
        exact (h.forget (hlb.trans (hend.trans hclear.2.symm))).reply _ _
      · exact h.reply _ _
    · cases left with
      | none => simp [hla, hlb, hover.resolve_left nofun, hover'.resolve_left nofun]
      | some n => rfl
  | both hl hl' hgoes =>
    rw [drain_begin hl hla, drain_begin hl' hlb, clear, clear, if_neg (by simp [hla]),
      if_neg (by simp [hlb])]
    obtain ⟨hlevel, hstack, hline, hline'⟩ := h.relieve (by simp [hlb]) hgoes.1 (fun hheld => by
      have := h.even v hheld
      rw [hla, hlb] at this
      exact (List.cons.inj this).2) h.stack hv
    refine .inl ⟨⟨hlevel.go _ _ _ _ _ _, ?_, .back _ _⟩, rfl⟩
    exact .cons (.same rfl) (.cons (.drain fun hne => hleft fun hnone => hne (by simp [hnone])) hstack)
  | pad hw hl' hgoes =>
    refine .inr ?_
    rw [drain_begin hl' hlb, clear, if_neg (by simp [hlb])]
    subst hla
    refine ⟨h.idles (k := []) hv hw hlb hgoes.1 (by simp) fun line line' hline hline' => ?_, ?_, rfl⟩
    · rw [hgoes.2]
      exact .drain hleft
    · exact weight_begin hlb (by simp) _ _

/-- Somebody begins to serve a line in both machines. -/
theorem serve_late (h : Beside idle held a b) (hv : v ∉ servings a.stack) {left left' : Option Nat}
    (hr : Reaches idle (a.line v) (b.line v) left left') (after : Reply C.Answer) :
    Beside idle held (a.serve v left after) (b.serve v left' after) ∨
    ∃ a₀, Late idle held a₀ (a.serve v left after) (b.serve v left' after) ∧
      a₀.clearing held = held := by
  rcases h.serve hv hr after with h | ⟨htarries, -⟩
  · exact .inl h
  · refine .inr ⟨_, ⟨htarries, ⟨_, _, _, v, rfl, rfl, rfl, hv⟩, ?_⟩, rfl⟩
    exact congrArg some (serve_control a (.back .done))

/-- What an operation on contexts does in the one machine, it does in the other one. -/
theorem runContext (h : Beside idle held a b) (ho : a.floor.Orderly) {o : ContextOp}
    (hc : a.control = .run (.context o)) (hc' : b.control = .run (.context o))
    (hcounted : ∀ id n v, o = .drain id (some n) → a.venue? id .manual = some v → v ∉ held) :
    (Beside idle (a.clearing held) (a.runContext o) (b.runContext o) ∧
      b.clearing held = a.clearing held) ∨
    ∃ a₀, Late idle held a₀ (a.runContext o) (b.runContext o) ∧
      a₀.clearing held = a.clearing held ∧ b.clearing held = held := by
  by_cases hdrain : ∃ id left, o = .drain id left
  · obtain ⟨id, left, rfl⟩ := hdrain
    simp only [Machine.runContext, clearing, hc, hc', h.venue?_eq]
    cases hv : a.venue? id .manual with
    | none => exact .inl ⟨h.reply _ _, rfl⟩
    | some v =>
      obtain ⟨q, hq, hk⟩ := kind?_of_venue? a hv
      have hserved : v ∉ servings a.stack :=
        not_served_manual ho (by simpa [floor, Floor.kind?, hq] using hk)
      have hcounted (hleft : left ≠ none) : v ∉ held := by
        obtain ⟨n, rfl⟩ := Option.ne_none_iff_exists'.mp hleft
        exact hcounted id n v rfl hv
      rcases h.drain hserved hcounted 0 0 with h | ⟨htarries, -, hclear⟩
      · exact .inl h
      · refine .inr ⟨_, ⟨htarries, ⟨_, _, _, v, rfl, rfl, rfl, hserved⟩, ?_⟩, ?_, hclear⟩
        · exact congrArg some (drain_control a (.back .done))
        · rfl
  · have hother (id : String) (left : Option Nat) : o ≠ .drain id left := fun he =>
      hdrain ⟨id, left, he⟩
    rw [clearing_context hc hother, clearing_context hc' hother]
    suffices hmoves : Beside idle held (a.runContext o) (b.runContext o) ∨
        ∃ a₀, Late idle held a₀ (a.runContext o) (b.runContext o) ∧ a₀.clearing held = held by
      rcases hmoves with h | ⟨a₀, hlate, hclear⟩
      · exact .inl ⟨h, rfl⟩
      · exact .inr ⟨a₀, hlate, hclear, rfl⟩
    cases o with
    | drain id left => exact absurd rfl (hother id left)
    | make id kind => exact .inl (h.make id kind)
    | flush id =>
      simp only [Machine.runContext, h.venue?_eq, h.isServing_eq]
      split
      · exact .inl (h.reply _ _)
      · rename_i v _
        cases hq : a.venues[v]? with
        | none =>
          have hq' : b.venues[v]? = none := by simpa [hq] using front_of_shell h.shell v
          simp only [hq']
          exact .inl (h.reply _ _)
        | some q =>
          obtain ⟨q', hq', -, haccepting⟩ := venue_of_shell h.shell hq
          simp only [hq', haccepting]
          split
          · exact .inl (h.reply _ _)
          · split
            · exact .inl (h.reply _ _)
            · rename_i hserving
              have hr := Reaches.whole (h.lines v)
              rw [line_of hq, line_of hq'] at hr
              exact h.serve_late (not_serving (by simpa using hserving))
                (by rwa [line_of hq, line_of hq']) _
    | stop id =>
      simp only [Machine.runContext, h.venue?_eq]
      split
      · exact .inl (h.reply _ _)
      · rename_i v _
        have hclosed := h.close v
        simp only [Machine.stop, h.hasHandle_eq, h.site?_eq, h.isServing_eq]
        split
        · exact .inl (hclosed.reply _ _)
        · split
          · exact .inl ((hclosed.wake _).reply _ _)
          · rename_i hserving
            have hidle : a.isServing v = false := by simpa using hserving
            exact hclosed.serve_late (not_serving (m := a.close v) hidle) (.all (hclosed.lines v)) _
    | forget id =>
      have hnamed := h.rename fun names => names.filter (·.1 ≠ id)
      simp only [Machine.runContext, Machine.forget, h.venue?_eq]
      split
      · exact .inl (hnamed.reply _ _)
      · rename_i v _
        simp only [names_of_shell h.shell, defaultThread_of_shell h.shell]
        simp only [names_of_shell h.shell, defaultThread_of_shell h.shell] at hnamed
        split
        · exact .inl (hnamed.reply _ _)
        · simp only [hnamed.isServing_eq]
          split
          · exact .inl (hnamed.widen v .done)
          · rename_i hserving
            exact hnamed.serve_late (not_serving (by simpa using hserving)) (.all (hnamed.lines v)) _
    | discipline id =>
      simp only [Machine.runContext, h.context?_eq]
      split <;> exact .inl (h.reply _ _)
    | same x y =>
      simp only [Machine.runContext, h.context?_eq]
      split <;> exact .inl (h.reply _ _)
    | inspect id =>
      obtain ⟨r, hr⟩ := a.inspect_eq id
      obtain ⟨r', hr'⟩ := b.inspect_eq id
      rw [hr, hr']
      exact .inl (h.reply r r')

end Beside

end Conduit.Dispatch
