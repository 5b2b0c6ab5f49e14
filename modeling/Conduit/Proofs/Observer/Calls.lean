import Conduit.Proofs.Dispatch.Handed
import Conduit.Proofs.Observer.Tokens

/-!
A call of an enumeration. It gives one block to the context of every registration that is live when
it starts, in order. It comes to an end when it has, unless a block that is run in line throws.
-/

namespace Conduit.Observer

open Dispatch

/-- The machine is about to enumerate all observers with a block. -/
structure Enumerates (m : Machine component) (b : Block) : Prop where
  plain : b.asks = none
  control : m.control = .run (.own (.callEach none b.tag b.script b.throws))

/-- The blocks for registrations, with their contexts. -/
def blocks (b : Block) (es : List Registration) : List (Context × component.Frame) :=
  es.map fun e => (e.context, Frame.visit b e)

/-- What runs above a call that has given blocks to the registrations `done`: nothing; a block that is
run in line, or the throw of one; or a block on the pool, which contains its throws. -/
inductive Above (done : List Registration) (above : List (Dispatch.Frame component))
    (c : Control component) : Prop where
  | idle {r} (ha : above = []) (hc : c = .back r)
  | inLine {e} (he : done.getLast? = some e) (hd : e.context.place = .direct)
      (h : above ≠ [] ∨ c = .thrown)
  | pooled {k} (ha : above = k ++ [.turn .pool])

/-- The call is under way: the registrations `done` have had their turn, `rest` have not. -/
def Calling (b : Block) (s : List (Dispatch.Frame component)) (done rest : List Registration)
    (m : Machine component) : Prop :=
  ∃ above lower, m.stack = above ++ .own (.deliver b rest) :: lower ∧ AllKept s lower ∧
    Above done above m.control

/-- The call is over. -/
inductive Called (s : List (Dispatch.Frame component)) (done rest : List Registration)
    (m : Machine component) : Prop where
  | returned (hs : AllKept s m.stack) (hc : m.control = .back .done) (hr : rest = [])
  | thrown {e} (hs : AllKept s m.stack) (hc : m.control = .thrown) (he : done.getLast? = some e)
      (hd : e.context.place = .direct)

section Call

variable {b : Block} {s : List (Dispatch.Frame component)} {done rest : List Registration}
  {m m' : Machine component}

theorem Calling.height (h : Calling b s done rest m) : s.length < m.stack.length := by
  obtain ⟨above, lower, hs, hkept, -⟩ := h
  rw [hs, List.length_append, List.length_cons, hkept.length_eq]
  omega

theorem Called.height (h : Called s done rest m) : m.stack.length = s.length := by
  cases h with
  | returned hs => exact hs.length_eq.symm
  | thrown hs => exact hs.length_eq.symm

theorem hands?_of_height {d : Nat} (h : m.stack.length ≠ d + 1) : m.hands? d = none := if_neg h

/-- Above the call something goes on running. -/
theorem Calling.step_above {above lower : List (Dispatch.Frame component)}
    (hs : m.stack = above ++ .own (.deliver b rest) :: lower) (hkept : AllKept s lower)
    (habove : Above done above m.control) (hne : above ≠ []) (hm : m.step? = some m') :
    Calling b s done rest m' := by
  cases habove with
  | idle ha => exact absurd ha hne
  | inLine he hd =>
    obtain ⟨above', f, lower', hs', hf, hlower, hrun⟩ := Machine.step?_frame hs (.inl hne) hm
    cases hf with
    | same =>
      refine ⟨above', lower', hs', hkept.trans hlower, ?_⟩
      -- With nothing left above, the block has returned or thrown.
      by_cases ha : above' = []
      · cases hc : m'.control with
        | run op => exact absurd hc (hrun ha op)
        | back r => exact .idle ha rfl
        | thrown => exact .inLine he hd (.inr rfl)
      · exact .inLine he hd (.inl ha)
  | @pooled k ha =>
    subst ha
    rw [List.append_assoc] at hs
    by_cases hfar : k ≠ [] ∨ ∃ op, m.control = .run op
    · obtain ⟨above', f, lower', hs', hf, hlower, -⟩ := Machine.step?_frame hs hfar hm
      cases hf with
      | same =>
        obtain ⟨g, low, hg, hlow, rfl⟩ := List.forall₂_cons_left_iff.mp hlower
        cases hg with
        | same => exact ⟨above' ++ [.turn .pool], low, by simp [hs'], hkept.trans hlow, .pooled rfl⟩
    · obtain ⟨hk, hrun⟩ := not_or.mp hfar
      obtain rfl : k = [] := not_not.mp hk
      -- The turn on the pool is over, by a reply or a throw.
      cases hc : m.control with
      | run op => exact absurd ⟨op, hc⟩ hrun
      | back r =>
        rw [Machine.step?_back hc hs] at hm
        cases hm
        exact ⟨[], lower, rfl, hkept, .idle rfl rfl⟩
      | thrown =>
        rw [Machine.step?_thrown hc hs] at hm
        cases hm
        exact ⟨[], lower, rfl, hkept, .idle rfl rfl⟩

/-- The call goes on with the next registration. -/
theorem Calling.hand {lower : List (Dispatch.Frame component)} {e : Registration}
    (hb : b.asks = none) {r : Reply Answer} (hc : m.control = .back r)
    (hs : m.stack = .own (.deliver b (e :: rest)) :: lower) (hkept : AllKept s lower)
    (hm : m.step? = some m') : m.hands? s.length = some (e.context, .visit b e) ∧
      Calling b s (done ++ [e]) rest m' := by
  have hnext : (component.resume m.state (.deliver b (e :: rest))).next =
      .perform e.context (.visit b e) [.deliver b rest] := by
    show (resume m.state (.deliver b (e :: rest))).next = _
    simp only [resume, hb, Option.isSome_none, Bool.false_eq_true, false_and, if_false]
    rfl
  constructor
  · have hlen : m.stack.length = s.length + 1 := by rw [hs, List.length_cons, hkept.length_eq]
    simp [Machine.hands?, hlen, Machine.turn?_back hc hs, hnext]
  · rw [Machine.step?_back hc hs] at hm
    obtain rfl := Option.some.inj hm
    rw [show ({ m with stack := lower } : Machine component).returnTo r (.own (.deliver b (e :: rest)))
      = ({ m with stack := lower } : Machine component).take
        (component.resume m.state (.deliver b (e :: rest))) from rfl, Machine.take_perform hnext]
    have hstack := Machine.hear_stack { m with stack := lower }
      (component.resume m.state (.deliver b (e :: rest)))
    -- The block runs in line, or on the pool, or joins a line and the call goes on at once.
    unfold Machine.handOver
    split
    · rename_i hd
      refine ⟨[.own (.visit b e)], lower, ?_, hkept,
        .inLine (List.getLast?_concat ..) hd (.inl (by simp))⟩
      exact congrArg (.own (.visit b e) :: .own (.deliver b rest) :: ·) hstack
    · refine ⟨[.own (.visit b e), .turn .pool], lower, ?_, hkept, .pooled (k := [_]) rfl⟩
      exact congrArg (.own (.visit b e) :: .turn .pool :: .own (.deliver b rest) :: ·) hstack
    · refine ⟨[], lower, ?_, hkept, .idle rfl rfl⟩
      refine (Machine.enqueue_stack _ _ _).trans ?_
      exact congrArg (fun k : List (Dispatch.Frame component) => .own (.deliver b rest) :: k) hstack

/-- Nobody is left, and the call returns. -/
theorem Calling.last {lower : List (Dispatch.Frame component)} {r : Reply Answer}
    (hc : m.control = .back r) (hs : m.stack = .own (.deliver b []) :: lower)
    (hkept : AllKept s lower) (hm : m.step? = some m') :
    m.hands? s.length = none ∧ Called s done [] m' := by
  constructor
  · unfold Machine.hands?
    rw [Machine.turn?_back hc hs]
    exact ite_self none
  · rw [Machine.step?_back hc hs] at hm
    obtain rfl := Option.some.inj hm
    rw [show ({ m with stack := lower } : Machine component).returnTo r (.own (.deliver b []))
      = ({ m with stack := lower } : Machine component).take
        (component.resume m.state (.deliver b [])) from rfl, Machine.take_reply (r := .done) rfl]
    exact .returned (by rwa [show (Machine.reply _ _).stack = _ from Machine.hear_stack _ _]) rfl rfl

/-- The throw of a block that is run in line ends the call. -/
theorem Calling.unwind {lower : List (Dispatch.Frame component)} {e : Registration}
    (hc : m.control = .thrown) (hs : m.stack = .own (.deliver b rest) :: lower)
    (hkept : AllKept s lower) (he : done.getLast? = some e) (hd : e.context.place = .direct)
    (hm : m.step? = some m') : m.hands? s.length = none ∧ Called s done rest m' := by
  constructor
  · unfold Machine.hands?
    rw [Machine.turn?_thrown hc hs]
    exact ite_self none
  · rw [Machine.step?_thrown hc hs] at hm
    obtain rfl := Option.some.inj hm
    have hsame : ({ m with stack := lower } : Machine component).unwind (.own (.deliver b rest)) =
        { m with stack := lower } := rfl
    rw [hsame]
    exact .thrown hkept hc he hd

theorem Calling.step (h : Calling b s done rest m) (hb : b.asks = none)
    (hm : m.step? = some m') : ∃ done' rest', done' ++ rest' = done ++ rest ∧
      blocks b done' = blocks b done ++ (m.hands? s.length).toList ∧
      (Calling b s done' rest' m' ∨ Called s done' rest' m') := by
  obtain ⟨above, lower, hs, hkept, habove⟩ := h
  by_cases hne : above = []
  · subst hne
    cases habove with
    | @idle r _ hc =>
      cases rest with
      | nil =>
        obtain ⟨hnone, hover⟩ : _ ∧ Called s done [] m' := Calling.last hc hs hkept hm
        exact ⟨done, [], rfl, by simp [hnone], .inr hover⟩
      | cons e rest =>
        obtain ⟨hhands, hcalling⟩ : _ ∧ Calling b s (done ++ [e]) rest m' :=
          Calling.hand hb hc hs hkept hm
        exact ⟨done ++ [e], rest, by simp, by simp [hhands, blocks], .inl hcalling⟩
    | inLine he hd h =>
      obtain ⟨hnone, hover⟩ :=
        Calling.unwind (h.resolve_left (by simp)) hs hkept he hd hm
      exact ⟨done, rest, rfl, by simp [hnone], .inr hover⟩
    | pooled ha => simp at ha
  · -- The call is not the uppermost frame, and so nothing is given on its behalf.
    have hfar : m.stack.length ≠ s.length + 1 := by
      have := List.length_pos_iff.mpr hne
      rw [hs, List.length_append, List.length_cons, hkept.length_eq]
      omega
    exact ⟨done, rest, rfl, by simp [hands?_of_height hfar],
      .inl (Calling.step_above hs hkept habove hne hm)⟩

/-- The call begins with the registrations that are live. -/
theorem Enumerates.begin (h : Enumerates m b) (hm : m.step? = some m') :
    Calling b m.stack [] m.state.live m' := by
  rw [Machine.step?_own h.control] at hm
  obtain rfl := Option.some.inj hm
  have hnext : (component.exec m.view m.state (.callEach none b.tag b.script b.throws)).next =
      .enter [.deliver b m.state.live] := by
    obtain ⟨tag, asks, script, throws⟩ := b
    obtain rfl : asks = none := h.plain
    rfl
  rw [Machine.take_eq_goOn, hnext]
  refine ⟨[], m.stack, ?_, .refl _, .idle rfl rfl⟩
  exact congrArg (fun k : List (Dispatch.Frame component) => .own (.deliver b m.state.live) :: k)
    (m.hear_stack _)

/-- All along the call, and when it is over. -/
theorem Enumerates.within (h : Enumerates m b) {ms : List (Machine component)}
    (hw : m.Within m.stack.length ms m') : ∃ done rest, done ++ rest = m.state.live ∧
      handed m.stack.length ms = blocks b done ∧
      (Calling b m.stack done rest m' ∨ Called m.stack done rest m') := by
  induction hw with
  | enter hm =>
    refine ⟨[], m.state.live, rfl, ?_, .inl (h.begin hm)⟩
    simp [handed, hands?_of_height, blocks]
  | @next ms m₁ m₂ _ hd hm ih =>
    obtain ⟨done, rest, hall, hhanded, hcalling | hcalled⟩ := ih
    · obtain ⟨done', rest', hall', hblocks, hstep⟩ := hcalling.step h.plain hm
      exact ⟨done', rest', hall'.trans hall, by rw [handed_concat, hhanded, hblocks], hstep⟩
    · exact absurd hcalled.height (Nat.ne_of_gt hd)

end Call

end Conduit.Observer
