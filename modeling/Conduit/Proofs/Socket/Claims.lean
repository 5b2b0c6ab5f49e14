import Conduit.Proofs.Kernel.Queues
import Conduit.Proofs.Socket.Owners

/-!
Claims to descriptors. Every descriptor belongs to one claimant at most: to a socket that has bound
it, an attempt, a listener, a connection, or the line in which it waits. It passes from one to
another, and who has given it away or lost it does not come by it again. Listeners and connections
lend theirs to accept loops and ports, and never give them away.
-/

namespace Conduit.Socket

open Dispatch
open Kernel (System)

/-- Those to whom a descriptor may belong, whether it is linked or not. -/
inductive Claimant where
  | owner (o : Owner)
  /-- An attempt whose connection has not reached its receiver. -/
  | pledge (a : Nat)
  | listener (l : Nat)
  | connection (k : Nat)
  /-- The descriptor in whose line it waits. -/
  | line (e : Nat)

/-- The connection `k` is among the outcomes of an accept loop. -/
def Acceptor.Bears (x : Acceptor) (k : Nat) : Prop := .ok k ∈ x.underway ∨ .ok k ∈ x.arrived

/-- A stage that holds no descriptor of its own, and from which connecting is not begun. -/
def Stage.isLate : Stage → Bool
  | .listening _ | .connected _ | .closed => true
  | _ => false

namespace Sockets

variable {s s' s'' : Sockets}

def Present (s : Sockets) (d : Nat) : Prop := (s.system.role? d).isSome

/-- The listener `l` has the descriptor `d`. -/
def ListensOn (s : Sockets) (l d : Nat) : Prop :=
  ∃ y, s.listeners[l]? = some y ∧ y.descriptor = some d

/-- The connection `k` has the descriptor `d`. -/
def RunsOn (s : Sockets) (k d : Nat) : Prop :=
  ∃ y, s.connections[k]? = some y ∧ y.descriptor = some d

/-- The attempt `a` has made the connection `k`, which is on its way to its receiver. -/
def Pledges (s : Sockets) (a k : Nat) : Prop :=
  ∃ x, s.attempts[a]? = some x ∧ x.progress = .decided (.ok k)

/-- Somebody can come by the connection `k`. -/
inductive Reaches (s : Sockets) (k : Nat) : Prop where
  | slot (h : .connected k ∈ s.slots)
  | name {id} (h : (id, Handle.sole (.connected k)) ∈ s.handles)
  | outcome {x} (h : x ∈ s.attempts) (hx : x.progress = .delivered (.ok k))
  | arrival {x} (h : x ∈ s.acceptors) (hx : x.Bears k)
  | plug {plug : Plug} (h : plug ∈ s.plugs) (hk : plug.connection = k)

theorem Reaches.of_eq {k : Nat} (h : s'.Reaches k) (hhandles : s'.handles = s.handles)
    (hslots : s'.slots = s.slots) (hattempts : s'.attempts = s.attempts)
    (hacceptors : s'.acceptors = s.acceptors) (hplugs : s'.plugs = s.plugs) : s.Reaches k := by
  cases h with
  | slot h => exact .slot (hslots ▸ h)
  | name h => exact .name (hhandles ▸ h)
  | outcome h hx => exact .outcome (hattempts ▸ h) hx
  | arrival h hx => exact .arrival (hacceptors ▸ h) hx
  | plug h hk => exact .plug (hplugs ▸ h) hk

def Claims (s : Sockets) : Claimant → Nat → Prop
  | .owner o, d => s.Owns o d
  | .pledge a, d => ∃ k, s.Pledges a k ∧ s.RunsOn k d
  | .listener l, d => s.ListensOn l d
  | .connection k, d => s.Reaches k ∧ s.RunsOn k d
  | .line e, d => d ∈ s.system.line e

/-- A loop waits with the descriptor of its listener, and a port works with that of its
connection. -/
def Lends (s : Sockets) : Claimant → Nat → Prop
  | .listener l, d => ∃ x ∈ s.acceptors, x.listener = l ∧ x.round = .waiting d
  | .connection k, d => ⟨some d, k⟩ ∈ s.plugs
  | _, _ => False

/-- Who gives a descriptor to nobody any more: an attempt that has been told to stop, one whose slot
has been closed, and all that lend. -/
def Spent (s : Sockets) : Claimant → Prop
  | .owner (.attempt a) => ∃ x, s.attempts[a]? = some x ∧ x.closed = true
  | .pledge a => ∃ x i, s.attempts[a]? = some x ∧ x.slot = some i ∧ s.slots[i]? = some .closed
  | .listener _ | .connection _ => True
  | _ => False

theorem spent_of_lender {c : Claimant} {d : Nat} (h : s'.Lends c d) : s.Spent c := by
  cases c with
  | listener | connection => trivial
  | _ => exact h.elim

/-- Every descriptor belongs to one claimant at most. -/
structure Titled (s : Sockets) : Prop where
  present : ∀ c d, s.Claims c d → s.Present d
  alone : ∀ c c' d, s.Claims c d → s.Claims c' d → c = c'
  lines : ∀ e, (s.system.line e).Nodup
  reached : ∀ k, s.Reaches k → k < s.connections.length
  pledged : ∀ a k, s.Pledges a k → k < s.connections.length
  /-- What is lent belongs to nobody else. -/
  lent : ∀ c d, s.Lends c d → s.Present d ∧ ∀ c', s.Claims c' d → c' = c

/-- Slots are those of sockets that have not been closed, or are empty. -/
structure Lively (s : Sockets) : Prop where
  unbound : ∀ (i : Nat) p, s.slots[i]? = some (.unbound p) → p.closed = false
  connecting : ∀ (i a : Nat), s.slots[i]? = some (.connecting a) →
    ∃ x, s.attempts[a]? = some x ∧ x.slot = some i

/-- What becomes of a descriptor: those who have it keep it at most, or one alone comes by it, from
another or because it is new. -/
inductive Hands (s s' : Sockets) (d : Nat) : Prop where
  | kept (h : ∀ c, s'.Claims c d → s.Claims c d)
  | passed {c₀ c} (hold : s.Claims c₀ d) (hfree : ¬s.Spent c₀) (h : ∀ c', s'.Claims c' d → c' = c)
  | made {c} (hnew : ¬s.Present d) (hpresent : s'.Present d) (h : ∀ c', s'.Claims c' d → c' = c)

/-- What is done to a state in which every descriptor belongs to one claimant at most. -/
structure Deals (s s' : Sockets) : Prop where
  system : s.system.Lasts s'.system
  titled : s.Titled → s'.Titled
  hands : s.Titled → ∀ d, s.Hands s' d
  spent : ∀ c, s.Spent c → s'.Spent c
  lively : s.Lively → s'.Lively

namespace Deals

theorem trans (h : s.Deals s') (h' : s'.Deals s'') : s.Deals s'' where
  system := h.system.trans h'.system
  titled hs := h'.titled (h.titled hs)
  hands hs d := by
    cases h'.hands (h.titled hs) d with
    | kept hk' =>
      cases h.hands hs d with
      | kept hk => exact .kept fun c hc => hk c (hk' c hc)
      | passed hold hfree hone => exact .passed hold hfree fun c hc => hone c (hk' c hc)
      | made hnew hpresent hone =>
        exact .made hnew (h'.system.present d hpresent) fun c hc => hone c (hk' c hc)
    | passed hold hfree hone =>
      cases h.hands hs d with
      | kept hk => exact .passed (hk _ hold) (fun hspent => hfree (h.spent _ hspent)) hone
      | passed hold₀ hfree₀ => exact .passed hold₀ hfree₀ hone
      | made hnew hpresent => exact .made hnew (h'.system.present d hpresent) hone
    | made hnew hpresent hone =>
      exact .made (fun hd => hnew (h.system.present d hd)) hpresent hone
  spent c hc := h'.spent c (h.spent c hc)
  lively hs := h'.lively (h.lively hs)

/-- Whether descriptors belong to one claimant each afterwards, can be read off what becomes of each
of them. -/
theorem of_hands (system : s.system.Lasts s'.system) (hands : s.Titled → ∀ d, s.Hands s' d)
    (lines : s.Titled → ∀ e, (s'.system.line e).Nodup)
    (reached : s.Titled → ∀ k, s'.Reaches k → k < s'.connections.length)
    (pledged : s.Titled → ∀ a k, s'.Pledges a k → k < s'.connections.length)
    (lends : ∀ c d, s'.Lends c d → s.Lends c d ∨ s.Claims c d)
    (spent : ∀ c, s.Spent c → s'.Spent c) (lively : s.Lively → s'.Lively) : s.Deals s' where
  system := system
  hands := hands
  spent := spent
  lively := lively
  titled hs := by
    refine ⟨fun c d hc => ?_, fun c c' d hc hc' => ?_, lines hs, reached hs, pledged hs,
      fun c d hl => ?_⟩
    · cases hands hs d with
      | kept hk => exact system.present d (hs.present c d (hk c hc))
      | passed hold => exact system.present d (hs.present _ d hold)
      | made _ hpresent => exact hpresent
    · cases hands hs d with
      | kept hk => exact hs.alone c c' d (hk c hc) (hk c' hc')
      | passed _ _ hone | made _ _ hone => exact (hone c hc).trans (hone c' hc').symm
    · obtain ⟨hpresent, honly⟩ : s.Present d ∧ ∀ c', s.Claims c' d → c' = c := by
        rcases lends c d hl with hl | hc
        · exact hs.lent c d hl
        · exact ⟨hs.present c d hc, fun c' hc' => hs.alone c' c d hc' hc⟩
      refine ⟨system.present d hpresent, fun c' hc' => ?_⟩
      cases hands hs d with
      | kept hk => exact honly c' (hk c' hc')
      | passed hold hfree =>
        -- Who lends does not give away.
        rw [honly _ hold] at hfree
        exact absurd (spent_of_lender hl) hfree
      | made hnew => exact absurd hpresent hnew

end Deals

/-- Nobody comes by anything, and what is lent is lent by those who have it. -/
structure Yields (s s' : Sockets) : Prop where
  system : s.system.Thins s'.system
  owns : s.Releases s'
  listens : ∀ l d, s'.ListensOn l d → s.ListensOn l d
  runs : ∀ k d, s'.RunsOn k d → s.RunsOn k d
  pledges : ∀ a k, s'.Pledges a k → s.Pledges a k
  reaches : ∀ k, s'.Reaches k → s.Reaches k
  grows : s.connections.length ≤ s'.connections.length
  lends : ∀ c d, s'.Lends c d → s.Lends c d ∨ s.Claims c d
  spent : ∀ c, s.Spent c → s'.Spent c
  lively : s.Lively → s'.Lively

namespace Yields

theorem claims (h : s.Yields s') {c : Claimant} {d : Nat} (hc : s'.Claims c d) : s.Claims c d := by
  cases c with
  | owner o => exact h.owns o d hc
  | pledge a => exact hc.imp fun k ⟨hp, hr⟩ => ⟨h.pledges a k hp, h.runs k d hr⟩
  | listener l => exact h.listens l d hc
  | connection k => exact ⟨h.reaches k hc.1, h.runs k d hc.2⟩
  | line e => exact (h.system.line e).subset hc

theorem refl (s : Sockets) : s.Yields s :=
  ⟨.refl _, .refl s, fun _ _ => id, fun _ _ => id, fun _ _ => id, fun _ => id, Nat.le_refl _,
    fun _ _ => .inl, fun _ => id, id⟩

theorem trans (h : s.Yields s') (h' : s'.Yields s'') : s.Yields s'' where
  system := h.system.trans h'.system
  owns := h.owns.trans h'.owns
  listens l d hl := h.listens l d (h'.listens l d hl)
  runs k d hk := h.runs k d (h'.runs k d hk)
  pledges a k hp := h.pledges a k (h'.pledges a k hp)
  reaches k hk := h.reaches k (h'.reaches k hk)
  grows := Nat.le_trans h.grows h'.grows
  lends c d hl := (h'.lends c d hl).elim (h.lends c d) fun hc => .inr (h.claims hc)
  spent c hc := h'.spent c (h.spent c hc)
  lively hs := h'.lively (h.lively hs)

theorem deals (h : s.Yields s') : s.Deals s' :=
  .of_hands h.system.toLasts (fun _ _ => .kept fun _ => h.claims)
    (fun hs e => (hs.lines e).sublist (h.system.line e))
    (fun hs k hk => Nat.lt_of_lt_of_le (hs.reached k (h.reaches k hk)) h.grows)
    (fun hs a k hk => Nat.lt_of_lt_of_le (hs.pledged a k (h.pledges a k hk)) h.grows)
    h.lends h.spent h.lively

end Yields

/-! ### What stays so -/

/-- The descriptor `d` belongs at most to those who are `Q`, and they give it to nobody. -/
def Tied (s : Sockets) (Q : Claimant → Prop) (d : Nat) : Prop :=
  s.Present d ∧ ∀ c, s.Claims c d → Q c ∧ s.Spent c

theorem Deals.tied {Q : Claimant → Prop} {d : Nat} (h : s.Deals s') (hs : s.Titled)
    (hd : s.Tied Q d) : s'.Tied Q d := by
  obtain ⟨hpresent, hall⟩ := hd
  refine ⟨h.system.present d hpresent, fun c hc => ?_⟩
  cases h.hands hs d with
  | kept hk => exact (hall c (hk c hc)).imp_right (h.spent c)
  | passed hold hfree => exact absurd (hall _ hold).2 hfree
  | made hnew => exact absurd hpresent hnew

end Sockets

end Conduit.Socket
