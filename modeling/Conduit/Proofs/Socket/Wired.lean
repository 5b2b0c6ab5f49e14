import Conduit.Proofs.Socket.Traffic

/-!
How the ports of pipes hang on connections. The ports of an open connection are plugged into its
descriptor and are closed with it; those of a closed one are closed. Every move of a bench keeps it
so, closes nothing but what its cut says, and is a few moves of the desk of pipes.
-/

namespace Conduit.Socket

open Dispatch
open Pipe.Desk (getElem?_concat)

/-- A cut closes the port `p`, which was made on the connection `k`. -/
def Cut.Takes (p k : Nat) : Cut → Prop
  | .nothing => False
  | .ports ps => p ∈ ps
  | .connection j => j = k

/-- A port agrees with the connection that it was made on. -/
structure Plug.Fits (plug : Plug) (h : Pipe.Hub) (p : Nat) (x : Connection) : Prop where
  shared : x.closed = false → plug.descriptor = x.descriptor ∧ p ∈ x.ports
  shut : x.closed = true → h.isClosed p = true

namespace Bench

variable {b b' b'' : Bench} {cut : Cut} {ds : List Pipe.Deed} {ws : List Nat}

/-- All ports agree with their connections. -/
structure Wired (b : Bench) : Prop where
  plugs : b.plugs.length = b.hub.ports.length
  even : 2 ∣ b.hub.ports.length
  named : ∀ e ∈ b.pipes, 2 ∣ e.2.1 ∧ e.2.2 = e.2.1 + 1 ∧ e.2.2 < b.hub.ports.length
  plugged : ∀ (p : Nat) (plug : Plug), b.plugs[p]? = some plug →
    ∃ x, b.connections[plug.connection]? = some x ∧ plug.Fits b.hub p x
  listed : ∀ (k : Nat) (x : Connection), b.connections[k]? = some x → ∀ p ∈ x.ports,
    ∃ plug : Plug, b.plugs[p]? = some plug ∧ plug.connection = k
  held : ∀ (k : Nat) (x : Connection), b.connections[k]? = some x →
    (x.closed = true ↔ x.descriptor = none)

/-- What cuts leave of a bench: plugs and connections stay, what is closed stays closed, and nothing
else is closed than what some cut takes. -/
structure Leaves (b : Bench) (cuts : List Cut) (b' : Bench) : Prop where
  plugs : b.plugs <+: b'.plugs
  connections : ∀ (k : Nat) (x : Connection), b.connections[k]? = some x →
    ∃ x', b'.connections[k]? = some x' ∧
      (x'.closed = x.closed ∨ x.closed = false ∧ .connection k ∈ cuts)
  ports : ∀ (p : Nat) (plug : Plug), b.plugs[p]? = some plug →
    b'.hub.isClosed p = b.hub.isClosed p ∨
      b.hub.isClosed p = false ∧ ∃ cut ∈ cuts, cut.Takes p plug.connection

theorem Leaves.refl (b : Bench) (cuts : List Cut) : b.Leaves cuts b :=
  ⟨List.prefix_rfl, fun _ x hx => ⟨x, hx, .inl rfl⟩, fun _ _ _ => .inl rfl⟩

theorem Leaves.trans {cuts cuts' : List Cut} (h : b.Leaves cuts b') (h' : b'.Leaves cuts' b'') :
    b.Leaves (cuts ++ cuts') b'' where
  plugs := h.plugs.trans h'.plugs
  connections k x hx := by
    obtain ⟨x', hx', h₁⟩ := h.connections k x hx
    obtain ⟨x'', hx'', h₂⟩ := h'.connections k x' hx'
    refine ⟨x'', hx'', ?_⟩
    rcases h₁ with h₁ | ⟨ho, h₁⟩
    · rcases h₂ with h₂ | ⟨ho, h₂⟩
      · exact .inl (h₂.trans h₁)
      · exact .inr ⟨h₁ ▸ ho, List.mem_append_right _ h₂⟩
    · exact .inr ⟨ho, List.mem_append_left _ h₁⟩
  ports p plug hp := by
    have hp' : b'.plugs[p]? = some plug := by
      obtain ⟨l, hl⟩ := h.plugs
      rw [← hl, List.getElem?_append_left (List.getElem?_eq_some_iff.mp hp).1, hp]
    rcases h.ports p plug hp with h₁ | ⟨ho, cut, hm, h₁⟩
    · rcases h'.ports p plug hp' with h₂ | ⟨ho, cut, hm, h₂⟩
      · exact .inl (h₂.trans h₁)
      · exact .inr ⟨h₁ ▸ ho, cut, List.mem_append_right _ hm, h₂⟩
    · exact .inr ⟨ho, cut, List.mem_append_left _ hm, h₁⟩

section Hub

open Pipe (Hub)

/-- The ports of two hubs are closed alike. -/
def Alike (h h' : Hub) : Prop := h'.ports.map (·.closed) = h.ports.map (·.closed)

variable {h h' : Hub}

theorem Alike.length (ha : Alike h h') : h'.ports.length = h.ports.length := by
  simpa using congrArg List.length ha

theorem Alike.isClosed (ha : Alike h h') (p : Nat) : h'.isClosed p = h.isClosed p := by
  have := congrArg (·[p]?) ha
  simp only [List.getElem?_map] at this
  simp only [Hub.isClosed, this]

theorem Wired.of_alike {hub : Hub} (hb : b.Wired) (ha : Alike b.hub hub) :
    Wired { b with hub } where
  plugs := hb.plugs.trans ha.length.symm
  even := ha.length ▸ hb.even
  named e he := by
    rw [ha.length]
    exact hb.named e he
  plugged p plug hp := by
    obtain ⟨x, hx, hf⟩ := hb.plugged p plug hp
    exact ⟨x, hx, hf.shared, fun hc => (ha.isClosed p).trans (hf.shut hc)⟩
  listed := hb.listed
  held := hb.held

theorem Leaves.of_alike {hub : Hub} (ha : Alike b.hub hub) (cuts : List Cut) :
    b.Leaves cuts { b with hub } :=
  ⟨List.prefix_rfl, fun _ x hx => ⟨x, hx, .inl rfl⟩, fun p _ _ => .inl (ha.isClosed p)⟩

theorem isClosed_addPort (h : Hub) (chunk p : Nat) :
    (h.addPort chunk).isClosed p = (h.isClosed p && decide (p ≠ h.ports.length)) := by
  unfold Hub.isClosed Hub.addPort
  rcases Nat.lt_trichotomy p h.ports.length with hlt | rfl | hgt
  · rw [List.getElem?_append_left hlt]
    simp [Nat.ne_of_lt hlt]
  · simp
  · have hle := Nat.le_of_lt hgt
    rw [List.getElem?_eq_none (by simp; omega), List.getElem?_eq_none hle]
    simp [Nat.ne_of_gt hgt]

end Hub

section Plugged

variable (b) (id : String) (k : Nat) (x : Connection)

@[simp] theorem length_plugged :
    (b.plugged id k x).hub.ports.length = b.hub.ports.length + 2 := by
  simp [plugged, Pipe.Hub.addPort]

theorem isClosed_plugged (p : Nat) : (b.plugged id k x).hub.isClosed p =
    (b.hub.isClosed p && decide (p ≠ b.hub.ports.length ∧ p ≠ b.hub.ports.length + 1)) := by
  simp only [plugged, isClosed_addPort, Bool.and_assoc, ← Bool.decide_and]
  simp [Pipe.Hub.addPort]

/-- The plugs of a bench with a new pipe. -/
theorem plugs_plugged {p : Nat} {plug : Plug} (hp : (b.plugged id k x).plugs[p]? = some plug) :
    b.plugs[p]? = some plug ∨
      (p = b.plugs.length ∨ p = b.plugs.length + 1) ∧ plug = ⟨x.descriptor, k⟩ := by
  rcases getElem?_concat.mp hp with hp | ⟨rfl, rfl⟩
  · exact (getElem?_concat.mp hp).imp_right fun ⟨h₁, h₂⟩ => ⟨.inl h₁, h₂.symm⟩
  · exact .inr ⟨.inr (by simp), rfl⟩

theorem plugs_grow : b.plugs <+: (b.plugged id k x).plugs := by
  simp [plugged, List.append_assoc]

theorem plugs_plugged_of_lt {p : Nat} {plug : Plug} (hp : b.plugs[p]? = some plug) :
    (b.plugged id k x).plugs[p]? = some plug :=
  getElem?_concat.mpr (.inl (getElem?_concat.mpr (.inl hp)))

end Plugged

/-- Connections that are changed one by one stay where they are. -/
theorem getElem?_set_cases {xs : List Connection} {k j : Nat} {x y : Connection}
    (h : (xs.set k x)[j]? = some y) : j = k ∧ y = x ∨ j ≠ k ∧ xs[j]? = some y := by
  rw [List.getElem?_set] at h
  grind

/-- Ports that are closed agree with a connection as before. -/
theorem Wired.closeAll (hb : b.Wired) (ps : List Nat) :
    Wired { b with hub := (b.hub.closeAll ps).1 } where
  plugs := hb.plugs.trans (b.hub.length_closeAll ps).symm
  even := (b.hub.length_closeAll _).symm ▸ hb.even
  named e he := by
    rw [Pipe.Hub.length_closeAll]
    exact hb.named e he
  plugged p plug hp := by
    obtain ⟨x, hx, hf⟩ := hb.plugged p plug hp
    exact ⟨x, hx, hf.shared, fun hc => by simp [Pipe.Hub.isClosed_closeAll, hf.shut hc]⟩
  listed := hb.listed
  held := hb.held

/-- A connection that meets none of the ports yet. -/
theorem Wired.meet (hb : b.Wired) (d : Nat) (limits : ChunkLimits) :
    Wired { b with connections := b.connections ++ [{ descriptor := some d, limits }] } where
  plugs := hb.plugs
  even := hb.even
  named := hb.named
  plugged p plug hp := by
    obtain ⟨x, hx, hf⟩ := hb.plugged p plug hp
    exact ⟨x, getElem?_concat.mpr (.inl hx), hf.shared, hf.shut⟩
  listed k x hx := by
    rcases getElem?_concat.mp hx with hx | ⟨-, rfl⟩
    · exact hb.listed k x hx
    · simp [Connection.ports]
  held k x hx := by
    rcases getElem?_concat.mp hx with hx | ⟨-, rfl⟩
    · exact hb.held k x hx
    · simp

/-- A connection is closed, and all its ports. -/
theorem Wired.shut (hb : b.Wired) {k : Nat} {x : Connection} (hx : b.connections[k]? = some x)
    (ho : x.closed = false) : Wired { b with
      hub := (b.hub.closeAll x.ports).1
      connections := b.connections.set k x.shut } where
  plugs := hb.plugs.trans (b.hub.length_closeAll _).symm
  even := (b.hub.length_closeAll _).symm ▸ hb.even
  named e he := by
    rw [Pipe.Hub.length_closeAll]
    exact hb.named e he
  plugged p plug hp := by
    obtain ⟨y, hy, hf⟩ := hb.plugged p plug hp
    by_cases hk : plug.connection = k
    · subst hk
      obtain rfl : x = y := by simpa [hx] using hy
      obtain ⟨hlt, -⟩ := List.getElem?_eq_some_iff.mp hx
      refine ⟨x.shut, by simp [hlt], nofun, fun _ => ?_⟩
      simp [Pipe.Hub.isClosed_closeAll, (hf.shared ho).2]
    · refine ⟨y, by simpa [Ne.symm hk] using hy, hf.shared, fun hc => ?_⟩
      simp [Pipe.Hub.isClosed_closeAll, hf.shut hc]
  listed j y hy := by
    rcases getElem?_set_cases hy with ⟨-, rfl⟩ | ⟨-, hy⟩
    · simp [Connection.ports, Connection.shut]
    · exact hb.listed j y hy
  held j y hy := by
    rcases getElem?_set_cases hy with ⟨-, rfl⟩ | ⟨-, hy⟩
    · simp [Connection.shut]
    · exact hb.held j y hy

/-- A new pipe agrees with its connection, if the connection knows of it or the pipe is closed. -/
theorem Wired.plug (hb : b.Wired) (id : String) {k : Nat} {x y : Connection} {hub : Pipe.Hub}
    (hx : b.connections[k]? = some x) (hd : y.descriptor = x.descriptor) (hc : y.closed = x.closed)
    (hports : ∀ p, p ∈ y.ports ↔ p ∈ x.ports ∨ y.closed = false ∧
      (p = b.hub.ports.length ∨ p = b.hub.ports.length + 1))
    (hlen : hub.ports.length = b.hub.ports.length + 2)
    (hhub : ∀ p, hub.isClosed p = true ↔ (b.plugged id k x).hub.isClosed p = true ∨
      y.closed = true ∧ (p = b.hub.ports.length ∨ p = b.hub.ports.length + 1)) :
    Wired { b.plugged id k x with hub, connections := b.connections.set k y } where
  plugs := by simp [Bench.plugged, hb.plugs, hlen]
  even := by
    have := hb.even
    show 2 ∣ hub.ports.length
    omega
  named e he := by
    show 2 ∣ e.2.1 ∧ e.2.2 = e.2.1 + 1 ∧ e.2.2 < hub.ports.length
    rw [hlen]
    rcases List.mem_cons.mp he with rfl | he
    · exact ⟨hb.even, rfl, Nat.lt_succ_self _⟩
    · have := hb.named e (List.mem_filter.mp he).1
      omega
  plugged p plug hp := by
    have hlt := (List.getElem?_eq_some_iff.mp hx).1
    rcases plugs_plugged b id k x hp with hp | ⟨hnew, rfl⟩
    · obtain ⟨z, hz, hf⟩ := hb.plugged p plug hp
      have hold : p < b.hub.ports.length := hb.plugs ▸ (List.getElem?_eq_some_iff.mp hp).1
      have hclosed (h : b.hub.isClosed p = true) : hub.isClosed p = true := by
        refine (hhub p).mpr (.inl ?_)
        rw [isClosed_plugged, h]
        simp only [Bool.true_and, decide_eq_true_eq]
        omega
      by_cases hk : plug.connection = k
      · subst hk
        obtain rfl : x = z := by simpa [hx] using hz
        refine ⟨y, by simp [hlt], fun ho => ?_, fun ho => hclosed (hf.shut (hc ▸ ho))⟩
        obtain ⟨h₁, h₂⟩ := hf.shared (hc ▸ ho)
        exact ⟨h₁.trans hd.symm, (hports p).mpr (.inl h₂)⟩
      · exact ⟨z, by simpa [Ne.symm hk] using hz, hf.shared, fun ho => hclosed (hf.shut ho)⟩
    · rw [hb.plugs] at hnew
      exact ⟨y, by simp [hlt], fun ho => ⟨hd.symm, (hports p).mpr (.inr ⟨ho, hnew⟩)⟩,
        fun ho => (hhub p).mpr (.inr ⟨ho, hnew⟩)⟩
  listed j z hz p hp := by
    rcases getElem?_set_cases hz with ⟨rfl, rfl⟩ | ⟨-, hz⟩
    · rcases (hports p).mp hp with hp | ⟨-, hnew⟩
      · obtain ⟨plug, hplug, hk⟩ := hb.listed j x hx p hp
        exact ⟨plug, plugs_plugged_of_lt b id j x hplug, hk⟩
      · refine ⟨⟨x.descriptor, j⟩, ?_, rfl⟩
        rw [← hb.plugs] at hnew
        rcases hnew with rfl | rfl <;> simp [Bench.plugged]
    · obtain ⟨plug, hplug, hk⟩ := hb.listed j z hz p hp
      exact ⟨plug, plugs_plugged_of_lt b id k x hplug, hk⟩
  held j z hz := by
    rcases getElem?_set_cases hz with ⟨rfl, rfl⟩ | ⟨-, hz⟩
    · rw [hc, hd]
      exact hb.held j x hx
    · exact hb.held j z hz

/-- Every move of a bench keeps all ports in agreement with their connections. -/
theorem Move.wired (m : b.Move cut ds ws b') (hb : b.Wired) : b'.Wired := by
  cases m with
  | still => exact hb
  | forget h => exact ⟨hb.plugs, hb.even, fun e he => hb.named e (h e he), hb.plugged, hb.listed, hb.held⟩
  | meet d limits => exact hb.meet d limits
  | @plug id k x hx ho =>
    refine hb.plug id hx rfl rfl (fun p => ?_) (length_plugged ..) fun p => ?_
    · simp [Connection.ports, ho]
    · simp [ho]
  | @plugShut id k x hx hc =>
    have hset : b.connections.set k x = b.connections := by
      obtain ⟨hlt, rfl⟩ := List.getElem?_eq_some_iff.mp hx
      exact List.set_getElem_self hlt
    have h : Wired { b.plugged id k x with
        hub := ((b.plugged id k x).hub.closeAll [b.hub.ports.length, b.hub.ports.length + 1]).1
        connections := b.connections.set k x } := by
      refine hb.plug id hx rfl rfl (by simp [hc]) ?_ fun p => ?_
      · rw [Pipe.Hub.length_closeAll, length_plugged]
      · simp [Pipe.Hub.isClosed_closeAll, hc]
    rwa [hset] at h
  | shut hx ho => exact hb.shut hx ho
  | close ps => exact hb.closeAll ps
  | refuse => exact ⟨hb.plugs, hb.even, hb.named, hb.plugged, hb.listed, hb.held⟩
  | @ask e p job _ _ _ hc =>
    have h : Wired { b with hub := (b.hub.submit p job (some b.collectors)).1 } := hb.of_alike rfl
    exact ⟨h.plugs, h.even, h.named, h.plugged, h.listed, h.held⟩

/-- Every move of a bench closes nothing but what its cut takes. -/
theorem Move.leaves (m : b.Move cut ds ws b') (hb : b.Wired) : b.Leaves [cut] b' := by
  have hold {p : Nat} {plug : Plug} (hp : b.plugs[p]? = some plug) : p < b.hub.ports.length :=
    hb.plugs ▸ (List.getElem?_eq_some_iff.mp hp).1
  cases m with
  | still | forget | refuse | ask =>
    exact ⟨List.prefix_rfl, fun _ x hx => ⟨x, hx, .inl rfl⟩, fun _ _ _ => .inl rfl⟩
  | meet => exact ⟨List.prefix_rfl, fun k x hx => ⟨x, getElem?_concat.mpr (.inl hx), .inl rfl⟩,
      fun _ _ _ => .inl rfl⟩
  | @plug id k x hx ho =>
    refine ⟨plugs_grow b id k x, fun j y hy => ?_, fun p plug hp => .inl ?_⟩
    · obtain ⟨hlt, -⟩ := List.getElem?_eq_some_iff.mp hx
      by_cases hj : j = k
      · subst hj
        obtain rfl : x = y := by simpa [hx] using hy
        exact ⟨{ x with pipes := x.pipes ++ [(b.hub.ports.length, b.hub.ports.length + 1)] },
          by simp [hlt], .inl rfl⟩
      · exact ⟨y, by simpa [Ne.symm hj] using hy, .inl rfl⟩
    · have := hold hp
      rw [isClosed_plugged, decide_eq_true (by omega), Bool.and_true]
  | @plugShut id k x hx hc =>
    refine ⟨plugs_grow b id k x, fun j y hy => ⟨y, hy, .inl rfl⟩, fun p plug hp => .inl ?_⟩
    have := hold hp
    rw [Pipe.Hub.isClosed_closeAll, isClosed_plugged, decide_eq_true (by omega),
      decide_eq_false (by simp; omega), Bool.and_true, Bool.or_false]
  | @shut k x hx ho =>
    refine ⟨List.prefix_rfl, fun j y hy => ?_, fun p plug hp => ?_⟩
    · obtain ⟨hlt, -⟩ := List.getElem?_eq_some_iff.mp hx
      by_cases hj : j = k
      · subst hj
        obtain rfl : x = y := by simpa [hx] using hy
        exact ⟨x.shut, by simp [hlt], .inr ⟨ho, List.mem_singleton_self _⟩⟩
      · exact ⟨y, by simpa [Ne.symm hj] using hy, .inl rfl⟩
    · by_cases hm : p ∈ x.ports
      · obtain ⟨plug', hp', hk⟩ := hb.listed k x hx p hm
        obtain rfl : plug = plug' := by simpa [hp] using hp'
        by_cases hc : b.hub.isClosed p = true
        · exact .inl (by simp [Pipe.Hub.isClosed_closeAll, hc])
        · exact .inr ⟨by simpa using hc, _, List.mem_singleton_self _, hk.symm⟩
      · exact .inl (by simp [Pipe.Hub.isClosed_closeAll, hm])
  | close ps =>
    refine ⟨List.prefix_rfl, fun _ x hx => ⟨x, hx, .inl rfl⟩, fun p plug hp => ?_⟩
    by_cases hm : p ∈ ps
    · by_cases hc : b.hub.isClosed p = true
      · exact .inl (by simp [Pipe.Hub.isClosed_closeAll, hc])
      · exact .inr ⟨by simpa using hc, _, List.mem_singleton_self _, hm⟩
    · exact .inl (by simp [Pipe.Hub.isClosed_closeAll, hm])

/-- Nothing is done on the ports from `n` on. -/
def Silent (n : Nat) (ds : List Pipe.Deed) : Prop :=
  ∀ p, n ≤ p → Pipe.usesOf p ds = [] ∧ Pipe.issued p ds = []

theorem Silent.nil (n : Nat) : Silent n [] := fun _ _ => ⟨rfl, rfl⟩

theorem Silent.append {n : Nat} {ds ds' : List Pipe.Deed} (h : Silent n ds) (h' : Silent n ds') :
    Silent n (ds ++ ds') := fun p hp => by
  rw [Pipe.usesOf_append, Pipe.issued_append, (h p hp).1, (h' p hp).1, (h p hp).2, (h' p hp).2]
  exact ⟨rfl, rfl⟩

theorem Silent.mono {n n' : Nat} {ds : List Pipe.Deed} (h : Silent n ds) (hn : n ≤ n') :
    Silent n' ds := fun p hp => h p (Nat.le_trans hn hp)

/-- Nothing is done in a move on ports that are not there yet. -/
theorem Move.silent (m : b.Move cut ds ws b') (hb : b.Wired) : Silent b.hub.ports.length ds := by
  have asked {e : String × Nat × Nat} {p p' : Nat} (he : e ∈ b.pipes) (hp : p = e.2.1 ∨ p = e.2.2)
      (hp' : b.hub.ports.length ≤ p') : p ≠ p' := by
    have := hb.named e he
    omega
  cases m with
  | still | forget | meet | shut | close => exact .nil _
  | plug | plugShut => exact fun _ _ => ⟨rfl, rfl⟩
  | refuse he hp | ask he hp =>
    exact fun p' hp' => ⟨rfl, by simp [Pipe.issued, Pipe.Deed.issue?, asked he hp hp']⟩

/-- A move of a bench is a few moves of the desk of pipes, while no request has its turn. -/
theorem Move.desk (m : b.Move cut ds ws b') (hb : b.Wired) {d : Pipe.Desk} (hhub : d.hub = b.hub)
    (hreceivers : d.receivers = b.collectors) (hn : d.now = false) : d.Moves ds { d with
      hub := b'.hub
      receivers := b'.collectors
      ready := woken d.ready ws } := by
  obtain ⟨hub, receivers, current, now, ready⟩ := d
  subst hhub hreceivers
  have named {e : String × Nat × Nat} {p : Nat} (he : e ∈ b.pipes) (hp : p = e.2.1 ∨ p = e.2.2) :
      p < b.hub.ports.length := by
    have := hb.named e he
    omega
  cases m with
  | still | forget | meet => exact .none
  | plug => exact ((Pipe.Desk.Move.opens _).moves).more (.opens _)
  | @plugShut id k x =>
    have hopens := (Pipe.Desk.Move.opens (d := ⟨b.hub, b.collectors, current, now, ready⟩)
      (.source {} x.limits)).moves.more (.opens (.sink {} x.limits))
    exact hopens.trans (Pipe.Desk.closes (d := ⟨(b.plugged id k x).hub, _, _, _, _⟩) hn _)
  | shut | close => exact Pipe.Desk.closes hn _
  | @refuse e p job he hp hj hc =>
    have hport := List.getElem?_eq_getElem (named he hp)
    refine (Pipe.Desk.Move.refuse hj hport ?_).moves
    simpa [Pipe.Hub.isClosed, hport] using hc
  | ask _ _ hj hc => exact (Pipe.Desk.Move.ask hj hc).moves

end Bench

end Conduit.Socket
