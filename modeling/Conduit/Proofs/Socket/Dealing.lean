import Conduit.Proofs.Socket.Yielding
import Conduit.Proofs.Socket.Respect

/-!
How descriptors change hands. A socket comes by a new one, or gives its own to an attempt or to a
listener; an attempt gives its own to a connection, which passes from the attempt to its receiver; a
connection comes by the first one in a line. Every turn does one of these, or nothing, and so what a
claimant has lost for good stays lost.
-/

namespace Conduit.Socket

open Dispatch
open Kernel (System)
open Pipe.Desk (getElem?_concat)

namespace Sockets

open Yields (pledges_setProgress reaches_setProgress spent_setProgress lively_setProgress)

variable {s s' : Sockets}

/-! ### Handing over -/

/-- `q` comes by nothing but what `p` gives away. -/
theorem Titled.passes (hs : s.Titled) {p q : Claimant} (hfree : ¬s.Spent p)
    (h : ∀ c b, s'.Claims c b → c = q ∧ s.Claims p b ∧ ¬s'.Claims p b ∨ s.Claims c b) (d : Nat) :
    s.Hands s' d := by
  by_cases hd : s.Claims p d ∧ ¬s'.Claims p d
  · obtain ⟨hold, hgone⟩ := hd
    refine .passed (c := q) hold hfree fun c hc => ?_
    rcases h c d hc with ⟨rfl, -⟩ | hc'
    · rfl
    · obtain rfl := hs.alone c p d hc' hold
      exact absurd hc hgone
  · exact .kept fun c hc => (h c d hc).elim (fun h => absurd h.2 hd) id

/-- `q` comes by nothing but a descriptor that is new. -/
theorem Titled.makes (hs : s.Titled) {q : Claimant} {n : Nat} (hnew : ¬s.Present n)
    (hpresent : s'.Present n) (h : ∀ c b, s'.Claims c b → c = q ∧ b = n ∨ s.Claims c b) (d : Nat) :
    s.Hands s' d := by
  by_cases hd : d = n
  · subst hd
    refine .made (c := q) hnew hpresent fun c hc => ?_
    exact (h c d hc).elim (·.1) fun hc' => absurd (hs.present c d hc') hnew
  · exact .kept fun c hc => (h c d hc).elim (fun h => absurd h.2 hd) id

/-! ### Sockets -/

section SetStage

variable {id : String} {h : Handle} {st : Stage}

theorem reaches_setStage (hst : ∀ k, st ≠ .connected k) {k : Nat}
    (hk : (s.setStage id h st).Reaches k) : s.Reaches k := by
  cases h with
  | sole st₀ =>
    cases hk with
    | slot h => exact .slot h
    | name hmem =>
      rcases List.mem_cons.mp hmem with hmem | hmem
      · exact absurd (Handle.sole.inj (Prod.mk.inj hmem).2).symm (hst k)
      · exact .name (List.mem_filter.mp hmem).1
    | outcome h hx => exact .outcome h hx
    | arrival h hx => exact .arrival h hx
    | plug h hk => exact .plug h hk
  | shared i =>
    cases hk with
    | slot hmem =>
      exact (List.mem_or_eq_of_mem_set hmem).elim .slot fun he => absurd he.symm (hst k)
    | name h => exact .name h
    | outcome h hx => exact .outcome h hx
    | arrival h hx => exact .arrival h hx
    | plug h hk => exact .plug h hk

/-- A socket that is put into a stage claims what the stage holds. -/
theorem claims_setStage (hst : ∀ k, st ≠ .connected k) {c : Claimant} {b : Nat}
    (hc : (s.setStage id h st).Claims c b) :
    c = .owner (h.owner id) ∧ st.held? = some b ∨ s.Claims c b ∧ c ≠ .owner (h.owner id) := by
  cases c with
  | owner o =>
    exact (owns_setStage hc).imp (fun ⟨ho, hb⟩ => ⟨congrArg _ ho, hb⟩) fun ⟨ho, hne⟩ =>
      ⟨ho, fun heq => hne (Claimant.owner.inj heq)⟩
  | pledge a => exact .inr ⟨by cases h <;> exact hc, nofun⟩
  | listener l => exact .inr ⟨by cases h <;> exact hc, nofun⟩
  | connection k => exact .inr ⟨⟨reaches_setStage hst hc.1, by cases h <;> exact hc.2⟩, nofun⟩
  | line e => exact .inr ⟨by cases h <;> exact hc, nofun⟩

theorem lends_setStage {c : Claimant} {d : Nat} (hl : (s.setStage id h st).Lends c d) :
    s.Lends c d := by
  cases c <;> cases h <;> exact hl

theorem spent_setStage (hopen : s.stageOf h ≠ .closed) {c : Claimant} (hc : s.Spent c) :
    (s.setStage id h st).Spent c := by
  cases h with
  | sole st₀ =>
    cases c with
    | owner o => cases o <;> exact hc
    | _ => exact hc
  | shared i =>
    refine Yields.spent_setSlot (fun hi => absurd ?_ hopen) hc
    simp [stageOf, hi]

/-- A slot gets a stage that a slot may have. -/
theorem Lively.set (hs : s.Lively) (i : Nat) (hunbound : ∀ p, st = .unbound p → p.closed = false)
    (hconnecting : ∀ a, st = .connecting a → ∃ x, s.attempts[a]? = some x ∧ x.slot = some i) :
    Lively { s with slots := s.slots.set i st } := by
  have at_slot {j : Nat} {st' : Stage} (hj : (s.slots.set i st)[j]? = some st') :
      i = j ∧ st = st' ∨ s.slots[j]? = some st' := by
    rw [List.getElem?_set] at hj
    grind
  refine ⟨fun j p hj => ?_, fun j a hj => ?_⟩
  · exact (at_slot hj).elim (fun h => hunbound p h.2) (hs.unbound j p)
  · exact (at_slot hj).elim (fun h => h.1 ▸ hconnecting a h.2) (hs.connecting j a)

theorem lively_setStage (hs : s.Lively) (hunbound : ∀ p, st = .unbound p → p.closed = false)
    (hconnecting : ∀ a, st ≠ .connecting a) : (s.setStage id h st).Lively := by
  cases h with
  | sole st₀ => exact ⟨hs.unbound, hs.connecting⟩
  | shared i => exact hs.set i hunbound fun a ha => absurd ha (hconnecting a)

/-- A socket lets go of its descriptor. -/
theorem Yields.strip (id : String) (hopen : s.stageOf h ≠ .closed) (limits : ChunkLimits) :
    s.Yields (s.setStage id h (.bound ⟨none, limits⟩)) where
  system := system_setStage s id h _ ▸ .refl _
  owns := .setStage s id h rfl
  listens _ _ hl := by cases h <;> exact hl
  runs _ _ hr := by cases h <;> exact hr
  pledges _ _ hp := by cases h <;> exact hp
  reaches _ := reaches_setStage (by simp)
  grows := by cases h <;> exact Nat.le_refl _
  lends _ _ hl := .inl (lends_setStage hl)
  spent _ := spent_setStage hopen
  lively hs := lively_setStage hs nofun nofun

end SetStage

theorem connections_setStage (s : Sockets) (id : String) (h : Handle) (st : Stage) :
    (s.setStage id h st).connections = s.connections := by
  cases h <;> rfl

theorem pledges_setStage {id : String} {h : Handle} {st : Stage} {a k : Nat}
    (hp : (s.setStage id h st).Pledges a k) : s.Pledges a k := by
  cases h <;> exact hp

namespace Deals

/-- A socket comes by a new descriptor. -/
theorem bound {system : System} {d : Nat} (hd : s.system.Creates system d) (id : String)
    {h : Handle} (hopen : s.stageOf h ≠ .closed) (limits : ChunkLimits) :
    s.Deals ({ s with system }.setStage id h (.bound ⟨some d, limits⟩)) := by
  have hy : s.Yields { s with system } := .withSystem hd.thins
  refine .of_hands ?_ (fun hs => ?_) (fun hs e => ?_) (fun hs k hk => ?_) (fun hs a k hk => ?_)
    (fun c b hl => hy.lends c b (lends_setStage hl))
    (fun c hc => spent_setStage (s := { s with system }) hopen (hy.spent c hc)) fun hs =>
      lively_setStage (hy.lively hs) nofun nofun
  · rw [system_setStage]
    exact hd.thins.toLasts
  · refine hs.makes (q := .owner (h.owner id)) (n := d) ?_ ?_ fun c b hc => ?_
    · simp [Present, hd.fresh.absent]
    · rw [Present, system_setStage]
      exact hd.fresh.present
    · rcases claims_setStage (by simp) hc with ⟨rfl, hb⟩ | ⟨hc, -⟩
      · exact .inl ⟨rfl, (Option.some.inj hb).symm⟩
      · exact .inr (hy.claims hc)
  · rw [system_setStage]
    exact (hs.lines e).sublist (hd.thins.line e)
  · rw [connections_setStage]
    exact hs.reached k (hy.reaches k (reaches_setStage (by simp) hk))
  · rw [connections_setStage]
    exact hs.pledged a k (hy.pledges a k (pledges_setStage hk))

end Deals

/-! ### Attempts begin -/

section Begin

variable {id : String} {h : Handle} {x : Attempt}

/-- An attempt that begins has not come to anything. -/
theorem reaches_addAttempt (hx : x.progress = .fresh) {k : Nat}
    (hk : (s.addAttempt id x).Reaches k) : s.Reaches k := by
  cases hk with
  | slot h => exact .slot h
  | name h => exact .name h
  | outcome h hy =>
    rcases List.mem_append.mp h with h | h
    · exact .outcome h hy
    · obtain rfl := List.mem_singleton.mp h
      rw [hx] at hy
      cases hy
  | arrival h hx => exact .arrival h hx
  | plug h hk => exact .plug h hk

theorem pledges_addAttempt (hx : x.progress = .fresh) {a k : Nat}
    (hp : (s.addAttempt id x).Pledges a k) : s.Pledges a k := by
  obtain ⟨y, hy, hk⟩ := hp
  rcases getElem?_concat.mp hy with hy | ⟨-, rfl⟩
  · exact ⟨y, hy, hk⟩
  · rw [hx] at hk
    cases hk

theorem reaches_startAttempt (hx : x.progress = .fresh) {k : Nat}
    (hk : (s.startAttempt id h x).state.Reaches k) : s.Reaches k := by
  cases h with
  | sole st => exact (Yields.forget s id).reaches k (reaches_addAttempt hx hk)
  | shared i =>
    have hk : (s.setStage id (.shared i) (.connecting s.attempts.length)).Reaches k :=
      reaches_addAttempt hx hk
    exact reaches_setStage (by simp) hk

theorem pledges_startAttempt (hx : x.progress = .fresh) {a k : Nat}
    (hp : (s.startAttempt id h x).state.Pledges a k) : s.Pledges a k := by
  cases h with
  | sole st => exact pledges_addAttempt (s := s.forget id) hx hp
  | shared i =>
    have hp : (s.setStage id (.shared i) (.connecting s.attempts.length)).Pledges a k :=
      pledges_addAttempt hx hp
    exact pledges_setStage hp

/-- An attempt that begins claims what has been prepared for it, and the socket nothing. -/
theorem claims_startAttempt (hx : x.progress = .fresh) {c : Claimant} {b : Nat}
    (hc : (s.startAttempt id h x).state.Claims c b) :
    c = .owner (.attempt s.attempts.length) ∧ x.descriptor? = some b ∨
      s.Claims c b ∧ c ≠ .owner (h.owner id) := by
  cases c with
  | owner o =>
    exact (owns_startAttempt hc).imp (fun ⟨ho, hb⟩ => ⟨congrArg _ ho, hb⟩) fun ⟨ho, hne⟩ =>
      ⟨ho, fun heq => hne (Claimant.owner.inj heq)⟩
  | pledge a =>
    obtain ⟨k, hp, hr⟩ := hc
    exact .inr ⟨⟨k, pledges_startAttempt hx hp, by cases h <;> exact hr⟩, nofun⟩
  | listener l => exact .inr ⟨by cases h <;> exact hc, nofun⟩
  | connection k =>
    exact .inr ⟨⟨reaches_startAttempt hx hc.1, by cases h <;> exact hc.2⟩, nofun⟩
  | line e => exact .inr ⟨by cases h <;> exact hc, nofun⟩

theorem spent_addAttempt {c : Claimant} (hc : s.Spent c) : (s.addAttempt id x).Spent c := by
  cases c with
  | owner o =>
    cases o with
    | attempt a =>
      obtain ⟨y, hy, hclosed⟩ := hc
      exact ⟨y, getElem?_concat.mpr (.inl hy), hclosed⟩
    | _ => exact hc
  | pledge a =>
    obtain ⟨y, i, hy, hi⟩ := hc
    exact ⟨y, i, getElem?_concat.mpr (.inl hy), hi⟩
  | _ => exact hc

theorem spent_startAttempt (hopen : s.stageOf h ≠ .closed) {c : Claimant} (hc : s.Spent c) :
    (s.startAttempt id h x).state.Spent c := by
  cases h with
  | sole st => exact spent_addAttempt ((Yields.forget s id).spent c hc)
  | shared i =>
    have hset : (s.setStage id (.shared i) (.connecting s.attempts.length)).Spent c :=
      spent_setStage hopen hc
    exact spent_addAttempt hset

theorem lively_startAttempt (hslot : x.slot = h.slot?) (hs : s.Lively) :
    (s.startAttempt id h x).state.Lively := by
  have old {i a : Nat} (ha : s.slots[i]? = some (.connecting a)) :
      ∃ y, (s.attempts ++ [x])[a]? = some y ∧ y.slot = some i := by
    obtain ⟨y, hy, hi⟩ := hs.connecting i a ha
    exact ⟨y, getElem?_concat.mpr (.inl hy), hi⟩
  cases h with
  | sole st => exact ⟨hs.unbound, fun i a => old⟩
  | shared i =>
    have hmore : Lively { s with attempts := s.attempts ++ [x] } :=
      ⟨hs.unbound, fun i a => old⟩
    have hset : Lively { s with
        attempts := s.attempts ++ [x]
        slots := s.slots.set i (.connecting s.attempts.length) } :=
      hmore.set i nofun fun a ha => by
        obtain rfl := Stage.connecting.inj ha
        exact ⟨x, getElem?_concat.mpr (.inr ⟨rfl, rfl⟩), hslot⟩
    exact ⟨hset.unbound, hset.connecting⟩

theorem owner_ne_attempt (id : String) (h : Handle) (a : Nat) : h.owner id ≠ .attempt a := by
  cases h <;> nofun

theorem not_spent_socket (id : String) (h : Handle) : ¬s.Spent (.owner (h.owner id)) := by
  cases h <;> exact fun h => h

namespace Deals

/-- An attempt begins, with what becomes of descriptors. -/
theorem start {t : Sockets} (ht : s.Yields t) (hopen : t.stageOf h ≠ .closed)
    (hx : x.progress = .fresh) (hslot : x.slot = h.slot?)
    (hands : s.Titled → ∀ d, s.Hands (t.startAttempt id h x).state d) :
    s.Deals (t.startAttempt id h x).state := by
  refine .of_hands ?_ hands (fun hs e => ?_) (fun hs k hk => ?_) (fun hs a k hk => ?_)
    (fun c b hl => ht.lends c b ?_) (fun c hc => spent_startAttempt hopen (ht.spent c hc))
    fun hs => lively_startAttempt hslot (ht.lively hs)
  · rw [system_startAttempt]
    exact ht.system.toLasts
  · rw [system_startAttempt]
    exact (hs.lines e).sublist (ht.system.line e)
  · have := Nat.lt_of_lt_of_le (hs.reached k (ht.reaches k (reaches_startAttempt hx hk))) ht.grows
    cases h <;> exact this
  · have := Nat.lt_of_lt_of_le (hs.pledged a k (ht.pledges a k (pledges_startAttempt hx hk)))
      ht.grows
    cases h <;> exact this
  · cases c <;> cases h <;> exact hl

end Deals

end Begin

/-! ### Listeners -/

/-- A listener that is added claims its descriptor. -/
theorem claims_addListener {y : Listener} {c : Claimant} {b : Nat}
    (hc : Claims { s with listeners := s.listeners ++ [y] } c b) :
    c = .listener s.listeners.length ∧ y.descriptor = some b ∨ s.Claims c b := by
  cases c with
  | listener l =>
    obtain ⟨z, hz, hb⟩ := hc
    rcases getElem?_concat.mp hz with hz | ⟨rfl, rfl⟩
    · exact .inr ⟨z, hz, hb⟩
    · exact .inl ⟨rfl, hb⟩
  | owner o => exact .inr (by cases o <;> exact hc)
  | connection k => exact .inr ⟨hc.1.of_eq rfl rfl rfl rfl rfl, hc.2⟩
  | _ => exact .inr hc

/-- A socket gives its descriptor to a listener. -/
theorem Deals.listens {id : String} {h : Handle} (hh : s.handle? id = some h) {b : Bound} {d : Nat}
    (hst : s.stageOf h = .bound b) (hd : opened b.descriptor = .ok d) (limits : ChunkLimits) :
    s.Deals ({ s with
      listeners := s.listeners ++ [({ descriptor := some d, limits } : Listener)]
    }.setStage id h (.listening s.listeners.length)) := by
  have hopen : s.stageOf h ≠ .closed := by simp [hst]
  have howns : s.Claims (.owner (h.owner id)) d := owns_of_stage hh (hst ▸ held_of_opened hd)
  refine .of_hands ?_ (fun hs => ?_) (fun hs e => ?_) (fun hs k hk => ?_) (fun hs a k hk => ?_)
    (fun c b hl => .inl ?_) (fun c hc => ?_) fun hs => ?_
  · rw [system_setStage]
    exact .refl _
  · refine hs.passes (p := .owner (h.owner id)) (q := .listener s.listeners.length)
      (not_spent_socket id h) fun c e hc => ?_
    rcases claims_setStage (by simp) hc with ⟨-, he⟩ | ⟨hc, -⟩
    · cases he
    · refine (claims_addListener hc).imp_left fun ⟨hl, he⟩ => ?_
      obtain rfl := Option.some.inj he
      refine ⟨hl, howns, fun hgone => ?_⟩
      rcases claims_setStage (by simp) hgone with ⟨-, he⟩ | ⟨-, hne⟩
      · cases he
      · exact hne rfl
  · rw [system_setStage]
    exact hs.lines e
  · rw [connections_setStage]
    exact hs.reached k ((reaches_setStage (by simp) hk).of_eq rfl rfl rfl rfl rfl)
  · rw [connections_setStage]
    have hk := pledges_setStage hk
    exact hs.pledged a k hk
  · have hl := lends_setStage hl
    cases c <;> exact hl
  · refine spent_setStage ?_ ?_
    · exact hopen
    · cases c with
      | owner o => cases o <;> exact hc
      | _ => exact hc
  · refine lively_setStage ?_ nofun nofun
    exact ⟨hs.unbound, hs.connecting⟩

/-! ### Links -/

/-- Who claims something after somebody has got in line did so before, or is that line. -/
theorem claims_enlisted {system : System} {e n : Nat}
    (hline : ∀ x, (system.line x).Sublist (s.system.line x ++ if x = e then [n] else []))
    {c : Claimant} {b : Nat} (hc : Claims { s with system } c b) :
    c = .line e ∧ b = n ∨ s.Claims c b := by
  cases c with
  | line x =>
    rcases List.mem_append.mp ((hline x).subset hc) with hb | hb
    · exact .inr hb
    · split at hb
      · rename_i hx
        exact .inl ⟨hx ▸ rfl, List.mem_singleton.mp hb⟩
      · cases hb
  | owner o => exact .inr (by cases o <;> exact hc)
  | connection k => exact .inr ⟨hc.1.of_eq rfl rfl rfl rfl rfl, hc.2⟩
  | _ => exact .inr hc

/-- A descriptor begins to wait in a line, or none does. -/
theorem Deals.enlists {system : System} (h : s.system.Enlists system) :
    s.Deals { s with system } := by
  rcases h.line with hline | ⟨e, n, hn, hpresent, hline⟩
  · exact (Yields.withSystem ⟨h.toLasts, hline⟩).deals
  · refine .of_hands h.toLasts (fun hs => ?_) (fun hs x => ?_) (fun hs k hk => ?_)
      (fun hs => hs.pledged) (fun _ _ => .inl) (fun _ hc => hc)
      fun hs => ⟨hs.unbound, hs.connecting⟩
    · exact hs.makes (q := .line e) (n := n) (by simp [Present, hn]) hpresent fun c b hc =>
        claims_enlisted hline hc
    · refine List.Nodup.sublist (hline x) ?_
      split
      · -- Who is new waits nowhere yet.
        refine List.nodup_append.mpr ⟨hs.lines x, List.pairwise_singleton _ n, ?_⟩
        intro b hb b' hb' heq
        obtain rfl := List.mem_singleton.mp hb'
        have := hs.present (.line x) b hb
        simp [Present, heq, hn] at this
      · simpa using hs.lines x
    · exact hs.reached k (hk.of_eq rfl rfl rfl rfl rfl)

/-! ### Connections -/

theorem runs_addConnection {d : Nat} {limits : ChunkLimits} {k b : Nat}
    (h : (s.addConnection d limits).1.RunsOn k b) :
    k = s.connections.length ∧ b = d ∨ s.RunsOn k b := by
  obtain ⟨y, hy, hb⟩ := h
  rcases getElem?_concat.mp hy with hy | ⟨rfl, rfl⟩
  · exact .inr ⟨y, hy, hb⟩
  · exact .inl ⟨rfl, (Option.some.inj hb).symm⟩

/-- A connection that was there before has the descriptor that it had. -/
theorem runs_before {d : Nat} {limits : ChunkLimits} {k b : Nat} (hk : k < s.connections.length)
    (h : (s.addConnection d limits).1.RunsOn k b) : s.RunsOn k b :=
  (runs_addConnection h).resolve_left fun h => absurd h.1 (Nat.ne_of_lt hk)

theorem not_runs_new {b : Nat} : ¬s.RunsOn s.connections.length b := by
  rintro ⟨y, hy, -⟩
  simp at hy

theorem length_addConnection {d : Nat} {limits : ChunkLimits} :
    (s.addConnection d limits).1.connections.length = s.connections.length + 1 :=
  List.length_append

/-- An attempt gives its descriptor to the connection that it has made. -/
theorem Deals.connects {a : Nat} {x : Attempt} {d : Nat} (hx : s.attempts[a]? = some x)
    (hd : x.descriptor? = some d) (hopen : x.closed = false) (limits : ChunkLimits) :
    s.Deals ((s.addConnection d limits).1.setProgress a (.decided (.ok s.connections.length))) := by
  have howns : s.Claims (.owner (.attempt a)) d := ⟨x, hx, hd⟩
  have hfree : ¬s.Spent (.owner (.attempt a)) := by
    rintro ⟨y, hy, hclosed⟩
    obtain rfl := Option.some.inj (hx.symm.trans hy)
    rw [hopen] at hclosed
    cases hclosed
  have hreach {k : Nat} (hk : ((s.addConnection d limits).1.setProgress a
      (.decided (.ok s.connections.length))).Reaches k) : s.Reaches k :=
    ((reaches_setProgress hk).resolve_left nofun).of_eq rfl rfl rfl rfl rfl
  refine .of_hands (.refl _) (fun hs => hs.passes (q := .pledge a) hfree fun c b hc => ?_)
    (fun hs => hs.lines) (fun hs k hk => ?_) (fun hs b k hk => ?_) (fun _ _ => .inl)
    (fun c hc => ?_) fun hs => ?_
  · cases c with
    | owner o =>
      have hreleases : s.Releases ((s.addConnection d limits).1.setProgress a
          (.decided (.ok s.connections.length))) := by
        refine (Releases.of_eq rfl rfl rfl).trans (.modifyAttempt _ a ?_)
        rintro y e - he
        cases he
      exact .inr (hreleases o b hc)
    | pledge a' =>
      obtain ⟨k, hp, hr⟩ := hc
      rcases pledges_setProgress hp with ⟨rfl, hk⟩ | ⟨-, hp⟩
      · obtain rfl := Except.ok.inj (Progress.decided.inj hk)
        obtain ⟨-, rfl⟩ := (runs_addConnection hr).resolve_right not_runs_new
        exact .inl ⟨rfl, howns, not_owns_decided _ _ _ _⟩
      · exact .inr ⟨k, hp, runs_before (hs.pledged a' k hp) hr⟩
    | listener l => exact .inr hc
    | connection k =>
      have hk := hreach hc.1
      exact .inr ⟨hk, runs_before (hs.reached k hk) hc.2⟩
    | line e => exact .inr hc
  · refine Nat.lt_of_lt_of_eq ?_ length_addConnection.symm
    exact Nat.lt_succ_of_lt (hs.reached k (hreach hk))
  · refine Nat.lt_of_lt_of_eq ?_ length_addConnection.symm
    rcases pledges_setProgress hk with ⟨-, hk⟩ | ⟨-, hk⟩
    · obtain rfl := Except.ok.inj (Progress.decided.inj hk)
      exact Nat.lt_succ_self _
    · exact Nat.lt_succ_of_lt (hs.pledged b k hk)
  · refine spent_setProgress ?_
    cases c with
    | owner o => cases o <;> exact hc
    | _ => exact hc
  · refine lively_setProgress ?_
    exact ⟨hs.unbound, hs.connecting⟩

/-- A connection that has been made reaches its receiver. -/
theorem Deals.delivers {a k : Nat} {x : Attempt} (hx : s.attempts[a]? = some x)
    (hp : x.progress = .decided (.ok k)) (hfree : ¬s.Spent (.pledge a)) :
    s.Deals (s.setProgress a (.delivered (.ok k))) := by
  have hpledge : s.Pledges a k := ⟨x, hx, hp⟩
  have hpledges {b j : Nat} (h : (s.setProgress a (.delivered (.ok k))).Pledges b j) :
      b ≠ a ∧ s.Pledges b j := (pledges_setProgress h).resolve_left (by simp)
  refine .of_hands (.refl _) (fun hs => hs.passes (q := .connection k) hfree fun c b hc => ?_)
    (fun hs => hs.lines) (fun hs j hj => ?_) (fun hs b j hj => hs.pledged b j (hpledges hj).2)
    (fun _ _ => .inl) (fun _ => spent_setProgress) fun hs => lively_setProgress hs
  · cases c with
    | owner o =>
      have hreleases : s.Releases (s.setProgress a (.delivered (.ok k))) := by
        refine .modifyAttempt _ a ?_
        rintro y e - he
        cases he
      exact .inr (hreleases o b hc)
    | pledge a' =>
      obtain ⟨j, hj, hr⟩ := hc
      exact .inr ⟨j, (hpledges hj).2, hr⟩
    | listener l => exact .inr hc
    | connection j =>
      rcases reaches_setProgress hc.1 with hj | hj
      · obtain rfl := Except.ok.inj (Progress.delivered.inj hj)
        exact .inl ⟨rfl, ⟨k, hpledge, hc.2⟩, fun ⟨j, hj, _⟩ => (hpledges hj).1 rfl⟩
      · exact .inr ⟨hj, hc.2⟩
    | line e => exact .inr hc
  · rcases reaches_setProgress hj with hj | hj
    · obtain rfl := Except.ok.inj (Progress.delivered.inj hj)
      exact hs.pledged a k hpledge
    · exact hs.reached j hj

theorem reaches_emit {c : Nat} {round : Round} {o : Outcome} {k : Nat}
    (h : (s.emit c o round).Reaches k) : o = .ok k ∨ s.Reaches k := by
  cases h with
  | slot h => exact .inr (.slot h)
  | name h => exact .inr (.name h)
  | outcome h hx => exact .inr (.outcome h hx)
  | arrival h hx =>
    obtain ⟨i, hi⟩ := List.getElem?_of_mem h
    have hi : (s.acceptors.modify c fun x =>
      { x with round, underway := x.underway ++ [o] })[i]? = _ := hi
    rw [List.getElem?_modify] at hi
    obtain ⟨y, hy, rfl⟩ := Option.map_eq_some_iff.mp hi
    have hmem := List.mem_of_getElem? hy
    split at hx
    · rcases hx with hx | hx
      · rcases List.mem_append.mp hx with hx | hx
        · exact .inr (.arrival hmem (.inl hx))
        · exact .inl (List.mem_singleton.mp hx).symm
      · exact .inr (.arrival hmem (.inr hx))
    · exact .inr (.arrival hmem hx)
  | plug h hk => exact .inr (.plug h hk)

theorem lends_emit {c : Nat} {round : Round} {o : Outcome} (hround : ∀ d, round ≠ .waiting d)
    {b : Claimant} {d : Nat} (h : (s.emit c o round).Lends b d) : s.Lends b d := by
  cases b with
  | listener l =>
    obtain ⟨x, hx, hl, hd⟩ := h
    obtain ⟨i, hi⟩ := List.getElem?_of_mem hx
    have hi : (s.acceptors.modify c fun x =>
      { x with round, underway := x.underway ++ [o] })[i]? = _ := hi
    rw [List.getElem?_modify] at hi
    obtain ⟨y, hy, rfl⟩ := Option.map_eq_some_iff.mp hi
    split at hd
    · exact absurd hd (hround d)
    · rename_i hci
      exact ⟨y, List.mem_of_getElem? hy, by simpa [hci] using hl, hd⟩
  | connection k => exact h
  | owner | pledge | line => exact h.elim

/-- The first in a line becomes a connection. -/
theorem Deals.accepts {system : System} {d e : Nat}
    (hadmits : s.system.Admits d (some e) system) (limits : ChunkLimits) (c : Nat) :
    s.Deals (({ s with system }.addConnection e limits).1.emit c
      (.ok s.connections.length) .fresh) := by
  have hthins := hadmits.thins
  have hline (x : Nat) : s.system.line x = (if d = x then [e] else []) ++ system.line x :=
    hadmits.line x
  have hreach {k : Nat} (hk : (({ s with system }.addConnection e limits).1.emit c
      (.ok s.connections.length) .fresh).Reaches k) : s.connections.length = k ∨ s.Reaches k :=
    (reaches_emit hk).imp Except.ok.inj fun h => h.of_eq rfl rfl rfl rfl rfl
  refine .of_hands hthins.toLasts (fun hs => hs.passes (p := .line d)
      (q := .connection s.connections.length) id fun c b hc => ?_)
    (fun hs x => (hs.lines x).sublist (hthins.line x)) (fun hs k hk => ?_) (fun hs a k hk => ?_)
    (fun c b hl => ?_) (fun c hc => ?_) fun hs => ⟨hs.unbound, hs.connecting⟩
  · cases c with
    | owner o => exact .inr (by cases o <;> exact hc)
    | pledge a =>
      obtain ⟨k, hp, hr⟩ := hc
      exact .inr ⟨k, hp, runs_before (hs.pledged a k hp) hr⟩
    | listener l => exact .inr hc
    | connection k =>
      rcases runs_addConnection (s := { s with system }) hc.2 with ⟨rfl, rfl⟩ | hr
      · refine .inl ⟨rfl, ?_, fun hgone => ?_⟩
        · show b ∈ s.system.line d
          simp [hline d]
        · have := hs.lines d
          rw [hline d] at this
          simp only [if_pos, List.singleton_append, List.nodup_cons] at this
          exact this.1 hgone
      · rcases hreach hc.1 with rfl | hk
        · exact absurd hr not_runs_new
        · exact .inr ⟨hk, hr⟩
    | line x => exact .inr ((hthins.line x).subset hc)
  · refine Nat.lt_of_lt_of_eq ?_ length_addConnection.symm
    rcases hreach hk with rfl | hk
    · exact Nat.lt_succ_self _
    · exact Nat.lt_succ_of_lt (hs.reached k hk)
  · exact Nat.lt_of_lt_of_eq (Nat.lt_succ_of_lt (hs.pledged a k hk)) length_addConnection.symm
  · have hl := lends_emit (by simp) hl
    cases c <;> exact .inl hl
  · cases c with
    | owner o => cases o <;> exact hc
    | _ => exact hc

end Sockets

end Conduit.Socket
