import Conduit.Proofs.Pipe.Accounts

/-!
Requests come to an open port in the order in which they are issued: new ones are behind those in
line, and these behind the ones that are over. While a request uses the device of its port, no later
one has used it, so the bytes that a device moved are those of its requests, one request after the
other.
-/

namespace Conduit.Pipe

open Dispatch

/-- How far a request has come: it is new, it has come to its port, or it is over. -/
def Phase.stage : Phase → Nat
  | .fresh => 0
  | .queued | .holding _ => 1
  | .finished => 2

/-- A request is new. -/
def Hub.Fresh (h : Hub) (r : Nat) : Prop :=
  ∃ q : Request, h.requests[r]? = some q ∧ q.phase = .fresh

/-- A request that goes forward is not new again. -/
theorem Hub.Fresh.of_put {h : Hub} {r s : Nat} {q q' : Request} {port : Port}
    (hf : (h.put r q' port).Fresh s) (hq : h.requests[r]? = some q)
    (hs : q.phase.stage ≤ q'.phase.stage) : h.Fresh s := by
  obtain ⟨q₁, hq₁, hf⟩ := hf
  by_cases hsr : s = r
  · subst hsr
    rw [Hub.getElem?_put_requests hq] at hq₁
    cases hq₁
    refine ⟨q, hq, ?_⟩
    rw [hf] at hs
    cases h : q.phase <;> simp_all [Phase.stage]
  · exact ⟨q₁, by simpa [Hub.put, Ne.symm hsr] using hq₁, hf⟩

theorem Port.mem_queue_of_heir {q : Port} {r s : Nat} (h : s ∈ (q.without r).heir r) :
    s ∈ q.queue := by
  unfold Port.heir at h
  split at h
  · rw [Option.mem_toList] at h
    exact List.mem_append_right _ (List.mem_of_mem_erase (List.mem_of_head? h))
  · cases h

/-- Who is woken and is not new disturbs no order of those that are. -/
theorem pairwise_woken {P : Nat → Prop} {ready ts : List Nat}
    (h : ready.Pairwise fun r s => P r → P s → r < s) (ht : ∀ r ∈ ts, ¬P r) :
    (woken ready ts).Pairwise fun r s => P r → P s → r < s := by
  induction ts generalizing ready with
  | nil => exact h
  | cons t ts ih =>
    rw [woken_cons]
    refine ih ?_ fun r hr => ht r (List.mem_cons_of_mem t hr)
    split
    · exact h
    · refine List.pairwise_append.mpr ⟨h, by simp, fun r _ s hs _ hP => ?_⟩
      rw [List.mem_singleton.mp hs] at hP
      exact absurd hP (ht t List.mem_cons_self)

namespace Served

variable {r : Nat} {q q' : Request} {port port' : Port} {us : List Use} {wakes : List Nat}
  {adv : Advance}

/-- A request goes forward. -/
theorem stage_le (h : Served r q port us q' port' wakes adv) : q.phase.stage ≤ q'.phase.stage := by
  cases h <;> simp_all [Phase.stage]

/-- A step uses the device of the port at most once, and only while the request holds the port and
the port is open. -/
theorem uses (h : Served r q port us q' port' wakes adv) :
    us = [] ∨ ∃ u w, us = [u] ∧ u.port = q.port ∧ q.phase = .holding w ∧ port.closed = false ∧
      q.job ≠ .release := by
  cases h with
  | waits hq hc _ _ hu => exact .inr ⟨_, _, rfl, hu.port_eq, hq, hc, hu.ne_release⟩
  | works hq hc _ _ hu => exact .inr ⟨_, _, rfl, hu.port_eq, hq, hc, hu.ne_release.1⟩
  | _ => exact .inl rfl

theorem mem_wakes (h : Served r q port us q' port' wakes adv) {s : Nat} (hs : s ∈ wakes) :
    s ∈ port.queue ∨ s = r ∧ q'.phase ≠ .fresh := by
  cases h with
  | dismissed => exact .inl (Port.mem_queue_of_heir hs)
  | released => exact .inl (Port.mem_queue_of_heir hs)
  | waits =>
    split at hs
    · exact .inr ⟨List.mem_singleton.mp hs, by simp⟩
    · cases hs
  | _ => cases hs

end Served

namespace Desk

variable {d d' : Desk} {h ds : List Deed} {r s : Nat} {q q' : Request} {port port' : Port}

theorem Place.holder (h : d.Place r q port) {w : Bool} (hq : q.phase = .holding w) :
    port.holder = some r := by
  cases h <;> simp_all

/-- Requests that hold their ports can be woken at any time. -/
theorem Sound.feeds (hd : d.Sound) {rs : List Nat}
    (h : ∀ r ∈ rs, ∃ q w, d.hub.requests[r]? = some q ∧ q.phase = .holding w) :
    d.Moves [] { d with ready := woken d.ready rs } := by
  induction rs generalizing d with
  | nil => exact .none
  | cons r rs ih =>
    obtain ⟨q, w, hq, hph⟩ := h r List.mem_cons_self
    obtain ⟨port, hp, hplace, -⟩ := hd.place r q hq
    have m := Move.feed (d := d) hp
    rw [hplace.holder hph, Option.toList_some] at m
    have hrest := ih (d := { d with ready := woken d.ready [r] }) (hd.move m)
      fun s hs => h s (List.mem_cons_of_mem r hs)
    exact m.moves.trans hrest

/-- A new request on an open port has been woken and not served. -/
theorem Place.ready_of_fresh (h : d.Place r q port) (hq : q.phase = .fresh)
    (hc : port.closed = false) : r ∈ d.ready ∧ ∀ b, d.current ≠ some (r, b) := by
  cases h <;> simp_all

/-- Who has come to an open port stands in its queue. -/
theorem Place.mem_queue (h : d.Place r q port) (hq : q.phase.stage = 1)
    (hc : port.closed = false) : r ∈ port.queue := by
  cases h with
  | lined _ hr => exact hr
  | waiting _ hh => exact Port.queue_of_holder hh ▸ List.mem_cons_self
  | active _ hh => exact Port.queue_of_holder hh ▸ List.mem_cons_self
  | _ => simp_all [Phase.stage]

theorem Sound.not_fresh (hd : d.Sound) {p : Nat} (hp : d.hub.ports[p]? = some port)
    (hr : r ∈ port.queue) : r < d.hub.requests.length ∧ ¬d.hub.Fresh r := by
  obtain ⟨q, hq, rfl⟩ := (hd.port p port hp).member r hr
  obtain ⟨port₁, hp₁, hplace, -⟩ := hd.place r q hq
  obtain rfl : port = port₁ := by simpa [hp] using hp₁
  refine ⟨(List.getElem?_eq_some_iff.mp hq).1, ?_⟩
  rintro ⟨q₁, hq₁, hf⟩
  obtain rfl : q = q₁ := by simpa [hq] using hq₁
  cases hplace <;> simp_all

/-- New requests were woken in the order of their issue; on an open port later requests have come
no further than earlier ones, and those in the queue stand in order. -/
structure Ordered (d : Desk) : Prop where
  known : ∀ r ∈ d.ready, r < d.hub.requests.length
  ready : d.ready.Pairwise fun r s => d.hub.Fresh r → d.hub.Fresh s → r < s
  stages : ∀ (r s : Nat) (q q' : Request) (port : Port), r < s → d.hub.requests[r]? = some q →
    d.hub.requests[s]? = some q' → q'.port = q.port → d.hub.ports[q.port]? = some port →
    port.closed = false → q'.phase.stage ≤ q.phase.stage
  queue : ∀ (p : Nat) (port : Port), d.hub.ports[p]? = some port → port.closed = false →
    port.queue.Pairwise (· < ·)

/-- Order stays when new requests are added and ports are closed. -/
theorem Ordered.grow (ho : d.Ordered) (new : List Request)
    (hreq : d'.hub.requests = d.hub.requests ++ new) (hnew : ∀ q ∈ new, q.phase = .fresh)
    (hports : ∀ (p : Nat) (port' : Port), d'.hub.ports[p]? = some port' → port'.closed = false →
      port'.queue = [] ∧ d.hub.ports.length ≤ p ∨
        ∃ port, d.hub.ports[p]? = some port ∧ port.closed = false ∧ port'.queue = port.queue)
    (hold : ∀ (r : Nat) (q : Request), d.hub.requests[r]? = some q → q.port < d.hub.ports.length)
    (hknown : ∀ r ∈ d'.ready, r < d'.hub.requests.length)
    (hready : d'.ready.Pairwise fun r s => d'.hub.Fresh r → d'.hub.Fresh s → r < s) :
    d'.Ordered := by
  refine ⟨hknown, hready, ?_, ?_⟩
  · intro r s q q' port hrs hr hs hqp hp hc
    rw [hreq, List.getElem?_append] at hr hs
    split at hs
    · rename_i hlt
      rw [if_pos (Nat.lt_trans hrs hlt)] at hr
      rcases hports _ port hp hc with ⟨-, hle⟩ | ⟨port₁, hp₁, hc₁, -⟩
      · exact absurd (hold r q hr) (Nat.not_lt.mpr hle)
      · exact ho.stages r s q q' port₁ hrs hr hs hqp hp₁ hc₁
    · rw [hnew q' (List.mem_of_getElem? hs)]
      exact Nat.zero_le _
  · intro p port hp hc
    rcases hports p port hp hc with ⟨he, -⟩ | ⟨port₁, hp₁, hc₁, he⟩
    · rw [he]
      exact .nil
    · rw [he]
      exact ho.queue p port₁ hp₁ hc₁

/-- Order stays when one request goes forward to where all earlier ones on its port have come. -/
theorem Ordered.local (ho : d.Ordered) (hq : d.hub.requests[r]? = some q)
    (hp : d.hub.ports[q.port]? = some port) (hport : q'.port = q.port)
    (hhub : d'.hub = d.hub.put r q' port') (hclosed : port'.closed = port.closed)
    (hstage : q.phase.stage ≤ q'.phase.stage)
    (hfirst : port.closed = false → q.phase.stage ≠ q'.phase.stage → ∀ (s : Nat) (q₁ : Request),
      s < r → d.hub.requests[s]? = some q₁ → q₁.port = q.port → q'.phase.stage ≤ q₁.phase.stage)
    (hqueue : port.closed = false → port'.queue.Pairwise (· < ·)) {rest wakes : List Nat}
    (hready : d'.ready = woken rest wakes) (hrest : rest.Sublist d.ready)
    (hwakes : ∀ s ∈ wakes, s < d.hub.requests.length ∧ ¬d'.hub.Fresh s) : d'.Ordered := by
  obtain ⟨hr', -⟩ := List.getElem?_eq_some_iff.mp hq
  obtain ⟨hp', -⟩ := List.getElem?_eq_some_iff.mp hp
  have hrequest (s : Nat) : d'.hub.requests[s]? = if s = r then some q' else d.hub.requests[s]? := by
    rw [hhub, Hub.put, List.getElem?_set]
    grind
  have hports (p : Nat) : d'.hub.ports[p]? = if p = q.port then some port' else d.hub.ports[p]? := by
    rw [hhub, Hub.put, List.getElem?_set, hport]
    grind
  have hlength : d'.hub.requests.length = d.hub.requests.length := by simp [hhub, Hub.put]
  have hfresh (s : Nat) (hs : d'.hub.Fresh s) : d.hub.Fresh s := by
    rw [hhub] at hs
    exact hs.of_put hq hstage
  refine ⟨?_, ?_, ?_, ?_⟩
  · intro s hs
    rw [hlength]
    rw [hready, mem_woken] at hs
    rcases hs with hs | hs
    · exact ho.known s (hrest.subset hs)
    · exact (hwakes s hs).1
  · rw [hready]
    refine pairwise_woken ?_ fun s hs => (hwakes s hs).2
    exact (ho.ready.sublist hrest).imp fun h hs hs' => h (hfresh _ hs) (hfresh _ hs')
  · intro s s' q₁ q₁' port₁ hss hs hs' hqp hp₁ hc
    have hopen : ∃ port, d.hub.ports[q₁.port]? = some port ∧ port.closed = false := by
      rw [hports] at hp₁
      split at hp₁
      · rename_i hpp
        cases hp₁
        exact ⟨port, hpp ▸ hp, hclosed ▸ hc⟩
      · exact ⟨port₁, hp₁, hc⟩
    obtain ⟨port₀, hp₀, hc₀⟩ := hopen
    rw [hrequest] at hs hs'
    split at hs'
    · rename_i hsr
      subst hsr
      cases hs'
      rw [if_neg (Nat.ne_of_lt hss)] at hs
      obtain rfl : port = port₀ := by simpa [← hqp, hport, hp] using hp₀
      by_cases he : q.phase.stage = q'.phase.stage
      · rw [← he]
        exact ho.stages s s' q₁ q port hss hs hq (hport.symm.trans hqp) hp₀ hc₀
      · exact hfirst hc₀ he s q₁ hss hs (hqp.symm.trans hport)
    · split at hs
      · rename_i hsr
        subst hsr
        cases hs
        rw [hport] at hqp hp₀
        exact Nat.le_trans (ho.stages s s' q q₁' port₀ hss hq hs' hqp hp₀ hc₀) hstage
      · exact ho.stages s s' q₁ q₁' port₀ hss hs hs' hqp hp₀ hc₀
  · intro p port₁ hp₁ hc
    rw [hports] at hp₁
    split at hp₁
    · cases hp₁
      exact hqueue (hclosed ▸ hc)
    · exact ho.queue p port₁ hp₁ hc

theorem Serves.sublist {rest : List Nat} (hs : d.Serves r rest) : rest.Sublist d.ready := by
  cases hs with
  | poll _ hr => exact hr ▸ List.sublist_cons_self r rest
  | resume => exact .refl _

theorem Sound.port_lt (hd : d.Sound) (r : Nat) (q : Request) (hq : d.hub.requests[r]? = some q) :
    q.port < d.hub.ports.length := by
  obtain ⟨port, hp, -⟩ := hd.place r q hq
  exact (List.getElem?_eq_some_iff.mp hp).1

/-- A new request that is served on an open port comes after all that are not new. -/
theorem Ordered.first (ho : d.Ordered) (hd : d.Sound) {rest : List Nat} (hs : d.Serves r rest)
    (hq : d.hub.requests[r]? = some q) (hp : d.hub.ports[q.port]? = some port)
    (hc : port.closed = false) (hf : q.phase = .fresh) {q₁ : Request} (hsr : s < r)
    (hq₁ : d.hub.requests[s]? = some q₁) (hqp : q₁.port = q.port) : 1 ≤ q₁.phase.stage := by
  refine Nat.pos_of_ne_zero fun hn => ?_
  have hf₁ : q₁.phase = .fresh := by
    cases h : q₁.phase <;> simp_all [Phase.stage]
  obtain ⟨port₁, hp₁, hplace, -⟩ := hd.place s q₁ hq₁
  obtain rfl : port = port₁ := by simpa [hqp, hp] using hp₁
  obtain ⟨port₂, hp₂, hplace₂, -⟩ := hd.place r q hq
  obtain rfl : port = port₂ := by simpa [hp] using hp₂
  cases hs with
  | resume hcur => exact (hplace₂.ready_of_fresh hf hc).2 _ hcur
  | poll _ hready =>
    have hmem := (hplace.ready_of_fresh hf₁ hc).1
    have hord := ho.ready
    rw [hready] at hmem hord
    have hrest := (List.mem_cons.mp hmem).resolve_left (Nat.ne_of_lt hsr)
    have := (List.pairwise_cons.mp hord).1 s hrest ⟨q, hq, hf⟩ ⟨q₁, hq₁, hf₁⟩
    omega

/-- Whoever stands in the queue of an open port came before a request that is new. -/
theorem Ordered.queue_lt (ho : d.Ordered) (hd : d.Sound) (hq : d.hub.requests[r]? = some q)
    (hp : d.hub.ports[q.port]? = some port) (hc : port.closed = false) (hf : q.phase = .fresh)
    (hs : s ∈ port.queue) : s < r := by
  obtain ⟨q₁, hq₁, hqp⟩ := (hd.port q.port port hp).member s hs
  have hnew := (hd.not_fresh hp hs).2
  rcases Nat.lt_trichotomy s r with h | h | h
  · exact h
  · exact absurd ⟨q, h ▸ hq, hf⟩ hnew
  · have := ho.stages r s q q₁ port h hq hq₁ hqp hp hc
    refine absurd ⟨q₁, hq₁, ?_⟩ hnew
    cases hph : q₁.phase <;> simp_all [Phase.stage]

theorem Ordered.serve (ho : d.Ordered) (hd : d.Sound) {rest : List Nat} (hs : d.Serves r rest)
    (hq : d.hub.requests[r]? = some q) (hp : d.hub.ports[q.port]? = some port)
    {us : List Use} {wakes : List Nat} {adv : Advance}
    (hv : Served r q port us q' port' wakes adv) (current : Option (Nat × Bool)) (now : Bool) :
    Ordered { d with hub := d.hub.put r q' port', current, now, ready := woken rest wakes } := by
  obtain ⟨hr', -⟩ := List.getElem?_eq_some_iff.mp hq
  obtain ⟨port₀, hp₀, hplace, hcl⟩ := hd.place r q hq
  obtain rfl : port = port₀ := by simpa [hp] using hp₀
  have hk := hd.port q.port port hp
  refine ho.local hq hp hv.port_eq rfl hv.closed_eq hv.stage_le ?_ ?_ rfl hs.sublist ?_
  · intro hc hne s q₁ hsr hq₁ hqp
    have hfirst (hf : q.phase = .fresh) := ho.first hd hs hq hp hc hf hsr hq₁ hqp
    cases hv with
    | taken hf => exact hfirst hf
    | lined hf => exact hfirst hf
    | released _ hj => simp [hcl hj] at hc
    | _ => simp_all [Phase.stage]
  · intro hc
    have hqueue := ho.queue q.port port hp hc
    cases hv with
    | taken _ _ he =>
      have hl : port.line = [] := (List.append_eq_nil_iff.mp he).2
      simp [Port.queue, hl]
    | lined hf =>
      rw [Port.queue_joined]
      refine List.pairwise_append.mpr ⟨hqueue, by simp, fun s hs x hx => ?_⟩
      rw [List.mem_singleton.mp hx]
      exact ho.queue_lt hd hq hp hc hf hs
    | granted _ _ hh => rwa [hk.tidy.queue_without hh]
    | works hph => rwa [hk.tidy.queue_without (hplace.holder hph)]
    | waits => split <;> exact hqueue
    | released _ hj => simp [hcl hj] at hc
    | dismissed _ _ hc' => simp [hc'] at hc
    | _ => exact hqueue
  · intro s hs
    rcases hv.mem_wakes hs with hs | ⟨rfl, hf⟩
    · obtain ⟨hlt, hnew⟩ := hd.not_fresh hp hs
      exact ⟨hlt, fun hf => hnew (hf.of_put hq hv.stage_le)⟩
    · refine ⟨hr', ?_⟩
      rintro ⟨q₁, hq₁, hf₁⟩
      rw [Hub.getElem?_put_requests hq] at hq₁
      cases hq₁
      exact hf hf₁

/-- The end of a request that has its turn: it is the first one in the queue. -/
theorem Ordered.finish (ho : d.Ordered) (hd : d.Sound) {b : Bool} (hc : d.current = some (r, b))
    (now : Bool) : Ordered { d with
      hub := (d.hub.finish r).1
      current := none
      now
      ready := woken d.ready (d.hub.finish r).2 } := by
  obtain ⟨q, hq⟩ : ∃ q, d.hub.requests[r]? = some q :=
    ⟨_, List.getElem?_eq_getElem (hd.current r b hc)⟩
  obtain ⟨port, hp, hplace, -⟩ := hd.place r q hq
  have hk := hd.port q.port port hp
  have hfinish := Hub.finish_eq hq hp
  refine @Ordered.local d _ r q { q with phase := .finished } port (port.quit r) ho hq hp rfl
    (by rw [hfinish]) (Port.quit_closed ..) ?_ ?_ ?_ d.ready ((port.without r).heir r)
    (by rw [hfinish]) (.refl _) ?_
  · cases q.phase <;> simp [Phase.stage]
  · intro ho' _ s q₁ hsr hq₁ hqp
    have hqueue := ho.queue q.port port hp ho'
    have hph : q.phase = .holding false ∧ port.holder = some r := by
      cases hplace <;> simp_all
    rw [Port.queue_of_holder hph.2] at hqueue
    have hstage := ho.stages s r q₁ q port hsr hq₁ hq hqp.symm (hqp ▸ hp) ho'
    obtain ⟨port₁, hp₁, hplace₁, -⟩ := hd.place s q₁ hq₁
    obtain rfl : port = port₁ := by simpa [hqp, hp] using hp₁
    rw [hph.1] at hstage
    cases h : q₁.phase with
    | fresh => simp [h, Phase.stage] at hstage
    | finished => exact Nat.le_refl _
    | queued | holding =>
      have hs := hplace₁.mem_queue (by simp [h, Phase.stage]) ho'
      rw [Port.queue_of_holder hph.2] at hs
      have hs := (List.mem_cons.mp hs).resolve_left (Nat.ne_of_lt hsr)
      have := (List.pairwise_cons.mp hqueue).1 s hs
      omega
  · intro ho'
    rw [hk.tidy.queue_quit r]
    exact (ho.queue q.port port hp ho').sublist List.erase_sublist
  · intro s hs
    obtain ⟨hlt, hnew⟩ := hd.not_fresh hp (Port.mem_queue_of_heir hs)
    rw [hfinish]
    refine ⟨hlt, fun hf => hnew (hf.of_put hq ?_)⟩
    cases q.phase <;> simp [Phase.stage]

/-- Order stays when nothing happens but that some are woken who are not new. -/
theorem Ordered.still (ho : d.Ordered) (hd : d.Sound) (rest wakes : List Nat) (hh : d'.hub = d.hub)
    (hready : d'.ready = woken rest wakes) (hrest : rest.Sublist d.ready)
    (hwakes : ∀ s ∈ wakes, s < d.hub.requests.length ∧ ¬d.hub.Fresh s) : d'.Ordered := by
  refine ho.grow [] (by simp [hh]) (by simp) ?_ hd.port_lt ?_ ?_
  · intro p port hp hc
    exact .inr ⟨port, hh ▸ hp, hc, rfl⟩
  · intro s hs
    rw [hready, mem_woken] at hs
    rw [hh]
    rcases hs with hs | hs
    · exact ho.known s (hrest.subset hs)
    · exact (hwakes s hs).1
  · rw [hready, hh]
    exact pairwise_woken (ho.ready.sublist hrest) fun s hs => (hwakes s hs).2

/-- Order stays when a new request is added and woken last. -/
theorem Ordered.submit (ho : d.Ordered) (hd : d.Sound) (hreq : d'.hub.requests =
      d.hub.requests ++ [q]) (hq : q.phase = .fresh)
    (hports : ∀ (p : Nat) (port' : Port), d'.hub.ports[p]? = some port' → port'.closed = false →
      ∃ port, d.hub.ports[p]? = some port ∧ port.closed = false ∧ port'.queue = port.queue)
    (wakes : List Nat) (hready : d'.ready = woken d.ready (wakes ++ [d.hub.requests.length]))
    (hwakes : ∀ s ∈ wakes, s < d.hub.requests.length ∧ ¬d.hub.Fresh s) : d'.Ordered := by
  have hknown : ∀ s ∈ woken d.ready wakes, s < d.hub.requests.length := by
    intro s hs
    rcases mem_woken.mp hs with hs | hs
    · exact ho.known s hs
    · exact (hwakes s hs).1
  have hlast : d'.ready = woken d.ready wakes ++ [d.hub.requests.length] := by
    rw [hready, woken_append, woken_cons, if_neg fun h => Nat.lt_irrefl _ (hknown _ h)]
    rfl
  have hfresh (s : Nat) (hs : s < d.hub.requests.length) (hf : d'.hub.Fresh s) : d.hub.Fresh s := by
    obtain ⟨q₁, hq₁, hf⟩ := hf
    rw [hreq, List.getElem?_append_left hs] at hq₁
    exact ⟨q₁, hq₁, hf⟩
  refine ho.grow [q] hreq (by simpa using hq) ?_ hd.port_lt ?_ ?_
  · intro p port' hp hc
    exact .inr (hports p port' hp hc)
  · intro s hs
    rw [hreq, List.length_append, List.length_singleton]
    rw [hlast, List.mem_append, List.mem_singleton] at hs
    rcases hs with hs | rfl
    · exact Nat.lt_succ_of_lt (hknown s hs)
    · exact Nat.lt_succ_self _
  · rw [hlast, List.pairwise_append]
    refine ⟨?_, by simp, fun s hs x hx _ _ => ?_⟩
    · have := pairwise_woken ho.ready fun s hs => (hwakes s hs).2
      exact this.imp_of_mem fun hs hs' h hf hf' =>
        h (hfresh _ (hknown _ hs) hf) (hfresh _ (hknown _ hs') hf')
    · rw [List.mem_singleton.mp hx]
      exact hknown s hs

theorem Ordered.close (ho : d.Ordered) (hd : d.Sound) (p : Nat) :
    Ordered { d with hub := (d.hub.close p).1, ready := woken d.ready (d.hub.close p).2 } := by
  unfold Hub.close
  cases hp : d.hub.ports[p]? with
  | none => exact ho
  | some port =>
    dsimp only
    split
    · exact ho
    refine ho.submit hd (q := ⟨p, .release, none, .fresh⟩) rfl rfl ?_ _ rfl ?_
    · intro p' port' hp' hc
      simp only [Hub.submit, Hub.modifyPort, List.getElem?_modify] at hp'
      obtain ⟨port₁, hp₁, he⟩ := Option.map_eq_some_iff.mp hp'
      split at he
      · cases he
        cases hc
      · cases he
        exact ⟨port', hp₁, hc, rfl⟩
    · intro s hs
      obtain ⟨q, hq, hf⟩ := (hd.port p port hp).watch s hs
      refine ⟨(List.getElem?_eq_some_iff.mp hq).1, ?_⟩
      rintro ⟨q₁, hq₁, hf₁⟩
      obtain rfl : q = q₁ := by simpa [hq] using hq₁
      exact hf hf₁

/-- Every move keeps the requests in order. -/
theorem Ordered.move (ho : d.Ordered) (hd : d.Sound) (m : d.Move ds d') : d'.Ordered := by
  cases m with
  | quiet | refuse =>
    exact ho.still hd d.ready [] rfl rfl (.refl _) (by simp)
  | opens e =>
    refine ho.grow [] (by simp [Hub.addPort]) (by simp) ?_ hd.port_lt ho.known ho.ready
    intro p port' hp hc
    rcases getElem?_concat.mp hp with hp | ⟨rfl, rfl⟩
    · exact .inr ⟨port', hp, hc, rfl⟩
    · exact .inl ⟨rfl, Nat.le_refl _⟩
  | @feed p port hp =>
    refine ho.still hd d.ready _ rfl rfl (.refl _) fun s hs => hd.not_fresh hp ?_
    exact List.mem_append_left _ hs
  | ask _ _ =>
    exact ho.submit hd rfl rfl (fun p port' hp hc => ⟨port', hp, hc, rfl⟩) [] rfl (by simp)
  | close => exact ho.close hd _
  | serve hs hq hp _ hv _ => exact ho.serve hd hs hq hp hv _ _
  | @skip r rest hs =>
    exact ho.still hd rest [] rfl rfl hs.sublist (by simp)
  | finish hc => exact ho.finish hd hc _
  | unwind hc => exact ho.finish hd hc _

theorem Ordered.empty (d : Desk) (hr : d.hub.requests = []) (hp : d.hub.ports = [])
    (hready : d.ready = []) : d.Ordered :=
  ⟨by simp [hready], by simp [hready], by simp [hr], by simp [hp]⟩

end Desk

end Conduit.Pipe
