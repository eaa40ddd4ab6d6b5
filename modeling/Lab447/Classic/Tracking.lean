import Lab447.Lib.Machine
import Lab447.Classic.XBar

/-!
What the requested masks of a crossbar's snoop filter record, over every
interleaving of what passes through the crossbar. Caches and memories around it
are left open, up to what they guarantee: a cache has one cacheable request per
line outstanding, and only requests that were made are answered.
-/

namespace Classic

/-- A request that was accepted at `port` and has not been answered. -/
structure Pending where
  port : PortID
  pkt : Packet
  deriving DecidableEq

/-- A crossbar, with the requests that wait for an answer. -/
structure Traffic where
  xbar : CoherentXBar
  pending : List Pending

inductive Event where
  | recvTimingReq (port : PortID) (pkt : Packet) (env : Surroundings)
  | recvTimingResp (pkt : Packet) (layerFree : Bool)
  | recvTimingSnoopReq (pkt : Packet) (memPort : PortID) (snooped : Flags)
  | recvTimingSnoopResp (pkt : Packet) (port : PortID) (layerFree : Bool)
      (allocated : PortID → List UInt8)

variable (cfg : XBarConfig)

/-- The pending request is one that the snoop filter tracks, for this line. -/
def Pending.Waits (p : Pending) (port : PortID) (key : Nat) : Prop :=
  p.port = port ∧ tracked cfg p.pkt port = true ∧ lineKey cfg p.pkt = key

instance (p : Pending) (port : PortID) (key : Nat) : Decidable (p.Waits cfg port key) :=
  inferInstanceAs (Decidable (_ ∧ _))

def answer (pending : List Pending) (rsp : PortID × Packet) : List Pending :=
  pending.filter fun p => p.pkt.req.id ≠ rsp.2.req.id

namespace Traffic

def start : Traffic := ⟨.empty, []⟩

/-- A request object is used for one outstanding request. A cache makes its own
kind of requests, one for each line, and does not answer a cache clean request. -/
def Comes (s : Traffic) (port : PortID) (pkt : Packet) (env : Surroundings) : Prop :=
  port < cfg.numCpuSidePorts ∧ pkt.cmd.isRequest = true ∧
  (∀ p ∈ s.pending, p.pkt.req.id ≠ pkt.req.id) ∧
  (tracked cfg pkt port = true → pkt.cmd.fromCache = true) ∧
  (SnoopFilter.marks cfg pkt port = true →
    ∀ p ∈ s.pending, ¬ p.Waits cfg port (lineKey cfg pkt)) ∧
  (pkt.cmd.isClean = true → pkt.flags.cacheResponding = false ∧
    env.snooped.cacheResponding = false)

/-- `pkt` answers a pending request. -/
def Answers (s : Traffic) (pkt : Packet) : Prop :=
  ∃ p ∈ s.pending, p.pkt.req = pkt.req ∧ lineKey cfg p.pkt = lineKey cfg pkt

/-- The crossbar has put off the answer to this request itself. -/
def Deferred (s : Traffic) (req : Nat) : Prop :=
  ∃ id ∈ s.xbar.outstandingCMO.keys, ∃ q ∈ (s.xbar.outstandingCMO.lookup id).join, q.req.id = req

/-- A snoop response answers a request that the crossbar has snooped for, or a snoop
that came from below. A copy is one of a broadcast. -/
def Returns (s : Traffic) (pkt : Packet) : Prop :=
  if pkt.broadcastToOther then pkt.req.isBroadcast = true
  else if pkt.req.id ∈ s.xbar.outstandingSnoop then s.Answers cfg pkt
  else ∀ p ∈ s.pending, p.pkt.req.id ≠ pkt.req.id

instance (s : Traffic) (port : PortID) (pkt : Packet) (env : Surroundings) :
    Decidable (s.Comes cfg port pkt env) :=
  inferInstanceAs (Decidable (_ ∧ _))

instance (s : Traffic) (pkt : Packet) : Decidable (s.Answers cfg pkt) :=
  inferInstanceAs (Decidable (∃ p ∈ s.pending, _))

instance (s : Traffic) (req : Nat) : Decidable (s.Deferred req) :=
  inferInstanceAs (Decidable (∃ id ∈ s.xbar.outstandingCMO.keys, _))

instance (s : Traffic) (pkt : Packet) : Decidable (s.Returns cfg pkt) :=
  inferInstanceAs (Decidable (ite _ _ _))

/-- The request waits if it was accepted and its answer has to come through here;
the responses that were scheduled answer what they are responses to. -/
def accept (s : Traffic) (port : PortID) (pkt : Packet) (o : Outcome) : Traffic :=
  let waits := o.success && pkt.cmd.needsResponse && !pkt.flags.cacheResponding
  ⟨o.xbar, o.sent.foldl answer (if waits then ⟨port, pkt⟩ :: s.pending else s.pending)⟩

def settle (s : Traffic) (o : Outcome) : Traffic := ⟨o.xbar, o.sent.foldl answer s.pending⟩

def step (s : Traffic) : Event → Option (Except XBarFault Traffic)
  | .recvTimingReq port pkt env =>
    if s.Comes cfg port pkt env then
      some ((s.xbar.recvTimingReq cfg pkt port env).map (s.accept port pkt))
    else none
  | .recvTimingResp pkt layerFree =>
    if s.Answers cfg pkt ∧ pkt.req.id ∉ s.xbar.outstandingSnoop ∧ ¬ s.Deferred pkt.req.id then
      some ((s.xbar.recvTimingResp cfg pkt layerFree).map s.settle)
    else none
  | .recvTimingSnoopReq pkt memPort snooped =>
    some ((s.xbar.recvTimingSnoopReq cfg pkt memPort snooped).map fun xbar => { s with xbar })
  | .recvTimingSnoopResp pkt port layerFree allocated =>
    if s.Returns cfg pkt then
      some ((s.xbar.recvTimingSnoopResp cfg pkt port layerFree allocated).map fun o =>
        if pkt.broadcastToOther then { s with xbar := o.xbar } else s.settle o)
    else none

end Traffic

/-- A crossbar with everything that can pass through it. -/
def trafficMachine : Machine Traffic Event XBarFault := ⟨.start, Traffic.step cfg⟩

/-! ### Masks and tables -/

/-- The requested mask of every line has the ports that wait for the line, each
with one request. -/
structure Masks (f : SnoopFilter) (pending : List Pending) : Prop where
  tracks : ∀ key port, port ∈ f.requested key ↔ ∃ p ∈ pending, p.Waits cfg port key
  single : ∀ p ∈ pending, ∀ q ∈ pending, ∀ port key,
    p.Waits cfg port key → q.Waits cfg port key → p = q

/-- The routing table knows where every pending request came from, and every
answer that was put off belongs to a request of its own. -/
structure Tables (x : CoherentXBar) (pending : List Pending) : Prop where
  distinct : ∀ p ∈ pending, ∀ q ∈ pending, p.pkt.req.id = q.pkt.req.id → p = q
  routed : ∀ p ∈ pending, x.routeTo.lookup p.pkt.req.id = some p.port
  snooped : ∀ id ∈ x.outstandingSnoop, x.routeTo.lookup id ≠ none
  deferred : ∀ id q, x.outstandingCMO.lookup id = some (some q) →
    q.req.id ∉ x.outstandingSnoop ∧
      ∃ p ∈ pending, p.pkt.req = q.req ∧ lineKey cfg p.pkt = lineKey cfg q
  once : ∀ id id' q q', x.outstandingCMO.lookup id = some (some q) →
    x.outstandingCMO.lookup id' = some (some q') → q.req.id = q'.req.id → id = id'

variable {cfg} {f g : SnoopFilter} {pending : List Pending} {port : PortID}
  {pkt : Packet}

theorem mem_answer {p : Pending} {rsp : PortID × Packet} :
    p ∈ answer pending rsp ↔ p ∈ pending ∧ p.pkt.req.id ≠ rsp.2.req.id := by
  simp [answer]

theorem answer_cons_self {rsp : Packet} (same : rsp.req = pkt.req)
    (fresh : ∀ p ∈ pending, p.pkt.req.id ≠ pkt.req.id) :
    answer (⟨port, pkt⟩ :: pending) (port, rsp) = pending := by
  unfold answer
  rw [List.filter_cons_of_neg (by simp [same]), List.filter_eq_self]
  intro p hp
  simp [same, fresh p hp]

/-- The masks record one more request, which is new at its port and line. -/
theorem Masks.accept (masks : Masks cfg f pending)
    (cached : tracked cfg pkt port = true → pkt.cmd.fromCache = true)
    (fresh : SnoopFilter.marks cfg pkt port = true →
      ∀ p ∈ pending, ¬ p.Waits cfg port (lineKey cfg pkt))
    (hg : SnoopFilter.Requested cfg f false pkt port g) :
    Masks cfg g (if pkt.cmd.needsResponse && !pkt.flags.cacheResponding then
      ⟨port, pkt⟩ :: pending else pending) := by
  cases hw : pkt.cmd.needsResponse && !pkt.flags.cacheResponding with
  | false =>
    have unmarked : SnoopFilter.marks cfg pkt port = false := by
      rw [SnoopFilter.marks, Bool.and_assoc, hw, Bool.and_false]
    refine ⟨fun key q => ?_, masks.single⟩
    rw [hg key]
    simp [unmarked, masks.tracks]
  | true =>
    have marks_iff : SnoopFilter.marks cfg pkt port = tracked cfg pkt port := by
      rw [SnoopFilter.marks, Bool.and_assoc, hw, Bool.and_true]
      cases ht : tracked cfg pkt port with
      | false => rfl
      | true => rw [cached ht, Bool.and_true]
    have self (q : PortID) (key : Nat) : (⟨port, pkt⟩ : Pending).Waits cfg q key ↔
        (tracked cfg pkt port = true ∧ key = lineKey cfg pkt) ∧ q = port := by
      constructor
      · rintro ⟨rfl, ht, rfl⟩
        exact ⟨⟨ht, rfl⟩, rfl⟩
      · rintro ⟨⟨ht, rfl⟩, rfl⟩
        exact ⟨rfl, ht, rfl⟩
    have alone (p : Pending) (hp : p ∈ pending) (q : PortID) (key : Nat)
        (h : (⟨port, pkt⟩ : Pending).Waits cfg q key) : ¬ p.Waits cfg q key := by
      obtain ⟨⟨ht, rfl⟩, rfl⟩ := (self q key).mp h
      exact fresh (marks_iff.trans ht) p hp
    constructor
    · intro key q
      rw [hg key, marks_iff, if_pos rfl]
      simp only [true_and, List.mem_cons, exists_eq_or_imp, self, ← masks.tracks]
      split
      · rename_i h
        simp [h, Finset.mem_insert]
      · rename_i h
        simp [h]
    · intro p hp q hq r key hpw hqw
      obtain rfl | hp := List.mem_cons.mp hp
      · obtain rfl | hq := List.mem_cons.mp hq
        · rfl
        · exact absurd hqw (alone q hq r key hpw)
      · obtain rfl | hq := List.mem_cons.mp hq
        · exact absurd hpw (alone p hp r key hqw)
        · exact masks.single p hp q hq r key hpw hqw

/-- The masks forget the request that is answered. -/
theorem Masks.answer {p : Pending} {rsp : PortID × Packet} (masks : Masks cfg f pending)
    (distinct : ∀ p ∈ pending, ∀ q ∈ pending, p.pkt.req.id = q.pkt.req.id → p = q)
    (hp : p ∈ pending) (hport : p.port = rsp.1) (hreq : p.pkt.req = rsp.2.req)
    (hline : lineKey cfg p.pkt = lineKey cfg rsp.2)
    (hg : SnoopFilter.Answered cfg f rsp.2 rsp.1 g) : Masks cfg g (answer pending rsp) := by
  have ht : tracked cfg p.pkt p.port = tracked cfg rsp.2 rsp.1 := by
    simp only [tracked, hreq, hport]
  have other (q : Pending) (hq : q ∈ pending) (key : Nat) (r : PortID) (hw : q.Waits cfg r key) :
      q.pkt.req.id = rsp.2.req.id ↔
        (tracked cfg rsp.2 rsp.1 = true ∧ key = lineKey cfg rsp.2) ∧ r = rsp.1 := by
    constructor
    · intro hid
      obtain rfl := distinct q hq p hp (by rw [hid, hreq])
      obtain ⟨rfl, hwt, rfl⟩ := hw
      exact ⟨⟨ht ▸ hwt, hline⟩, hport⟩
    · rintro ⟨⟨hr, rfl⟩, rfl⟩
      have hpw : p.Waits cfg rsp.1 (lineKey cfg rsp.2) := ⟨hport, hport ▸ ht.trans hr, hline⟩
      rw [masks.single q hq p hp _ _ hw hpw, hreq]
  constructor
  · intro key r
    have step : (∃ q ∈ Classic.answer pending rsp, q.Waits cfg r key) ↔
        (∃ q ∈ pending, q.Waits cfg r key) ∧
          ¬ ((tracked cfg rsp.2 rsp.1 = true ∧ key = lineKey cfg rsp.2) ∧ r = rsp.1) := by
      simp only [mem_answer]
      constructor
      · rintro ⟨q, ⟨hq, hid⟩, hw⟩
        exact ⟨⟨q, hq, hw⟩, fun h => hid ((other q hq key r hw).mpr h)⟩
      · rintro ⟨⟨q, hq, hw⟩, h⟩
        exact ⟨q, ⟨hq, fun hid => h ((other q hq key r hw).mp hid)⟩, hw⟩
    rw [step, hg key, ← masks.tracks]
    split
    · rename_i h
      simp [h, and_comm]
    · rename_i h
      simp [h]
  · intro q hq r hr
    exact masks.single q (mem_answer.mp hq).1 r (mem_answer.mp hr).1

end Classic
