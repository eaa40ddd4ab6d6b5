import Lab447.MemCtrl.Accept

/-!
The controller conserves requests. A request is answered once, and the bursts that
have to be read for it are always either on their way or have been read.
-/

namespace MemCtrl

open Pools Script Join

/-- The bursts a helper still waits for. -/
def BurstHelper.left (b : BurstHelper) : Nat := b.burstCount - b.burstsServiced

/-- The packet a memory packet is for and what it reads. -/
def Piece.owed (p : Piece) : Nat × Burst := (p.pkt, p.addr, p.size)

namespace Ctrl

variable {cfg : Config} {c d : Ctrl} {pkt : Packet} {jobs : Nat}

/-- The reads on their way. -/
def pending (cfg : Config) (c : Ctrl) : List Piece :=
  c.pieces cfg true ++ c.respQueue.map MemPacket.piece

def owed (cfg : Config) (c : Ctrl) : List (Nat × Burst) := (c.pending cfg).map Piece.owed

/-- What holds of the controller when `jobs` packets have been accepted. -/
structure Sound (cfg : Config) (jobs : Nat) (c : Ctrl) : Prop where
  counted : Counted cfg c
  writes : Writes cfg c
  total : c.totalReadQueueSize = (c.pieces cfg true).length
  bound : c.totalReadQueueSize + c.respQueue.length ≤ cfg.readBufferSize
  joined : Joined Piece.pkt Piece.burstHelper BurstHelper.left (c.pending cfg) c.burstHelper
    c.answered jobs
  fresh : ∀ x, c.helpers ≤ x → c.burstHelper x = none

variable {n : Nat}

theorem pool_start : pool n (fun _ => ([] : List MemPacket)) = [] := by
  simp [pool]

theorem Sound.start : Sound cfg 0 .start := by
  have none : ∀ r, Ctrl.start.pieces cfg r = [] := by
    intro r
    cases r <;> exact congrArg (List.map _) pool_start
  constructor
  case counted => exact .start
  case writes =>
    constructor
    · rw [none]
      simp [Ctrl.start]
    · rw [none]
      exact List.nodup_nil
    · rw [none]
      rfl
    · exact Nat.zero_le _
  case total =>
    rw [none]
    rfl
  case bound => exact Nat.zero_le _
  case joined =>
    rw [pending, none]
    exact .start
  case fresh => exact fun _ _ => rfl

theorem Requeued.of_eq (hq : ∀ r, d.selQueue r = c.selQueue r) (hc : d.core = c.core) :
    Requeued cfg c d :=
  ⟨fun r => by rw [Ctrl.pieces, Ctrl.pieces, hq], hc⟩

theorem Requeued.pending (h : Requeued cfg c d) : (d.pending cfg).Perm (c.pending cfg) := by
  have resp : d.respQueue = c.respQueue := congrArg Core.respQueue h.core
  rw [Ctrl.pending, Ctrl.pending, resp]
  exact (h.pieces true).append_right _

theorem Requeued.owed (h : Requeued cfg c d) : (d.owed cfg).Perm (c.owed cfg) :=
  h.pending.map _

theorem Requeued.uncoveredBy (h : Requeued cfg c d) : uncoveredBy cfg d = uncoveredBy cfg c := by
  have pieces : ∀ c : Ctrl, Ctrl.uncoveredBy cfg c = fun b => (c.pieces cfg false).all fun p =>
      !(decide (p.addr ≤ b.1) && decide (b.1 + b.2 ≤ p.addr + p.size)) := by
    intro c
    funext b
    rw [Ctrl.pieces, List.all_map]
    rfl
  rw [pieces, pieces]
  funext b
  exact (h.pieces false).all_eq

/-- Priorities do not matter. -/
theorem Sound.requeued (h : Sound cfg jobs c) (counted : Counted cfg d)
    (moved : Requeued cfg c d) : Sound cfg jobs d := by
  have core := moved.core
  simp only [Ctrl.core, Core.mk.injEq] at core
  obtain ⟨resp, isIn, reads, writes, heap, helpers, answered⟩ := core
  constructor
  case counted => exact counted
  case writes => exact h.writes.perm (moved.pieces false) isIn writes
  case total =>
    rw [reads, h.total]
    exact (moved.pieces true).length_eq.symm
  case bound =>
    rw [reads, resp]
    exact h.bound
  case joined =>
    rw [heap, answered]
    exact h.joined.perm moved.pending
  case fresh =>
    rw [heap, helpers]
    exact h.fresh

/-- The flags and the bus state do not matter. -/
theorem Sound.of_eq (h : Sound cfg jobs c) (hq : ∀ r, d.selQueue r = c.selQueue r)
    (hs : ∀ r, d.queueSizes r = c.queueSizes r) (hp : d.packetPriorities = c.packetPriorities)
    (hr : d.requestors = c.requestors) (hc : d.core = c.core) : Sound cfg jobs d :=
  h.requeued (h.counted.congr hq hs hp hr) (.of_eq hq hc)

/-! ### Requests -/

theorem addToWriteQueue_ends (pkt : Packet) (h : Sound cfg jobs c) (hid : pkt.id = jobs)
    (hq : pkt.qosValue < cfg.numPriorities) (size : 0 < pkt.size.toNat)
    (room : ¬ c.writeQueueFull cfg (pktCount cfg pkt) = true) :
    Ends Fault.FromOutside (fun d => Sound cfg (jobs + 1) d ∧ d.owed cfg = c.owed cfg)
      (c.addToWriteQueue cfg pkt (pktCount cfg pkt)) := by
  have fits : ∀ b ∈ burstsFrom cfg pkt (pktCount cfg pkt) pkt.addr, Fits cfg b.1 b.2 := by
    rw [burstsFrom_addr]
    exact fun b hb => bursts_fit size hb
  simp only [writeQueueFull, decide_eq_true_eq, Nat.not_lt] at room
  apply (writeLoop_ends hq h.counted h.writes room fits).map
  rintro d ⟨counted, writes, side⟩
  have core := side.core
  simp only [Ctrl.core, Core.mk.injEq, true_and] at core
  obtain ⟨resp, reads, heap, helpers, answered⟩ := core
  have pieces : d.pieces cfg true = c.pieces cfg true := by
    rw [Ctrl.pieces, Ctrl.pieces, side.queue]
  have pending : d.pending cfg = c.pending cfg := by rw [Ctrl.pending, Ctrl.pending, pieces, resp]
  constructor
  · constructor
    case counted => exact counted.congr (fun _ => rfl) (fun _ => rfl) rfl rfl
    case writes => exact writes.perm .rfl rfl rfl
    case total => exact reads.trans (h.total.trans (congrArg List.length pieces).symm)
    case bound =>
      show d.totalReadQueueSize + d.respQueue.length ≤ _
      rw [reads, resp]
      exact h.bound
    case joined =>
      show Joined _ _ _ (d.pending cfg) d.burstHelper (pkt.id :: d.answered) _
      rw [pending, heap, answered, hid]
      exact h.joined.reply
    case fresh =>
      show ∀ x, d.helpers ≤ x → d.burstHelper x = none
      rw [heap, helpers]
      exact h.fresh
  · exact congrArg (List.map Piece.owed) pending

variable {x : Nat × Option Nat × Ctrl} {bs : List Burst}

theorem Split.pending {left serviced : Nat} {helper : Option Nat}
    (h : Split cfg pkt n left bs serviced helper c x) : (x.2.2.pending cfg).Perm
      (bs.map (fun b => ⟨pkt.id, b.1, b.2, x.2.1⟩) ++ c.pending cfg) := by
  rw [Ctrl.pending, Ctrl.pending, h.side.respQueue, ← List.append_assoc]
  exact h.pieces.append_right _

theorem makeHelper_none (n : Nat) (c : Ctrl) : c.makeHelper n none =
    if 1 < n then (some c.helpers, { c with
      burstHelper := Function.update c.burstHelper c.helpers (some ⟨n, 0⟩)
      helpers := c.helpers + 1 })
    else (none, c) := by
  simp [makeHelper]

/-- What is left to show after the bursts of a read were put into the read queue. -/
theorem Split.sound {e : Ctrl} (split : Split cfg pkt n n bs 0 none c x) (h : Sound cfg jobs c)
    (few : bs.length ≤ n)
    (room : c.totalReadQueueSize + c.respQueue.length + n ≤ cfg.readBufferSize)
    (counted : Counted cfg e) (queues : ∀ r, e.selQueue r = x.2.2.selQueue r)
    (core : e.core = { x.2.2.core with burstHelper := e.burstHelper, answered := e.answered })
    (joined : Joined Piece.pkt Piece.burstHelper BurstHelper.left (x.2.2.pending cfg)
      e.burstHelper e.answered (jobs + 1)) (fresh : ∀ y, x.2.2.helpers ≤ y → e.burstHelper y = none) :
    Sound cfg (jobs + 1) e ∧ e.pending cfg = x.2.2.pending cfg := by
  simp only [Ctrl.core, Core.mk.injEq, true_and, and_true] at core
  obtain ⟨resp, isIn, reads, writes, helpers⟩ := core
  have pieces : ∀ r, e.pieces cfg r = x.2.2.pieces cfg r := by
    intro r
    rw [Ctrl.pieces, Ctrl.pieces, queues]
  have pending : e.pending cfg = x.2.2.pending cfg := by
    rw [Ctrl.pending, Ctrl.pending, pieces, resp]
  refine ⟨?_, pending⟩
  constructor
  case counted => exact counted
  case writes =>
    apply (split.side.writes h.writes).perm _ isIn writes
    rw [pieces]
  case total =>
    rw [reads, split.total, pieces, split.pieces.length_eq, List.length_append, List.length_map,
      h.total, Nat.add_comm]
  case bound =>
    rw [reads, resp, split.total, split.side.respQueue]
    omega
  case joined =>
    rw [pending]
    exact joined
  case fresh =>
    rw [helpers]
    exact fresh

/-- A read that was found in the write queue as a whole is answered. -/
theorem Split.reply (h : Sound cfg jobs c) (split : Split cfg pkt n n [] 0 none c x)
    (hid : pkt.id = jobs)
    (room : c.totalReadQueueSize + c.respQueue.length + n ≤ cfg.readBufferSize) :
    Sound cfg (jobs + 1) (x.2.2.accessAndRespond pkt.id) ∧
      (x.2.2.accessAndRespond pkt.id).pending cfg = x.2.2.pending cfg := by
  have heap : x.2.2.burstHelper = c.burstHelper := split.heap
  have next : x.2.2.helpers = c.helpers := split.next
  apply split.sound h (Nat.zero_le n) room
  · exact split.counted.congr (fun _ => rfl) (fun _ => rfl) rfl rfl
  · exact fun _ => rfl
  · rfl
  · have answered : x.2.2.answered = c.answered := congrArg Core.answered split.side.core
    show Joined _ _ _ _ x.2.2.burstHelper (pkt.id :: x.2.2.answered) _
    rw [heap, answered, hid]
    exact h.joined.reply.perm split.pending
  · rw [next]
    show ∀ y, c.helpers ≤ y → x.2.2.burstHelper y = none
    rw [heap]
    exact h.fresh

/-- A read of one burst has no helper. -/
theorem Split.single {b : Burst} (h : Sound cfg jobs c) (split : Split cfg pkt 1 1 [b] 0 none c x)
    (hid : pkt.id = jobs)
    (room : c.totalReadQueueSize + c.respQueue.length + 1 ≤ cfg.readBufferSize) :
    x.2.1 = none ∧ Sound cfg (jobs + 1) x.2.2 := by
  have made : x.2.1 = none := split.made
  have heap : x.2.2.burstHelper = c.burstHelper := split.heap
  have next : x.2.2.helpers = c.helpers := split.next
  refine ⟨made, (split.sound h (by simp) room split.counted (fun _ => rfl) rfl ?_ ?_).1⟩
  · have answered : x.2.2.answered = c.answered := congrArg Core.answered split.side.core
    have pending := split.pending
    rw [made] at pending
    rw [heap, answered]
    apply (h.joined.fork (k := none) _ _ _ _ _ _ _).perm pending
    · simp
    · simpa using hid
    · simp
    · simp
    · simp
    · simp
    · simp
  · rw [next, heap]
    exact h.fresh

/-- A read of several bursts gets a helper, which knows how many of them were in
the write queue. -/
theorem Split.several (h : Sound cfg jobs c) (split : Split cfg pkt n n bs 0 none c x)
    (hid : pkt.id = jobs) (many : 1 < n) (nonempty : bs ≠ [])
    (room : c.totalReadQueueSize + c.respQueue.length + n ≤ cfg.readBufferSize) :
    ∃ y, x.2.1 = some y ∧ Sound cfg (jobs + 1) (x.2.2.setServiced y x.1) ∧
      (x.2.2.setServiced y x.1).pending cfg = x.2.2.pending cfg := by
  have count := split.count
  have made : x.2.1 = some c.helpers := by
    rw [split.made, if_neg nonempty, makeHelper_none, if_pos many]
  have heap : x.2.2.burstHelper = Function.update c.burstHelper c.helpers (some ⟨n, 0⟩) := by
    rw [split.heap, if_neg nonempty, makeHelper_none, if_pos many]
  have next : x.2.2.helpers = c.helpers + 1 := by
    rw [split.next, if_neg nonempty, makeHelper_none, if_pos many]
  have heap' : (x.2.2.setServiced c.helpers x.1).burstHelper =
      Function.update c.burstHelper c.helpers (some ⟨n, x.1⟩) := by
    simp [setServiced, heap]
  refine ⟨c.helpers, made, split.sound h (by omega) room ?_ (fun _ => rfl) rfl ?_ ?_⟩
  · exact split.counted.congr (fun _ => rfl) (fun _ => rfl) rfl rfl
  · have answered : (x.2.2.setServiced c.helpers x.1).answered = c.answered :=
      congrArg Core.answered split.side.core
    have pending := split.pending
    rw [made] at pending
    rw [heap', answered]
    apply (h.joined.fork (k := some c.helpers) _ _ _ _ _ _ _).perm pending
    · simpa using nonempty
    · intro p hp
      obtain ⟨b, -, rfl⟩ := List.mem_map.mp hp
      exact hid
    · intro p hp
      obtain ⟨b, -, rfl⟩ := List.mem_map.mp hp
      rfl
    · simp
    · simpa using h.fresh c.helpers (Nat.le_refl _)
    · simp only [Option.some.injEq, forall_eq', Function.update_self, exists_eq_left',
        List.length_map, BurstHelper.left]
      omega
    · intro y hy
      exact Function.update_of_ne (fun he => hy (congrArg some he.symm)) _ _
  · rw [next, heap']
    intro y hy
    rw [Function.update_of_ne (by omega)]
    exact h.fresh y (by omega)

theorem addToReadQueue_ends (pkt : Packet) (h : Sound cfg jobs c) (hid : pkt.id = jobs)
    (hq : pkt.qosValue < cfg.numPriorities) (size : 0 < pkt.size.toNat)
    (room : ¬ c.readQueueFull cfg (pktCount cfg pkt) = true) :
    Ends Fault.FromOutside (fun d => Sound cfg (jobs + 1) d ∧ (d.owed cfg).Perm
        (((bursts cfg pkt (pktCount cfg pkt)).filter (uncoveredBy cfg c)).map (pkt.id, ·) ++
          c.owed cfg))
      (c.addToReadQueue cfg pkt (pktCount cfg pkt)) := by
  rw [addToReadQueue]
  split
  · exact .inr (.inr (.inl rfl))
  have fits : ∀ b ∈ burstsFrom cfg pkt (pktCount cfg pkt) pkt.addr, Fits cfg b.1 b.2 := by
    rw [burstsFrom_addr]
    exact fun b hb => bursts_fit size hb
  simp only [readQueueFull, decide_eq_true_eq, Nat.not_lt] at room
  apply (readLoop_ends (n := pktCount cfg pkt) hq h.counted h.writes room fits).map
  rintro ⟨serviced, helper, d⟩ split
  rw [burstsFrom_addr] at split
  generalize (bursts cfg pkt (pktCount cfg pkt)).filter (uncoveredBy cfg c) = bs at split ⊢
  generalize pktCount cfg pkt = n at *
  have count := split.count
  have owed : (d.owed cfg).Perm (bs.map (pkt.id, ·) ++ c.owed cfg) := by
    have perm := split.pending.map Piece.owed
    rwa [List.map_append, List.map_map] at perm
  have keeps : ∀ {e : Ctrl}, Sound cfg (jobs + 1) e ∧ e.pending cfg = d.pending cfg →
      Sound cfg (jobs + 1) e ∧ (e.owed cfg).Perm (bs.map (pkt.id, ·) ++ c.owed cfg) := by
    rintro e ⟨sound, pending⟩
    refine ⟨sound, ?_⟩
    rwa [Ctrl.owed, pending]
  dsimp only at count ⊢
  by_cases all : bs = []
  · subst all
    rw [if_pos (by simpa using count)]
    exact keeps (split.reply h hid room)
  · have some : 0 < bs.length := List.length_pos_iff.mpr all
    rw [if_neg (by omega)]
    by_cases many : 1 < n
    · obtain ⟨y, made, sound⟩ := split.several h hid many all room
      cases made
      exact keeps sound
    · obtain rfl : n = 1 := by omega
      obtain ⟨b, rfl⟩ := List.length_eq_one_iff.mp (by omega : bs.length = 1)
      obtain ⟨made, sound⟩ := split.single h hid room
      cases made
      exact ⟨sound, owed⟩

/-- A request is either turned away, with nothing changed but priorities, or taken. -/
theorem recvTimingReq_ends (h : Sound cfg jobs c) (hid : pkt.id = jobs) (priority : Nat)
    (others : RequestorID → Nat) :
    Ends Fault.FromOutside (fun x => if x.1 then Sound cfg (jobs + 1) x.2 ∧ (x.2.owed cfg).Perm
          ((uncovered cfg c pkt).map (pkt.id, ·) ++ c.owed cfg)
        else Sound cfg jobs x.2 ∧ (x.2.owed cfg).Perm (c.owed cfg))
      (c.recvTimingReq cfg priority others pkt) := by
  unfold recvTimingReq
  split
  · exact .inl rfl
  apply (qosSchedule_ends h.counted priority others pkt).bind
  rintro ⟨_, d⟩ ⟨rfl, hq, counted, moved⟩
  have sound := h.requeued counted moved
  dsimp only
  split
  · exact .inr (.inl rfl)
  rename_i nonzero
  have size : 0 < pkt.size.toNat := by
    apply Nat.pos_of_ne_zero
    intro zero
    exact nonzero (BitVec.eq_of_toNat_eq zero)
  split
  · rename_i isWrite
    split
    · exact ⟨sound.of_eq (fun _ => rfl) (fun _ => rfl) rfl rfl rfl, moved.owed⟩
    · rename_i room
      apply (addToWriteQueue_ends { pkt with qosValue := priority } sound hid hq size room).map
      rintro e ⟨sound, owed⟩
      rw [uncovered, if_pos isWrite]
      exact ⟨sound, by rw [owed]; exact moved.owed⟩
  · rename_i isRead
    split
    · exact ⟨sound.of_eq (fun _ => rfl) (fun _ => rfl) rfl rfl rfl, moved.owed⟩
    · rename_i room
      apply (addToReadQueue_ends { pkt with qosValue := priority } sound hid hq size room).map
      rintro e ⟨sound, owed⟩
      rw [moved.uncoveredBy] at owed
      rw [uncovered, if_neg isRead]
      exact ⟨sound, owed.trans (moved.owed.append_left _)⟩

/-! ### Bursts -/

variable {p : MemPacket}

theorem findNext_some {o : Outside} {q : Queues} {prio k : Nat}
    (h : findNext o q n = some (prio, k, p)) : prio < n ∧ (q prio)[k]? = some p := by
  induction n with
  | zero => cases h
  | succ n ih =>
    rw [findNext] at h
    split at h
    · rename_i found hf
      cases h
      obtain ⟨j, -, hj⟩ := Option.bind_eq_some_iff.mp hf
      obtain ⟨p', hp, he⟩ := Option.map_eq_some_iff.mp hj
      cases he
      exact ⟨Nat.lt_succ_self _, hp⟩
    · obtain ⟨lt, hp⟩ := ih h
      exact ⟨lt.trans (Nat.lt_succ_self n), hp⟩

/-- A read goes from its queue to the response queue. -/
theorem Sound.issueRead {e : Ctrl} (h : Sound cfg jobs c) (taken : Dequeued cfg true p c d)
    (counted : Counted cfg e) (queues : ∀ r, e.selQueue r = d.selQueue r)
    (core : e.core = { d.core with respQueue := d.respQueue ++ [p] }) :
    Sound cfg jobs e ∧ (e.owed cfg).Perm (c.owed cfg) := by
  have before := taken.core
  simp only [Ctrl.core, setTotal, if_true, Ctrl.total, Core.mk.injEq] at core before
  obtain ⟨resp, isIn, reads, writes, heap, helpers, answered⟩ := core
  obtain ⟨resp', isIn', reads', writes', heap', helpers', answered'⟩ := before
  have pieces : ∀ r, e.pieces cfg r = d.pieces cfg r := by
    intro r
    rw [Ctrl.pieces, Ctrl.pieces, queues]
  have length := taken.taken.length_eq
  have before := h.total
  rw [List.length_cons] at length
  have pending : (e.pending cfg).Perm (c.pending cfg) := by
    rw [Ctrl.pending, Ctrl.pending, pieces, resp, resp', List.map_append, ← List.append_assoc]
    exact List.perm_append_comm.trans (taken.taken.symm.append_right _)
  refine ⟨?_, pending.map _⟩
  constructor
  case counted => exact counted
  case writes =>
    apply h.writes.perm _ (isIn.trans isIn') (writes.trans writes')
    rw [pieces, taken.others false (by simp)]
  case total =>
    rw [pieces]
    omega
  case bound =>
    have bound := h.bound
    rw [resp, resp', List.length_append, List.length_singleton]
    omega
  case joined =>
    rw [heap, heap', answered, answered']
    exact h.joined.perm pending
  case fresh =>
    rw [heap, heap', helpers, helpers']
    exact h.fresh

theorem issueRead_ends (h : Sound cfg jobs c) (o : Outside) {prio k : Nat}
    (hn : prio < cfg.numPriorities) (hk : (c.readQueue prio)[k]? = some p) :
    Ends Fault.FromOutside (fun d => Sound cfg jobs d ∧ (d.owed cfg).Perm (c.owed cfg))
      (c.issueRead cfg o prio k p) := by
  have filed := h.counted.filed true prio p (List.mem_of_getElem? hk)
  let c' : Ctrl := { c with readsThisTime := c.readsThisTime + 1 }
  have sound : Sound cfg jobs c' := h.of_eq (fun _ => rfl) (fun _ => rfl) rfl rfl rfl
  obtain ⟨d, hd, queues, taken⟩ : ∃ d, c'.logResponse true p.requestorId p.qosValue = .ok d ∧ _ :=
    logResponse_ok sound.counted hn hk
  have queue : d.readQueue = c.readQueue := queues true
  rw [Ctrl.issueRead, if_neg (Nat.not_lt.mpr filed.fits.size_le),
    if_neg (not_not.mpr filed.qosValue)]
  simp only
  rw [hd]
  simp only [Except.map, queue]
  exact sound.issueRead taken (taken.counted.congr (fun _ => rfl) (fun _ => rfl) rfl rfl)
    (fun _ => rfl) rfl

/-- A write leaves its queue, and its burst address the set. -/
theorem Sound.issueWrite {e : Ctrl} (h : Sound cfg jobs c)
    (queues : ∀ r, d.selQueue r = c.selQueue r) (core : d.core =
      { c.core with isInWriteQueue := c.isInWriteQueue.erase (burstAlign cfg p.addr) })
    (taken : Dequeued cfg false p d e) : Sound cfg jobs e ∧ (e.owed cfg).Perm (c.owed cfg) := by
  have after := taken.core
  rw [core] at after
  simp only [Ctrl.core, setTotal, Bool.false_eq_true, if_false, Ctrl.total, Core.mk.injEq] at after
  obtain ⟨resp, isIn, reads, writes, heap, helpers, answered⟩ := after
  have pieces : ∀ r, d.pieces cfg r = c.pieces cfg r := by
    intro r
    rw [Ctrl.pieces, Ctrl.pieces, queues]
  have same : e.pieces cfg true = c.pieces cfg true :=
    (taken.others true (by simp)).trans (pieces true)
  have pending : e.pending cfg = c.pending cfg := by rw [Ctrl.pending, Ctrl.pending, same, resp]
  refine ⟨?_, .of_eq (congrArg (List.map Piece.owed) pending)⟩
  constructor
  case counted => exact taken.counted
  case writes =>
    have gone := taken.taken
    rw [pieces] at gone
    exact h.writes.erase gone isIn writes
  case total =>
    rw [reads, same]
    exact h.total
  case bound =>
    rw [reads, resp]
    exact h.bound
  case joined =>
    rw [pending, heap, answered]
    exact h.joined
  case fresh =>
    rw [heap, helpers]
    exact h.fresh

theorem issueWrite_ends (h : Sound cfg jobs c) (o : Outside) {prio k : Nat}
    (hn : prio < cfg.numPriorities) (hk : (c.writeQueue prio)[k]? = some p) :
    Ends Fault.FromOutside (fun d => Sound cfg jobs d ∧ (d.owed cfg).Perm (c.owed cfg))
      (c.issueWrite cfg o prio k p) := by
  have filed := h.counted.filed false prio p (List.mem_of_getElem? hk)
  let c' : Ctrl := { c with
    writesThisTime := c.writesThisTime + 1
    isInWriteQueue := c.isInWriteQueue.erase (burstAlign cfg p.addr) }
  have counted : Counted cfg c' := h.counted.congr (fun _ => rfl) (fun _ => rfl) rfl rfl
  obtain ⟨d, hd, queues, taken⟩ : ∃ d, c'.logResponse false p.requestorId p.qosValue = .ok d ∧ _ :=
    logResponse_ok counted hn hk
  have queue : d.writeQueue = c.writeQueue := queues false
  have before : ∀ r, c'.selQueue r = c.selQueue r := fun _ => rfl
  obtain ⟨sound, owed⟩ := h.issueWrite before rfl taken
  rw [Ctrl.issueWrite, if_neg (Nat.not_lt.mpr filed.fits.size_le),
    if_neg (not_not.mpr filed.qosValue)]
  simp only
  rw [hd]
  simp only [Except.map, queue]
  split
  · exact ⟨sound.of_eq (fun _ => rfl) (fun _ => rfl) rfl rfl rfl, owed⟩
  · exact ⟨sound, owed⟩

/-- Whatever the policies and the memory decide, a burst is issued or nothing is. -/
theorem processNextReqEvent_ends (h : Sound cfg jobs c) (o : Outside) :
    Ends Fault.FromOutside (fun d => Sound cfg jobs d ∧ (d.owed cfg).Perm (c.owed cfg))
      (c.processNextReqEvent cfg o) := by
  have retried : ∀ {d : Ctrl}, Sound cfg jobs d ∧ (d.owed cfg).Perm (c.owed cfg) →
      Sound cfg jobs (d.retryWrite cfg) ∧ ((d.retryWrite cfg).owed cfg).Perm (c.owed cfg) := by
    rintro d ⟨sound, owed⟩
    unfold retryWrite
    split
    · exact ⟨sound.of_eq (fun _ => rfl) (fun _ => rfl) rfl rfl rfl, owed⟩
    · exact ⟨sound, owed⟩
  have turned : Sound cfg jobs (c.turnAround o) ∧ (c.turnAround o).owed cfg = c.owed cfg := by
    unfold turnAround
    simp only
    split
    · exact ⟨h.of_eq (fun _ => rfl) (fun _ => rfl) rfl rfl rfl, rfl⟩
    · split <;> exact ⟨h.of_eq (fun _ => rfl) (fun _ => rfl) rfl rfl rfl, rfl⟩
  obtain ⟨sound, owed⟩ := turned
  rw [← owed] at retried ⊢
  unfold processNextReqEvent
  simp only
  generalize c.turnAround o = d at *
  split
  · exact ⟨sound, .rfl⟩
  split
  · split
    · split
      · exact retried ⟨sound.of_eq (fun _ => rfl) (fun _ => rfl) rfl rfl rfl, .rfl⟩
      · exact ⟨sound, .rfl⟩
    · split
      · exact ⟨sound, .rfl⟩
      · rename_i found
        obtain ⟨hn, hk⟩ := findNext_some found
        exact (issueRead_ends sound o hn hk).map fun _ => retried
  · split
    · exact ⟨sound, .rfl⟩
    · rename_i found
      obtain ⟨hn, hk⟩ := findNext_some found
      exact (issueWrite_ends sound o hn hk).map fun _ => retried

/-! ### Responses -/

/-- The front of the response queue is gone. -/
theorem Sound.respond {rest : List MemPacket} (h : Sound cfg jobs c)
    (front : c.respQueue = p :: rest) (counted : Counted cfg d)
    (queues : ∀ r, d.selQueue r = c.selQueue r) (core : d.core = { c.core with
      respQueue := rest, burstHelper := d.burstHelper, answered := d.answered })
    (joined : Joined Piece.pkt Piece.burstHelper BurstHelper.left
      (c.pieces cfg true ++ rest.map MemPacket.piece) d.burstHelper d.answered jobs)
    (fresh : ∀ x, c.helpers ≤ x → d.burstHelper x = none) :
    Sound cfg jobs d ∧ (p.piece.owed :: d.owed cfg).Perm (c.owed cfg) := by
  simp only [Ctrl.core, Core.mk.injEq, true_and, and_true] at core
  obtain ⟨resp, isIn, reads, writes, helpers⟩ := core
  have pieces : ∀ r, d.pieces cfg r = c.pieces cfg r := by
    intro r
    rw [Ctrl.pieces, Ctrl.pieces, queues]
  have pending : d.pending cfg = c.pieces cfg true ++ rest.map MemPacket.piece := by
    rw [Ctrl.pending, pieces, resp]
  constructor
  · constructor
    case counted => exact counted
    case writes => exact h.writes.perm (.of_eq (pieces false)) isIn writes
    case total =>
      rw [reads, pieces]
      exact h.total
    case bound =>
      have bound := h.bound
      rw [front, List.length_cons] at bound
      rw [reads, resp]
      omega
    case joined =>
      rw [pending]
      exact joined
    case fresh =>
      rw [helpers]
      exact fresh
  · rw [Ctrl.owed, pending, ← List.map_cons, Ctrl.owed, Ctrl.pending, front]
    exact List.perm_middle.symm.map _

/-- A burst has been read. If it was the last one of its packet, the packet is
answered. -/
theorem processRespondEvent_ends {rest : List MemPacket} (h : Sound cfg jobs c)
    (front : c.respQueue = p :: rest) : Ends Fault.FromOutside (fun d => Sound cfg jobs d ∧
        (p.piece.owed :: d.owed cfg).Perm (c.owed cfg))
      (c.processRespondEvent p rest) := by
  have joined : Joined Piece.pkt Piece.burstHelper BurstHelper.left
      (p.piece :: (c.pieces cfg true ++ rest.map MemPacket.piece)) c.burstHelper c.answered
      jobs := by
    apply h.joined.perm
    rw [Ctrl.pending, front]
    exact List.perm_middle.symm
  have head := joined.head
  unfold processRespondEvent
  cases hb : p.burstHelper with
  | none =>
    have single : p.piece.burstHelper = none := hb
    rw [single] at head
    refine h.respond front (h.counted.congr (fun _ => rfl) (fun _ => rfl) rfl rfl) (fun _ => rfl)
      rfl ?_ ?_
    · exact joined.last head (fun x hx => absurd (single.symm.trans hx) (by simp)) fun _ _ => rfl
    · exact h.fresh
  | some helper =>
    have split : p.piece.burstHelper = some helper := hb
    rw [split] at head
    obtain ⟨b, live, left⟩ := head
    simp only [live]
    have used : helper < c.helpers := by
      by_contra unused
      cases live.symm.trans (h.fresh helper (Nat.not_lt.mp unused))
    have fresh : ∀ b x, c.helpers ≤ x → Function.update c.burstHelper helper b x = none := by
      intro b x hx
      rw [Function.update_of_ne (by omega)]
      exact h.fresh x hx
    rw [BurstHelper.left] at left
    split
    · refine h.respond front (h.counted.congr (fun _ => rfl) (fun _ => rfl) rfl rfl)
        (fun _ => rfl) rfl ?_ ?_
      · apply joined.last (by omega)
        · intro x hx
          cases split.symm.trans hx
          exact Function.update_self ..
        · intro x hx
          have hne : x ≠ helper := by
            rintro rfl
            exact hx split
          exact Function.update_of_ne hne _ _
      · exact fresh none
    · have heap : (c.setServiced helper (b.burstsServiced + 1)).burstHelper =
          Function.update c.burstHelper helper (some ⟨b.burstCount, b.burstsServiced + 1⟩) := by
        simp [setServiced, live]
      refine h.respond front (h.counted.congr (fun _ => rfl) (fun _ => rfl) rfl rfl)
        (fun _ => rfl) rfl ?_ ?_
      · rw [heap]
        apply joined.finish (by omega) split
        simp only [BurstHelper.left]
        omega
      · exact fresh _

end Ctrl

/-! ### Runs -/

/-- What holds in every state of a run. Every burst that had to be read for a
request is either on its way or has been read. -/
structure Inv (cfg : Config) (s : State) : Prop where
  sound : Ctrl.Sound cfg s.accepted.length s.ctrl
  ledger : (s.ctrl.owed cfg ++ s.serviced).Perm
    (s.accepted.flatMap fun r => r.needs.map (r.pkt.id, ·))
  ids : s.accepted.map (·.pkt.id) = (List.range s.accepted.length).reverse
  writes : ∀ r ∈ s.accepted, r.pkt.isWrite = true → r.needs = []

variable {cfg : Config} {s t : State}

theorem Inv.start : Inv cfg ⟨.start, [], []⟩ where
  sound := .start
  ledger := by
    have none : Ctrl.start.pieces cfg true = [] := congrArg (List.map _) Ctrl.pool_start
    rw [Ctrl.owed, Ctrl.pending, none]
    exact .rfl
  ids := rfl
  writes := nofun

/-- Every step keeps the invariant, and only requests and policies can make one
fail. -/
theorem Inv.step (h : Inv cfg s) {a : Step} {e : Except Fault State}
    (he : step cfg s a = some e) : Ends Fault.FromOutside (Inv cfg) e := by
  cases a with
  | recvTimingReq priority others pkt =>
    simp only [MemCtrl.step] at he
    split at he
    · rename_i hid
      cases he
      apply (Ctrl.recvTimingReq_ends h.sound hid priority others).map
      rintro ⟨accepted, c⟩ hx
      cases accepted with
      | true =>
        obtain ⟨sound, owed⟩ := hx
        constructor
        case sound => exact sound
        case ledger =>
          apply (owed.append_right s.serviced).trans
          rw [List.append_assoc]
          exact h.ledger.append_left _
        case ids =>
          simp [h.ids, hid, List.range_succ]
        case writes =>
          rintro r (_ | ⟨_, hr⟩) hw
          · exact if_pos hw
          · exact h.writes r hr hw
      | false => exact ⟨hx.1, (hx.2.append_right _).trans h.ledger, h.ids, h.writes⟩
    · cases he
  | processNextReqEvent o =>
    cases he
    apply (Ctrl.processNextReqEvent_ends h.sound o).map
    rintro c ⟨sound, owed⟩
    exact ⟨sound, (owed.append_right _).trans h.ledger, h.ids, h.writes⟩
  | processRespondEvent =>
    simp only [MemCtrl.step] at he
    split at he
    · cases he
    · rename_i p rest front
      cases he
      apply (Ctrl.processRespondEvent_ends h.sound front).map
      rintro c ⟨sound, owed⟩
      refine ⟨sound, ?_, h.ids, h.writes⟩
      exact (List.perm_middle.trans (owed.append_right s.serviced)).trans h.ledger

theorem inv_of_reaches (h : (machine cfg).Reaches (fun _ _ => True) s) : Inv cfg s :=
  h.invariant .start fun _ _ _ inv _ hstep => (inv.step hstep).ok rfl

/-- The bursts that still have to be read for a packet. -/
def outstanding (cfg : Config) (s : State) (id : Nat) : List Burst :=
  ((pool cfg.numPriorities s.ctrl.readQueue ++ s.ctrl.respQueue).filter (·.pkt = id)).map
    fun p => (p.addr, p.size)

/-- The bursts that have been read for a packet. -/
def servicedFor (s : State) (id : Nat) : List Burst :=
  (s.serviced.filter (·.1 = id)).map Prod.snd

theorem outstanding_eq (cfg : Config) (s : State) (id : Nat) :
    outstanding cfg s id = ((s.ctrl.owed cfg).filter (·.1 = id)).map Prod.snd := by
  have all : s.ctrl.owed cfg = (pool cfg.numPriorities s.ctrl.readQueue ++ s.ctrl.respQueue).map
      (Piece.owed ∘ MemPacket.piece) := by
    rw [Ctrl.owed, Ctrl.pending, Ctrl.pieces, ← List.map_append, List.map_map]
    rfl
  rw [all, List.filter_map, List.map_map]
  rfl

theorem outstanding_length (cfg : Config) (s : State) (id : Nat) :
    (outstanding cfg s id).length = waiting Piece.pkt (s.ctrl.pending cfg) id := by
  rw [outstanding_eq, List.length_map, ← List.countP_eq_length_filter, Ctrl.owed, List.countP_map]
  rfl

/-- The ledger has the needs of every request under its own number. -/
theorem needs_of_nodup {l : List Request} {r : Request} (hr : r ∈ l)
    (nodup : (l.map (·.pkt.id)).Nodup) :
    ((l.flatMap fun r => r.needs.map (r.pkt.id, ·)).filter (·.1 = r.pkt.id)).map Prod.snd =
      r.needs := by
  have own : ∀ q : Request, (q.needs.map (q.pkt.id, ·)).filter (·.1 = r.pkt.id) =
      if q.pkt.id = r.pkt.id then q.needs.map (q.pkt.id, ·) else [] := by
    intro q
    rw [List.filter_map]
    split
    · rename_i same
      simp [Function.comp_def, same]
    · rename_i other
      simp [Function.comp_def, other]
  induction l with
  | nil => cases hr
  | cons q l ih =>
    rw [List.map_cons, List.nodup_cons] at nodup
    rw [List.flatMap_cons, List.filter_append, List.map_append, own]
    obtain rfl | hr := List.mem_cons.mp hr
    · have others : (l.flatMap fun q => q.needs.map (q.pkt.id, ·)).filter (·.1 = r.pkt.id) = [] := by
        rw [List.filter_flatMap]
        apply List.flatMap_eq_nil_iff.mpr
        intro q hq
        rw [own, if_neg]
        intro same
        exact nodup.1 (same ▸ List.mem_map_of_mem hq)
      rw [others, if_pos rfl]
      simp [Function.comp_def]
    · rw [if_neg, ih hr nodup.2]
      · rfl
      · intro same
        exact nodup.1 (same ▸ List.mem_map_of_mem hr)

/-- The requests of a run are conserved. `needs` is what had to be read for a
request when it was accepted. -/
structure Conserved (cfg : Config) (s : State) : Prop where
  isInWriteQueue : ∀ a, a ∈ s.ctrl.isInWriteQueue ↔
    ∃ p ∈ pool cfg.numPriorities s.ctrl.writeQueue, burstAlign cfg p.addr = a
  burst_addresses :
    ((pool cfg.numPriorities s.ctrl.writeQueue).map fun p => burstAlign cfg p.addr).Nodup
  writes : (pool cfg.numPriorities s.ctrl.writeQueue).length = s.ctrl.totalWriteQueueSize
  write_room : s.ctrl.totalWriteQueueSize ≤ cfg.writeBufferSize
  ids : (s.accepted.map (·.pkt.id)).Nodup
  write_needs : ∀ r ∈ s.accepted, r.pkt.isWrite = true → r.needs = []
  needs : ∀ r ∈ s.accepted, (outstanding cfg s r.pkt.id ++ servicedFor s r.pkt.id).Perm r.needs
  answered : ∀ r ∈ s.accepted,
    s.ctrl.answered.count r.pkt.id = if outstanding cfg s r.pkt.id = [] then 1 else 0
  answered_accepted : ∀ id ∈ s.ctrl.answered, ∃ r ∈ s.accepted, r.pkt.id = id
  helpers : ∀ x b, s.ctrl.burstHelper x = some b → b.burstsServiced ≤ b.burstCount
  read_room : (pool cfg.numPriorities s.ctrl.readQueue).length + s.ctrl.respQueue.length ≤
    cfg.readBufferSize
  faults : ∀ a f, step cfg s a = some (.error f) → f.FromOutside

theorem Inv.mem_ids (h : Inv cfg s) {id : Nat} :
    (∃ r ∈ s.accepted, r.pkt.id = id) ↔ id < s.accepted.length := by
  rw [← List.mem_map, h.ids, List.mem_reverse, List.mem_range]

/-- Two priorities, and room for four bursts in each direction. -/
def small : Config where
  burstBits := 6
  numPriorities := 2
  readBufferSize := 4
  writeBufferSize := 4
  writeHighThreshold := 3
  writeLowThreshold := 2
  minWritesPerSwitch := 1
  minReadsPerSwitch := 1
  qosPriorityEscalation := true
  qosSyncroScheduler := true

/-- A write of one burst and then a read of two, the second of which the write
queue has. Then the first is read. -/
def partly : List Step := [
  .recvTimingReq 0 (fun _ => 0) ⟨0, 1, 64, 64, false, true, 0⟩,
  .recvTimingReq 1 (fun _ => 1) ⟨1, 2, 32, 96, true, false, 0⟩,
  .processNextReqEvent ⟨none, false, false, false, fun _ => some 0⟩,
  .processRespondEvent]

/-- The counters of the QoS base class count the packets in the queues. -/
theorem qos_counters_exact (h : (machine cfg).Reaches (fun _ _ => True) s) :
    Ctrl.Counted cfg s.ctrl :=
  (inv_of_reaches h).sound.counted

theorem qos_counters_partly : ∃ s, (machine small).run (machine small).start partly = some s ∧
    Ctrl.Counted small s.ctrl := by
  have run : ((machine small).run (machine small).start partly).isSome = true := by decide +kernel
  obtain ⟨s, run⟩ := Option.isSome_iff_exists.mp run
  exact ⟨s, run, qos_counters_exact (Machine.Reaches.start.run partly (fun _ _ => trivial) run)⟩

end MemCtrl
