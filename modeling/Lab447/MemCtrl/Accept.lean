import Lab447.Lib.Join
import Lab447.MemCtrl.Qos

/-!
Accepting requests. The write queues hold one packet for each burst address, so a
burst of a read is found in at most one of them, and a read is split into exactly
the bursts that are not.
-/

namespace MemCtrl

open Pools Script

namespace Ctrl

variable {cfg : Config} {c d : Ctrl} {pkt : Packet}

/-! ### The write queues -/

/-- The write queues hold one packet for each address in `isInWriteQueue`. -/
structure Writes (cfg : Config) (c : Ctrl) : Prop where
  isIn : ∀ a, a ∈ c.isInWriteQueue ↔
    a ∈ (c.pieces cfg false).map fun p => burstAlign cfg p.addr
  nodup : ((c.pieces cfg false).map fun p => burstAlign cfg p.addr).Nodup
  total : c.totalWriteQueueSize = (c.pieces cfg false).length
  bound : c.totalWriteQueueSize ≤ cfg.writeBufferSize

theorem Writes.perm (h : Writes cfg c) (hp : (d.pieces cfg false).Perm (c.pieces cfg false))
    (hi : d.isInWriteQueue = c.isInWriteQueue)
    (ht : d.totalWriteQueueSize = c.totalWriteQueueSize) : Writes cfg d where
  isIn a := by rw [hi, (hp.map _).mem_iff]; exact h.isIn a
  nodup := (hp.map _).nodup_iff.mpr h.nodup
  total := by rw [ht, hp.length_eq]; exact h.total
  bound := by rw [ht]; exact h.bound

theorem Writes.card (h : Writes cfg c) : c.isInWriteQueue.card = c.totalWriteQueueSize := by
  have same : c.isInWriteQueue =
      ((c.pieces cfg false).map fun p => burstAlign cfg p.addr).toFinset := by
    ext a
    rw [List.mem_toFinset]
    exact h.isIn a
  rw [same, List.toFinset_card_of_nodup h.nodup, List.length_map, h.total]

variable {p : MemPacket}

/-- A packet for a new burst address comes in. -/
theorem Writes.insert (h : Writes cfg c) (hp : p.qosValue < cfg.numPriorities)
    (new : burstAlign cfg p.addr ∉ c.isInWriteQueue)
    (room : c.totalWriteQueueSize < cfg.writeBufferSize) : Writes cfg { c.enqueue false p with
      isInWriteQueue := insert (burstAlign cfg p.addr) c.isInWriteQueue } := by
  have perm : ((c.enqueue false p).pieces cfg false).Perm (p.piece :: c.pieces cfg false) :=
    pieces_enqueue hp
  have total : (c.enqueue false p).totalWriteQueueSize = c.totalWriteQueueSize + 1 :=
    congrArg Core.totalWriteQueueSize (core_enqueue_write p c)
  constructor
  case isIn =>
    intro a
    rw [Finset.mem_insert, h.isIn]
    have mem := (perm.map fun p => burstAlign cfg p.addr).mem_iff (a := a)
    exact (mem.trans List.mem_cons).symm
  case nodup =>
    apply (perm.map _).nodup_iff.mpr
    exact List.nodup_cons.mpr ⟨fun hm => new ((h.isIn _).mpr hm), h.nodup⟩
  case total => exact total.trans (by rw [h.total]; exact perm.length_eq.symm)
  case bound => exact total.trans_le room

/-- The packet of a burst address leaves. -/
theorem Writes.erase (h : Writes cfg c)
    (taken : (c.pieces cfg false).Perm (p.piece :: d.pieces cfg false))
    (isIn : d.isInWriteQueue = c.isInWriteQueue.erase (burstAlign cfg p.addr))
    (total : d.totalWriteQueueSize = c.totalWriteQueueSize - 1) : Writes cfg d := by
  have perm := taken.map fun p => burstAlign cfg p.addr
  have nodup := perm.nodup_iff.mp h.nodup
  rw [List.map_cons, List.nodup_cons] at nodup
  have length := taken.length_eq
  have before := h.total
  rw [List.length_cons] at length
  constructor
  case isIn =>
    intro a
    rw [isIn, Finset.mem_erase, h.isIn, perm.mem_iff, List.map_cons, List.mem_cons]
    constructor
    · rintro ⟨other, rfl | hm⟩
      · exact absurd rfl other
      · exact hm
    · intro hm
      refine ⟨?_, .inr hm⟩
      rintro rfl
      exact nodup.1 hm
  case nodup => exact nodup.2
  case total => omega
  case bound =>
    have bound := h.bound
    omega

/-- What `addToWriteQueue` leaves alone. -/
structure WriteSide (c d : Ctrl) : Prop where
  queue : d.selQueue true = c.selQueue true
  core : d.core = { c.core with
    isInWriteQueue := d.isInWriteQueue
    totalWriteQueueSize := d.totalWriteQueueSize }

theorem WriteSide.refl (c : Ctrl) : WriteSide c c := ⟨rfl, rfl⟩

theorem WriteSide.trans {e : Ctrl} (h : WriteSide c d) (h' : WriteSide d e) : WriteSide c e := by
  refine ⟨h'.queue.trans h.queue, ?_⟩
  rw [h'.core, h.core]

theorem WriteSide.enqueue (c : Ctrl) (p : MemPacket) (s : Finset Nat) :
    WriteSide c { c.enqueue false p with isInWriteQueue := s } := by
  constructor
  · exact selQueue_enqueue
  · have core := core_enqueue_write p c
    simp only [Ctrl.core, Core.mk.injEq] at core ⊢
    simp only [core, and_self]

variable {left : Nat}

/-- Every burst is merged or put into the queue, for which there is room. -/
theorem writeLoop_ends (hq : pkt.qosValue < cfg.numPriorities) {addr : Nat}
    (counted : Counted cfg c) (writes : Writes cfg c)
    (room : c.totalWriteQueueSize + left ≤ cfg.writeBufferSize)
    (fits : ∀ b ∈ burstsFrom cfg pkt left addr, Fits cfg b.1 b.2) :
    Ends Fault.FromOutside (fun d => Counted cfg d ∧ Writes cfg d ∧ WriteSide c d)
      (writeLoop cfg pkt left addr c) := by
  induction left generalizing addr c with
  | zero => exact ⟨counted, writes, .refl c⟩
  | succ left ih =>
    have later : ∀ b ∈ burstsFrom cfg pkt left (nextBurst cfg addr), Fits cfg b.1 b.2 :=
      fun b hb => fits b (.tail _ hb)
    rw [writeLoop]
    split
    · exact ih counted writes (by omega) later
    · rename_i new
      rw [if_neg (by omega)]
      let p : MemPacket := ⟨pkt.id, pkt.requestorId, false, addr, burstSize cfg pkt addr, none,
        pkt.qosValue⟩
      let d : Ctrl := { c.enqueue false p with
        isInWriteQueue := insert (burstAlign cfg addr) c.isInWriteQueue }
      have total : d.totalWriteQueueSize = c.totalWriteQueueSize + 1 :=
        congrArg Core.totalWriteQueueSize (core_enqueue_write p c)
      have counted' : Counted cfg d :=
        (counted.enqueue (p := p) rfl (fits _ (.head _))).congr (fun _ => rfl) (fun _ => rfl) rfl rfl
      have writes' : Writes cfg d := writes.insert (p := p) hq new (by omega)
      have side : WriteSide c d := .enqueue c p _
      have size : ¬ d.totalWriteQueueSize ≠ d.isInWriteQueue.card := by
        rw [writes'.card]
        exact not_not.mpr rfl
      rw [if_neg size]
      apply (ih counted' writes' (by omega) later).imp
      exact fun e he => ⟨he.1, he.2.1, side.trans he.2.2⟩

/-! ### Reads and the write queues -/

/-- No packet of the write queues has all the bytes of the burst. -/
def uncoveredBy (cfg : Config) (c : Ctrl) (b : Burst) : Bool :=
  (pool cfg.numPriorities c.writeQueue).all fun p => !covers b.1 b.2 p

/-- A burst is found in one write queue or in none. -/
theorem servicedByWrQ_eq (counted : Counted cfg c) (writes : Writes cfg c) {a size : Nat}
    (hb : 0 < size) :
    servicedByWrQ cfg a size c = if uncoveredBy cfg c (a, size) then 0 else 1 := by
  have most : (List.range cfg.numPriorities).countP
      (fun prio => (c.writeQueue prio).any (covers a size)) ≤
        (pool cfg.numPriorities c.writeQueue).countP (covers a size) := countP_any_le _
  have address : ∀ p ∈ pool cfg.numPriorities c.writeQueue, covers a size p = true →
      burstAlign cfg p.addr = burstAlign cfg a := by
    intro p hp hc
    obtain ⟨prio, -, hp⟩ := mem_pool.mp hp
    exact burstAlign_of_covers (counted.filed false prio p hp).fits hb hc
  split
  · rename_i free
    have absent : (pool cfg.numPriorities c.writeQueue).countP (covers a size) = 0 := by
      apply List.countP_eq_zero.mpr
      intro p hp
      simpa using List.all_eq_true.mp free p hp
    rw [servicedByWrQ]
    split
    · omega
    · rfl
  · rename_i found
    obtain ⟨p, hp, hc⟩ : ∃ p ∈ pool cfg.numPriorities c.writeQueue, covers a size p = true := by
      simpa [uncoveredBy] using found
    have isIn : burstAlign cfg a ∈ c.isInWriteQueue := by
      rw [writes.isIn, ← address p hp hc, pieces, List.map_map]
      exact List.mem_map_of_mem (f := (fun p => burstAlign cfg p.addr) ∘ MemPacket.piece) hp
    -- two packets with the bytes would have the same burst address
    have one : (pool cfg.numPriorities c.writeQueue).countP (covers a size) ≤ 1 := by
      have nodup := writes.nodup
      rw [pieces, List.map_map] at nodup
      calc (pool cfg.numPriorities c.writeQueue).countP (covers a size)
          ≤ (pool cfg.numPriorities c.writeQueue).countP
              fun p => decide (burstAlign cfg p.addr = burstAlign cfg a) := by
            apply List.countP_mono_left
            exact fun p hp hc => decide_eq_true (address p hp hc)
        _ = ((pool cfg.numPriorities c.writeQueue).map
              ((fun p => burstAlign cfg p.addr) ∘ MemPacket.piece)).count (burstAlign cfg a) := by
            rw [List.count, List.countP_map]
            rfl
        _ ≤ 1 := List.nodup_iff_count_le_one.mp nodup _
    have some : 0 < (List.range cfg.numPriorities).countP
        fun prio => (c.writeQueue prio).any (covers a size) := by
      obtain ⟨prio, hn, hp⟩ := mem_pool.mp hp
      apply List.countP_pos_iff.mpr
      exact ⟨prio, List.mem_range.mpr hn, List.any_eq_true.mpr ⟨p, hp, hc⟩⟩
    rw [servicedByWrQ, if_pos isIn]
    omega

/-! ### Splitting reads -/

/-- What the loop of `addToReadQueue` leaves alone. -/
structure ReadSide (c d : Ctrl) : Prop where
  queue : d.selQueue false = c.selQueue false
  core : d.core = { c.core with
    totalReadQueueSize := d.totalReadQueueSize
    burstHelper := d.burstHelper
    helpers := d.helpers }

theorem ReadSide.refl (c : Ctrl) : ReadSide c c := ⟨rfl, rfl⟩

theorem ReadSide.trans {e : Ctrl} (h : ReadSide c d) (h' : ReadSide d e) : ReadSide c e := by
  refine ⟨h'.queue.trans h.queue, ?_⟩
  rw [h'.core, h.core]

theorem ReadSide.writes (h : ReadSide c d) (writes : Writes cfg c) : Writes cfg d := by
  apply writes.perm
  · rw [pieces, pieces, h.queue]
  · exact congrArg Core.isInWriteQueue h.core
  · exact congrArg Core.totalWriteQueueSize h.core

theorem ReadSide.respQueue (h : ReadSide c d) : d.respQueue = c.respQueue :=
  congrArg Core.respQueue h.core

theorem ReadSide.uncoveredBy (h : ReadSide c d) : uncoveredBy cfg d = uncoveredBy cfg c := by
  have queue : d.writeQueue = c.writeQueue := h.queue
  funext b
  rw [Ctrl.uncoveredBy, Ctrl.uncoveredBy, queue]

/-- A helper is made at most once, and for every packet that is split. -/
theorem makeHelper_done (n : Nat) (helper : Option Nat) (c : Ctrl) :
    ¬ (1 < n ∧ (c.makeHelper n helper).1 = none) := by
  rintro ⟨many, made⟩
  unfold makeHelper at made
  split at made
  · cases made
  · rename_i no
    exact no ⟨many, made⟩

theorem ReadSide.makeHelper (n : Nat) (helper : Option Nat) (c : Ctrl) :
    ReadSide c (c.makeHelper n helper).2 := by
  unfold Ctrl.makeHelper
  split
  · exact ⟨rfl, rfl⟩
  · exact .refl c

theorem Counted.makeHelper (h : Counted cfg c) (n : Nat) (helper : Option Nat) :
    Counted cfg (c.makeHelper n helper).2 := by
  unfold Ctrl.makeHelper
  split
  · exact h.congr (fun _ => rfl) (fun _ => rfl) rfl rfl
  · exact h

theorem makeHelper_same (n : Nat) (helper : Option Nat) (c : Ctrl) :
    (c.makeHelper n helper).2.readQueue = c.readQueue ∧
      (c.makeHelper n helper).2.totalReadQueueSize = c.totalReadQueueSize := by
  unfold Ctrl.makeHelper
  split <;> exact ⟨rfl, rfl⟩

theorem ReadSide.enqueue (c : Ctrl) (p : MemPacket) : ReadSide c (c.enqueue true p) := by
  constructor
  · exact selQueue_enqueue
  · have core := core_enqueue_read p c
    simp only [Ctrl.core, Core.mk.injEq] at core ⊢
    simp only [core, and_self]

/-- The outcome of the loop when the bursts `bs` were put into the read queue, with
how many were in the write queue and the helper. -/
structure Split (cfg : Config) (pkt : Packet) (n left : Nat) (bs : List Burst) (serviced : Nat)
    (helper : Option Nat) (c : Ctrl) (x : Nat × Option Nat × Ctrl) : Prop where
  counted : Counted cfg x.2.2
  side : ReadSide c x.2.2
  count : x.1 + bs.length = serviced + left
  made : x.2.1 = if bs = [] then helper else (c.makeHelper n helper).1
  heap : x.2.2.burstHelper =
    if bs = [] then c.burstHelper else (c.makeHelper n helper).2.burstHelper
  next : x.2.2.helpers = if bs = [] then c.helpers else (c.makeHelper n helper).2.helpers
  total : x.2.2.totalReadQueueSize = c.totalReadQueueSize + bs.length
  pieces : (x.2.2.pieces cfg true).Perm
    (bs.map (fun b => ⟨pkt.id, b.1, b.2, x.2.1⟩) ++ c.pieces cfg true)

variable {helper : Option Nat} {serviced : Nat}

variable {n : Nat}

theorem Split.nothing (counted : Counted cfg c) :
    Split cfg pkt n 0 [] serviced helper c (serviced, helper, c) where
  counted := counted
  side := .refl c
  count := rfl
  made := rfl
  heap := rfl
  next := rfl
  total := rfl
  pieces := .rfl

variable {x : Nat × Option Nat × Ctrl}

/-- The loop goes on after a burst that was in the write queue. -/
theorem Split.found {bs : List Burst} (h : Split cfg pkt n left bs (serviced + 1) helper c x) :
    Split cfg pkt n (left + 1) bs serviced helper c x :=
  { h with count := by rw [h.count]; omega }

/-- The loop goes on after a burst was put into the read queue. -/
theorem Split.pushed {bs : List Burst} {b : Burst} (hq : pkt.qosValue < cfg.numPriorities)
    (hp : p = ⟨pkt.id, pkt.requestorId, true, b.1, b.2, (c.makeHelper n helper).1, pkt.qosValue⟩)
    (h : Split cfg pkt n left bs serviced (c.makeHelper n helper).1
      ((c.makeHelper n helper).2.enqueue true p) x) :
    Split cfg pkt n (left + 1) (b :: bs) serviced helper c x := by
  obtain ⟨queue, total⟩ := makeHelper_same n helper c
  have core := core_enqueue_read p (c.makeHelper n helper).2
  have again : ((c.makeHelper n helper).2.enqueue true p).makeHelper n (c.makeHelper n helper).1 =
      ((c.makeHelper n helper).1, (c.makeHelper n helper).2.enqueue true p) :=
    if_neg (makeHelper_done n helper c)
  have made : x.2.1 = (c.makeHelper n helper).1 := by
    rw [h.made, again, ite_self]
  have perm : (((c.makeHelper n helper).2.enqueue true p).pieces cfg true).Perm
      (p.piece :: c.pieces cfg true) := by
    have pushed : (((c.makeHelper n helper).2.enqueue true p).pieces cfg true).Perm
        (p.piece :: (c.makeHelper n helper).2.pieces cfg true) :=
      pieces_enqueue (by rw [hp]; exact hq)
    have same : (c.makeHelper n helper).2.pieces cfg true = c.pieces cfg true := by
      simp only [Ctrl.pieces, selQueue, if_true, queue]
    rwa [same] at pushed
  constructor
  case counted => exact h.counted
  case side => exact ((ReadSide.makeHelper n helper c).trans (.enqueue _ p)).trans h.side
  case count =>
    have count := h.count
    rw [List.length_cons]
    omega
  case made => rw [made, if_neg (List.cons_ne_nil b bs)]
  case heap =>
    have same := congrArg Core.burstHelper core
    rw [h.heap, again, ite_self, if_neg (List.cons_ne_nil b bs)]
    exact same
  case next =>
    have same := congrArg Core.helpers core
    rw [h.next, again, ite_self, if_neg (List.cons_ne_nil b bs)]
    exact same
  case total =>
    have one : ((c.makeHelper n helper).2.enqueue true p).totalReadQueueSize =
        (c.makeHelper n helper).2.totalReadQueueSize + 1 := congrArg Core.totalReadQueueSize core
    rw [h.total, one, total, List.length_cons]
    omega
  case pieces =>
    have piece : p.piece = ⟨pkt.id, b.1, b.2, x.2.1⟩ := by rw [made, hp]; rfl
    rw [List.map_cons, ← piece]
    exact (h.pieces.trans (perm.append_left _)).trans List.perm_middle

/-- The bursts that no packet of the write queues has are put into the read queue. -/
theorem readLoop_ends (hq : pkt.qosValue < cfg.numPriorities) {addr : Nat} (counted : Counted cfg c)
    (writes : Writes cfg c)
    (room : c.totalReadQueueSize + c.respQueue.length + left ≤ cfg.readBufferSize)
    (fits : ∀ b ∈ burstsFrom cfg pkt left addr, Fits cfg b.1 b.2) :
    Ends Fault.FromOutside (Split cfg pkt n left
        ((burstsFrom cfg pkt left addr).filter (uncoveredBy cfg c)) serviced helper c)
      (readLoop cfg pkt n left addr serviced helper c) := by
  induction left generalizing addr serviced helper c with
  | zero => exact .nothing counted
  | succ left ih =>
    have first : Fits cfg addr (burstSize cfg pkt addr) := fits _ (.head _)
    have later : ∀ b ∈ burstsFrom cfg pkt left (nextBurst cfg addr), Fits cfg b.1 b.2 :=
      fun b hb => fits b (.tail _ hb)
    rw [readLoop]
    simp only [servicedByWrQ_eq counted writes first.1]
    rw [burstsFrom]
    by_cases free : uncoveredBy cfg c (addr, burstSize cfg pkt addr) = true
    · rw [List.filter_cons_of_pos free, if_pos free, if_neg (Nat.lt_irrefl 0)]
      let d := (c.makeHelper n helper).2
      let p : MemPacket := ⟨pkt.id, pkt.requestorId, true, addr, burstSize cfg pkt addr,
        (c.makeHelper n helper).1, pkt.qosValue⟩
      obtain ⟨-, total⟩ := makeHelper_same n helper c
      have side : ReadSide c (d.enqueue true p) :=
        (ReadSide.makeHelper n helper c).trans (.enqueue _ p)
      have size : (d.enqueue true p).totalReadQueueSize = d.totalReadQueueSize + 1 :=
        congrArg Core.totalReadQueueSize (core_enqueue_read p d)
      have notFull : ¬ d.readQueueFull cfg 1 = true := by
        have resp := (ReadSide.makeHelper n helper c).respQueue
        simp only [readQueueFull, decide_eq_true_eq, d, total, resp]
        omega
      rw [if_neg notFull]
      have rest : Ends _ (Split cfg pkt n left _ serviced (c.makeHelper n helper).1
          (d.enqueue true p)) _ :=
        ih ((counted.makeHelper n helper).enqueue (p := p) rfl first) (side.writes writes)
          (by rw [size, total, side.respQueue]; omega) later
      rw [side.uncoveredBy] at rest
      exact rest.imp fun x hx => hx.pushed hq rfl
    · rw [List.filter_cons_of_neg free, if_neg free, if_pos Nat.one_pos]
      apply (ih counted writes (by omega) later).imp
      exact fun x hx => hx.found

end Ctrl

end MemCtrl
