import Lab447.Classic.Cache
import Lab447.Classic.Runs

/-!
Coherence of the L1 caches below one crossbar, before and after a broadcast read.
-/

namespace Classic

open Script

variable {cfg : XBarConfig} {s t : Hierarchy} {port : PortID} {pkt : Packet} {env : ReadEnv}
  {key : Nat}

/-! ### Coherent caches -/

variable (cfg) in
/-- A line that a cache may write is valid nowhere else, and all valid copies of a line
have the same bytes. -/
structure Hierarchy.Coherent (s : Hierarchy) : Prop where
  exclusive : ∀ key, ∀ j < cfg.numCpuSidePorts, ∀ k < cfg.numCpuSidePorts, ∀ b b',
    s.caches j key = some b → s.caches k key = some b' → b.writable = true → j = k
  equal : ∀ key, ∀ j < cfg.numCpuSidePorts, ∀ k < cfg.numCpuSidePorts, ∀ b b',
    s.caches j key = some b → s.caches k key = some b' → b.data = b'.data

variable (cfg) in
/-- Every cache that has the line still has it with the same bytes. -/
def Hierarchy.Keeps (s t : Hierarchy) (key : Nat) : Prop :=
  ∀ j < cfg.numCpuSidePorts, ∀ b, s.caches j key = some b →
    ∃ b', t.caches j key = some b' ∧ b'.data = b.data

/-- Whether a cache has the line dirty. -/
def dirtyAt (caches : PortID → BaseCache) (key : Nat) (j : PortID) : Bool :=
  (caches j key).any CacheBlk.dirty

variable (cfg) in
/-- No cache that gets a copy has the line. A miss moreover finds at most one cache that
has it dirty, and if there is none, the bytes of the memory in all that have it. -/
structure Hierarchy.Alone (s : Hierarchy) (port : PortID) (key : Nat) : Prop where
  copies : ∀ j ∈ CoherentXBar.copyPorts cfg port, s.caches j key = none
  single : s.caches port key = none → (otherPorts cfg port).countP (dirtyAt s.caches key) ≤ 1
  backed : s.caches port key = none → (otherPorts cfg port).countP (dirtyAt s.caches key) = 0 →
    ∀ j ∈ otherPorts cfg port, ∀ b, s.caches j key = some b → b.data = s.memory key

variable {j : PortID}

theorem mem_otherPorts : j ∈ otherPorts cfg port ↔ j < cfg.numCpuSidePorts ∧ j ≠ port := by
  simp [otherPorts]

theorem mem_copyPorts : j ∈ CoherentXBar.copyPorts cfg port ↔
      j < cfg.numCpuSidePorts ∧ j ≠ port ∧ cfg.takesCopies j = true := by
  simp [CoherentXBar.copyPorts]

/-- Blocks that go, or stay as they are, keep the caches coherent. -/
theorem Hierarchy.Coherent.of_line {t : Hierarchy} (h : s.Coherent cfg)
    (other : ∀ l ≠ key, ∀ j b, t.caches j l = some b → s.caches j l = some b)
    (exclusive : ∀ j < cfg.numCpuSidePorts, ∀ k < cfg.numCpuSidePorts, ∀ b b',
      t.caches j key = some b → t.caches k key = some b' → b.writable = true → j = k)
    (equal : ∀ j < cfg.numCpuSidePorts, ∀ k < cfg.numCpuSidePorts, ∀ b b',
      t.caches j key = some b → t.caches k key = some b' → b.data = b'.data) :
    t.Coherent cfg where
  exclusive l j hj k hk b b' hb hb' := by
    by_cases same : l = key
    · subst same
      exact exclusive j hj k hk b b' hb hb'
    · exact h.exclusive l j hj k hk b b' (other l same j b hb) (other l same k b' hb')
  equal l j hj k hk b b' hb hb' := by
    by_cases same : l = key
    · subst same
      exact equal j hj k hk b b' hb hb'
    · exact h.equal l j hj k hk b b' (other l same j b hb) (other l same k b' hb')

/-! ### Snoops -/

/-- What snooping some ports does. The response of a cache that has the line dirty has the
bytes of its block. -/
structure LineSnooped (key : Nat) (s : Snoops) (ports : List PortID) (t : Snoops) : Prop where
  counted : t.pkt.flags.cacheResponding.toNat =
    s.pkt.flags.cacheResponding.toNat + ports.countP (dirtyAt s.caches key)
  caches : ∀ j l, t.caches j l =
    if j ∈ ports ∧ l = key then (s.caches j l).map CacheBlk.shared else s.caches j l
  pkt : ∃ flags, t.pkt = { s.pkt with flags } ∧ flags.hasSharers =
    (s.pkt.flags.hasSharers || ports.any fun j => (s.caches j key).isSome)
  supplied : (t.supplied = s.supplied ∧ ports.countP (dirtyAt s.caches key) = 0) ∨
    ∃ j ∈ ports, ∃ b, s.caches j key = some b ∧ b.dirty = true ∧ ∃ flags, flags.hasSharers = true ∧
      t.supplied = some { ({ s.pkt with flags } : Packet).makeResponse with data := b.data }

/-- The snoops meet more than one cache that has the line dirty. -/
def Conflict (key : Nat) (s : Snoops) (ports : List PortID) : Prop :=
  1 < s.pkt.flags.cacheResponding.toNat + ports.countP (dirtyAt s.caches key)

theorem LineSnooped.nil (s : Snoops) : LineSnooped key s [] s where
  counted := by simp
  caches j l := by simp
  pkt := ⟨s.pkt.flags, rfl, by simp⟩
  supplied := .inl ⟨rfl, rfl⟩

theorem setCache_set (caches : PortID → BaseCache) (p j : PortID) (l : Nat)
    (blk : Option CacheBlk) :
    setCache caches p ((caches p).set key blk) j l =
      if j = p ∧ l = key then blk else caches j l := by
  unfold setCache BaseCache.set
  by_cases hj : j = p
  · subst hj
    simp
  · simp [hj]

theorem setCache_self (caches : PortID → BaseCache) (p : PortID) :
    setCache caches p (caches p) = caches := by
  funext j
  unfold setCache
  split
  · rename_i same
    rw [same]
  · rfl

variable {p : PortID}

theorem handleSnoop_ends {s : Snoops} (cmd : s.pkt.cmd = .ReadSharedReq)
    (hkey : lineKey cfg s.pkt = key) :
    Ends (fun _ => Conflict key s [p]) (LineSnooped key s [p]) (handleSnoop cfg p s) := by
  subst hkey
  have request : s.pkt.cmd.isRequest = true := by rw [cmd]; rfl
  have reads : s.pkt.cmd.needsWritable = false := by rw [cmd]; rfl
  have asks : s.pkt.cmd.needsResponse = true := by rw [cmd]; rfl
  unfold handleSnoop
  simp only [request, Bool.not_true, Bool.false_eq_true, if_false]
  split
  · rename_i none_
    constructor
    case counted => simp [dirtyAt, none_]
    case caches =>
      intro j l
      split
      · rename_i same
        obtain ⟨mem, rfl⟩ := same
        rw [List.mem_singleton.mp mem, none_]
        rfl
      · rfl
    case pkt => exact ⟨s.pkt.flags, rfl, by simp [none_]⟩
    case supplied => exact .inl ⟨rfl, by simp [dirtyAt, none_]⟩
  rename_i blk hblk
  have caches (j l) : setCache s.caches p
      ((s.caches p).set (lineKey cfg s.pkt) (some blk.shared)) j l =
      if j ∈ [p] ∧ l = lineKey cfg s.pkt then (s.caches j l).map CacheBlk.shared
      else s.caches j l := by
    rw [setCache_set]
    simp only [List.mem_singleton]
    split
    · rename_i same
      obtain ⟨rfl, rfl⟩ := same
      rw [hblk]
      rfl
    · rfl
  simp only [reads, asks, Bool.false_eq_true, if_false, Bool.and_true]
  split
  · rename_i dirty
    split
    · rename_i responding
      change Conflict _ s [p]
      simp [Conflict, dirtyAt, hblk, dirty, responding]
    · rename_i responding
      refine ⟨?_, caches, ⟨_, rfl, ?_⟩, .inr ⟨p, by simp, blk, hblk, dirty, _, ?_, rfl⟩⟩
      · simp [dirtyAt, hblk, dirty, responding]
      · simp [hblk]
      · rfl
  · rename_i clean
    refine ⟨?_, caches, ⟨_, rfl, ?_⟩, .inl ⟨rfl, ?_⟩⟩
    · simp [dirtyAt, hblk, clean]
    · simp [hblk]
    · simp [dirtyAt, hblk, clean]

/-- Snooping one port does not change what the others have. -/
theorem LineSnooped.other {s t : Snoops} (h : LineSnooped key s [p] t) (ne : j ≠ p) :
    t.caches j key = s.caches j key := by
  rw [h.caches, if_neg]
  exact fun same => ne (List.mem_singleton.mp same.1)

variable {ports : List PortID}

theorem LineSnooped.countP_eq {s t : Snoops} (h : LineSnooped key s [p] t) (fresh : p ∉ ports) :
    ports.countP (dirtyAt t.caches key) = ports.countP (dirtyAt s.caches key) := by
  apply List.countP_congr
  intro j mem
  rw [dirtyAt, dirtyAt, h.other fun same => fresh (same ▸ mem)]

theorem countP_cons_eq (f : PortID → Bool) (p : PortID) (ports : List PortID) :
    (p :: ports).countP f = [p].countP f + ports.countP f := by
  rw [List.countP_cons, List.countP_singleton, Nat.add_comm]

theorem LineSnooped.cons {s t u : Snoops} (first : LineSnooped key s [p] t)
    (rest : LineSnooped key t ports u) (fresh : p ∉ ports) : LineSnooped key s (p :: ports) u := by
  have ne {j : PortID} (mem : j ∈ ports) : j ≠ p := fun same => fresh (same ▸ mem)
  have count := first.countP_eq fresh
  have any : (ports.any fun j => (t.caches j key).isSome) =
      ports.any fun j => (s.caches j key).isSome := by
    rw [Bool.eq_iff_iff, List.any_eq_true, List.any_eq_true]
    apply exists_congr
    intro j
    rw [and_congr_right_iff]
    intro mem
    rw [first.other (ne mem)]
  obtain ⟨flags, hpkt, sharers⟩ := first.pkt
  constructor
  case counted =>
    rw [rest.counted, first.counted, count, countP_cons_eq _ p ports, Nat.add_assoc]
  case caches =>
    intro j l
    rw [rest.caches, first.caches]
    by_cases mem : j ∈ ports
    · simp [mem, ne mem]
    · simp [mem]
  case pkt =>
    obtain ⟨flags', hpkt', sharers'⟩ := rest.pkt
    refine ⟨flags', by rw [hpkt', hpkt], ?_⟩
    rw [sharers', hpkt, sharers, any]
    simp [Bool.or_assoc]
  case supplied =>
    obtain ⟨same, none_⟩ | ⟨j, mem, b, hb, dirty, flags', shared, eq⟩ := rest.supplied
    · obtain ⟨same', none'⟩ | ⟨j, mem, b, hb, dirty, flags', shared, eq⟩ := first.supplied
      · left
        rw [countP_cons_eq, none', ← count, none_]
        exact ⟨same.trans same', rfl⟩
      · right
        rw [List.mem_singleton.mp mem] at hb
        exact ⟨p, .head _, b, hb, dirty, flags', shared, same.trans eq⟩
    · right
      rw [first.other (ne mem)] at hb
      refine ⟨j, .tail _ mem, b, hb, dirty, flags', shared, ?_⟩
      rw [eq, hpkt]

theorem snoop_ends {s : Snoops} (nodup : ports.Nodup) (cmd : s.pkt.cmd = .ReadSharedReq)
    (hkey : lineKey cfg s.pkt = key) :
    Ends (fun _ => Conflict key s ports) (LineSnooped key s ports)
      (Script.run (handleSnoop cfg) ports s) := by
  induction ports generalizing s with
  | nil => exact .nil s
  | cons p ports ih =>
    obtain ⟨fresh, nodup⟩ := List.nodup_cons.mp nodup
    have step := handleSnoop_ends (p := p) cmd hkey
    rw [Script.run]
    cases h : handleSnoop cfg p s with
    | error f =>
      have conflict := step.error h
      unfold Conflict at conflict
      change Conflict key s (p :: ports)
      unfold Conflict
      rw [countP_cons_eq]
      omega
    | ok t =>
      have first := step.ok h
      obtain ⟨flags, hpkt, -⟩ := first.pkt
      have rest := ih nodup (s := t) (by rw [hpkt]; exact cmd) (by rw [hpkt]; exact hkey)
      change Ends _ _ (Script.run (handleSnoop cfg) ports t)
      cases h' : Script.run (handleSnoop cfg) ports t with
      | error f =>
        have conflict := rest.error h'
        unfold Conflict at conflict
        change Conflict key s (p :: ports)
        unfold Conflict
        rw [first.counted, first.countP_eq fresh] at conflict
        rw [countP_cons_eq]
        omega
      | ok u => exact first.cons (rest.ok h') fresh

/-! ### A miss -/

theorem getBlockAddr_aligned (a b : Nat) : (a - a % b) - (a - a % b) % b = a - a % b := by
  rw [Nat.sub_mod_eq_zero_of_mod_eq (Nat.mod_mod a b).symm, Nat.sub_zero]

theorem lineKey_createMissPacket (mshr : Nat) :
    lineKey cfg (createMissPacket cfg pkt mshr) = lineKey cfg pkt := by
  unfold lineKey Packet.getBlockAddr
  rw [show (createMissPacket cfg pkt mshr).addr = pkt.addr - pkt.addr % cfg.linesize from rfl,
    getBlockAddr_aligned]
  rfl

variable {victim : Option Nat} {c : BaseCache}

theorem allocateBlock_of_none (h : c key = none) : c.allocateBlock victim key = none := by
  cases victim with
  | none => exact h
  | some v =>
    simp only [BaseCache.allocateBlock, BaseCache.set]
    split
    · rfl
    · exact h

/-- The answer to a miss fills a block, which may be written if nobody shares the line. -/
theorem recvTimingResp_fill {rsp : Packet} (victim : Option Nat) {mshr : Nat}
    (cmd : rsp.cmd = .ReadResp) (aligned : rsp.addr = rsp.getBlockAddr cfg.linesize)
    (size : rsp.size = cfg.linesize) (waits : rsp.senderState = some mshr)
    (none_ : c (lineKey cfg rsp) = none) :
    c.recvTimingResp cfg rsp victim = .ok ((c.allocateBlock victim).set (lineKey cfg rsp)
      (some ⟨!rsp.flags.hasSharers, !rsp.flags.hasSharers && rsp.flags.cacheResponding,
        rsp.data⟩)) := by
  have response : MemCmd.ReadResp.isResponse = true := rfl
  have reads : MemCmd.ReadResp.isRead = true := rfl
  have hasData : MemCmd.ReadResp.hasData = true := rfl
  have writes : MemCmd.ReadResp.isWrite = false := rfl
  have noError : MemCmd.ReadResp.testCmdAttrib .IsError = false := rfl
  unfold BaseCache.recvTimingResp handleFill
  simp [cmd, ← aligned, size, waits, none_, allocateBlock_of_none, response, reads, hasData, writes,
    noError, Except.map]

variable (cfg) in
/-- The caches after a miss: the line has been filled at its port with the bytes of a cache
that had it dirty, or of the memory, and nobody else may write it. -/
structure Missed (s : Hierarchy) (port : PortID) (key : Nat) (victim : Option Nat)
    (t : Hierarchy) : Prop where
  single : (otherPorts cfg port).countP (dirtyAt s.caches key) ≤ 1
  others : ∀ j ≠ port, ∀ l, t.caches j l =
    if j ∈ otherPorts cfg port ∧ l = key then (s.caches j l).map CacheBlk.shared
    else s.caches j l
  own : ∀ l ≠ key, t.caches port l = (s.caches port).allocateBlock victim l
  filled : ∃ b, t.caches port key = some b ∧
    (b.writable = true → ∀ j ∈ otherPorts cfg port, s.caches j key = none) ∧
    (b.data = s.memory key ∧ (otherPorts cfg port).countP (dirtyAt s.caches key) = 0 ∨
      ∃ j ∈ otherPorts cfg port, ∃ b', s.caches j key = some b' ∧ b'.dirty = true ∧
        b.data = b'.data)

theorem nodup_otherPorts : (otherPorts cfg port).Nodup := List.nodup_range.filter _

/-- The answer to a miss, from a cache that has the line dirty or from the memory. -/
theorem LineSnooped.response {request : Packet} {t : Snoops} (memory : List UInt8)
    (h : LineSnooped key ⟨request, none, s.caches⟩ ports t) :
    ∃ flags data, t.supplied.getD { t.pkt.makeResponse with data := memory } =
        { ({ request with flags } : Packet).makeResponse with data } ∧
      (flags.hasSharers = false → ∀ j ∈ ports, s.caches j key = none) ∧
      (data = memory ∧ ports.countP (dirtyAt s.caches key) = 0 ∨
        ∃ j ∈ ports, ∃ b, s.caches j key = some b ∧ b.dirty = true ∧ data = b.data) := by
  obtain ⟨none_, clean⟩ | ⟨j, mem, b, hb, dirty, flags, shared, supplied⟩ := h.supplied
  · obtain ⟨flags, hpkt, sharers⟩ := h.pkt
    refine ⟨flags, memory, by rw [none_, hpkt]; rfl, ?_, .inl ⟨rfl, clean⟩⟩
    intro unshared j mem
    rw [sharers, Bool.or_eq_false_iff, List.any_eq_false] at unshared
    exact Option.not_isSome_iff_eq_none.mp (unshared.2 j mem)
  · refine ⟨flags, b.data, by rw [supplied]; rfl, ?_, .inr ⟨j, mem, b, hb, dirty, rfl⟩⟩
    intro unshared
    rw [shared] at unshared
    cases unshared

theorem miss_ends (none_ : s.caches port (lineKey cfg pkt) = none) :
    Ends (fun _ => 1 < (otherPorts cfg port).countP (dirtyAt s.caches (lineKey cfg pkt)))
      (Missed cfg s port (lineKey cfg pkt) env.victim) (s.miss cfg port pkt env) := by
  have here : port ∉ otherPorts cfg port := fun mem => (mem_otherPorts.mp mem).2 rfl
  have snoops : Ends _ _ (Script.run (handleSnoop cfg) (otherPorts cfg port)
      ⟨createMissPacket cfg pkt env.mshr, none, s.caches⟩) :=
    snoop_ends nodup_otherPorts rfl (lineKey_createMissPacket env.mshr)
  unfold Hierarchy.miss
  simp only []
  cases run : Script.run (handleSnoop cfg) (otherPorts cfg port)
      ⟨createMissPacket cfg pkt env.mshr, none, s.caches⟩ with
  | error f =>
    have conflict := snoops.error run
    unfold Conflict at conflict
    rw [show (createMissPacket cfg pkt env.mshr).flags.cacheResponding = false from rfl,
      Bool.toNat_false, Nat.zero_add] at conflict
    exact conflict
  | ok t =>
    have snooped := snoops.ok run
    obtain ⟨flags, data, rsp, unshared, bytes⟩ :=
      snooped.response (s.memory (lineKey cfg pkt))
    have unchanged (l : Nat) : t.caches port l = s.caches port l := by
      rw [snooped.caches, if_neg fun h => here h.1]
    generalize answer : { ({ createMissPacket cfg pkt env.mshr with flags } :
      Packet).makeResponse with data } = r at rsp
    have key_eq : lineKey cfg r = lineKey cfg pkt := by
      rw [← answer]
      exact lineKey_createMissPacket env.mshr
    have cmd : r.cmd = .ReadResp := by rw [← answer]; rfl
    have aligned : r.addr = r.getBlockAddr cfg.linesize := by
      rw [← answer]
      exact (getBlockAddr_aligned _ _).symm
    have size : r.size = cfg.linesize := by rw [← answer]; rfl
    have waits : r.senderState = some env.mshr := by rw [← answer]; rfl
    have room : t.caches port (lineKey cfg r) = none := by rw [key_eq, unchanged, none_]
    have fill := recvTimingResp_fill env.victim cmd aligned size waits room
    simp only [Except.bind, rsp, fill, Except.map, key_eq]
    constructor
    case single =>
      have counted := snooped.counted
      have most := Bool.toNat_le t.pkt.flags.cacheResponding
      dsimp only at counted
      omega
    case others =>
      intro j ne l
      simp only [setCache, if_neg ne]
      exact snooped.caches j l
    case own =>
      intro l ne
      have same : t.caches port = s.caches port := funext unchanged
      simp only [setCache, if_true, BaseCache.set, if_neg ne, same]
    case filled =>
      subst answer
      refine ⟨_, by simp only [setCache, if_true, BaseCache.set]; rfl, fun writable => ?_, bytes⟩
      apply unshared
      rw [Bool.not_eq_true'] at writable
      exact writable

/-! ### Copies -/

variable (cfg) in
/-- A copy of a broadcast read of a line. -/
structure Packet.IsCopy (key : Nat) (copy : Packet) : Prop where
  read : copy.cmd = .ReadResp
  broadcast : copy.req.isBroadcast = true
  sender : copy.senderState = none
  unshared : copy.flags.hasSharers = false
  line : lineKey cfg copy = key

/-- A copy finds no block of the line and leaves the cache as it is. -/
theorem Packet.IsCopy.recvTimingResp_of_none {copy : Packet} (h : copy.IsCopy cfg key)
    (none_ : c key = none) : c.recvTimingResp cfg copy none = .ok c := by
  have writes : MemCmd.ReadResp.isWrite = false := rfl
  unfold BaseCache.recvTimingResp
  simp [h.read, writes, h.broadcast, h.sender, h.line, none_]

/-- A copy that finds a block of the line makes it writable. -/
theorem Packet.IsCopy.recvTimingResp {d : BaseCache} {copy : Packet} (h : copy.IsCopy cfg key)
    (valid : (c key).isSome) (hd : c.recvTimingResp cfg copy none = .ok d) :
    ∃ b, d key = some b ∧ b.writable = true := by
  have writes : MemCmd.ReadResp.isWrite = false := rfl
  obtain ⟨blk, hblk⟩ := Option.isSome_iff_exists.mp valid
  unfold BaseCache.recvTimingResp at hd
  simp only [h.read, writes, Bool.false_and, Bool.false_eq_true, if_false, h.broadcast, h.sender,
    h.line, Option.isNone_none, Bool.and_self, if_true, hblk] at hd
  obtain ⟨b, fill, rfl⟩ := map_eq_ok.mp hd
  refine ⟨b, by simp [BaseCache.set], ?_⟩
  unfold handleFill at fill
  simp only [h.unshared] at fill
  split_ifs at fill <;> cases fill <;> simp

/-- The filter lets the copies of a broadcast pass. -/
theorem updateResponse_passes {f : SnoopFilter} (response : pkt.cmd.isResponse = true)
    (bc : pkt.req.isBroadcast = true) :
    Ends (fun _ => False) (fun _ => True) (f.updateResponse cfg pkt p) := by
  unfold SnoopFilter.updateResponse
  simp only [response, bc, Bool.not_true, Bool.false_eq_true, if_false, not_true_eq_false, and_false]
  split
  · trivial
  · split
    · trivial
    · split <;> trivial

theorem deliver_eq {sent : PortID × Packet} {caches caches' : PortID → BaseCache}
    (h : Hierarchy.deliver cfg sent caches = .ok caches') :
    ∃ d, (caches sent.1).recvTimingResp cfg sent.2 none = .ok d ∧
      caches' = setCache caches sent.1 d := by
  obtain ⟨d, hd, rfl⟩ := map_eq_ok.mp h
  exact ⟨d, hd, rfl⟩

variable {rsp : Packet} {u : Hierarchy}

/-- What the crossbar sends are copies, for the ports that take them. -/
theorem recvTimingSnoopResp_copies {x : CoherentXBar} {allocated : List UInt8}
    {copies : PortID → List UInt8} {o : Outcome} (read : rsp.cmd = .ReadResp)
    (bc : rsp.req.isBroadcast = true) (ho : x.recvTimingSnoopResp cfg
      (rsp.copy allocated).setBroadcastToOther port true copies = .ok o) :
    (∀ j ∈ CoherentXBar.copyPorts cfg port, ∃ q, (j, q) ∈ o.sent) ∧
      ∀ sent ∈ o.sent, sent.1 ∈ CoherentXBar.copyPorts cfg port ∧
        sent.2.IsCopy cfg (lineKey cfg rsp) := by
  change x.handleBroadcastToOthers cfg _ port copies = .ok o at ho
  unfold CoherentXBar.handleBroadcastToOthers at ho
  split at ho
  · cases ho
  obtain ⟨f, -, rfl⟩ := map_eq_ok.mp ho
  constructor
  · intro j mem
    exact ⟨_, List.mem_map.mpr ⟨j, mem, rfl⟩⟩
  · intro sent mem
    obtain ⟨j, hj, rfl⟩ := List.mem_map.mp mem
    exact ⟨hj, read, bc, rfl, rfl, rfl⟩

/-- A copy makes the line writable where it is valid. -/
theorem broadcast_writable (read : rsp.cmd = .ReadResp) (bc : rsp.req.isBroadcast = true)
    (h : t.broadcast cfg port rsp env = .ok u) (mem : j ∈ CoherentXBar.copyPorts cfg port)
    (valid : (t.caches j (lineKey cfg rsp)).isSome) :
    ∃ b, u.caches j (lineKey cfg rsp) = some b ∧ b.writable = true := by
  obtain ⟨o, ho, h⟩ := bind_eq_ok.mp h
  obtain ⟨caches, run, rfl⟩ := map_eq_ok.mp h
  obtain ⟨sends, copies⟩ := recvTimingSnoopResp_copies read bc ho
  obtain ⟨q, hq⟩ := sends j mem
  -- whatever is delivered at the port finds the block, and leaves it writable
  have step : ∀ sent ∈ o.sent, ∀ c d : PortID → BaseCache, (c j (lineKey cfg rsp)).isSome →
      Hierarchy.deliver cfg sent c = .ok d →
      (sent.1 = j ∧ ∃ b, d j (lineKey cfg rsp) = some b ∧ b.writable = true) ∨ d j = c j := by
    intro sent hsent c d some_ hd
    obtain ⟨d', hd', rfl⟩ := deliver_eq hd
    by_cases same : sent.1 = j
    · subst same
      left
      simp only [setCache, if_true, true_and]
      exact (copies sent hsent).2.recvTimingResp some_ hd'
    · right
      simp only [setCache, if_neg (Ne.symm same)]
  have valid_of {c : PortID → BaseCache}
      (h : ∃ b, c j (lineKey cfg rsp) = some b ∧ b.writable = true) :
      (c j (lineKey cfg rsp)).isSome := by
    obtain ⟨b, hb, -⟩ := h
    rw [hb]
    rfl
  apply run_establishes (P := fun c : PortID → BaseCache =>
      ∃ b, c j (lineKey cfg rsp) = some b ∧ b.writable = true)
    (Q := fun c : PortID → BaseCache => (c j (lineKey cfg rsp)).isSome) hq _ _ _ run valid
  · intro c d some_ hd
    obtain ⟨d', hd', rfl⟩ := deliver_eq hd
    simp only [setCache, if_true]
    exact (copies _ hq).2.recvTimingResp some_ hd'
  · intro sent hsent c d writable hd
    obtain ⟨-, after⟩ | same := step sent hsent c d (valid_of writable) hd
    · exact after
    · rw [same]
      exact writable
  · intro sent hsent c d some_ hd
    obtain ⟨-, after⟩ | same := step sent hsent c d some_ hd
    · exact valid_of after
    · rw [same]
      exact some_

/-- The cache that has read the line gets no copy. -/
theorem broadcast_own (read : rsp.cmd = .ReadResp) (bc : rsp.req.isBroadcast = true)
    (h : t.broadcast cfg port rsp env = .ok u) : u.caches port = t.caches port := by
  obtain ⟨o, ho, h⟩ := bind_eq_ok.mp h
  obtain ⟨caches, run, rfl⟩ := map_eq_ok.mp h
  obtain ⟨-, copies⟩ := recvTimingSnoopResp_copies read bc ho
  apply run_keeps (P := fun c : PortID → BaseCache => c port = t.caches port) _ run rfl
  intro sent hsent c d same hd
  obtain ⟨d, -, rfl⟩ := deliver_eq hd
  have ne : port ≠ sent.1 := fun eq => (mem_copyPorts.mp (copies sent hsent).1).2.1 eq.symm
  simp only [setCache, if_neg ne]
  exact same

/-- Copies that find the line nowhere leave the caches as they are. -/
theorem broadcast_idle (env : ReadEnv) (read : rsp.cmd = .ReadResp) (bc : rsp.req.isBroadcast = true)
    (none_ : ∀ j ∈ CoherentXBar.copyPorts cfg port, t.caches j (lineKey cfg rsp) = none) :
    ∃ x, t.broadcast cfg port rsp env = .ok { t with xbar := x } := by
  have passes : Ends (fun _ => False) (fun _ => True) (t.xbar.recvTimingSnoopResp cfg
      (rsp.copy env.allocated).setBroadcastToOther port true env.copies) := by
    change Ends _ _ (t.xbar.handleBroadcastToOthers cfg _ port env.copies)
    unfold CoherentXBar.handleBroadcastToOthers
    have quiet : (rsp.copy env.allocated).setBroadcastToOther.cmd.needsResponse = false := by
      change rsp.cmd.needsResponse = false
      rw [read]
      rfl
    rw [quiet, if_neg Bool.false_ne_true]
    have response : (rsp.copy env.allocated).setBroadcastToOther.cmd.isResponse = true := by
      change rsp.cmd.isResponse = true
      rw [read]
      rfl
    apply Ends.map (P := fun _ => True)
    · apply Ends.run trivial
      exact fun p _ f _ => updateResponse_passes response bc
    · exact fun _ _ => trivial
  unfold Hierarchy.broadcast
  cases ho : t.xbar.recvTimingSnoopResp cfg (rsp.copy env.allocated).setBroadcastToOther port true
      env.copies with
  | error f => exact (passes.error ho).elim
  | ok o =>
    obtain ⟨-, copies⟩ := recvTimingSnoopResp_copies read bc ho
    have run : Script.run (Hierarchy.deliver cfg) (o.sent ++ []) t.caches = .ok t.caches := by
      apply run_idle
      intro sent hsent
      obtain ⟨mem, copy⟩ := copies sent hsent
      unfold Hierarchy.deliver
      rw [copy.recvTimingResp_of_none (none_ _ mem)]
      exact congrArg Except.ok (setCache_self t.caches sent.1)
    rw [List.append_nil] at run
    refine ⟨o.xbar, ?_⟩
    simp only [Except.bind, run, Except.map]

/-! ### The whole read -/

variable (cfg) in
/-- A read that a PE sends for itself and all others; its bytes are in one line. -/
structure Packet.IsBroadcastRead (pkt : Packet) : Prop where
  cmd : pkt.cmd = .ReadReq
  broadcast : pkt.req.isBroadcast = true
  within : pkt.addr % cfg.linesize + pkt.size ≤ cfg.linesize

theorem Packet.IsBroadcastRead.satisfyRequest (h : pkt.IsBroadcastRead cfg) (blk : CacheBlk) :
    ∃ rsp, Classic.satisfyRequest cfg pkt blk = .ok rsp ∧ rsp.cmd = .ReadResp ∧
      rsp.req.isBroadcast = true ∧ lineKey cfg rsp = lineKey cfg pkt := by
  refine ⟨_, if_neg (Nat.not_lt.mpr h.within), ?_, h.broadcast, rfl⟩
  change pkt.cmd.responseCommand = .ReadResp
  rw [h.cmd]
  rfl

variable (cfg) in
/-- The caches when the read has been answered. -/
def Answered (s : Hierarchy) (port : PortID) (key : Nat) (victim : Option Nat) (t : Hierarchy) :
    Prop :=
  (t = s ∧ (s.caches port key).isSome) ∨ (s.caches port key = none ∧ Missed cfg s port key victim t)

/-- Either more than one cache has the line dirty, or the copies of the answer go out. -/
theorem readForAll_eq (s : Hierarchy) (port : PortID) (env : ReadEnv)
    (read : pkt.IsBroadcastRead cfg) :
    (s.caches port (lineKey cfg pkt) = none ∧
      1 < (otherPorts cfg port).countP (dirtyAt s.caches (lineKey cfg pkt)) ∧
      ∃ f, s.readForAll cfg port pkt env = .error f) ∨
    ∃ rsp t, Answered cfg s port (lineKey cfg pkt) env.victim t ∧ rsp.cmd = .ReadResp ∧
      rsp.req.isBroadcast = true ∧ lineKey cfg rsp = lineKey cfg pkt ∧
      s.readForAll cfg port pkt env = t.broadcast cfg port rsp env := by
  unfold Hierarchy.readForAll Hierarchy.recvTimingReq
  cases here : s.caches port (lineKey cfg pkt) with
  | some blk =>
    right
    obtain ⟨rsp, eq, cmd, bc, line⟩ := read.satisfyRequest blk
    refine ⟨rsp, s, .inl ⟨rfl, by rw [here]; rfl⟩, cmd, bc, line, ?_⟩
    simp only [eq, Except.map, Except.bind, bc, if_true]
  | none =>
    have outcome : Ends _ _ (s.miss cfg port pkt env) := miss_ends here
    cases hm : s.miss cfg port pkt env with
    | error f => exact .inl ⟨rfl, outcome.error hm, f, rfl⟩
    | ok t =>
      right
      have missed := outcome.ok hm
      obtain ⟨blk, hblk, -⟩ := missed.filled
      obtain ⟨rsp, eq, cmd, bc, line⟩ := read.satisfyRequest blk
      refine ⟨rsp, t, .inr ⟨here, missed⟩, cmd, bc, line, ?_⟩
      simp only [Except.bind, hblk, eq, Except.map, bc, if_true]

variable {b : CacheBlk}

/-- A cache that has the line has it, with its data, until the copies come. -/
theorem Answered.kept (h : Answered cfg s port key victim t) (hb : s.caches j key = some b) :
    ∃ b', t.caches j key = some b' ∧ b'.data = b.data := by
  obtain ⟨rfl, -⟩ | ⟨none_, missed⟩ := h
  · exact ⟨b, hb, rfl⟩
  · have ne : j ≠ port := by
      rintro rfl
      rw [none_] at hb
      cases hb
    rw [missed.others j ne, hb]
    split
    · exact ⟨b.shared, rfl, rfl⟩
    · exact ⟨b, rfl, rfl⟩

theorem Answered.isSome (h : Answered cfg s port key victim t) (valid : (s.caches j key).isSome) :
    (t.caches j key).isSome := by
  obtain ⟨b, hb⟩ := Option.isSome_iff_exists.mp valid
  obtain ⟨b', hb', -⟩ := h.kept hb
  exact Option.isSome_iff_exists.mpr ⟨b', hb'⟩

/-- The line is at the port that reads it. -/
theorem Answered.filled (h : Answered cfg s port key victim t) :
    ∃ b, t.caches port key = some b := by
  obtain ⟨rfl, some_⟩ | ⟨-, missed⟩ := h
  · exact Option.isSome_iff_exists.mp some_
  · obtain ⟨b, hb, -⟩ := missed.filled
    exact ⟨b, hb⟩

/-- A cache that has not got the line does not get it, unless it reads it. -/
theorem Answered.absent (h : Answered cfg s port key victim t) (ne : j ≠ port)
    (none_ : s.caches j key = none) : t.caches j key = none := by
  obtain ⟨rfl, -⟩ | ⟨-, missed⟩ := h
  · exact none_
  · rw [missed.others j ne, none_]
    split <;> rfl

theorem Missed.other_line (h : Missed cfg s port key victim t) {l : Nat} (ne : l ≠ key)
    (hb : t.caches j l = some b) : s.caches j l = some b := by
  by_cases own : j = port
  · subst own
    rw [h.own l ne] at hb
    cases victim with
    | none => exact hb
    | some v =>
      simp only [BaseCache.allocateBlock, BaseCache.set] at hb
      split at hb
      · cases hb
      · exact hb
  · rw [h.others j own, if_neg fun same => ne same.2] at hb
    exact hb

/-- A block of the line at another port is the one from before, no longer writable. -/
theorem Missed.other_port (h : Missed cfg s port key victim t) (hj : j ∈ otherPorts cfg port)
    (hb : t.caches j key = some b) : ∃ b', s.caches j key = some b' ∧ b = b'.shared := by
  rw [h.others j (mem_otherPorts.mp hj).2, if_pos ⟨hj, rfl⟩] at hb
  obtain ⟨b', hb', rfl⟩ := Option.map_eq_some_iff.mp hb
  exact ⟨b', hb', rfl⟩

/-- The bytes of a fill are those that the other caches have. -/
theorem Missed.data_eq (h : Missed cfg s port key victim t) (coherent : s.Coherent cfg)
    (alone : s.Alone cfg port key) (none_ : s.caches port key = none) {b' : CacheBlk}
    (hb : t.caches port key = some b) (hj : j ∈ otherPorts cfg port)
    (hb' : s.caches j key = some b') : b.data = b'.data := by
  obtain ⟨b₀, hb₀, -, bytes⟩ := h.filled
  obtain rfl : b₀ = b := Option.some.inj (hb₀.symm.trans hb)
  obtain ⟨memory, clean⟩ | ⟨k, hk, b₁, hb₁, -, same⟩ := bytes
  · rw [memory, alone.backed none_ clean j hj b' hb']
  · rw [same]
    exact coherent.equal key k (mem_otherPorts.mp hk).1 j (mem_otherPorts.mp hj).1 b₁ b' hb₁ hb'

theorem Missed.coherent (h : Missed cfg s port key victim t) (coherent : s.Coherent cfg)
    (alone : s.Alone cfg port key) (none_ : s.caches port key = none) : t.Coherent cfg := by
  obtain ⟨b₀, hb₀, unshared, -⟩ := h.filled
  have other {j : PortID} (hj : j < cfg.numCpuSidePorts) (ne : j ≠ port) :
      j ∈ otherPorts cfg port := mem_otherPorts.mpr ⟨hj, ne⟩
  apply coherent.of_line (fun l ne j b hb => h.other_line ne hb)
  · intro j hj k hk b b' hb hb' writable
    by_cases own : j = port
    · subst own
      obtain rfl : b₀ = b := Option.some.inj (hb₀.symm.trans hb)
      by_contra ne
      obtain ⟨b₁, hb₁, -⟩ := h.other_port (other hk (Ne.symm ne)) hb'
      rw [unshared writable k (other hk (Ne.symm ne))] at hb₁
      cases hb₁
    · obtain ⟨b₁, -, rfl⟩ := h.other_port (other hj own) hb
      cases writable
  · intro j hj k hk b b' hb hb'
    by_cases own : j = port
    · subst own
      by_cases own' : k = j
      · subst own'
        rw [Option.some.inj (hb.symm.trans hb')]
      · obtain ⟨b₁, hb₁, rfl⟩ := h.other_port (other hk own') hb'
        have same := h.data_eq coherent alone none_ hb (other hk own') hb₁
        exact same
    · obtain ⟨b₁, hb₁, rfl⟩ := h.other_port (other hj own) hb
      by_cases own' : k = port
      · subst own'
        exact (h.data_eq coherent alone none_ hb' (other hj own) hb₁).symm
      · obtain ⟨b₂, hb₂, rfl⟩ := h.other_port (other hk own') hb'
        exact coherent.equal key j hj k hk b₁ b₂ hb₁ hb₂

theorem Answered.coherent (h : Answered cfg s port key victim t) (coherent : s.Coherent cfg)
    (alone : s.Alone cfg port key) : t.Coherent cfg := by
  obtain ⟨rfl, -⟩ | ⟨none_, missed⟩ := h
  · exact coherent
  · exact missed.coherent coherent alone none_

theorem Answered.keeps (h : Answered cfg s port key victim t) :
    s.Keeps cfg t key := fun _ _ _ hb => h.kept hb

/-- Where copies leave coherent caches, they have found the line nowhere. -/
theorem Answered.copies_none (h : Answered cfg s port (lineKey cfg rsp) victim t)
    (hport : port < cfg.numCpuSidePorts) (read : rsp.cmd = .ReadResp)
    (bc : rsp.req.isBroadcast = true) (hu : t.broadcast cfg port rsp env = .ok u)
    (coherent : u.Coherent cfg) :
    ∀ j ∈ CoherentXBar.copyPorts cfg port, s.caches j (lineKey cfg rsp) = none := by
  intro j mem
  obtain ⟨hj, ne, -⟩ := mem_copyPorts.mp mem
  obtain ⟨b, hb⟩ := h.filled
  rw [← broadcast_own read bc hu] at hb
  by_contra valid
  have valid := h.isSome (Option.ne_none_iff_isSome.mp valid)
  obtain ⟨b', hb', writable⟩ := broadcast_writable read bc hu mem valid
  exact ne (coherent.exclusive _ j hj port hport b' b hb' hb writable)

/-- Where the memory has answered and the caches are coherent, all had its bytes. -/
theorem Missed.backed (h : Missed cfg s port key victim t) (hport : port < cfg.numCpuSidePorts)
    (coherent : t.Coherent cfg) (clean : (otherPorts cfg port).countP (dirtyAt s.caches key) = 0) :
    ∀ j ∈ otherPorts cfg port, ∀ b, s.caches j key = some b → b.data = s.memory key := by
  intro j hj b hb
  obtain ⟨hj', ne⟩ := mem_otherPorts.mp hj
  obtain ⟨b₀, hb₀, -, bytes⟩ := h.filled
  have stays : t.caches j key = some b.shared := by
    rw [h.others j ne, if_pos ⟨hj, rfl⟩, hb]
    rfl
  have same := coherent.equal key j hj' port hport b.shared b₀ stays hb₀
  obtain ⟨memory, -⟩ | ⟨k, hk, b₁, hb₁, dirty, -⟩ := bytes
  · exact same.trans memory
  · have none_dirty := List.countP_eq_zero.mp clean k hk
    simp [dirtyAt, hb₁, dirty] at none_dirty

/-- A broadcast read of coherent caches leaves them coherent, with the bytes they had of
the line, if and only if the copies find the line in no cache. -/
theorem coherent_iff_alone (cfg : XBarConfig) (s : Hierarchy) (port : PortID) (pkt : Packet)
    (env : ReadEnv) (hport : port < cfg.numCpuSidePorts) (read : pkt.IsBroadcastRead cfg)
    (coherent : s.Coherent cfg) :
    (∃ t, s.readForAll cfg port pkt env = .ok t ∧ t.Coherent cfg ∧
      s.Keeps cfg t (lineKey cfg pkt)) ↔ s.Alone cfg port (lineKey cfg pkt) := by
  obtain ⟨none_, conflict, f, failed⟩ | ⟨rsp, t, answered, cmd, bc, line, eq⟩ :=
    readForAll_eq s port env read
  · constructor
    · rintro ⟨t, ok, -⟩
      rw [failed] at ok
      cases ok
    · intro alone
      exact absurd (alone.single none_) (Nat.not_le.mpr conflict)
  rw [eq, ← line]
  rw [← line] at answered
  -- when the copies find nothing, the caches stay as the read has left them
  have idle (copies : ∀ j ∈ CoherentXBar.copyPorts cfg port, s.caches j (lineKey cfg rsp) = none) :
      ∃ x, t.broadcast cfg port rsp env = .ok { t with xbar := x } :=
    broadcast_idle env cmd bc fun j mem =>
      answered.absent (mem_copyPorts.mp mem).2.1 (copies j mem)
  constructor
  · rintro ⟨u, hu, coherent', -⟩
    have copies := answered.copies_none hport cmd bc hu coherent'
    obtain ⟨x, hx⟩ := idle copies
    obtain rfl : { t with xbar := x } = u := Except.ok.inj (hx.symm.trans hu)
    obtain ⟨rfl, some_⟩ | ⟨none_, missed⟩ := answered
    · refine ⟨copies, ?_, ?_⟩ <;> intro none_ <;> rw [none_] at some_ <;> cases some_
    · exact ⟨copies, fun _ => missed.single, fun _ clean =>
        missed.backed hport ⟨coherent'.exclusive, coherent'.equal⟩ clean⟩
  · intro alone
    obtain ⟨x, hx⟩ := idle alone.copies
    have coherent' := answered.coherent coherent alone
    exact ⟨_, hx, ⟨coherent'.exclusive, coherent'.equal⟩, answered.keeps⟩

/-- A broadcast read of the whole line at address 0. -/
def readLine : Packet where
  cmd := .ReadReq
  id := 0
  req := { id := 0, isBroadcast := true }
  addr := 0
  size := 64

theorem readLine_isBroadcastRead : readLine.IsBroadcastRead twoCaches := ⟨rfl, rfl, by decide⟩

/-- The memory that is allocated for the copies has zeros in it. -/
def zeros : ReadEnv := ⟨0, none, List.replicate 64 0, fun _ => List.replicate 64 0⟩

/-- The caches at some ports have the line at address 0, shared and clean. -/
def sharedBy (holds : PortID → Bool) : Hierarchy where
  caches p key := if holds p ∧ key = 0 then some ⟨false, false, List.replicate 64 7⟩ else none
  memory _ := List.replicate 64 7
  xbar := .empty

theorem sharedBy_eq {holds : PortID → Bool} (h : (sharedBy holds).caches j key = some b) :
    b = ⟨false, false, List.replicate 64 7⟩ := by
  obtain ⟨-, h⟩ := Option.ite_none_right_eq_some.mp h
  exact (Option.some.inj h).symm

theorem sharedBy_coherent (holds : PortID → Bool) : (sharedBy holds).Coherent twoCaches where
  exclusive key j _ k _ b b' hb _ writable := by
    rw [sharedBy_eq hb] at writable
    cases writable
  equal key j _ k _ b b' hb hb' := by rw [sharedBy_eq hb, sharedBy_eq hb']

theorem coherent_iff_alone_hit :
    ∃ t, (sharedBy (· = 0)).readForAll twoCaches 0 readLine zeros = .ok t ∧
      t.Coherent twoCaches ∧ (sharedBy (· = 0)).Keeps twoCaches t (lineKey twoCaches readLine) := by
  apply (coherent_iff_alone twoCaches (sharedBy (· = 0)) 0 readLine zeros (by decide)
    readLine_isBroadcastRead (sharedBy_coherent _)).mpr
  have here : (sharedBy (· = 0)).caches 0 (lineKey twoCaches readLine) ≠ none := by decide
  exact ⟨by decide, fun none_ => absurd none_ here, fun none_ => absurd none_ here⟩

/-- Both caches share the line, and one of them reads it again: the copy makes the line
writable in the other, and replaces its bytes. -/
theorem copy_breaks_coherence :
    (sharedBy fun _ => true).Coherent twoCaches ∧ readLine.IsBroadcastRead twoCaches ∧
      ∃ t, (sharedBy fun _ => true).readForAll twoCaches 0 readLine zeros = .ok t ∧
        ¬ t.Coherent twoCaches ∧
        ¬ (sharedBy fun _ => true).Keeps twoCaches t (lineKey twoCaches readLine) := by
  have run : ((sharedBy fun _ => true).readForAll twoCaches 0 readLine zeros).toOption.any
      (fun t => decide (t.caches 0 0 = some ⟨false, false, List.replicate 64 7⟩ ∧
        t.caches 1 0 = some ⟨true, false, List.replicate 64 0⟩)) = true := by
    decide +kernel
  obtain ⟨t, ht, facts⟩ := (Option.any_eq_true _ _).mp run
  obtain ⟨reader, other⟩ := of_decide_eq_true facts
  refine ⟨sharedBy_coherent _, readLine_isBroadcastRead, t, ?_, fun coherent => ?_, fun keeps => ?_⟩
  · cases h : (sharedBy fun _ => true).readForAll twoCaches 0 readLine zeros with
    | error f =>
      rw [h] at ht
      cases ht
    | ok u =>
      rw [h] at ht
      cases ht
      rfl
  · exact absurd (coherent.exclusive 0 1 (by decide) 0 (by decide) _ _ other reader rfl) (by decide)
  · obtain ⟨b, hb, same⟩ := keeps 1 (by decide) ⟨false, false, List.replicate 64 7⟩ rfl
    have zero : b = ⟨true, false, List.replicate 64 0⟩ := Option.some.inj (hb.symm.trans other)
    rw [zero] at same
    exact absurd same (by decide)

end Classic
