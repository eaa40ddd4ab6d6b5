import Lab447.Classic.XBar

/-!
The L1 caches below a crossbar while one broadcast read is on its way,
`gem5/src/mem/cache/base.cc` and `cache.cc`: the hit or the miss with its snoops and
its fill, and then the copies. Nothing else is outstanding, so the queues of a cache
are empty, its valid blocks are readable and any of them can be replaced.
-/

namespace Classic

/-- The bits and the bytes of a valid block. -/
structure CacheBlk where
  writable : Bool
  dirty : Bool
  data : List UInt8
  deriving DecidableEq

/-- The valid blocks of a cache, by the key of their line. -/
abbrev BaseCache := Nat → Option CacheBlk

variable (cfg : XBarConfig)

/-- `blk` is the block that has the line, if there is one. A new block has no bits. -/
def handleFill (pkt : Packet) (blk : Option CacheBlk) : Except XBarFault CacheBlk :=
  if !pkt.cmd.isResponse then .error .assertion
  else if pkt.addr ≠ pkt.getBlockAddr cfg.linesize then .error .assertion
  else if blk.isNone && !(pkt.cmd.hasData || decide (pkt.cmd = .InvalidateResp)) then
    .error .assertion
  else if decide (pkt.cmd = .InvalidateResp) && pkt.flags.hasSharers then .error .assertion
  else
    let old := blk.getD ⟨false, false, []⟩
    let writable := old.writable || !pkt.flags.hasSharers
    let dirty := old.dirty || (!pkt.flags.hasSharers && pkt.flags.cacheResponding)
    if pkt.cmd.isRead then
      if !pkt.cmd.hasData then .error .assertion
      else if pkt.size ≠ cfg.linesize then .error .assertion
      else .ok ⟨writable, dirty, pkt.data⟩
    else .ok ⟨writable, dirty, old.data⟩

/-- The answer to a read that a block has the bytes for. -/
def satisfyRequest (pkt : Packet) (blk : CacheBlk) : Except XBarFault Packet :=
  let offset := pkt.addr % cfg.linesize
  if cfg.linesize < offset + pkt.size then .error .assertion
  else .ok { pkt.makeResponse with data := (blk.data.drop offset).take pkt.size }

/-- The packet for a read that misses; `mshr` is the entry that waits for its answer. -/
def createMissPacket (pkt : Packet) (mshr : Nat) : Packet where
  cmd := .ReadSharedReq
  id := pkt.req.id
  req := pkt.req
  addr := pkt.getBlockAddr cfg.linesize
  size := cfg.linesize
  isSecure := pkt.isSecure
  flags := { hasSharers := pkt.flags.hasSharers }
  senderState := some mshr

namespace BaseCache

def set (c : BaseCache) (key : Nat) (blk : Option CacheBlk) : BaseCache :=
  fun k => if k = key then blk else c k

/-- The block that makes room for a new one, if the frame is not free, is evicted. -/
def allocateBlock (c : BaseCache) : Option Nat → BaseCache
  | none => c
  | some victim => c.set victim none

/-- A response at the memory side. `victim` is the line that a new block takes the
place of; the entry that waits is one of a read. -/
def recvTimingResp (c : BaseCache) (pkt : Packet) (victim : Option Nat) :
    Except XBarFault BaseCache :=
  let key := lineKey cfg pkt
  if pkt.cmd.isWrite && !decide (pkt.cmd = .LockedRMWWriteResp) then
    if pkt.req.isUncacheable then .ok c else .error .assertion
  else if pkt.req.isBroadcast && pkt.senderState.isNone then
    match c key with
    | some blk => (handleFill cfg pkt (some blk)).map fun blk => c.set key (some blk)
    | none => .ok c
  else if pkt.senderState.isNone then .error .assertion
  else if (pkt.cmd.isRead || decide (pkt.cmd = .UpgradeResp)) && !pkt.cmd.testCmdAttrib .IsError then
    let c := if (c key).isNone then c.allocateBlock victim else c
    (handleFill cfg pkt (c key)).map fun blk => c.set key (some blk)
  else .ok c

end BaseCache

/-- A cache takes note of a snoop that reads a line and leaves it valid. -/
def CacheBlk.shared (blk : CacheBlk) : CacheBlk := { blk with writable := false }

/-- What the snoops of a request have done: the flags it has now, the response of the
cache that has the line dirty, and the caches. -/
structure Snoops where
  pkt : Packet
  supplied : Option Packet
  caches : PortID → BaseCache

def setCache (caches : PortID → BaseCache) (port : PortID) (c : BaseCache) : PortID → BaseCache :=
  fun p => if p = port then c else caches p

/-- `Cache::handleSnoop` at a port, for a cacheable read that leaves the line valid. -/
def handleSnoop (port : PortID) (s : Snoops) : Except XBarFault Snoops :=
  let key := lineKey cfg s.pkt
  if !s.pkt.cmd.isRequest then .error .assertion
  else match s.caches port key with
  | none => .ok s
  | some blk =>
    if s.pkt.cmd.needsWritable then .error .assertion
    else
      let pkt := { s.pkt with flags := { s.pkt.flags with hasSharers := true } }
      let caches := setCache s.caches port ((s.caches port).set key (some blk.shared))
      if blk.dirty && pkt.cmd.needsResponse then
        if pkt.flags.cacheResponding then .error .assertion
        else
          let pkt := { pkt with flags := { pkt.flags with cacheResponding := true } }
          .ok ⟨pkt, some { pkt.makeResponse with data := blk.data }, caches⟩
      else .ok { s with pkt, caches }

/-- The caches at the CPU-side ports of a crossbar, and the memory below it. -/
structure Hierarchy where
  caches : PortID → BaseCache
  memory : Nat → List UInt8
  xbar : CoherentXBar

/-- What a read leaves open: the entry a miss takes, the line its block replaces, and
what is in the memory of the packet that is marked for the others and of its copies. -/
structure ReadEnv where
  mshr : Nat
  victim : Option Nat
  allocated : List UInt8
  copies : PortID → List UInt8

/-- The ports that see the request of a port. -/
def otherPorts (port : PortID) : List PortID :=
  (List.range cfg.numCpuSidePorts).filter fun p => p ≠ port

namespace Hierarchy

/-- The bytes of a dirty block that is replaced go to the memory. -/
def writeback (s : Hierarchy) (port : PortID) (victim : Option Nat) : Nat → List UInt8 :=
  fun key =>
    match s.caches port key with
    | some blk => if victim = some key ∧ blk.dirty then blk.data else s.memory key
    | none => s.memory key

/-- A miss: every other port is snooped, the cache that has the line dirty or else the
memory answers, and the answer fills a block. -/
def miss (s : Hierarchy) (port : PortID) (pkt : Packet) (env : ReadEnv) :
    Except XBarFault Hierarchy :=
  let request := createMissPacket cfg pkt env.mshr
  (Script.run (handleSnoop cfg) (otherPorts cfg port) ⟨request, none, s.caches⟩).bind fun snoops =>
    let rsp := snoops.supplied.getD
      { snoops.pkt.makeResponse with data := s.memory (lineKey cfg pkt) }
    ((snoops.caches port).recvTimingResp cfg rsp env.victim).map fun c =>
      { s with
        caches := setCache snoops.caches port c
        memory := s.writeback port env.victim }

/-- A read of a PE at its cache, and the answer to it. -/
def recvTimingReq (s : Hierarchy) (port : PortID) (pkt : Packet) (env : ReadEnv) :
    Except XBarFault (Packet × Hierarchy) :=
  match s.caches port (lineKey cfg pkt) with
  | some blk => (satisfyRequest cfg pkt blk).map fun rsp => (rsp, s)
  | none =>
    (s.miss cfg port pkt env).bind fun t =>
      match t.caches port (lineKey cfg pkt) with
      | some blk => (satisfyRequest cfg pkt blk).map fun rsp => (rsp, t)
      | none => .error .assertion

/-- One copy reaches the cache at its port. -/
def deliver (sent : PortID × Packet) (caches : PortID → BaseCache) :
    Except XBarFault (PortID → BaseCache) :=
  ((caches sent.1).recvTimingResp cfg sent.2 none).map fun c => setCache caches sent.1 c

/-- The answer is copied, marked, copied again by the crossbar and handled everywhere. -/
def broadcast (s : Hierarchy) (port : PortID) (rsp : Packet) (env : ReadEnv) :
    Except XBarFault Hierarchy :=
  (s.xbar.recvTimingSnoopResp cfg (rsp.copy env.allocated).setBroadcastToOther port true
    env.copies).bind fun o =>
    (Script.run (deliver cfg) o.sent s.caches).map fun caches => { s with caches, xbar := o.xbar }

/-- A whole broadcast read of the PE at a port. -/
def readForAll (s : Hierarchy) (port : PortID) (pkt : Packet) (env : ReadEnv) :
    Except XBarFault Hierarchy :=
  (s.recvTimingReq cfg port pkt env).bind fun (rsp, t) =>
    if rsp.req.isBroadcast then t.broadcast cfg port rsp env else .ok t

end Hierarchy

end Classic
