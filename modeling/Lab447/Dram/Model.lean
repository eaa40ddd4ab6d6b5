import Lab447.Lib.Machine
import Lab447.Lib.Script
import Mathlib

/-!
The DRAM of `gem5/src/mem/dram_interface.cc` behind the command bus of
`gem5/src/mem/mem_ctrl.cc`: what a burst access does to the banks of its rank, and
what a refresh and a power-down do to them. When refreshes and power-downs come is
left to the outside, as are the statistics and the power model. Ticks do not wrap
around.
-/

namespace Dram

open Script

/-- The difference of two ticks, an unsigned subtraction of 64 bits. -/
def tickSub (a b : Nat) : Nat := if b ≤ a then a - b else a + 2 ^ 64 - b

inductive PageManage where
  | openPage | openAdaptive | close | closeAdaptive
  deriving DecidableEq

/-- The parameters of the interface and the command window of its controller. -/
structure Config where
  burstSize : Nat
  bankGroupsPerRank : Nat
  activationLimit : Nat
  pageMgmt : PageManage
  maxAccessesPerRow : Nat
  pseudoChannel : Nat
  tCK : Nat
  tCS : Nat
  tBURST : Nat
  tBURST_MIN : Nat
  tBURST_MAX : Nat
  tRTW : Nat
  tWTR : Nat
  tWTR_L : Nat
  tRL : Nat
  tWL : Nat
  tCCD_L : Nat
  tCCD_L_WR : Nat
  tRCD_RD : Nat
  tRCD_WR : Nat
  tRP : Nat
  tRAS : Nat
  tWR : Nat
  tRTP : Nat
  tRFC : Nat
  tREFI : Nat
  tRRD : Nat
  tRRD_L : Nat
  tPPD : Nat
  tAAD : Nat
  tXAW : Nat
  tXP : Nat
  dataClockSync : Bool
  twoCycleActivate : Bool
  commandWindow : Nat
  commandWindow_pos : 0 < commandWindow

namespace Config

variable (cfg : Config)

def bankGroupArch : Bool := decide (0 < cfg.bankGroupsPerRank)

def burstInterleave : Bool := cfg.tBURST != cfg.tBURST_MIN

def wrToRdDlySameBG : Nat := cfg.tWL + cfg.tBURST_MAX + cfg.tWTR_L

def rdToWrDlySameBG : Nat := cfg.tRTW + cfg.tBURST_MAX

def writeToReadDelay : Nat := cfg.tBURST + cfg.tWTR + cfg.tWL

def readToWriteDelay : Nat := cfg.tBURST + cfg.tRTW

def rankToRankDelay : Nat := cfg.tBURST + cfg.tCS

def maxCommandsPerWindow : Nat := cfg.commandWindow / cfg.tCK

def bankgr (b : Nat) : Nat := if 0 < cfg.bankGroupsPerRank then b % cfg.bankGroupsPerRank else b

/-- Two banks for which the longer delays of a bank group are used. -/
def sameGroup (b c : Nat) : Bool := cfg.bankGroupArch && cfg.bankgr b == cfg.bankgr c

def actToAct (b c : Nat) : Nat := if cfg.sameGroup b c then cfg.tRRD_L else cfg.tRRD

/-- What the constructor checks, for `R` ranks of `B` banks. -/
def accepted (R B : Nat) : Bool :=
  isPowerOf2 cfg.burstSize && isPowerOf2 R &&
  !(cfg.tREFI ≤ cfg.tRP || cfg.tREFI ≤ cfg.tRFC) &&
  (!cfg.bankGroupArch ||
    (cfg.bankGroupsPerRank ≤ B && B % cfg.bankGroupsPerRank == 0 && cfg.tBURST < cfg.tCCD_L &&
      cfg.tBURST < cfg.tCCD_L_WR && cfg.tRRD ≤ cfg.tRRD_L))
where
  isPowerOf2 (n : Nat) : Bool := n != 0 && n &&& (n - 1) == 0

end Config

/-- The failed assertions and the panic of the source; `noSlot` is a search of the
command bus that does not end. -/
inductive Fault where
  | notIdle
  | actTicksSize
  | bankOpen
  | banksActive
  | activatesInWindow
  | noOpenRow
  | noBanksActive
  | noSlot
  deriving DecidableEq

/-! ### The command bus -/

/-- The length of a window of the command bus, and how many commands a window takes
(`max_cmds_per_burst`). -/
structure CommandBus where
  commandWindow : Nat
  maxCmdsPerBurst : Nat
  commandWindow_pos : 0 < commandWindow

/-- The bus as the interface uses it. -/
def Config.bus (cfg : Config) : CommandBus :=
  ⟨cfg.commandWindow, cfg.maxCommandsPerWindow, cfg.commandWindow_pos⟩

section Bus

variable (bus : CommandBus) (burstTicks : List Nat)

def pruneBurstTick (curTick : Nat) : List Nat := burstTicks.filter fun t => !decide (t < curTick)

def getBurstWindow (cmdTick : Nat) : Nat := cmdTick - cmdTick % bus.commandWindow

/-- The loop of `verifySingleCmd`, which gives the window found and the tick of the
command. -/
def singleSlot : Nat → Nat → Nat → Option (Nat × Nat)
  | 0, _, _ => none
  | fuel + 1, burstTick, cmdAt =>
    if bus.maxCmdsPerBurst ≤ burstTicks.count burstTick then
      singleSlot fuel (burstTick + bus.commandWindow) (burstTick + bus.commandWindow)
    else
      some (burstTick, cmdAt)

/-- The bus with the command on it, and when the command is issued. -/
def verifySingleCmd (cmdTick : Nat) : Except Fault (List Nat × Nat) :=
  match singleSlot bus burstTicks (burstTicks.length + 1) (getBurstWindow bus cmdTick) cmdTick with
  | some (burstTick, cmdAt) => .ok (burstTick :: burstTicks, cmdAt)
  | none => .error .noSlot

/-- How far before the second command the search for the first one starts. -/
def burstOffset (maxMultiCmdSplit firstCmdOffset : Nat) : Nat → Nat → Nat
  | 0, offset => offset
  | fuel + 1, offset =>
    if firstCmdOffset + offset < maxMultiCmdSplit then
      burstOffset maxMultiCmdSplit firstCmdOffset fuel (offset + bus.commandWindow)
    else
      offset

/-- The commands in the window of the second command, with the first one on the bus. -/
def secondCmdCount (firstCmdTick burstTick : Nat) : Nat :=
  if burstTick = firstCmdTick then burstTicks.count firstCmdTick + 1 else burstTicks.count burstTick

/-- The loop of `verifyMultiCmd`: the windows of the first and the second command and
the tick of the second. -/
def multiSlot (maxMultiCmdSplit : Nat) : Nat → Nat → Nat → Nat → Option (Nat × Nat × Nat)
  | 0, _, _, _ => none
  | fuel + 1, firstCmdTick, burstTick, cmdAt =>
    let firstCanIssue := decide (burstTicks.count firstCmdTick < bus.maxCmdsPerBurst)
    let secondCanIssue :=
      decide (secondCmdCount burstTicks firstCmdTick burstTick < bus.maxCmdsPerBurst)
    if firstCanIssue && secondCanIssue then
      some (firstCmdTick, burstTick, cmdAt)
    else
      let nextTick := if secondCanIssue then burstTick else burstTick + bus.commandWindow
      let nextAt := if secondCanIssue then cmdAt else nextTick
      let gapViolated := decide (burstTick ≠ firstCmdTick) &&
        decide (maxMultiCmdSplit < tickSub nextTick firstCmdTick)
      let nextFirst :=
        if !firstCanIssue || (!secondCanIssue && gapViolated) then
          firstCmdTick + bus.commandWindow
        else
          firstCmdTick
      multiSlot maxMultiCmdSplit fuel nextFirst nextTick nextAt

def verifyMultiCmd (cmdTick maxMultiCmdSplit : Nat) : Except Fault (List Nat × Nat) :=
  let burstTick := getBurstWindow bus cmdTick
  let offset :=
    burstOffset bus maxMultiCmdSplit (cmdTick % bus.commandWindow) maxMultiCmdSplit 0
  let firstCmdTick := burstTick - min offset burstTick
  match multiSlot bus burstTicks maxMultiCmdSplit (4 * burstTicks.length + 2) firstCmdTick
    burstTick cmdTick with
  | some (firstCmdTick, burstTick, cmdAt) => .ok (firstCmdTick :: burstTick :: burstTicks, cmdAt)
  | none => .error .noSlot

end Bus

/-! ### Banks and ranks -/

/-- `openRow` is `none` where the source has `NO_ROW`. -/
structure Bank where
  openRow : Option Nat := none
  rdAllowedAt : Nat := 0
  wrAllowedAt : Nat := 0
  preAllowedAt : Nat := 0
  actAllowedAt : Nat := 0
  rowAccesses : Nat := 0
  deriving DecidableEq

/-- When the bank can take a column command, a read or a write. -/
def Bank.colAllowedAt (bank : Bank) (isRead : Bool) : Nat :=
  if isRead then bank.rdAllowedAt else bank.wrAllowedAt

/-- The commands of a rank that go to one of its `B` banks, with the rows they open or
access. A column command `col` is an `RD` or a `WR`. -/
inductive Command (B : Nat) where
  | act (bank : Fin B) (row : Nat) (timeStamp : Nat)
  | pre (bank : Fin B) (timeStamp : Nat)
  | col (isRead : Bool) (bank : Fin B) (row : Nat) (timeStamp : Nat)
  deriving DecidableEq

/-- `idle` is `REF_IDLE`, `drain` a refresh that is due, up to `REF_PRE`, and `run` one
that has been started. -/
inductive RefreshState where
  | idle | drain | run
  deriving DecidableEq

/-- `cmdList` has the commands since the last refresh, in the order they were issued
in. -/
structure Rank (B : Nat) where
  banks : Fin B → Bank
  numBanksActive : Nat
  actTicks : List Nat
  lastBurstTick : Nat
  refreshState : RefreshState
  inLowPowerState : Bool
  wakeUpAllowedAt : Nat
  cmdList : List (Command B)

/-- `id` tells packets apart, as their addresses do in the source. -/
structure MemPacket (R B : Nat) where
  id : Nat
  rank : Fin R
  bank : Fin B
  row : Nat
  isRead : Bool
  pseudoChannel : Nat

namespace Rank

variable {B : Nat} (cfg : Config) (r : Rank B) (b : Fin B)

def new (B : Nat) : Rank B where
  banks := fun _ => {}
  numBanksActive := 0
  actTicks := List.replicate cfg.activationLimit 0
  lastBurstTick := 0
  refreshState := .idle
  inLowPowerState := false
  wakeUpAllowedAt := 0
  cmdList := []

def powerDownSleep (tick : Nat) : Rank B :=
  { r with wakeUpAllowedAt := tick + cfg.tCK, inLowPowerState := true }

def scheduleWakeUpEvent (curTick exitDelay : Nat) : Rank B :=
  let wakeUpTick := max curTick r.wakeUpAllowedAt
  { r with
    banks := fun i =>
      { r.banks i with
        wrAllowedAt := max (wakeUpTick + exitDelay) (r.banks i).wrAllowedAt
        rdAllowedAt := max (wakeUpTick + exitDelay) (r.banks i).rdAllowedAt
        preAllowedAt := max (wakeUpTick + exitDelay) (r.banks i).preAllowedAt
        actAllowedAt := max (wakeUpTick + exitDelay) (r.banks i).actAllowedAt }
    inLowPowerState := false }

/-- The first part of an activation: the row is open and the activate delays of the
rank are set. -/
def activated (actAt : Nat) (row : Nat) : Rank B :=
  { r with
    banks := fun i =>
      let bank := r.banks i
      let bank := if i = b then
          { bank with
            openRow := some row
            rowAccesses := 0
            preAllowedAt := actAt + cfg.tRAS
            rdAllowedAt := max (actAt + cfg.tRCD_RD) bank.rdAllowedAt
            wrAllowedAt := max (actAt + cfg.tRCD_WR) bank.wrAllowedAt }
        else bank
      { bank with actAllowedAt := max (actAt + cfg.actToAct b i) bank.actAllowedAt }
    numBanksActive := r.numBanksActive + 1
    cmdList := r.cmdList ++ [.act b row actAt] }

/-- A new activation is recorded in place of the oldest one, and the banks of the rank
wait for the end of the window that the activation now at the back begins. -/
def recordActivation (actAt : Nat) : Rank B :=
  let actTicks := actAt :: r.actTicks.dropLast
  let back := actTicks.getLast (List.cons_ne_nil _ _)
  if back ≠ 0 ∧ tickSub actAt back < cfg.tXAW then
    { r with
      actTicks := actTicks
      banks := fun i =>
        { r.banks i with actAllowedAt := max (back + cfg.tXAW) (r.banks i).actAllowedAt } }
  else
    { r with actTicks := actTicks }

/-- The second part: the activation limit. The oldest of the last activations is at the
back, and is zero as long as there have not been that many. -/
def limitActivations (actAt : Nat) : Except Fault (Rank B) :=
  match r.actTicks.getLast? with
  | none => .ok r
  | some back =>
    if back ≠ 0 ∧ tickSub actAt back < cfg.tXAW then .error .activatesInWindow
    else .ok (r.recordActivation cfg actAt)

def activateBank (burstTicks : List Nat) (actTick : Nat) (row : Nat) :
    Except Fault (List Nat × Rank B) :=
  if r.actTicks.length ≠ cfg.activationLimit then .error .actTicksSize
  else
    let slot :=
      if cfg.twoCycleActivate then verifyMultiCmd cfg.bus burstTicks actTick cfg.tAAD
      else verifySingleCmd cfg.bus burstTicks actTick
    slot.bind fun slot =>
      if (r.banks b).openRow ≠ none then .error .bankOpen
      else if B < r.numBanksActive + 1 then .error .banksActive
      else ((r.activated cfg b slot.2 row).limitActivations cfg slot.2).map (slot.1, ·)

/-- The row is closed at `preAt`. -/
def precharged (preAt : Nat) (autoOrPreall trace : Bool) : Rank B :=
  { r with
    banks := fun i =>
      let bank := r.banks i
      let bank :=
        if autoOrPreall then if i = b then { bank with preAllowedAt := preAt } else bank
        else { bank with preAllowedAt := max (preAt + cfg.tPPD) bank.preAllowedAt }
      if i = b then
        { bank with
          openRow := none
          actAllowedAt := max bank.actAllowedAt (preAt + cfg.tRP) }
      else bank
    numBanksActive := r.numBanksActive - 1
    cmdList := if trace then r.cmdList ++ [.pre b preAt] else r.cmdList }

def prechargeBank (burstTicks : List Nat) (preTick : Nat) (autoOrPreall trace : Bool) :
    Except Fault (List Nat × Rank B) :=
  if (r.banks b).openRow = none then .error .noOpenRow
  else
    let slot :=
      if autoOrPreall then .ok (burstTicks, preTick)
      else verifySingleCmd cfg.bus burstTicks preTick
    slot.bind fun slot =>
      if r.numBanksActive = 0 then .error .noBanksActive
      else .ok (slot.1, r.precharged cfg b slot.2 autoOrPreall trace)

/-- One bank is closed for a refresh, at a tick at which all of them can be. -/
def prechargeFor (preAt : Nat) (i : Fin B) (r : Rank B) : Except Fault (Rank B) :=
  if (r.banks i).openRow ≠ none then
    (r.prechargeBank cfg i [] preAt true false).map Prod.snd
  else
    let bank : Bank :=
      { r.banks i with
        actAllowedAt := max (r.banks i).actAllowedAt (preAt + cfg.tRP)
        preAllowedAt := max (r.banks i).preAllowedAt preAt }
    .ok { r with banks := Function.update r.banks i bank }

/-! ### A burst -/

/-- The row of the access is opened, unless it is open already. -/
def openBank (burstTicks : List Nat) (curTick : Nat) (row : Nat) :
    Except Fault (List Nat × Rank B) :=
  if (r.banks b).openRow = some row then .ok (burstTicks, r)
  else
    let closed :=
      if (r.banks b).openRow ≠ none then
        r.prechargeBank cfg b burstTicks (max (r.banks b).preAllowedAt curTick) false true
      else .ok (burstTicks, r)
    closed.bind fun closed =>
      closed.2.activateBank cfg b closed.1 (max (closed.2.banks b).actAllowedAt curTick) row

/-- The slot of the column command on the command bus. -/
def columnSlot (burstTicks : List Nat) (curTick nextBurstAt : Nat) (isRead : Bool) :
    Except Fault (List Nat × Nat) :=
  let cmdAt := max ((r.banks b).colAllowedAt isRead) (max nextBurstAt curTick)
  let maxSync := cfg.tBURST_MAX + if isRead then cfg.tRL else cfg.tWL
  if cfg.dataClockSync ∧ maxSync < tickSub cmdAt r.lastBurstTick then
    verifyMultiCmd cfg.bus burstTicks cmdAt cfg.tCK
  else
    verifySingleCmd cfg.bus burstTicks cmdAt

/-- The tick of the burst, moved to an interleave boundary, and the gap after it. -/
def interleaved (cmdAt : Nat) : Nat × Nat :=
  if cfg.burstInterleave then
    if cmdAt = r.lastBurstTick + cfg.tBURST_MIN then (cmdAt, cfg.tBURST)
    else if cmdAt < r.lastBurstTick + cfg.tBURST then
      (r.lastBurstTick + cfg.tBURST, cfg.tBURST_MIN)
    else (cmdAt, cfg.tBURST_MIN)
  else (cmdAt, cfg.tBURST_MIN)

/-- The delays to the next read and to the next write of bank `i`, in the rank of the
burst or in another one. -/
def columnDelays (isRead : Bool) (burstGap : Nat) (sameRank : Bool) (i : Fin B) : Nat × Nat :=
  if sameRank then
    if cfg.sameGroup b i then
      (if isRead then cfg.tCCD_L else max cfg.tCCD_L cfg.wrToRdDlySameBG,
        if isRead then max cfg.tCCD_L cfg.rdToWrDlySameBG else cfg.tCCD_L_WR)
    else
      (if isRead then burstGap else cfg.writeToReadDelay,
        if isRead then cfg.readToWriteDelay else burstGap)
  else
    (cfg.rankToRankDelay, cfg.rankToRankDelay)

/-- The column delays of all banks after a burst at `cmdAt`. -/
def delayed (cmdAt : Nat) (isRead : Bool) (burstGap : Nat) (sameRank : Bool) : Rank B :=
  { r with
    banks := fun i =>
      let delays := columnDelays cfg b isRead burstGap sameRank i
      { r.banks i with
        rdAllowedAt := max (cmdAt + delays.1) (r.banks i).rdAllowedAt
        wrAllowedAt := max (cmdAt + delays.2) (r.banks i).wrAllowedAt } }

/-- The burst itself: its bank, the last burst of the rank, and the command. -/
def burst (cmdAt : Nat) (isRead : Bool) (row : Nat) : Rank B :=
  let readyTime := cmdAt + (if isRead then cfg.tRL else cfg.tWL) + cfg.tBURST
  { r with
    banks := fun i =>
      let bank := r.banks i
      if i = b then
        { bank with
          preAllowedAt := max bank.preAllowedAt
            (if isRead then cmdAt + cfg.tRTP else readyTime + cfg.tWR)
          rowAccesses := bank.rowAccesses + 1 }
      else bank
    lastBurstTick := cmdAt
    cmdList := r.cmdList ++ [.col isRead b row cmdAt] }

end Rank

/-- The scan of the queues for a row hit, which ends the scan, and for a bank conflict. -/
def scanQueue {R B : Nat} (cfg : Config) (pkt : MemPacket R B) :
    List (MemPacket R B) → Bool × Bool → Bool × Bool
  | [], got => got
  | p :: ps, got =>
    if got.1 then got
    else if p.pseudoChannel ≠ cfg.pseudoChannel then scanQueue cfg pkt ps got
    else if p.id = pkt.id then scanQueue cfg pkt ps got
    else
      let sameRankBank := decide (pkt.rank = p.rank ∧ pkt.bank = p.bank)
      let sameRow := decide (pkt.row = p.row)
      scanQueue cfg pkt ps (got.1 || (sameRankBank && sameRow), got.2 || (sameRankBank && !sameRow))

/-- Whether the page policy closes the row after the access. -/
def autoPrecharge {R B : Nat} (cfg : Config) (pkt : MemPacket R B)
    (queue : List (List (MemPacket R B))) (rowAccesses : Nat) : Bool :=
  if cfg.pageMgmt = .close ∨ rowAccesses = cfg.maxAccessesPerRow then true
  else if cfg.pageMgmt = .openAdaptive ∨ cfg.pageMgmt = .closeAdaptive then
    let got := scanQueue cfg pkt queue.flatten (false, false)
    !got.1 && (got.2 || decide (cfg.pageMgmt = .closeAdaptive))
  else false

/-! ### The interface -/

structure Interface (R B : Nat) where
  curTick : Nat
  burstTicks : List Nat
  ranks : Fin R → Rank B

namespace Interface

variable {R B : Nat} (cfg : Config) (s : Interface R B)

def setRank (k : Fin R) (r : Rank B) : Interface R B :=
  { s with ranks := Function.update s.ranks k r }

/-- The burst of a packet at `cmdAt`, with the delays it puts on all banks, and the
precharge after it if the page policy asks for one. -/
def issueBurst (pkt : MemPacket R B) (queue : List (List (MemPacket R B))) (burstTicks : List Nat)
    (opened : Rank B) (cmdAt burstGap : Nat) : Except Fault (Interface R B) :=
  let others : Interface R B :=
    { s with ranks := fun j => (s.ranks j).delayed cfg pkt.bank cmdAt pkt.isRead burstGap false }
  let rank := (opened.delayed cfg pkt.bank cmdAt pkt.isRead burstGap true).burst cfg pkt.bank
    cmdAt pkt.isRead pkt.row
  let bank := rank.banks pkt.bank
  let closed :=
    if autoPrecharge cfg pkt queue bank.rowAccesses then
      rank.prechargeBank cfg pkt.bank burstTicks (max s.curTick bank.preAllowedAt) true true
    else .ok (burstTicks, rank)
  closed.map fun closed => { others.setRank pkt.rank closed.2 with burstTicks := closed.1 }

/-- A burst access, for which the controller first prunes the bus. -/
def doBurstAccess (pkt : MemPacket R B) (nextBurstAt : Nat)
    (queue : List (List (MemPacket R B))) : Except Fault (Interface R B) :=
  let rank := s.ranks pkt.rank
  if rank.refreshState ≠ .idle then .error .notIdle
  else
    let rank := if rank.inLowPowerState then rank.scheduleWakeUpEvent s.curTick cfg.tXP else rank
    let burstTicks := pruneBurstTick s.burstTicks s.curTick
    (rank.openBank cfg pkt.bank burstTicks s.curTick pkt.row).bind fun opened =>
    (opened.2.columnSlot cfg pkt.bank opened.1 s.curTick nextBurstAt pkt.isRead).bind fun slot =>
    let cmd := opened.2.interleaved cfg slot.2
    s.issueBurst cfg pkt queue slot.1 opened.2 cmd.1 cmd.2

/-- All banks of a rank are precharged for a refresh (`REF_PRE`). -/
def prechargeAll (k : Fin R) : Except Fault (Interface R B) :=
  let rank := s.ranks k
  let preAt := (List.finRange B).foldl (fun t i => max (rank.banks i).preAllowedAt t) s.curTick
  (Script.run (Rank.prechargeFor cfg preAt) (List.finRange B) rank).map (s.setRank k)

/-- The refresh of a rank with all banks closed (`REF_START`). -/
def refresh (k : Fin R) : Except Fault (Interface R B) :=
  let rank := s.ranks k
  if rank.numBanksActive ≠ 0 then .error .banksActive
  else
    .ok (s.setRank k
      { rank with
        banks := fun i => { rank.banks i with actAllowedAt := s.curTick + cfg.tRFC }
        refreshState := .run
        cmdList := [] })

/-- What happens around a DRAM interface: time passes, a packet is served whose rank is
not refreshing, a rank is powered down or woken up, and the steps of its refresh. -/
inductive Action (R B : Nat) where
  | advance (tick : Nat)
  | doBurstAccess (pkt : MemPacket R B) (nextBurstAt : Nat) (queue : List (List (MemPacket R B)))
  | powerDownSleep (k : Fin R)
  | scheduleWakeUpEvent (k : Fin R) (exitDelay : Nat)
  | refreshDue (k : Fin R)
  | prechargeAll (k : Fin R)
  | refresh (k : Fin R)
  | refreshDone (k : Fin R)

/-- A rank is refreshed when its last precharge is done, so when all its activations are
in the past. -/
def step : Action R B → Option (Except Fault (Interface R B))
  | .advance tick => if s.curTick ≤ tick then some (.ok { s with curTick := tick }) else none
  | .doBurstAccess pkt nextBurstAt queue =>
    if (s.ranks pkt.rank).refreshState = .idle then
      some (s.doBurstAccess cfg pkt nextBurstAt queue)
    else none
  | .powerDownSleep k => some (.ok (s.setRank k ((s.ranks k).powerDownSleep cfg s.curTick)))
  | .scheduleWakeUpEvent k exitDelay =>
    some (.ok (s.setRank k ((s.ranks k).scheduleWakeUpEvent s.curTick exitDelay)))
  | .refreshDue k =>
    if (s.ranks k).refreshState = .idle then
      some (.ok (s.setRank k { s.ranks k with refreshState := .drain }))
    else none
  | .prechargeAll k =>
    if (s.ranks k).refreshState = .drain ∧ (s.ranks k).numBanksActive ≠ 0 then
      some (s.prechargeAll cfg k)
    else none
  | .refresh k =>
    if (s.ranks k).refreshState = .drain ∧ (s.ranks k).numBanksActive = 0 ∧
        ∀ t ∈ (s.ranks k).actTicks, t ≤ s.curTick then
      some (s.refresh cfg k)
    else none
  | .refreshDone k =>
    if (s.ranks k).refreshState = .run then
      some (.ok (s.setRank k { s.ranks k with refreshState := .idle }))
    else none

def machine : Machine (Interface R B) (Action R B) Fault where
  start := { curTick := 0, burstTicks := [], ranks := fun _ => Rank.new cfg B }
  step := step cfg

end Interface

end Dram
