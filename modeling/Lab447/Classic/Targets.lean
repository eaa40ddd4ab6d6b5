import Lab447.Classic.Packet

/-!
The target lists of a miss status holding register, `MSHR::TargetList` of
`gem5/src/mem/cache/mshr.cc` and `mshr.hh`, with the flags that they keep about their
targets. The data of packets and the registers of the caches above are left out; of
the latter a packet only has whether there is one.
-/

namespace Classic.Misses

/-- `MSHR::Target::Source`. -/
inductive Source where
  | FromCPU | FromSnoop | FromPrefetcher
  deriving DecidableEq

/-- The flags of a request that target lists and registers read. -/
structure RequestFlags where
  uncacheable : Bool := false
  strictOrder : Bool := false
  privileged : Bool := false
  llsc : Bool := false
  memSwap : Bool := false
  memSwapCond : Bool := false
  secure : Bool := false
  lockedRMW : Bool := false
  clean : Bool := false
  invalidate : Bool := false
  deriving DecidableEq

namespace RequestFlags

def isCacheInvalidate (r : RequestFlags) : Bool := r.invalidate

def isCacheMaintenance (r : RequestFlags) : Bool := r.clean || r.invalidate

/-- One of `no_merge_flags` is set. -/
def noMerge (r : RequestFlags) : Bool :=
  r.uncacheable || r.strictOrder || r.privileged || r.llsc || r.memSwap || r.memSwapCond ||
    r.secure || r.lockedRMW

end RequestFlags

/-- `ptr` is the address of the packet, and `hasMSHR` holds if there is a register
among its sender states. -/
structure Packet where
  ptr : Nat
  cmd : MemCmd
  req : RequestFlags := {}
  addr : Nat
  size : Nat
  flags : Classic.Flags := {}
  hasMSHR : Bool := false
  deriving DecidableEq

namespace Packet

def isUpgrade (pkt : Packet) : Bool := pkt.cmd.testCmdAttrib .IsUpgrade

def getOffset (pkt : Packet) (blkSize : Nat) : Nat := pkt.addr &&& (blkSize - 1)

end Packet

/-- The static function `replaceUpgrade`. -/
def replaceUpgrade (pkt : Packet) : Packet :=
  match pkt.cmd with
  | .UpgradeReq => { pkt with cmd := .ReadExReq }
  | .SCUpgradeReq => { pkt with cmd := .SCUpgradeFailReq }
  | .StoreCondReq => { pkt with cmd := .StoreCondFailReq }
  | _ => pkt

structure Target where
  pkt : Packet
  readyTime : Nat
  order : Nat
  source : Source
  markedPending : Bool
  allocOnFill : Bool
  deriving DecidableEq

/-- What a list keeps about its targets. -/
structure ListFlags where
  needsWritable : Bool
  hasUpgrade : Bool
  allocOnFill : Bool
  hasFromCache : Bool
  canMergeWrites : Bool
  writesBitmap : List Bool
  deriving DecidableEq

namespace ListFlags

def reset (blkSize : Nat) : ListFlags := ⟨false, false, false, false, true, List.replicate blkSize false⟩

def isWholeLineWrite (f : ListFlags) : Bool := f.writesBitmap.all id

/-- `std::fill` over the bytes of a packet. -/
def fill (bitmap : List Bool) (offset size : Nat) : List Bool :=
  bitmap.mapIdx fun i written => written || decide (offset ≤ i ∧ i < offset + size)

/-- `updateWriteFlags`, where `empty` says whether the list is. -/
def updateWriteFlags (f : ListFlags) (blkSize : Nat) (empty : Bool) (pkt : Packet) : ListFlags :=
  if f.isWholeLineWrite then f
  else if !f.canMergeWrites then f
  else if !pkt.cmd.isWrite then { f with canMergeWrites := false }
  else
    { f with
      writesBitmap :=
        if empty || !pkt.req.noMerge then fill f.writesBitmap (pkt.getOffset blkSize) pkt.size
        else f.writesBitmap
      canMergeWrites := !pkt.req.noMerge }

def updateFlags (f : ListFlags) (blkSize : Nat) (empty : Bool) (pkt : Packet) (source : Source)
    (allocOnFill : Bool) : ListFlags :=
  if source = .FromSnoop then f
  else
    let f := { f with
      needsWritable := f.needsWritable || pkt.cmd.needsWritable
      hasUpgrade := f.hasUpgrade || pkt.isUpgrade || decide (pkt.cmd = .StoreCondReq)
      allocOnFill := f.allocOnFill || allocOnFill }
    if source = .FromPrefetcher then f
    else { f with hasFromCache := f.hasFromCache || pkt.cmd.fromCache }.updateWriteFlags
      blkSize empty pkt

end ListFlags

structure TargetList where
  blkSize : Nat
  targets : List Target
  flags : ListFlags
  deriving DecidableEq

namespace TargetList

/-- `init` on a list without targets. -/
def init (blkSize : Nat) : TargetList := ⟨blkSize, [], .reset blkSize⟩

def resetFlags (l : TargetList) : TargetList := { l with flags := .reset l.blkSize }

def isReset (l : TargetList) : Bool :=
  !l.flags.needsWritable && !l.flags.hasUpgrade && !l.flags.allocOnFill &&
    !l.flags.hasFromCache && l.flags.canMergeWrites

def isWholeLineWrite (l : TargetList) : Bool := l.flags.isWholeLineWrite

def updateFlags (l : TargetList) (pkt : Packet) (source : Source) (allocOnFill : Bool) :
    TargetList :=
  { l with flags := l.flags.updateFlags l.blkSize l.targets.isEmpty pkt source allocOnFill }

def populateFlags (l : TargetList) : TargetList :=
  l.targets.foldl (fun l t => l.updateFlags t.pkt t.source t.allocOnFill) l.resetFlags

/-- Only a packet that has an upstream register stays marked. -/
def add (l : TargetList) (pkt : Packet) (readyTime order : Nat) (source : Source)
    (markPending allocOnFill : Bool) : TargetList :=
  let l := l.updateFlags pkt source allocOnFill
  { l with targets :=
      l.targets ++ [⟨pkt, readyTime, order, source, markPending && pkt.hasMSHR, allocOnFill⟩] }

def replaceUpgrades (l : TargetList) : TargetList :=
  if !l.flags.hasUpgrade then l
  else
    { l with
      targets := l.targets.map fun t => { t with pkt := replaceUpgrade t.pkt }
      flags := { l.flags with hasUpgrade := false } }

def clearDownstreamPending (ts : List Target) : List Target :=
  ts.map fun t => { t with markedPending := false }

end TargetList

/-! ### Flags that are computed again -/

/-- The arguments of a call of `add`. -/
structure Addition where
  pkt : Packet
  readyTime : Nat
  order : Nat
  source : Source
  markPending : Bool
  allocOnFill : Bool
  deriving DecidableEq

/-- The calls of `add` in their order. -/
def TargetList.addAll (l : TargetList) (calls : List Addition) : TargetList :=
  calls.foldl
    (fun l c => l.add c.pkt c.readyTime c.order c.source c.markPending c.allocOnFill) l

/-- A write of the CPU that must not be merged with others and writes something. -/
def Addition.SpecialWrite (c : Addition) : Prop :=
  c.source = .FromCPU ∧ c.pkt.cmd.isWrite = true ∧ c.pkt.req.noMerge = true ∧ 0 < c.pkt.size

instance (c : Addition) : Decidable c.SpecialWrite :=
  inferInstanceAs (Decidable (_ ∧ _ ∧ _ ∧ _))

namespace ListFlags

variable {f : ListFlags} {blkSize : Nat} {c : Addition}

/-- The flags after a call, where `empty` says whether the list was. -/
def after (blkSize : Nat) (empty : Bool) (f : ListFlags) (c : Addition) : ListFlags :=
  f.updateFlags blkSize empty c.pkt c.source c.allocOnFill

/-- Once nothing can be merged, the bitmap stays. -/
theorem after_of_not_merge (empty : Bool) (stuck : f.canMergeWrites = false) :
    (f.after blkSize empty c).canMergeWrites = false ∧
    (f.after blkSize empty c).writesBitmap = f.writesBitmap := by
  unfold after updateFlags
  split
  · exact ⟨stuck, rfl⟩
  · dsimp only
    split
    · exact ⟨stuck, rfl⟩
    · unfold updateWriteFlags
      split
      · exact ⟨stuck, rfl⟩
      · rw [if_pos (by simp [stuck])]
        exact ⟨stuck, rfl⟩

theorem foldl_after_of_not_merge (calls : List Addition) (stuck : f.canMergeWrites = false) :
    (calls.foldl (after blkSize false) f).writesBitmap = f.writesBitmap := by
  induction calls generalizing f with
  | nil => rfl
  | cons c calls ih =>
    obtain ⟨stuck', same⟩ := @after_of_not_merge f blkSize c false stuck
    rw [List.foldl_cons, ih stuck', same]

theorem fill_zero (bitmap : List Bool) (offset : Nat) : fill bitmap offset 0 = bitmap := by
  have none (i : Nat) : decide (offset ≤ i ∧ i < offset + 0) = false := by
    simp only [decide_eq_false_iff_not]
    omega
  simp only [fill, none, Bool.or_false]
  apply List.ext_getElem?
  simp

/-- Whether the list is empty only matters for a special write. -/
theorem after_empty_eq (h : ¬ c.SpecialWrite) :
    f.after blkSize true c = f.after blkSize false c := by
  unfold after updateFlags
  split
  · rfl
  · split
    · rfl
    · have cpu : c.source = .FromCPU := by
        cases source : c.source <;> simp_all
      cases write : c.pkt.cmd.isWrite with
      | false => simp [updateWriteFlags, write]
      | true =>
        cases special : c.pkt.req.noMerge with
        | false => simp [updateWriteFlags, special]
        | true =>
          have size : c.pkt.size = 0 := by
            have := mt (fun pos => ⟨cpu, write, special, pos⟩) h
            omega
          simp [updateWriteFlags, special, size, fill_zero]

theorem fill_ne {n offset size : Nat} (pos : 0 < size) (inside : offset + size ≤ n) :
    fill (List.replicate n false) offset size ≠ List.replicate n false := by
  intro same
  have written : (fill (List.replicate n false) offset size)[offset]? = some true := by
    rw [fill, List.getElem?_mapIdx, List.getElem?_replicate, if_pos (by omega)]
    simp only [Option.map_some, Bool.false_or, Option.some.injEq, decide_eq_true_eq]
    omega
  rw [same, List.getElem?_replicate, if_pos (by omega)] at written
  cases written

theorem reset_not_whole (pos : 0 < blkSize) : (reset blkSize).isWholeLineWrite = false := by
  simp [reset, isWholeLineWrite]
  omega

/-- The first call, as `add` sees it and as `populateFlags` sees it. -/
theorem after_special (special : c.SpecialWrite) (pos : 0 < blkSize) (empty : Bool) :
    ((reset blkSize).after blkSize empty c).canMergeWrites = false ∧
    ((reset blkSize).after blkSize empty c).writesBitmap =
      if empty then fill (List.replicate blkSize false) (c.pkt.getOffset blkSize) c.pkt.size
      else List.replicate blkSize false := by
  obtain ⟨source, write, noMerge, -⟩ := special
  have bytes (f : ListFlags) (h : f.writesBitmap = List.replicate blkSize false) :
      f.isWholeLineWrite = false := by
    rw [isWholeLineWrite, h]
    exact reset_not_whole pos
  unfold after updateFlags
  rw [source, if_neg (by decide), if_neg (by decide), updateWriteFlags, if_neg]
  · simp [reset, write, noMerge]
  · rw [bytes _ rfl]
    decide

end ListFlags

namespace Addition

def target (c : Addition) : Target :=
  ⟨c.pkt, c.readyTime, c.order, c.source, c.markPending && c.pkt.hasMSHR, c.allocOnFill⟩

end Addition

namespace TargetList

open ListFlags

theorem foldl_updateFlags (ts : List Target) (l : TargetList) :
    ts.foldl (fun l t => l.updateFlags t.pkt t.source t.allocOnFill) l =
      { l with flags := ts.foldl (fun f t =>
          f.updateFlags l.blkSize l.targets.isEmpty t.pkt t.source t.allocOnFill) l.flags } := by
  induction ts generalizing l with
  | nil => rfl
  | cons t ts ih => rw [List.foldl_cons, ih, List.foldl_cons, updateFlags]

/-- A list that has targets takes every further call as not the first one. -/
theorem addAll_of_ne_nil (l : TargetList) (ne : l.targets ≠ []) (calls : List Addition) :
    l.addAll calls = ⟨l.blkSize, l.targets ++ calls.map Addition.target,
      calls.foldl (after l.blkSize false) l.flags⟩ := by
  induction calls generalizing l with
  | nil => simp [addAll]
  | cons c calls ih =>
    have empty : l.targets.isEmpty = false := by simpa using ne
    change (l.add _ _ _ _ _ _).addAll calls = _
    rw [ih _ (by simp [add])]
    simp [add, updateFlags, empty, after, Addition.target]

theorem addAll_cons (blkSize : Nat) (c : Addition) (calls : List Addition) :
    (init blkSize).addAll (c :: calls) = ⟨blkSize, (c :: calls).map Addition.target,
      calls.foldl (after blkSize false) ((reset blkSize).after blkSize true c)⟩ := by
  change ((init blkSize).add _ _ _ _ _ _).addAll calls = _
  rw [addAll_of_ne_nil _ (by simp [add])]
  rfl

theorem populateFlags_addAll_cons (blkSize : Nat) (c : Addition) (calls : List Addition) :
    ((init blkSize).addAll (c :: calls)).populateFlags =
      ⟨blkSize, (c :: calls).map Addition.target,
        calls.foldl (after blkSize false) ((reset blkSize).after blkSize false c)⟩ := by
  rw [addAll_cons, populateFlags, foldl_updateFlags, List.foldl_map]
  rfl

/-- Computing the flags again changes none, for any calls of `add` with packets inside
the block, exactly if the first call is not for a special write: only `add` sees that
this is the first one. -/
theorem populateFlags_eq_iff (blkSize : Nat) (calls : List Addition)
    (inside : ∀ c ∈ calls, c.pkt.getOffset blkSize + c.pkt.size ≤ blkSize) :
    ((init blkSize).addAll calls).populateFlags = (init blkSize).addAll calls ↔
      ∀ c, calls.head? = some c → ¬ c.SpecialWrite := by
  cases calls with
  | nil => simp [addAll, populateFlags, init, resetFlags]
  | cons c calls =>
    rw [populateFlags_addAll_cons, addAll_cons, TargetList.mk.injEq]
    simp only [true_and, List.head?_cons, Option.some.injEq, forall_eq']
    have bound := inside c List.mem_cons_self
    constructor
    · intro same special
      have pos : 0 < blkSize := by
        have := special.2.2.2
        omega
      obtain ⟨stuck, bitmap⟩ := after_special special pos false
      obtain ⟨stuck', bitmap'⟩ := after_special special pos true
      have bytes := congrArg writesBitmap same
      rw [foldl_after_of_not_merge _ stuck, foldl_after_of_not_merge _ stuck', bitmap,
        bitmap'] at bytes
      exact fill_ne special.2.2.2 bound bytes.symm
    · intro ordinary
      rw [after_empty_eq ordinary]

/-- A secure write of a whole line of 64 bytes. -/
def secureLineWrite : Addition where
  pkt := { ptr := 0, cmd := .WriteReq, req := { secure := true }, addr := 0, size := 64 }
  readyTime := 0
  order := 0
  source := .FromCPU
  markPending := true
  allocOnFill := true

/-- It is serviced as the write of a whole line until the flags are computed again. -/
theorem secure_line_write_forgotten :
    secureLineWrite.pkt.getOffset 64 + secureLineWrite.pkt.size ≤ 64 ∧
    ((init 64).addAll [secureLineWrite]).isWholeLineWrite = true ∧
    ((init 64).addAll [secureLineWrite]).populateFlags.isWholeLineWrite = false := by
  decide

/-- After a read the same write is not the first target. -/
theorem secure_line_write_after_read :
    let read : Addition := { secureLineWrite with
      pkt := { ptr := 1, cmd := .ReadReq, addr := 8, size := 8 } }
    ((init 64).addAll [read, secureLineWrite]).populateFlags =
      (init 64).addAll [read, secureLineWrite] := by
  intro read
  apply (populateFlags_eq_iff 64 [read, secureLineWrite] (by decide)).mpr
  intro c head
  cases head
  decide

end TargetList

end Classic.Misses
