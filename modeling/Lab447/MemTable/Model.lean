import Lab447.Lib.Machine

/-!
The memory table of `mem/python/mem_table.py` with its two allocation policies.
A table is an ordered list of blocks; `allocate` cuts a block off a free one and
`deallocate` frees a block and merges it with its free neighbours in place.
-/

namespace MemTable

/-- One entry of `self.table`. `valid` is the entry's `valid = 1`: the block is
free. `deallocate` writes a key `tensor` that no other code reads, but the entry
takes part in comparisons by value (`list.remove`), so it is kept. -/
structure Block where
  valid : Bool
  addr : Nat
  size : Nat
  tensorName : String
  tensor : Option String := none
  deriving DecidableEq, Repr

/-- `policy_list` of `allocation_policies/policy.py`. -/
inductive Policy where
  | firstFit
  | bestFit
  deriving DecidableEq, Repr

/-- The loop of `first_fit.getBlkIdx`, from index `idx` on. -/
def firstFitLoop (tensorSize : Nat) : List Block → Nat → Option Nat
  | [], _ => none
  | blk :: rest, idx =>
    if blk.valid = false then firstFitLoop tensorSize rest (idx + 1)
    else if tensorSize ≤ blk.size then some idx
    else firstFitLoop tensorSize rest (idx + 1)

/-- The loop of `best_fit.getBlkIdx` with its accumulators. -/
def bestFitLoop (tensorSize : Nat) : List Block → Nat → Option Nat → Nat → Option Nat
  | [], _, bestIdx, _ => bestIdx
  | blk :: rest, idx, bestIdx, bestSize =>
    if blk.valid = false then bestFitLoop tensorSize rest (idx + 1) bestIdx bestSize
    else if tensorSize ≤ blk.size ∧ blk.size < bestSize then
      bestFitLoop tensorSize rest (idx + 1) (some idx) blk.size
    else bestFitLoop tensorSize rest (idx + 1) bestIdx bestSize

/-- `policy.getBlkIdx`; `none` is the index -1. -/
def getBlkIdx (table : List Block) (tensorSize memMax : Nat) (policy : Policy) : Option Nat :=
  if memMax < tensorSize then none
  else
    match policy with
    | .firstFit => firstFitLoop tensorSize table 0
    | .bestFit => bestFitLoop tensorSize table 0 none (memMax + 1)

end MemTable

/-- `MemTable` of `mem_table.py`. -/
structure MemTable where
  table : List MemTable.Block
  policyName : MemTable.Policy
  size : Nat
  deriving DecidableEq, Repr

namespace MemTable

/-- `MemTable.__init__`. -/
def new (size : Nat) (policyName : Policy) : MemTable where
  table := [{ valid := true, addr := 0, size := size, tensorName := "" }]
  policyName := policyName
  size := size

/-- The table after block `idx` gave `tensorSize` bytes to a tensor. -/
def place (table : List Block) (idx : Nat) (blk : Block) (tensorName : String)
    (tensorSize : Nat) : List Block :=
  if tensorSize = blk.size then
    table.set idx { blk with valid := false, tensorName := tensorName }
  else
    (table.set idx { blk with addr := blk.addr + tensorSize, size := blk.size - tensorSize }).insertIdx
      idx { valid := false, addr := blk.addr, size := tensorSize, tensorName := tensorName }

/-- `MemTable.allocate`: the size that could not be placed, the address or -1,
and the table left behind. -/
def allocate (t : MemTable) (tensorName : String) (tensorSize : Nat) : (Nat × Int) × MemTable :=
  match getBlkIdx t.table tensorSize t.size t.policyName with
  | none => ((tensorSize, -1), t)
  | some blkIdx =>
    match t.table[blkIdx]? with
    | none => ((tensorSize, -1), t) -- `getBlkIdx` only returns indices of the table
    | some blk => ((0, blk.addr), { t with table := place t.table blkIdx blk tensorName tensorSize })

/-- Block `idx` takes over a free block after it. `list.remove` deletes the
first entry equal to that block, wherever it stands. -/
def mergeNext (table : List Block) (idx : Nat) : List Block :=
  match table[idx + 1]? with
  | some next =>
    if next.valid then
      (table.modify idx fun blk => { blk with size := blk.size + next.size }).erase next
    else table
  | none => table

/-- Block `idx` takes over a free block before it. -/
def mergePrev (table : List Block) (idx : Nat) : List Block :=
  match table[idx - 1]? with
  | some prev =>
    if prev.valid then
      (table.modify idx fun blk => { blk with addr := prev.addr, size := blk.size + prev.size }).erase
        prev
    else table
  | none => table

/-- The body of the loop of `deallocate` once the block `idx` was found. -/
def release (table : List Block) (idx : Nat) : List Block :=
  let freed := table.modify idx fun blk => { blk with valid := true, tensor := some "" }
  if idx = 0 then mergeNext freed idx
  else if idx = table.length - 1 then mergePrev freed idx
  else mergePrev (mergeNext freed idx) idx

/-- What `deallocate` can raise: with a single block left it reads the loop
variable `idx` before the loop that binds it. -/
inductive Raise where
  | unboundLocal
  deriving DecidableEq, Repr

/-- `MemTable.deallocate`. -/
def deallocate (t : MemTable) (tensorName : String) : Except Raise (Bool × MemTable) :=
  match t.table with
  | [blk] => if blk.tensorName ≠ tensorName then .ok (false, t) else .error .unboundLocal
  | table =>
    match table.findIdx? fun blk => blk.tensorName = tensorName with
    | some idx => .ok (true, { t with table := release table idx })
    | none => .ok (false, t)

/-- The calls a client can make. -/
inductive Call where
  | allocate (tensorName : String) (tensorSize : Nat)
  | deallocate (tensorName : String)
  deriving DecidableEq, Repr

/-- The table after a call. -/
def call (t : MemTable) : Call → Except Raise MemTable
  | .allocate tensorName tensorSize => .ok (t.allocate tensorName tensorSize).2
  | .deallocate tensorName => (t.deallocate tensorName).map Prod.snd

/-- A client of one table of `size` bytes: every call is possible in every
state, and a call that raises ends the run. -/
def client (size : Nat) (policyName : Policy) : Machine MemTable Call Raise where
  start := new size policyName
  step t c := some (t.call c)

end MemTable
