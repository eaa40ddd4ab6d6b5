import Lab447.Ruby.L1Cache

/-!
The L2 banks of `lab447_mesi_two_level_cache_hierarchy.py`: how many are built,
which of them is the home of a line, and which set of it the line is in. The
number of banks comes from the hierarchy, the bits that select one from the L1
wrapper, the start of the set index from the L2 wrapper and the block size from
the Ruby system.
-/

namespace Ruby

/-- The parameters of the hierarchy, with the number of cores and the cache line
size of its board and the block size of its Ruby system. -/
structure Hierarchy where
  l2Size : Nat
  l2Assoc : Nat
  l2PerTile : Nat
  numCols : Nat
  numTiles : Nat
  pePerTile : Nat
  numCores : Nat
  cacheLineSize : Nat := 64
  blockSizeBytes : Nat := 64

namespace Hierarchy

variable (h : Hierarchy)

/-- The controllers `incorporate_cache` makes. Their versions count up from 0. -/
def numL2Controllers : Nat := h.l2PerTile * h.numTiles

/-- `int(math.log(num_l2Caches, 2))` of the L1 wrapper, which is given the banks of
one tile. -/
def l2SelectNumBits : Nat := Nat.log 2 h.l2PerTile

/-- `L2Cache.getIndexBit`. -/
def getIndexBit : Nat := Nat.log 2 h.cacheLineSize + Nat.log 2 h.l2PerTile

/-- `RubySystem::getBlockSizeBits`. -/
def blockSizeBits : Nat := Nat.log 2 h.blockSizeBytes

/-- The number of sets of a bank. -/
def cacheNumSets : Nat := h.l2Size / h.l2Assoc / h.blockSizeBytes

/-- An L2 bank after `CacheMemory::init`. -/
def bank : CacheMemory := .empty h.getIndexBit (Nat.log 2 h.cacheNumSets) h.l2Assoc

/-- The assertions of `GTRocket.connectControllers` on the shape of the mesh. -/
def connectable : Bool :=
  decide (h.pePerTile % h.numCols = 0) && decide (h.l2PerTile ≤ h.numCols) &&
    decide (h.pePerTile / h.numCols * h.numCols * (h.numCores / h.pePerTile) = h.numCores)

/-- A configuration that can be built: besides the network, a power of two as
block size and banks with more than one set. -/
structure Accepted : Prop where
  numTiles : 1 ≤ h.numTiles
  l2PerTile : 1 ≤ h.l2PerTile
  connectable : h.connectable = true
  blockSize : h.blockSizeBytes = 2 ^ h.blockSizeBits
  sets : 1 < h.cacheNumSets

def isLine (addr : Addr) : Prop := addr % h.blockSizeBytes = 0

/-- The L2 bank the L1 actions send to. -/
def home (addr : Addr) : MachineID :=
  mapAddressToRange addr .L2Cache h.blockSizeBits h.l2SelectNumBits 0

/-- The settings of an L1 that are made by the hierarchy. -/
def configures (cfg : Config) : Prop :=
  cfg.blockSizeBits = h.blockSizeBits ∧ cfg.l2SelectNumBits = h.l2SelectNumBits

theorem toL2_eq_home {cfg : Config} (made : h.configures cfg) (x : Ctx) :
    x.toL2 cfg = [h.home x.address] := by
  rw [Ctx.toL2, made.1, made.2]
  rfl

/-- Every controller is the home of some line. -/
def EveryBankUsed : Prop :=
  ∀ n < h.numL2Controllers, ∃ a, h.isLine a ∧ h.home a = ⟨.L2Cache, n⟩

/-- In every controller every set has a line that is at home there. -/
def EverySetUsed : Prop :=
  ∀ n < h.numL2Controllers, ∀ i < 2 ^ h.bank.numSetBits,
    ∃ a, h.isLine a ∧ h.home a = ⟨.L2Cache, n⟩ ∧ h.bank.addressToCacheSet a = i

variable {h}

theorem home_eq (a : Addr) : h.home a =
    ⟨.L2Cache, a / 2 ^ h.blockSizeBits % 2 ^ h.l2SelectNumBits⟩ := by
  unfold home mapAddressToRange
  split
  · rename_i h0
    rw [h0, pow_zero, Nat.mod_one]
  · rw [bitSelect, show h.blockSizeBits + h.l2SelectNumBits - 1 - h.blockSizeBits + 1 =
      h.l2SelectNumBits by omega, Nat.mul_zero, Nat.add_zero]

theorem home_lt (a : Addr) : (h.home a).num < 2 ^ h.l2SelectNumBits := by
  rw [home_eq]
  exact Nat.mod_lt _ (Nat.two_pow_pos _)

/-- All controllers get lines only if one tile has them all, and they are a power
of two. -/
theorem EveryBankUsed.shape (acc : h.Accepted) (used : h.EveryBankUsed) :
    h.numTiles = 1 ∧ h.l2PerTile = 2 ^ h.l2SelectNumBits := by
  have tiles := acc.numTiles
  have banks := acc.l2PerTile
  have built : h.l2PerTile ≤ h.numL2Controllers := Nat.le_mul_of_pos_right _ tiles
  have select : 2 ^ h.l2SelectNumBits ≤ h.l2PerTile := Nat.pow_log_le_self 2 (by omega)
  obtain ⟨a, -, ha⟩ := used (h.numL2Controllers - 1) (by omega)
  have last := home_lt (h := h) a
  rw [ha] at last
  have all : h.l2PerTile * h.numTiles ≤ h.l2PerTile * 1 := by
    change h.numL2Controllers ≤ _
    simp only at last
    omega
  exact ⟨le_antisymm (Nat.le_of_mul_le_mul_left all banks) tiles,
    by simp only at last; omega⟩

/-- A set index that starts below the bits of the block offset and the bank misses
every odd set of the first bank. -/
theorem EverySetUsed.index_above (acc : h.Accepted) (used : h.EverySetUsed) :
    h.blockSizeBits ≤ Nat.log 2 h.cacheLineSize := by
  by_contra below
  have bits : 1 ≤ h.bank.numSetBits := Nat.log_pos (by decide) acc.sets
  have two : 2 ≤ 2 ^ h.bank.numSetBits := Nat.le_self_pow (by omega) 2
  obtain ⟨a, line, hhome, hset⟩ := used 0 (Nat.mul_pos acc.l2PerTile acc.numTiles) 1 (by omega)
  rw [home_eq] at hhome
  rw [isLine, acc.blockSize] at line
  obtain ⟨b, rfl⟩ := Nat.dvd_of_mod_eq_zero line
  have low : b % 2 ^ h.l2SelectNumBits = 0 := by
    have := congrArg MachineID.num hhome
    rwa [Nat.mul_div_cancel_left b (Nat.two_pow_pos _)] at this
  obtain ⟨c, rfl⟩ := Nat.dvd_of_mod_eq_zero low
  -- what is left of the address above the start of the index is even
  obtain ⟨d, hd⟩ : ∃ d, h.blockSizeBits = Nat.log 2 h.cacheLineSize + d + 1 :=
    ⟨h.blockSizeBits - Nat.log 2 h.cacheLineSize - 1, by omega⟩
  have even : 2 ^ h.blockSizeBits * (2 ^ h.l2SelectNumBits * c) =
      2 ^ h.getIndexBit * (2 * (2 ^ d * c)) := by
    rw [getIndexBit, hd, l2SelectNumBits]
    ring
  rw [CacheMemory.addressToCacheSet, even] at hset
  change 2 ^ h.getIndexBit * (2 * (2 ^ d * c)) / 2 ^ h.getIndexBit % _ = 1 at hset
  rw [Nat.mul_div_cancel_left _ (Nat.two_pow_pos _)] at hset
  obtain ⟨m, hm⟩ : 2 ∣ 2 ^ h.bank.numSetBits := dvd_pow_self 2 (by omega)
  rw [hm, Nat.mul_mod_mul_left] at hset
  omega

/-- A line with a given bank and set index. -/
theorem exists_line (acc : h.Accepted) (above : h.blockSizeBits ≤ Nat.log 2 h.cacheLineSize)
    {n i : Nat} (hn : n < 2 ^ h.l2SelectNumBits) (hi : i < 2 ^ h.bank.numSetBits) :
    ∃ a, h.isLine a ∧ h.home a = ⟨.L2Cache, n⟩ ∧ h.bank.addressToCacheSet a = i := by
  obtain ⟨d, hd⟩ := Nat.exists_eq_add_of_le above
  have index : h.getIndexBit = h.blockSizeBits + (h.l2SelectNumBits + d) := by
    rw [getIndexBit, hd, l2SelectNumBits]
    ring
  have split : n * 2 ^ h.blockSizeBits + i * 2 ^ h.getIndexBit =
      2 ^ h.blockSizeBits * (n + 2 ^ h.l2SelectNumBits * (2 ^ d * i)) := by
    rw [index]
    ring
  refine ⟨n * 2 ^ h.blockSizeBits + i * 2 ^ h.getIndexBit, ?_, ?_, ?_⟩
  · rw [isLine, acc.blockSize, split, Nat.mul_mod_right]
  · rw [home_eq, split, Nat.mul_div_cancel_left _ (Nat.two_pow_pos _), Nat.add_mul_mod_self_left,
      Nat.mod_eq_of_lt hn]
  · have small : n * 2 ^ h.blockSizeBits < 2 ^ h.getIndexBit := by
      calc n * 2 ^ h.blockSizeBits < 2 ^ h.l2SelectNumBits * 2 ^ h.blockSizeBits :=
            Nat.mul_lt_mul_of_pos_right hn (Nat.two_pow_pos _)
        _ = 2 ^ (h.blockSizeBits + h.l2SelectNumBits) := by rw [pow_add, mul_comm]
        _ ≤ 2 ^ h.getIndexBit := Nat.pow_le_pow_right (by decide) (by omega)
    change (n * 2 ^ h.blockSizeBits + i * 2 ^ h.getIndexBit) / 2 ^ h.getIndexBit % _ = i
    rw [Nat.add_mul_div_right _ _ (Nat.two_pow_pos _), Nat.div_eq_of_lt small, Nat.zero_add,
      Nat.mod_eq_of_lt hi]

/-- Every bank and every set of it is used exactly when there is one tile, the
number of its banks is a power of two, and cache lines are not smaller than the
blocks of the Ruby system. -/
theorem every_bank_used_iff (acc : h.Accepted) :
    h.EveryBankUsed ∧ h.EverySetUsed ↔
      h.numTiles = 1 ∧ h.l2PerTile = 2 ^ h.l2SelectNumBits ∧
        h.blockSizeBits ≤ Nat.log 2 h.cacheLineSize := by
  constructor
  · rintro ⟨banks, sets⟩
    exact ⟨(banks.shape acc).1, (banks.shape acc).2, sets.index_above acc⟩
  · rintro ⟨one, power, above⟩
    have built : h.numL2Controllers = 2 ^ h.l2SelectNumBits := by
      rw [numL2Controllers, one, Nat.mul_one]
      exact power
    refine ⟨fun n hn => ?_, fun n hn i hi => exists_line acc above (built ▸ hn) hi⟩
    obtain ⟨a, line, homed, -⟩ := exists_line acc above (built ▸ hn) (Nat.two_pow_pos _)
    exact ⟨a, line, homed⟩

/-- One tile of 16 PEs in 4 columns, with 4 banks of 16 sets. -/
def oneTile : Hierarchy where
  l2Size := 8192
  l2Assoc := 8
  l2PerTile := 4
  numCols := 4
  numTiles := 1
  pePerTile := 16
  numCores := 16

/-- Two such tiles. -/
def twoTiles : Hierarchy := { oneTile with numTiles := 2, numCores := 32 }

/-- One such tile with three banks. -/
def threeBanks : Hierarchy := { oneTile with l2PerTile := 3 }

theorem every_bank_used_one_tile : oneTile.EveryBankUsed ∧ oneTile.EverySetUsed :=
  (every_bank_used_iff ⟨by decide, by decide, by decide, by decide +kernel, by decide⟩).mpr
    ⟨rfl, by decide +kernel, by decide +kernel⟩

/-- With two tiles the banks of the second get no lines, and with three banks on
one tile the last one gets none. -/
theorem bank_without_lines : (twoTiles.Accepted ∧ ¬ twoTiles.EveryBankUsed) ∧
    threeBanks.Accepted ∧ ¬ threeBanks.EveryBankUsed := by
  have unused {h : Hierarchy} {n : Nat} (hn : 2 ^ h.l2SelectNumBits ≤ n)
      (built : n < h.numL2Controllers) : ¬ h.EveryBankUsed := by
    intro used
    obtain ⟨a, -, ha⟩ := used n built
    have := home_lt (h := h) a
    rw [ha] at this
    exact absurd this (not_lt.mpr hn)
  refine ⟨⟨⟨by decide, by decide, by decide, by decide +kernel, by decide⟩, ?_⟩,
    ⟨by decide, by decide, by decide, by decide +kernel, by decide⟩, ?_⟩
  · exact unused (n := 4) (by decide +kernel) (by decide)
  · exact unused (n := 2) (by decide +kernel) (by decide)

end Hierarchy

end Ruby
