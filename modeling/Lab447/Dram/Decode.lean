import Mathlib

/-!
How the DRAM interface finds the rank, bank and row of an address, from the
constructors of `gem5/src/mem/mem_interface.cc` and `dram_interface.cc` and from
`decodePacket`. The counts of the geometry have 32 bits.
-/

namespace Dram

inductive AddrMap where
  | RoRaBaChCo | RoRaBaCoCh | RoCoRaBaCh
  deriving DecidableEq

/-- The size of the memory and its geometry. `granularity` is that of the
interleaving, for a range that is interleaved. -/
structure Geometry where
  size : Nat
  granularity : Option Nat
  addrMapping : AddrMap
  burstSize : Nat
  rowBufferSize : Nat
  banksPerRank : Nat
  ranksPerChannel : Nat

inductive DecodeFault where
  | divisionByZero | assertion
  deriving DecidableEq

structure Decoded where
  rank : Nat
  bank : Nat
  row : Nat
  bankId : Nat
  deriving DecidableEq

/-- `Bank::NO_ROW`. -/
def noRow : Nat := 2 ^ 32 - 1

def ceilLog2 (n : Nat) : Nat := if n = 1 then 0 else Nat.log2 (n - 1) + 1

namespace Geometry

variable (g : Geometry)

def burstsPerRowBuffer : Nat := g.rowBufferSize / g.burstSize

def burstsPerStripe : Nat :=
  match g.granularity with
  | some granularity => granularity / g.burstSize
  | none => 1

def capacity : Nat := 1 <<< ceilLog2 g.size

/-- The product is one of 32 bits, and so is the count of rows that is stored. -/
def rowsPerBank : Except DecodeFault Nat :=
  let divisor := g.rowBufferSize * g.banksPerRank % 2 ^ 32 * g.ranksPerChannel % 2 ^ 32
  if divisor = 0 then .error .divisionByZero
  else .ok (g.capacity / divisor % 2 ^ 32)

/-- The bank, the rank and what is left of the number of a burst. -/
def peel (addr : Nat) : Nat × Nat × Nat :=
  match g.addrMapping with
  | .RoRaBaChCo | .RoRaBaCoCh =>
    let addr := addr / g.burstsPerRowBuffer
    (addr % g.banksPerRank, addr / g.banksPerRank % g.ranksPerChannel,
      addr / g.banksPerRank / g.ranksPerChannel)
  | .RoCoRaBaCh =>
    let addr :=
      if g.burstsPerRowBuffer < g.burstsPerStripe then addr / g.burstsPerRowBuffer
      else addr / g.burstsPerStripe
    let upper := addr / g.banksPerRank / g.ranksPerChannel
    (addr % g.banksPerRank, addr / g.banksPerRank % g.ranksPerChannel,
      if g.burstsPerStripe < g.burstsPerRowBuffer then
        upper / (g.burstsPerRowBuffer / g.burstsPerStripe)
      else upper)

/-- `ctrlAddr` is the address in the range, packed and starting at 0
(`getCtrlAddr`). Rank and bank are stored in 8 bits. -/
def decodePacket (ctrlAddr : Nat) : Except DecodeFault Decoded :=
  g.rowsPerBank.bind fun rowsPerBank =>
    if rowsPerBank = 0 then .error .divisionByZero
    else
      let (bank, rank, upper) := g.peel (ctrlAddr / g.burstSize)
      let bank := bank % 2 ^ 8
      let rank := rank % 2 ^ 8
      let row := upper % rowsPerBank
      if rank < g.ranksPerChannel ∧ bank < g.banksPerRank ∧ row < rowsPerBank ∧ row < noRow then
        .ok ⟨rank, bank, row, (g.banksPerRank * rank + bank) % 2 ^ 16⟩
      else .error .assertion

/-- What all presets have: counts that are powers of two, of a size that fits. -/
structure Regular : Prop where
  whole : g.granularity = none
  size : ∃ k, g.size = 2 ^ k
  burst : ∃ k, g.burstSize = 2 ^ k
  rowBuffer : ∃ k, g.rowBufferSize = 2 ^ k
  banks : ∃ k, g.banksPerRank = 2 ^ k
  ranks : ∃ k, g.ranksPerChannel = 2 ^ k
  burst_le : g.burstSize ≤ g.rowBufferSize
  banks_le : g.banksPerRank ≤ 256
  ranks_le : g.ranksPerChannel ≤ 256
  fits : g.rowBufferSize * g.banksPerRank * g.ranksPerChannel ≤ g.size

/-- Every address is decoded, as all addresses of its burst are, and each row of each
bank gets as many bursts as fit into the row buffer. -/
def Balanced : Prop :=
  ∃ rowsPerBank, g.rowsPerBank = .ok rowsPerBank ∧
    (∀ addr < g.size, (∃ d, g.decodePacket addr = .ok d) ∧
      g.decodePacket addr = g.decodePacket (addr / g.burstSize * g.burstSize)) ∧
    ∀ rank < g.ranksPerChannel, ∀ bank < g.banksPerRank, ∀ row < rowsPerBank,
      ((Finset.range (g.size / g.burstSize)).filter fun burst =>
        (g.decodePacket (burst * g.burstSize)).map (fun d => (d.rank, d.bank, d.row)) =
          .ok (rank, bank, row)).card = g.rowBufferSize / g.burstSize

end Geometry

/-! ### Digits -/

variable {n : Nat}

/-- The two lowest digits of a number and what is above them determine it. -/
theorem digits_iff {B R b r q : Nat} (hb : b < B) (hr : r < R) :
    n % B = b ∧ n / B % R = r ∧ n / B / R = q ↔ n = b + B * (r + R * q) := by
  constructor
  · rintro ⟨rfl, rfl, rfl⟩
    rw [Nat.mod_add_div, Nat.mod_add_div]
  · rintro rfl
    have hB : 0 < B := by omega
    have hR : 0 < R := by omega
    rw [Nat.add_mul_mod_self_left, Nat.mod_eq_of_lt hb, Nat.add_mul_div_left _ _ hB,
      Nat.div_eq_of_lt hb, Nat.zero_add, Nat.add_mul_mod_self_left, Nat.mod_eq_of_lt hr,
      Nat.add_mul_div_left _ _ hR, Nat.div_eq_of_lt hr, Nat.zero_add]
    exact ⟨rfl, rfl, rfl⟩

theorem div_eq_iff_exists {c q : Nat} (hc : 0 < c) : n / c = q ↔ ∃ col < c, n = col + c * q := by
  constructor
  · rintro rfl
    exact ⟨n % c, Nat.mod_lt n hc, (Nat.mod_add_div n c).symm⟩
  · rintro ⟨col, lt, rfl⟩
    rw [Nat.add_mul_div_left _ _ hc, Nat.div_eq_of_lt lt, Nat.zero_add]

/-- A set of numbers that is numbered by the first `c` numbers has `c` elements. -/
theorem card_filter_of_numbered {T c : Nat} {Q : Nat → Prop} [DecidablePred Q] {f : Nat → Nat}
    (inj : ∀ i j, f i = f j → i = j) (numbered : ∀ n, (n < T ∧ Q n) ↔ ∃ i < c, n = f i) :
    ((Finset.range T).filter Q).card = c := by
  have image : (Finset.range T).filter Q = (Finset.range c).image f := by
    ext n
    rw [Finset.mem_filter, Finset.mem_range, numbered n, Finset.mem_image]
    constructor
    · rintro ⟨i, lt, rfl⟩
      exact ⟨i, Finset.mem_range.mpr lt, rfl⟩
    · rintro ⟨i, lt, rfl⟩
      exact ⟨i, Finset.mem_range.mp lt, rfl⟩
  rw [image, Finset.card_image_of_injective _ (fun i j => inj i j), Finset.card_range]

theorem add_mul_lt {a A q Q : Nat} (ha : a < A) (hq : q < Q) : a + A * q < A * Q := by
  calc a + A * q < A + A * q := Nat.add_lt_add_right ha _
    _ = A * (q + 1) := by ring
    _ ≤ A * Q := Nat.mul_le_mul_left A hq

/-- A power of two in 32 bits is itself or 0. -/
theorem two_pow_mod (k : Nat) : 2 ^ k % 2 ^ 32 = if 2 ^ k < 2 ^ 32 then 2 ^ k else 0 := by
  split
  · rename_i small
    exact Nat.mod_eq_of_lt small
  · rename_i large
    apply Nat.mod_eq_zero_of_dvd
    apply Nat.pow_dvd_pow 2
    by_contra less
    exact large (Nat.pow_lt_pow_right (by decide) (by omega))

theorem ceilLog2_two_pow (k : Nat) : ceilLog2 (2 ^ k) = k := by
  unfold ceilLog2
  cases k with
  | zero => rfl
  | succ k =>
    have pos : 0 < 2 ^ k := by positivity
    have log : Nat.log2 (2 ^ (k + 1) - 1) = k := by
      rw [Nat.log2_eq_iff (by omega)]
      omega
    rw [if_neg (by omega), log]

namespace Geometry

variable {g : Geometry}

/-- The bytes in one row of all banks. -/
def rowBytes (g : Geometry) : Nat := g.rowBufferSize * g.banksPerRank * g.ranksPerChannel

/-- The rows there are to a bank. -/
def rows (g : Geometry) : Nat := g.size / g.rowBytes

namespace Regular

theorem capacity_eq (h : Regular g) : g.capacity = g.size := by
  obtain ⟨k, hk⟩ := h.size
  rw [capacity, hk, ceilLog2_two_pow, Nat.one_shiftLeft]

theorem rowBytes_eq (h : Regular g) : ∃ k, g.rowBytes = 2 ^ k := by
  obtain ⟨i, hi⟩ := h.rowBuffer
  obtain ⟨j, hj⟩ := h.banks
  obtain ⟨k, hk⟩ := h.ranks
  exact ⟨i + j + k, by rw [rowBytes, hi, hj, hk, pow_add, pow_add]⟩

theorem rowBytes_pos (h : Regular g) : 0 < g.rowBytes := by
  obtain ⟨k, hk⟩ := h.rowBytes_eq
  rw [hk]
  positivity

/-- A power of two divides every larger one. -/
theorem dvd_of_le {m : Nat} (hm : ∃ i, m = 2 ^ i) (hn : ∃ j, n = 2 ^ j) (le : m ≤ n) : m ∣ n := by
  obtain ⟨i, rfl⟩ := hm
  obtain ⟨j, rfl⟩ := hn
  exact Nat.pow_dvd_pow 2 ((Nat.pow_le_pow_iff_right (by decide)).mp le)

theorem size_eq (h : Regular g) : g.size = g.rowBytes * g.rows :=
  (Nat.mul_div_cancel' (dvd_of_le h.rowBytes_eq h.size h.fits)).symm

theorem rows_eq (h : Regular g) : ∃ k, g.rows = 2 ^ k := by
  obtain ⟨i, hi⟩ := h.rowBytes_eq
  obtain ⟨j, hj⟩ := h.size
  have le : i ≤ j := by
    have fits : g.rowBytes ≤ g.size := h.fits
    rw [hi, hj] at fits
    exact (Nat.pow_le_pow_iff_right (by decide)).mp fits
  exact ⟨j - i, by rw [rows, hi, hj, Nat.pow_div le (by decide)]⟩

/-- The count of rows, as the constructor computes it. -/
theorem rowsPerBank_eq (h : Regular g) : g.rowsPerBank =
    if g.rowBytes < 2 ^ 32 then .ok (if g.rows < 2 ^ 32 then g.rows else 0)
    else .error .divisionByZero := by
  obtain ⟨i, hi⟩ := h.rowBytes_eq
  obtain ⟨j, hj⟩ := h.rows_eq
  have pos := h.rowBytes_pos
  have divisor : g.rowBufferSize * g.banksPerRank % 2 ^ 32 * g.ranksPerChannel % 2 ^ 32 =
      if g.rowBytes < 2 ^ 32 then g.rowBytes else 0 := by
    rw [Nat.mod_mul_mod, ← rowBytes, hi]
    exact two_pow_mod i
  simp only [rowsPerBank, divisor, h.capacity_eq]
  split
  · rw [if_neg pos.ne', ← rows, hj, two_pow_mod]
  · rw [if_pos rfl]

theorem burst_pos (h : Regular g) : 0 < g.burstSize := by
  obtain ⟨k, hk⟩ := h.burst
  rw [hk]
  positivity

theorem columns_eq (h : Regular g) : g.rowBufferSize = g.burstSize * g.burstsPerRowBuffer :=
  (Nat.mul_div_cancel' (dvd_of_le h.burst h.rowBuffer h.burst_le)).symm

theorem columns_pos (h : Regular g) : 0 < g.burstsPerRowBuffer :=
  Nat.div_pos h.burst_le h.burst_pos

theorem banks_pos (h : Regular g) : 0 < g.banksPerRank := by
  obtain ⟨k, hk⟩ := h.banks
  rw [hk]
  positivity

theorem ranks_pos (h : Regular g) : 0 < g.ranksPerChannel := by
  obtain ⟨k, hk⟩ := h.ranks
  rw [hk]
  positivity

theorem size_eq_bursts (h : Regular g) : g.size =
    g.burstSize * (g.burstsPerRowBuffer * (g.banksPerRank * (g.ranksPerChannel * g.rows))) := by
  rw [h.size_eq, rowBytes, h.columns_eq]
  ring

theorem bursts_eq (h : Regular g) : g.size / g.burstSize =
    g.burstsPerRowBuffer * (g.banksPerRank * (g.ranksPerChannel * g.rows)) := by
  rw [h.size_eq_bursts, Nat.mul_div_cancel_left _ h.burst_pos]

/-- Where the lowest digit of the burst's number is the column. -/
theorem peel_eq (n : Nat) (map : g.addrMapping ≠ .RoCoRaBaCh) :
    g.peel n = (n / g.burstsPerRowBuffer % g.banksPerRank,
      n / g.burstsPerRowBuffer / g.banksPerRank % g.ranksPerChannel,
      n / g.burstsPerRowBuffer / g.banksPerRank / g.ranksPerChannel) := by
  unfold peel
  cases hm : g.addrMapping with
  | RoRaBaChCo => rfl
  | RoRaBaCoCh => rfl
  | RoCoRaBaCh => exact absurd hm map

/-- Where the column is above the bank and the rank. -/
theorem peel_eq_columns (h : Regular g) (n : Nat) (map : g.addrMapping = .RoCoRaBaCh) :
    g.peel n = (n % g.banksPerRank, n / g.banksPerRank % g.ranksPerChannel,
      n / g.banksPerRank / g.ranksPerChannel / g.burstsPerRowBuffer) := by
  have stripe : g.burstsPerStripe = 1 := by simp [burstsPerStripe, h.whole]
  have columns := h.columns_pos
  simp only [peel, map, stripe, Nat.div_one]
  rw [if_neg (by omega)]
  split
  · rfl
  · have one : g.burstsPerRowBuffer = 1 := by omega
    rw [one, Nat.div_one]

/-- The bursts of a row of a bank, by their column. -/
def burstAt (g : Geometry) (rank bank row col : Nat) : Nat :=
  if g.addrMapping = .RoCoRaBaCh then
    bank + g.banksPerRank * (rank + g.ranksPerChannel * (col + g.burstsPerRowBuffer * row))
  else
    col + g.burstsPerRowBuffer * (bank + g.banksPerRank * (rank + g.ranksPerChannel * row))

theorem burstAt_injective (h : Regular g) (rank bank row i j : Nat)
    (same : burstAt g rank bank row i = burstAt g rank bank row j) : i = j := by
  unfold burstAt at same
  split at same
  · have same := Nat.eq_of_mul_eq_mul_left h.banks_pos (Nat.add_left_cancel same)
    have same := Nat.eq_of_mul_eq_mul_left h.ranks_pos (Nat.add_left_cancel same)
    exact Nat.add_right_cancel same
  · exact Nat.add_right_cancel same

variable {rank bank row : Nat}

theorem peel_iff (h : Regular g) (hr : rank < g.ranksPerChannel) (hb : bank < g.banksPerRank) :
    g.peel n = (bank, rank, row) ↔
      ∃ col < g.burstsPerRowBuffer, n = burstAt g rank bank row col := by
  by_cases map : g.addrMapping = .RoCoRaBaCh
  · rw [h.peel_eq_columns n map]
    simp only [Prod.mk.injEq, burstAt, map, if_true]
    rw [div_eq_iff_exists h.columns_pos]
    constructor
    · rintro ⟨bank_eq, rank_eq, col, lt, upper⟩
      exact ⟨col, lt, (digits_iff hb hr).mp ⟨bank_eq, rank_eq, upper⟩⟩
    · rintro ⟨col, lt, eq⟩
      obtain ⟨bank_eq, rank_eq, upper⟩ := (digits_iff hb hr).mpr eq
      exact ⟨bank_eq, rank_eq, col, lt, upper⟩
  · rw [peel_eq n map]
    simp only [Prod.mk.injEq, burstAt, map, if_false]
    rw [digits_iff hb hr, div_eq_iff_exists h.columns_pos]

theorem burstAt_lt (h : Regular g) {col : Nat} (hr : rank < g.ranksPerChannel)
    (hb : bank < g.banksPerRank) (hrow : row < g.rows) (hcol : col < g.burstsPerRowBuffer) :
    burstAt g rank bank row col < g.size / g.burstSize := by
  rw [h.bursts_eq]
  unfold burstAt
  split
  · have := add_mul_lt hb (add_mul_lt hr (add_mul_lt hcol hrow))
    calc _ < _ := this
      _ = _ := by ring
  · exact add_mul_lt hcol (add_mul_lt hb (add_mul_lt hr hrow))

/-- The digits of a burst of the memory. -/
theorem exists_burstAt (h : Regular g) (hn : n < g.size / g.burstSize) :
    ∃ rank < g.ranksPerChannel, ∃ bank < g.banksPerRank, ∃ row < g.rows,
      g.peel n = (bank, rank, row) := by
  have columns := h.columns_pos
  have banks := h.banks_pos
  have ranks := h.ranks_pos
  rw [h.bursts_eq] at hn
  by_cases map : g.addrMapping = .RoCoRaBaCh
  · refine ⟨_, Nat.mod_lt _ ranks, _, Nat.mod_lt _ banks, _, ?_, h.peel_eq_columns n map⟩
    rw [Nat.div_div_eq_div_mul, Nat.div_div_eq_div_mul, Nat.div_lt_iff_lt_mul (by positivity)]
    calc n < _ := hn
      _ = _ := by ring
  · refine ⟨_, Nat.mod_lt _ ranks, _, Nat.mod_lt _ banks, _, ?_, peel_eq n map⟩
    rw [Nat.div_div_eq_div_mul, Nat.div_div_eq_div_mul, Nat.div_lt_iff_lt_mul (by positivity)]
    calc n < _ := hn
      _ = _ := by ring

/-- What `decodePacket` makes of the digits of a burst. -/
theorem decodePacket_eq (h : Regular g) (small : g.rowBytes < 2 ^ 32) (few : g.rows < 2 ^ 32)
    {addr : Nat} (hr : rank < g.ranksPerChannel) (hb : bank < g.banksPerRank) (hrow : row < g.rows)
    (digits : g.peel (addr / g.burstSize) = (bank, rank, row)) :
    g.decodePacket addr = .ok ⟨rank, bank, row, (g.banksPerRank * rank + bank) % 2 ^ 16⟩ := by
  have le := h.banks_le
  have le' := h.ranks_le
  have row_small : row < noRow := by
    unfold noRow
    omega
  unfold decodePacket
  rw [h.rowsPerBank_eq, if_pos small, if_pos few]
  simp only [Except.bind, digits]
  rw [if_neg (by omega), Nat.mod_eq_of_lt (show bank < 2 ^ 8 by omega),
    Nat.mod_eq_of_lt (show rank < 2 ^ 8 by omega), Nat.mod_eq_of_lt hrow,
    if_pos ⟨hr, hb, hrow, row_small⟩]

theorem card_bursts (h : Regular g) (small : g.rowBytes < 2 ^ 32) (few : g.rows < 2 ^ 32)
    (hr : rank < g.ranksPerChannel) (hb : bank < g.banksPerRank) (hrow : row < g.rows) :
    ((Finset.range (g.size / g.burstSize)).filter fun burst =>
      (g.decodePacket (burst * g.burstSize)).map (fun d => (d.rank, d.bank, d.row)) =
        .ok (rank, bank, row)).card = g.rowBufferSize / g.burstSize := by
  apply card_filter_of_numbered (h.burstAt_injective rank bank row)
  intro n
  have number : n * g.burstSize / g.burstSize = n := Nat.mul_div_cancel n h.burst_pos
  constructor
  · rintro ⟨hn, decoded⟩
    obtain ⟨rank', hr', bank', hb', row', hrow', digits⟩ := h.exists_burstAt hn
    rw [h.decodePacket_eq small few hr' hb' hrow' (by rw [number, digits])] at decoded
    have same := Except.ok.inj decoded
    obtain ⟨rfl, rfl, rfl⟩ := same
    exact (h.peel_iff hr hb).mp digits
  · rintro ⟨col, lt, rfl⟩
    refine ⟨h.burstAt_lt hr hb hrow lt, ?_⟩
    have digits : g.peel (burstAt g rank bank row col) = (bank, rank, row) :=
      (h.peel_iff hr hb).mpr ⟨col, lt, rfl⟩
    rw [h.decodePacket_eq small few hr hb hrow (by rw [number, digits])]
    rfl

end Regular

/-- The decoding is balanced exactly when neither the bytes in one row of all banks
nor the rows of a bank overflow 32 bits. -/
theorem balanced_iff (g : Geometry) (h : Regular g) :
    g.Balanced ↔
      g.rowBufferSize * g.banksPerRank * g.ranksPerChannel < 2 ^ 32 ∧
      g.size / (g.rowBufferSize * g.banksPerRank * g.ranksPerChannel) < 2 ^ 32 := by
  change g.Balanced ↔ g.rowBytes < 2 ^ 32 ∧ g.rows < 2 ^ 32
  have pos := h.burst_pos
  constructor
  · rintro ⟨rowsPerBank, rows_eq, decodes, -⟩
    have small : g.rowBytes < 2 ^ 32 := by
      by_contra large
      rw [h.rowsPerBank_eq, if_neg large] at rows_eq
      cases rows_eq
    refine ⟨small, ?_⟩
    by_contra many
    have size_pos : 0 < g.size := lt_of_lt_of_le h.rowBytes_pos h.fits
    obtain ⟨⟨d, hd⟩, -⟩ := decodes 0 size_pos
    unfold decodePacket at hd
    rw [h.rowsPerBank_eq, if_pos small, if_neg many] at hd
    cases hd
  · rintro ⟨small, few⟩
    refine ⟨g.rows, by rw [h.rowsPerBank_eq, if_pos small, if_pos few], ?_, ?_⟩
    · intro addr lt
      have burst_lt : addr / g.burstSize < g.size / g.burstSize :=
        Nat.div_lt_div_of_lt_of_dvd ⟨_, h.size_eq_bursts⟩ lt
      obtain ⟨rank, hr, bank, hb, row, hrow, digits⟩ := h.exists_burstAt burst_lt
      have own := h.decodePacket_eq small few hr hb hrow digits
      refine ⟨⟨_, own⟩, ?_⟩
      rw [own, h.decodePacket_eq small few hr hb hrow
        (by rw [Nat.mul_div_cancel _ pos, digits])]
    · intro rank hr bank hb row hrow
      exact h.card_bursts small few hr hb hrow

/-- Two ranks of two banks with 64 rows of two bursts. -/
def small : Geometry := ⟨2 ^ 15, none, .RoCoRaBaCh, 2 ^ 6, 2 ^ 7, 2, 2⟩

theorem small_regular : Regular small :=
  ⟨rfl, ⟨15, rfl⟩, ⟨6, rfl⟩, ⟨7, rfl⟩, ⟨1, rfl⟩, ⟨1, rfl⟩, by decide, by decide, by decide, by decide⟩

theorem small_balanced : small.Balanced := (balanced_iff small small_regular).mpr (by decide)

/-- Row buffers of 2 MiB with 256 banks and 8 ranks. -/
def wide : Geometry := ⟨2 ^ 32, none, .RoRaBaChCo, 2 ^ 6, 2 ^ 21, 2 ^ 8, 2 ^ 3⟩

/-- One row of all banks has 4 GiB, which is 0 in 32 bits, and the count of rows is a
division by it. -/
theorem wide_unbalanced : Regular wide ∧ ¬ wide.Balanced := by
  refine ⟨⟨rfl, ⟨32, rfl⟩, ⟨6, rfl⟩, ⟨21, rfl⟩, ⟨8, rfl⟩, ⟨3, rfl⟩, by decide, by decide, by decide,
    by decide⟩, ?_⟩
  rintro ⟨rowsPerBank, rows_eq, -⟩
  cases rows_eq

end Geometry

end Dram
