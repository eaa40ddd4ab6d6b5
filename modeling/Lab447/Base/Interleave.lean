import Lab447.Base.AddrRange

/-!
The interleaving bits of an address range: the constructor that places them,
`removeIntlvBits`, `addIntlvBits` and `getOffset` of `gem5/src/base/addr_range.hh`, with
`insertBits` of `bitfield.hh`.
-/

namespace Base

/-- `mask(nbits)`. -/
def mask (nbits : Nat) : Addr := if 64 ≤ nbits then BitVec.allOnes 64 else BitVec.twoPow 64 nbits - 1

/-- Positions are unsigned numbers of 32 bits. -/
def insertBits (val : Addr) (first last : Nat) (bitVal : Addr) : Addr :=
  let bmask := mask ((first + 1) % 2 ^ 32) &&& ~~~mask last
  (val &&& ~~~bmask) ||| ((bitVal <<< last) &&& bmask)

namespace AddrRange

/-- The constructor from the highest bits of the two fields that select a stripe. -/
def ofIntlvBits (start end_ : Addr) (intlvHighBit xorHighBit intlvBits intlvMatch : BitVec 8) :
    Except RangeFault AddrRange :=
  let bits := intlvBits.toNat
  let bit1 (i : Nat) := (intlvHighBit - BitVec.ofNat 8 i).toNat
  let bit2 (i : Nat) := (xorHighBit - BitVec.ofNat 8 i).toNat
  if 64 ≤ bits then .error .undefinedShift
  else if bits ≠ 0 ∧ 2 ^ bits ≤ intlvMatch.toNat then .error .fatal
  else if bits ≠ 0 ∧ xorHighBit ≠ 0 ∧ (xorHighBit = intlvHighBit ∨
      (intlvHighBit < xorHighBit ∧ xorHighBit.toNat - intlvHighBit.toNat < bits) ∨
      (xorHighBit < intlvHighBit ∧ intlvHighBit.toNat - xorHighBit.toNat < bits)) then
    .error .fatal
  else if ∃ i < bits, 64 ≤ bit1 i ∨ xorHighBit ≠ 0 ∧ 64 ≤ bit2 i then .error .undefinedShift
  else
    .ok ⟨start, end_, (List.range bits).map fun j =>
      let i := bits - j - 1
      BitVec.twoPow 64 (bit1 i) ||| if xorHighBit ≠ 0 then BitVec.twoPow 64 (bit2 i) else 0,
      intlvMatch.toNat⟩

/-- The loop of `removeIntlvBits` from the `i`-th bit on. -/
def removeLoop : List Nat → Nat → Addr → Addr
  | [], _, a => a
  | intlvBit :: bits, i, a => removeLoop bits (i + 1)
      (if 0 < intlvBit then insertBits (a >>> 1) ((intlvBit + 2 ^ 32 - i - 1) % 2 ^ 32) 0 a
        else a >>> 1)

/-- The first loop of `addIntlvBits`. -/
def addLoop : List Nat → Addr → Addr
  | [], a => a
  | intlvBit :: bits, a =>
    addLoop bits (if 0 < intlvBit then insertBits (a <<< 1) (intlvBit - 1) 0 a else a <<< 1)

/-- The lowest bit of the mask becomes what the selector needs. It is cleared with
`~(1 << lsb)`, an `int`. -/
def setBit (intlvMatch : Nat) (mask : Addr) (i : Nat) (a : Addr) : Addr :=
  let lsb := ctz64 mask
  let masked := a &&& mask &&& (~~~BitVec.twoPow 32 lsb).signExtend 64
  insertBits a lsb lsb
    (BitVec.ofNat 64 ((intlvMatch >>> i) % 2) ^^^ BitVec.ofNat 64 (popCount masked))

/-- Its second loop. -/
def setLoop (intlvMatch : Nat) : List Addr → Nat → Addr → Except RangeFault Addr
  | [], _, a => .ok a
  | mask :: masks, i, a =>
    if 32 ≤ ctz64 mask then .error .undefinedShift
    else setLoop intlvMatch masks (i + 1) (setBit intlvMatch mask i a)

variable (r : AddrRange)

def masksLsb : List Nat := (r.masks.map ctz64).insertionSort (· ≤ ·)

def removeIntlvBits (a : Addr) : Addr := if !r.interleaved then a else removeLoop r.masksLsb 0 a

def addIntlvBits (a : Addr) : Except RangeFault Addr :=
  if !r.interleaved then .ok a else setLoop r.intlvMatch r.masks 0 (addLoop r.masksLsb a)

/-- `MaxAddr` for an address out of range. -/
def getOffset (a : Addr) : Addr :=
  if ¬ r.Spans a then BitVec.allOnes 64
  else if r.interleaved then r.removeIntlvBits a - r.removeIntlvBits r.start
  else a - r.start

/-! ### Bit by bit -/

theorem getLsbD_mask (n j : Nat) : (mask n).getLsbD j = decide (j < n ∧ j < 64) := by
  unfold mask
  split
  · simp only [BitVec.getLsbD_allOnes, decide_eq_decide]
    omega
  · have value : (BitVec.twoPow 64 n - 1).toNat = 2 ^ n - 1 := by
      have pos := Nat.two_pow_pos n
      have two := BitVec.toNat_twoPow_of_lt (show n < 64 by omega)
      rw [BitVec.toNat_sub_of_le (by rw [BitVec.le_def, two]; exact pos), two]
      rfl
    rw [← BitVec.testBit_toNat, value, Nat.testBit_two_pow_sub_one, decide_eq_decide]
    omega

theorem getLsbD_insertBits (val bitVal : Addr) (first last j : Nat) :
    (insertBits val first last bitVal).getLsbD j =
      if last ≤ j ∧ j < (first + 1) % 2 ^ 32 then bitVal.getLsbD (j - last) && decide (j < 64)
      else val.getLsbD j := by
  by_cases wide : j < 64
  · simp only [insertBits, BitVec.getLsbD_or, BitVec.getLsbD_and, BitVec.getLsbD_not,
      getLsbD_mask, BitVec.getLsbD_shiftLeft, wide, and_true, decide_true, Bool.true_and,
      Bool.and_true]
    generalize (first + 1) % 2 ^ 32 = top
    by_cases low : last ≤ j <;> by_cases high : j < top <;>
      simp [low, high, show j < last ↔ ¬ last ≤ j by omega]
  · rw [BitVec.getLsbD_of_ge _ _ (by omega), BitVec.getLsbD_of_ge val _ (by omega)]
    simp [wide]

/-- Each pass takes out the bit at `low`, which is the next one of the field. -/
theorem getLsbD_removeLoop (low n i j : Nat) (small : low < 2 ^ 32) (a : Addr) :
    (removeLoop (List.range' (low + i) n) i a).getLsbD j =
      if j < low then a.getLsbD j else a.getLsbD (j + n) := by
  induction n generalizing i a with
  | zero => simp [removeLoop]
  | succ n ih =>
    have bit (k : Nat) : (if 0 < low + i then
        insertBits (a >>> 1) ((low + i + 2 ^ 32 - i - 1) % 2 ^ 32) 0 a else a >>> 1).getLsbD k =
        if k < low then a.getLsbD k else a.getLsbD (k + 1) := by
      have position : ((low + i + 2 ^ 32 - i - 1) % 2 ^ 32 + 1) % 2 ^ 32 = low := by omega
      by_cases zero : 0 < low + i
      · rw [if_pos zero, getLsbD_insertBits, position]
        by_cases below : k < low
        · rw [if_pos ⟨Nat.zero_le k, below⟩, if_pos below]
          by_cases wide : k < 64
          · simp [wide]
          · simp [BitVec.getLsbD_of_ge a k (by omega)]
        · simp [below, Nat.add_comm]
      · rw [if_neg zero, if_neg (by omega), BitVec.getLsbD_ushiftRight, Nat.add_comm]
    rw [List.range'_succ, removeLoop, Nat.add_assoc, ih, bit, bit]
    by_cases below : j < low
    · simp [below]
    · simp [below, show ¬ j + n < low by omega, Nat.add_assoc]

/-- The bits of the field are whatever stood before them. -/
theorem getLsbD_addLoop (low n i j : Nat) (small : low + i + n ≤ 64) (a : Addr)
    (out : j < low + i ∨ low + i + n ≤ j) :
    (addLoop (List.range' (low + i) n) a).getLsbD j =
      if j < low + i then a.getLsbD j else a.getLsbD (j - n) && decide (j < 64) := by
  induction n generalizing i a with
  | zero =>
    by_cases wide : j < 64
    · simp [addLoop, wide]
    · simp [addLoop, BitVec.getLsbD_of_ge a j (by omega)]
  | succ n ih =>
    have bit (k : Nat) : (if 0 < low + i then insertBits (a <<< 1) (low + i - 1) 0 a
        else a <<< 1).getLsbD k =
        if k < low + i then a.getLsbD k else
          decide (k < 64) && (decide (1 ≤ k) && a.getLsbD (k - 1)) := by
      have shifted : (a <<< 1).getLsbD k =
          (decide (k < 64) && (decide (1 ≤ k) && a.getLsbD (k - 1))) := by
        by_cases first : k < 1
        · simp [first]
        · simp [first, show 1 ≤ k by omega]
      by_cases zero : 0 < low + i
      · rw [if_pos zero, getLsbD_insertBits, shifted]
        have position : (low + i - 1 + 1) % 2 ^ 32 = low + i := by omega
        rw [position]
        by_cases below : k < low + i
        · simp [below, show k < 64 by omega]
        · simp [below]
      · simp only [zero, if_false, shifted, show ¬ k < low + i by omega]
    rw [List.range'_succ, addLoop, Nat.add_assoc, ih (i + 1) (by omega) _ (by omega), bit, bit]
    by_cases below : j < low + i
    · simp [below, show j < low + (i + 1) by omega]
    · simp only [show ¬ j < low + (i + 1) by omega, below, if_false,
        show ¬ j - n < low + i by omega, show 1 ≤ j - n by omega, decide_true, Bool.true_and,
        show j - n - 1 = j - (n + 1) by omega]
      by_cases wide : j < 64
      · simp [wide, show j - n < 64 by omega]
      · simp [wide]

/-! ### What the constructor accepts -/

/-- The mask of every bit of the selector: the field from `low` on and, if there is one, the
field `dist` bits above it. -/
structure Stripes where
  low : Nat
  dist : Nat
  bits : Nat
  xor : Bool
  fits : low + bits ≤ 64
  apart : xor → bits ≤ dist ∧ low + dist + bits ≤ 64

namespace Stripes

variable (f : Stripes)

def mask (j : Nat) : Addr :=
  BitVec.twoPow 64 (f.low + j) ||| if f.xor then BitVec.twoPow 64 (f.low + f.dist + j) else 0

def masks : List Addr := (List.range f.bits).map f.mask

variable {f} {j : Nat}

theorem getLsbD_mask (hj : j < f.bits) (k : Nat) : (f.mask j).getLsbD k =
    (decide (k = f.low + j) || f.xor && decide (k = f.low + f.dist + j)) := by
  have fits := f.fits
  have apart := f.apart
  cases hx : f.xor
  · simp [mask, hx, BitVec.getLsbD_twoPow, show f.low + j < 64 by omega, eq_comm]
  · have := apart hx
    simp [mask, hx, BitVec.getLsbD_twoPow, show f.low + j < 64 by omega,
      show f.low + f.dist + j < 64 by omega, eq_comm]

theorem ctz64_mask (hj : j < f.bits) : ctz64 (f.mask j) = f.low + j := by
  apply ctz64_eq
  · simp [getLsbD_mask hj]
  · intro k hk
    simp [getLsbD_mask hj, show k ≠ f.low + j by omega, show k ≠ f.low + f.dist + j by omega]

theorem map_ctz64 : f.masks.map ctz64 = List.range' f.low f.bits := by
  rw [masks, List.map_map, List.range'_eq_map_range]
  exact List.map_congr_left fun j hj => ctz64_mask (List.mem_range.mp hj)

end Stripes

/-- Positions that wrap below zero come out above 63. -/
theorem position_eq {high : BitVec 8} {bits : Nat} (small : bits < 64)
    (inside : ∀ i < bits, (high - BitVec.ofNat 8 i).toNat < 64) (pos : 0 < bits) :
    bits ≤ high.toNat + 1 ∧ high.toNat < 64 ∧ ∀ j < bits,
      (high - BitVec.ofNat 8 (bits - j - 1)).toNat = high.toNat + 1 - bits + j := by
  have first := inside 0 pos
  have last := inside (bits - 1) (by omega)
  simp only [BitVec.toNat_sub, BitVec.toNat_ofNat] at first last ⊢
  refine ⟨by omega, by omega, fun j hj => by omega⟩

/-- Two fields that are apart, whichever is the lower one. -/
theorem exists_apart (low1 low2 bits : Nat) (fits1 : low1 + bits ≤ 64) (fits2 : low2 + bits ≤ 64)
    (apart : low1 + bits ≤ low2 ∨ low2 + bits ≤ low1) : ∃ f : Stripes, f.bits = bits ∧
      ∀ j, f.mask j = BitVec.twoPow 64 (low1 + j) ||| BitVec.twoPow 64 (low2 + j) := by
  obtain above | below := apart
  · refine ⟨⟨low1, low2 - low1, bits, true, fits1, fun _ => by omega⟩, rfl, fun j => ?_⟩
    simp [Stripes.mask, show low1 + (low2 - low1) = low2 by omega]
  · refine ⟨⟨low2, low1 - low2, bits, true, fits2, fun _ => by omega⟩, rfl, fun j => ?_⟩
    simp [Stripes.mask, show low2 + (low1 - low2) = low1 by omega, BitVec.or_comm]

theorem exists_stripes {start end_ : Addr} {intlvHighBit xorHighBit intlvBits intlvMatch : BitVec 8}
    {r : AddrRange}
    (accepted : ofIntlvBits start end_ intlvHighBit xorHighBit intlvBits intlvMatch = .ok r) :
    ∃ f : Stripes, r.masks = f.masks ∧ (f.bits ≠ 0 → r.intlvMatch < 2 ^ f.bits) ∧
      (f.bits = 0 → f.low = 0) := by
  simp only [ofIntlvBits] at accepted
  split at accepted
  · simp at accepted
  rename_i small
  split at accepted
  · simp at accepted
  rename_i match_
  split at accepted
  · simp at accepted
  rename_i apart
  split at accepted
  · simp at accepted
  rename_i inside
  obtain rfl := Except.ok.inj accepted
  push Not at small match_ apart inside
  obtain zero | pos := Nat.eq_zero_or_pos intlvBits.toNat
  · exact ⟨⟨0, 0, 0, false, by omega, by simp⟩, by simp [Stripes.masks, zero], by simp, fun _ => rfl⟩
  obtain ⟨low1, high1, at1⟩ := position_eq small (fun i hi => (inside i hi).1) pos
  by_cases hx : xorHighBit = 0
  · refine ⟨⟨intlvHighBit.toNat + 1 - intlvBits.toNat, 0, intlvBits.toNat, false, by omega,
      by simp⟩, ?_, match_, fun none => absurd none pos.ne'⟩
    apply List.map_congr_left
    intro j hj
    simp [Stripes.mask, hx, at1 j (List.mem_range.mp hj)]
  · obtain ⟨low2, high2, at2⟩ := position_eq small (fun i hi => (inside i hi).2 hx) pos
    obtain ⟨f, bits, mask⟩ := exists_apart (intlvHighBit.toNat + 1 - intlvBits.toNat)
      (xorHighBit.toNat + 1 - intlvBits.toNat) intlvBits.toNat (by omega) (by omega) (by bv_omega)
    refine ⟨f, ?_, by rwa [bits], fun none => absurd none (by omega)⟩
    rw [Stripes.masks, bits]
    apply List.map_congr_left
    intro j hj
    have hj := List.mem_range.mp hj
    rw [mask, at1 j hj, at2 j hj, if_pos hx]

/-! ### The selector -/

theorem odd_zero (a : Addr) : odd a 0#64 = false := by
  rw [odd, BitVec.and_zero]
  rfl

namespace Stripes

variable {f : Stripes} {j : Nat}

theorem odd_mask (hj : j < f.bits) (a : Addr) : odd a (f.mask j) =
    (a.getLsbD (f.low + j) ^^ (f.xor && a.getLsbD (f.low + f.dist + j))) := by
  have fits := f.fits
  cases hx : f.xor
  · simp only [mask, hx, if_false, Bool.false_and, Bool.false_eq_true]
    rw [odd_or_twoPow (by omega) (by simp)]
    exact congrArg _ (odd_zero a)
  · have apart := f.apart hx
    simp only [mask, hx, if_true, Bool.true_and]
    rw [odd_or_twoPow (by omega), ← BitVec.or_zero (x := BitVec.twoPow 64 (f.low + f.dist + j)),
      odd_or_twoPow (by omega) (by simp), odd_zero, Bool.xor_false]
    simp [BitVec.getLsbD_twoPow]
    omega

end Stripes

/-! ### Taking the bits out and putting them back -/

namespace Stripes

variable {f : Stripes} {j : Nat}

theorem getLsbD_zero_ofNat (n : Nat) : (BitVec.ofNat 64 n).getLsbD 0 = decide (n % 2 = 1) := by
  rw [BitVec.getLsbD_ofNat, Nat.testBit_zero]
  simp

/-- Below 31 the `int` is negative and keeps all bits above. -/
theorem getLsbD_clear {p k : Nat} (hp : p < 31) (hk : k < 64) :
    ((~~~BitVec.twoPow 32 p).signExtend 64).getLsbD k = decide (k ≠ p) := by
  rw [BitVec.getLsbD_signExtend, BitVec.msb_not, BitVec.msb_twoPow]
  by_cases narrow : k < 32
  · simp [hk, narrow]
  · simp [hk, narrow, show p ≠ 31 by omega, show k ≠ p by omega]

theorem odd_cleared (hj : j < f.bits) (small : f.low + j < 31) (a : Addr) :
    odd a (f.mask j &&& (~~~BitVec.twoPow 32 (f.low + j)).signExtend 64) =
      (f.xor && a.getLsbD (f.low + f.dist + j)) := by
  have whole : BitVec.twoPow 64 (f.low + j) |||
      (f.mask j &&& (~~~BitVec.twoPow 32 (f.low + j)).signExtend 64) = f.mask j := by
    apply BitVec.eq_of_getLsbD_eq
    intro k hk
    rw [BitVec.getLsbD_or, BitVec.getLsbD_and, getLsbD_mask hj, getLsbD_clear small hk,
      BitVec.getLsbD_twoPow]
    by_cases here : k = f.low + j
    · simp [here, show f.low + j < 64 by omega]
    · simp [here, Ne.symm here]
  have new : (f.mask j &&& (~~~BitVec.twoPow 32 (f.low + j)).signExtend 64).getLsbD
      (f.low + j) = false := by
    rw [BitVec.getLsbD_and, getLsbD_clear small (by omega)]
    simp
  have parity := odd_or_twoPow (a := a) (show f.low + j < 64 by omega) new
  rw [whole, odd_mask hj] at parity
  exact (Bool.xor_right_inj.mp parity).symm

/-- One pass of the loop. -/
theorem getLsbD_setBit (hj : j < f.bits) (small : f.low + j < 31) (intlvMatch : Nat) (a : Addr)
    (k : Nat) : (setBit intlvMatch (f.mask j) j a).getLsbD k =
      if k = f.low + j then
        intlvMatch.testBit j ^^ (f.xor && a.getLsbD (f.low + f.dist + j))
      else a.getLsbD k := by
  rw [setBit, ctz64_mask hj, getLsbD_insertBits,
    show (f.low + j + 1) % 2 ^ 32 = f.low + j + 1 by omega]
  by_cases here : k = f.low + j
  · have parity : decide (intlvMatch >>> j % 2 % 2 = 1) = intlvMatch.testBit j := by
      rw [Nat.mod_mod, Nat.testBit_eq_decide_div_mod_eq, Nat.shiftRight_eq_div_pow]
    rw [if_pos (by omega), if_pos here, here, Nat.sub_self, BitVec.getLsbD_xor,
      getLsbD_zero_ofNat, getLsbD_zero_ofNat, parity, BitVec.and_assoc, ← odd_cleared hj small,
      decide_eq_true (show f.low + j < 64 by omega), Bool.and_true]
    rfl
  · rw [if_neg (by omega), if_neg here]

theorem setLoop_spec (small : f.low + f.bits ≤ 31) (intlvMatch i : Nat) (a : Addr) :
    ∃ b, setLoop intlvMatch ((List.range' i (f.bits - i)).map f.mask) i a = .ok b ∧
      ∀ k, b.getLsbD k = if f.low + i ≤ k ∧ k < f.low + f.bits then
        intlvMatch.testBit (k - f.low) ^^ (f.xor && a.getLsbD (k + f.dist))
        else a.getLsbD k := by
  obtain ⟨left, eq⟩ : ∃ left, f.bits - i = left := ⟨_, rfl⟩
  induction left generalizing i a with
  | zero =>
    rw [eq]
    exact ⟨a, rfl, fun k => by rw [if_neg (by omega)]⟩
  | succ left ih =>
    have hj : i < f.bits := by omega
    have set := getLsbD_setBit hj (by omega) intlvMatch a
    rw [eq, List.range'_succ, List.map_cons, setLoop, ctz64_mask hj, if_neg (by omega)]
    obtain ⟨b, run, bit⟩ := ih (i + 1) (setBit intlvMatch (f.mask i) i a) (by omega)
    rw [show f.bits - (i + 1) = left by omega] at run
    refine ⟨b, run, fun k => ?_⟩
    rw [bit, set, set]
    by_cases here : k = f.low + i
    · rw [if_neg (by omega), if_pos here, if_pos (by omega), here, Nat.add_sub_cancel_left,
        Nat.add_right_comm]
    · by_cases later : f.low + (i + 1) ≤ k ∧ k < f.low + f.bits
      · rw [if_pos later, if_neg (by omega), if_pos ⟨by omega, later.2⟩]
      · rw [if_neg later, if_neg here, if_neg (by omega)]

end Stripes

section

variable {r : AddrRange} {f : Stripes} {a : Addr} (masks_eq : r.masks = f.masks)
include masks_eq

theorem interleaved_eq : r.interleaved = decide (f.bits ≠ 0) := by
  rw [interleaved, masks_eq, Stripes.masks]
  cases f.bits <;> simp

theorem forall_mask_iff {P : Addr → Prop} : (∀ mask ∈ r.masks, P mask) ↔
    ∀ j < f.bits, P (f.mask j) := by
  simp [masks_eq, Stripes.masks]

theorem masksLsb_eq : r.masksLsb = List.range' f.low f.bits := by
  rw [masksLsb, masks_eq, Stripes.map_ctz64]
  exact List.Pairwise.insertionSort_eq List.pairwise_le_range'

theorem getLsbD_removeIntlvBits (j : Nat) : (r.removeIntlvBits a).getLsbD j =
    if j < f.low then a.getLsbD j else a.getLsbD (j + f.bits) := by
  have fits := f.fits
  rw [removeIntlvBits, interleaved_eq masks_eq, masksLsb_eq masks_eq]
  by_cases none : f.bits = 0
  · simp [none]
  · simpa [none] using getLsbD_removeLoop f.low f.bits 0 j (by omega) a

theorem contains_iff (fit : r.intlvMatch < 2 ^ f.bits) :
    r.contains a = true ↔ r.Spans a ∧ ∀ j < f.bits,
      (a.getLsbD (f.low + j) ^^ (f.xor && a.getLsbD (f.low + f.dist + j))) =
        r.intlvMatch.testBit j := by
  rw [contains, Bool.and_eq_true, decide_eq_true_eq, decide_eq_true_eq, Spans, masks_eq]
  apply and_congr_right
  intro _
  have bit (j : Nat) : (selector a f.masks 0 0).testBit j = f.masks[j]?.any (odd a) := by
    simp [testBit_selector]
  constructor
  · intro eq j hj
    rw [← eq, bit, ← Stripes.odd_mask hj]
    simp [Stripes.masks, hj]
  · intro all
    apply Nat.eq_of_testBit_eq
    intro j
    rw [bit]
    by_cases hj : j < f.bits
    · rw [← all j hj, ← Stripes.odd_mask hj]
      simp [Stripes.masks, hj]
    · rw [Nat.testBit_lt_two_pow (fit.trans_le (Nat.pow_le_pow_right (by omega) (by omega)))]
      simp [Stripes.masks, hj]

/-- Only the bits of the field are not back yet after the first loop. -/
theorem getLsbD_addLoop_removeIntlvBits {k : Nat} (out : k < f.low ∨ f.low + f.bits ≤ k) :
    (addLoop (List.range' f.low f.bits) (r.removeIntlvBits a)).getLsbD k = a.getLsbD k := by
  have added := getLsbD_addLoop f.low f.bits 0 k f.fits (r.removeIntlvBits a) out
  rw [Nat.add_zero] at added
  rw [added, getLsbD_removeIntlvBits masks_eq, getLsbD_removeIntlvBits masks_eq]
  by_cases below : k < f.low
  · simp [below]
  · rw [if_neg below, if_neg (by omega), Nat.sub_add_cancel (by omega)]
    by_cases wide : k < 64
    · simp [wide]
    · simp [BitVec.getLsbD_of_ge a k (by omega)]

/-- The bit that is put back is the one that was taken out. -/
theorem addIntlvBits_removeIntlvBits (fit : f.bits ≠ 0 → r.intlvMatch < 2 ^ f.bits)
    (ha : r.contains a = true) (low : ∀ mask ∈ r.masks, ctz64 mask < 31) :
    r.addIntlvBits (r.removeIntlvBits a) = .ok a := by
  by_cases none : f.bits = 0
  · simp [addIntlvBits, removeIntlvBits, interleaved_eq masks_eq, none]
  obtain ⟨-, selects⟩ := (contains_iff masks_eq (fit none)).mp ha
  have last := (forall_mask_iff masks_eq).mp low (f.bits - 1) (by omega)
  rw [Stripes.ctz64_mask (by omega)] at last
  obtain ⟨b, run, bit⟩ := Stripes.setLoop_spec (show f.low + f.bits ≤ 31 by omega) r.intlvMatch 0
    (addLoop (List.range' f.low f.bits) (r.removeIntlvBits a))
  rw [Nat.sub_zero, ← List.range_eq_range', ← Stripes.masks, ← masks_eq] at run
  rw [addIntlvBits, interleaved_eq masks_eq, masksLsb_eq masks_eq, if_neg (by simp [none]), run]
  congr 1
  apply BitVec.eq_of_getLsbD_eq
  intro k _
  rw [bit]
  by_cases inside : f.low ≤ k ∧ k < f.low + f.bits
  · obtain ⟨j, rfl⟩ := Nat.exists_eq_add_of_le inside.1
    rw [if_pos (by omega), Nat.add_sub_cancel_left, ← selects j (by omega),
      Nat.add_right_comm f.low j]
    cases hx : f.xor
    · simp
    · have := f.apart hx
      rw [getLsbD_addLoop_removeIntlvBits masks_eq (by omega)]
      simp
  · rw [if_neg (by omega), getLsbD_addLoop_removeIntlvBits masks_eq (by omega)]

end

/-! ### Offsets -/

/-- The addresses of a stripe, from `s` to `e` in blocks of `P * Q`, with the field of every
block given by `F`: without the field they are the numbers below `P * (e - s)`, in order. -/
theorem stripe_bijective {P Q s e : Nat} (hP : 0 < P) {F : Nat → Nat} (hF : ∀ u, F u < Q) :
    (∀ a b, s ≤ a / (P * Q) → s ≤ b / (P * Q) → a / P % Q = F (a / (P * Q)) →
      b / P % Q = F (b / (P * Q)) → a < b →
      a % P + P * (a / (P * Q) - s) < b % P + P * (b / (P * Q) - s)) ∧
    ∀ k, k < P * (e - s) ↔ ∃ a, (s ≤ a / (P * Q) ∧ a / (P * Q) < e) ∧
      a / P % Q = F (a / (P * Q)) ∧ a % P + P * (a / (P * Q) - s) = k := by
  have hQ : 0 < Q := Nat.zero_lt_of_lt (hF 0)
  have parts (a : Nat) : a = a % P + P * (a / P % Q + Q * (a / (P * Q))) := by
    rw [← Nat.div_div_eq_div_mul, Nat.mod_add_div, Nat.mod_add_div]
  refine ⟨fun a b sa sb fa fb lt => ?_, fun k => ⟨fun hk => ?_, ?_⟩⟩
  · have ha := Nat.mod_lt a hP
    obtain less | eq := (Nat.div_le_div_right (c := P * Q) lt.le).lt_or_eq
    · have := Nat.mul_le_mul_left P (show a / (P * Q) - s + 1 ≤ b / (P * Q) - s by omega)
      rw [Nat.mul_add, Nat.mul_one] at this
      omega
    · have pa := parts a
      have pb := parts b
      rw [fa, eq] at pa
      rw [fb] at pb
      rw [eq]
      omega
  · obtain ⟨u, hu⟩ : ∃ u, u = s + k / P := ⟨_, rfl⟩
    have low := Nat.mod_lt k hP
    have field := hF u
    have block : P * (F u + Q * u) = P * F u + P * Q * u := by ring
    have inner : k % P + P * F u < P * Q := by
      have := Nat.mul_le_mul_left P (show F u + 1 ≤ Q from field)
      rw [Nat.mul_add, Nat.mul_one] at this
      omega
    have high : (k % P + P * (F u + Q * u)) / (P * Q) = u := by
      rw [block, ← Nat.add_assoc, Nat.add_mul_div_left _ _ (by positivity),
        Nat.div_eq_of_lt inner, Nat.zero_add]
    refine ⟨k % P + P * (F u + Q * u), ?_, ?_, ?_⟩
    · rw [high, hu]
      exact ⟨Nat.le_add_right _ _, Nat.add_lt_of_lt_sub' (Nat.div_lt_of_lt_mul hk)⟩
    · rw [high, Nat.add_mul_div_left _ _ hP, Nat.div_eq_of_lt low, Nat.zero_add,
        Nat.add_mul_mod_self_left, Nat.mod_eq_of_lt field]
    · rw [high, Nat.add_mul_mod_self_left, Nat.mod_eq_of_lt low, hu, Nat.add_sub_cancel_left,
        Nat.mod_add_div]
  · rintro ⟨a, ⟨sa, ae⟩, -, rfl⟩
    have ha := Nat.mod_lt a hP
    have := Nat.mul_le_mul_left P (show a / (P * Q) - s + 1 ≤ e - s by omega)
    rw [Nat.mul_add, Nat.mul_one] at this
    omega

/-- The field of the addresses whose bits above it are `u`. -/
def Stripes.field (f : Stripes) (intlvMatch u : Nat) : Nat :=
  (intlvMatch ^^^ if f.xor then u >>> (f.dist - f.bits) else 0) % 2 ^ f.bits

section

variable {r : AddrRange} {f : Stripes} {a : Addr} (masks_eq : r.masks = f.masks)
include masks_eq

theorem contains_iff_field (fit : r.intlvMatch < 2 ^ f.bits) :
    r.contains a = true ↔ r.Spans a ∧ a.toNat / 2 ^ f.low % 2 ^ f.bits =
      f.field r.intlvMatch (a.toNat / (2 ^ f.low * 2 ^ f.bits)) := by
  rw [contains_iff masks_eq fit]
  apply and_congr_right
  intro _
  have apart := f.apart
  have bit (j : Nat) (hj : j < f.bits) :
      (f.field r.intlvMatch (a.toNat / (2 ^ f.low * 2 ^ f.bits))).testBit j =
        (r.intlvMatch.testBit j ^^ (f.xor && a.getLsbD (f.low + f.dist + j))) := by
    rw [Stripes.field, Nat.testBit_mod_two_pow, decide_eq_true hj, Bool.true_and, Nat.testBit_xor,
      ← BitVec.testBit_toNat]
    cases hx : f.xor
    · simp
    · have := apart hx
      rw [if_pos rfl, Nat.testBit_shiftRight, ← Nat.pow_add, Nat.testBit_div_two_pow,
        Bool.true_and, show f.dist - f.bits + j + (f.low + f.bits) = f.low + f.dist + j by omega]
  have own (j : Nat) (hj : j < f.bits) :
      (a.toNat / 2 ^ f.low % 2 ^ f.bits).testBit j = a.getLsbD (f.low + j) := by
    rw [Nat.testBit_mod_two_pow, decide_eq_true hj, Bool.true_and, Nat.testBit_div_two_pow,
      BitVec.testBit_toNat, Nat.add_comm]
  have flip (x y z : Bool) : (x ^^ y) = z ↔ x = (z ^^ y) := by
    cases x <;> cases y <;> cases z <;> decide
  constructor
  · intro all
    apply Nat.eq_of_testBit_eq
    intro j
    by_cases hj : j < f.bits
    · rw [own j hj, bit j hj, ← flip, all j hj]
    · rw [Nat.testBit_mod_two_pow, Stripes.field, Nat.testBit_mod_two_pow]
      simp [hj]
  · intro eq j hj
    rw [flip, ← own j hj, ← bit j hj, eq]

theorem toNat_removeIntlvBits : (r.removeIntlvBits a).toNat =
    a.toNat % 2 ^ f.low + 2 ^ f.low * (a.toNat / (2 ^ f.low * 2 ^ f.bits)) := by
  apply Nat.eq_of_testBit_eq
  intro j
  rw [BitVec.testBit_toNat, getLsbD_removeIntlvBits masks_eq, Nat.add_comm (_ % _),
    Nat.testBit_two_pow_mul_add _ (Nat.mod_lt _ (Nat.two_pow_pos _)), Nat.testBit_mod_two_pow,
    ← Nat.pow_add, Nat.testBit_div_two_pow, BitVec.testBit_toNat, BitVec.testBit_toNat]
  by_cases low : j < f.low
  · simp [low]
  · rw [if_neg low, if_neg low]
    congr 1
    omega

theorem getOffset_bijective (fit : r.intlvMatch < 2 ^ f.bits) (valid : r.start ≤ r.end_)
    (hs : 2 ^ (f.low + f.bits) ∣ r.start.toNat) (he : 2 ^ (f.low + f.bits) ∣ r.end_.toNat) :
    (∀ a b, r.contains a = true → r.contains b = true → a < b → r.getOffset a < r.getOffset b) ∧
      ∀ k, k < r.size ↔ ∃ a, r.contains a = true ∧ r.getOffset a = k := by
  rw [Nat.pow_add] at hs he
  obtain ⟨s, hs⟩ := hs
  obtain ⟨e, he⟩ := he
  have hP : 0 < 2 ^ f.low := Nat.two_pow_pos _
  have pos : 0 < 2 ^ f.low * 2 ^ f.bits := by positivity
  have spans (a : Addr) : r.Spans a ↔ s ≤ a.toNat / (2 ^ f.low * 2 ^ f.bits) ∧
      a.toNat / (2 ^ f.low * 2 ^ f.bits) < e := by
    rw [Spans, BitVec.le_def, BitVec.lt_def, hs, he, Nat.le_div_iff_mul_le pos,
      Nat.div_lt_iff_lt_mul pos, Nat.mul_comm s, Nat.mul_comm e]
  have offset (a : Addr) (ha : r.Spans a) : (r.getOffset a).toNat =
      a.toNat % 2 ^ f.low + 2 ^ f.low * (a.toNat / (2 ^ f.low * 2 ^ f.bits) - s) := by
    have base : (r.removeIntlvBits r.start).toNat = 2 ^ f.low * s := by
      rw [toNat_removeIntlvBits masks_eq, hs, Nat.mul_div_cancel_left _ pos, Nat.mul_assoc,
        Nat.mul_mod_right, Nat.zero_add]
    have above := Nat.mul_le_mul_left (2 ^ f.low) ((spans a).mp ha).1
    have removed : r.getOffset a = r.removeIntlvBits a - r.removeIntlvBits r.start := by
      rw [getOffset, if_neg (not_not.mpr ha)]
      by_cases plain : r.interleaved <;> simp [plain, removeIntlvBits]
    rw [removed, BitVec.toNat_sub_of_le, base, toNat_removeIntlvBits masks_eq, Nat.mul_sub]
    · omega
    · rw [BitVec.le_def, base, toNat_removeIntlvBits masks_eq]
      omega
  have size : r.size.toNat = 2 ^ f.low * (e - s) := by
    rw [AddrRange.size, BitVec.toNat_ushiftRight, BitVec.toNat_sub_of_le valid, hs, he, masks_eq,
      Stripes.masks, List.length_map, List.length_range, Nat.shiftRight_eq_div_pow, ← Nat.mul_sub,
      Nat.mul_right_comm, Nat.mul_div_cancel _ (Nat.two_pow_pos _)]
  have field (u : Nat) : f.field r.intlvMatch u < 2 ^ f.bits := Nat.mod_lt _ (Nat.two_pow_pos _)
  obtain ⟨mono, onto⟩ := stripe_bijective (s := s) (e := e) hP field
  have inside (a : Addr) := contains_iff_field (a := a) masks_eq fit
  constructor
  · intro a b ha hb lt
    obtain ⟨sa, fa⟩ := (inside a).mp ha
    obtain ⟨sb, fb⟩ := (inside b).mp hb
    rw [BitVec.lt_def, offset a sa, offset b sb]
    exact mono _ _ ((spans a).mp sa).1 ((spans b).mp sb).1 fa fb lt
  · intro k
    rw [BitVec.lt_def, size, onto]
    constructor
    · rintro ⟨n, bounds, fn, eq⟩
      have small : n < 2 ^ 64 := by
        have := (Nat.div_lt_iff_lt_mul pos).mp bounds.2
        rw [Nat.mul_comm, ← he] at this
        exact this.trans r.end_.isLt
      have value : (BitVec.ofNat 64 n).toNat = n := Nat.mod_eq_of_lt small
      have ha : r.Spans (BitVec.ofNat 64 n) := (spans _).mpr (by rwa [value])
      refine ⟨BitVec.ofNat 64 n, (inside _).mpr ⟨ha, by rwa [value]⟩, BitVec.eq_of_toNat_eq ?_⟩
      rw [offset _ ha, value, eq]
    · rintro ⟨a, ha, rfl⟩
      obtain ⟨sa, fa⟩ := (inside a).mp ha
      exact ⟨a.toNat, (spans a).mp sa, fa, (offset a sa).symm⟩

end

end AddrRange

end Base
