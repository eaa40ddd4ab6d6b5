import Lab447.MemCtrl.Model

/-!
How packets are split into bursts: the mask arithmetic of the source, the addresses
its loops go through, and when a write queue packet has all the bytes of a burst.
-/

namespace MemCtrl

variable {cfg : Config} {pkt : Packet} {n k a b : Nat}

theorem bytesPerBurst_pos (cfg : Config) : 0 < cfg.bytesPerBurst := Nat.two_pow_pos _

theorem and_mask (cfg : Config) (a : Nat) :
    a &&& (cfg.bytesPerBurst - 1) = a % cfg.bytesPerBurst :=
  Nat.and_two_pow_sub_one_eq_mod a cfg.burstBits

theorem burstAlign_eq : burstAlign cfg a = a / cfg.bytesPerBurst * cfg.bytesPerBurst := by
  have parts := Nat.div_add_mod' a cfg.bytesPerBurst
  rw [burstAlign, and_mask]
  omega

theorem nextBurst_eq : nextBurst cfg a = (a / cfg.bytesPerBurst + 1) * cfg.bytesPerBurst := by
  have mask : a ||| (cfg.bytesPerBurst - 1) =
      cfg.bytesPerBurst * (a / cfg.bytesPerBurst) + (cfg.bytesPerBurst - 1) := by
    have low : cfg.bytesPerBurst - 1 < cfg.bytesPerBurst :=
      Nat.sub_lt (bytesPerBurst_pos cfg) Nat.one_pos
    simp only [Config.bytesPerBurst] at low ⊢
    rw [Nat.two_pow_add_eq_or_of_lt low]
    apply Nat.eq_of_testBit_eq
    intro i
    simp only [Nat.testBit_or, Nat.testBit_two_pow_mul, Nat.testBit_div_two_pow,
      Nat.testBit_two_pow_sub_one]
    by_cases hi : i < cfg.burstBits
    · simp [hi]
    · simp [hi, Nat.not_lt.mp hi]
  have pos := bytesPerBurst_pos cfg
  rw [nextBurst, mask, Nat.add_mul, Nat.mul_comm]
  omega

theorem lt_nextBurst (cfg : Config) (a : Nat) : a < nextBurst cfg a := by
  rw [nextBurst_eq]
  exact Nat.lt_mul_of_div_lt (Nat.lt_succ_self _) (bytesPerBurst_pos cfg)

theorem nextBurst_le (a : Nat) : nextBurst cfg a ≤ a + cfg.bytesPerBurst := by
  rw [nextBurst_eq, Nat.add_mul, Nat.one_mul]
  exact Nat.add_le_add_right (Nat.div_mul_le_self a _) _

/-- Addresses have the same burst address when they are in the same burst. -/
theorem burstAlign_eq_iff :
    burstAlign cfg a = burstAlign cfg b ↔ a / cfg.bytesPerBurst = b / cfg.bytesPerBurst := by
  rw [burstAlign_eq, burstAlign_eq]
  exact Nat.mul_left_inj (bytesPerBurst_pos cfg).ne'

theorem burstAlign_eq_of_lt (low : a ≤ b) (high : b < nextBurst cfg a) :
    burstAlign cfg b = burstAlign cfg a := by
  rw [nextBurst_eq] at high
  rw [burstAlign_eq_iff]
  apply Nat.le_antisymm
  · exact Nat.lt_succ_iff.mp ((Nat.div_lt_iff_lt_mul (bytesPerBurst_pos cfg)).mpr high)
  · exact Nat.div_le_div_right low

/-- Something of `size` bytes at `a` is not empty and is within one burst. -/
def Fits (cfg : Config) (a : Nat) (size : Nat) : Prop := 0 < size ∧ a + size ≤ nextBurst cfg a

theorem Fits.size_le {size : Nat} (h : Fits cfg a size) : size ≤ cfg.bytesPerBurst := by
  have bound := h.2.trans (nextBurst_le a)
  omega

/-- Such a packet counts as one entry. -/
theorem Fits.divCeil_eq {size : Nat} (h : Fits cfg a size) :
    divCeil size cfg.bytesPerBurst = 1 := by
  have high := h.size_le
  have low := h.1
  apply Nat.div_eq_of_lt_le <;> omega

/-- A packet that has all the bytes of a burst has the burst's address. -/
theorem burstAlign_of_covers {p : MemPacket} {size : Nat} (hp : Fits cfg p.addr p.size)
    (hb : 0 < size) (h : Ctrl.covers a size p = true) :
    burstAlign cfg p.addr = burstAlign cfg a := by
  simp only [Ctrl.covers, Bool.and_eq_true, decide_eq_true_eq] at h
  obtain ⟨low, high⟩ := h
  have bound := hp.2
  exact (burstAlign_eq_of_lt low (by omega)).symm

/-! ### The loops over the bursts -/

/-- The addresses and sizes the loops of `addToReadQueue` and `addToWriteQueue` see
from an address on. -/
def burstsFrom (cfg : Config) (pkt : Packet) : Nat → Nat → List Burst
  | 0, _ => []
  | n + 1, a => (a, Ctrl.burstSize cfg pkt a) :: burstsFrom cfg pkt n (nextBurst cfg a)

/-- Where the `k`-th burst of a packet starts. -/
def burstStart (cfg : Config) (pkt : Packet) (k : Nat) : Nat :=
  max pkt.addr ((pkt.addr / cfg.bytesPerBurst + k) * cfg.bytesPerBurst)

theorem burstStart_zero : burstStart cfg pkt 0 = pkt.addr :=
  Nat.max_eq_left (Nat.div_mul_le_self _ _)

theorem burstStart_div :
    burstStart cfg pkt k / cfg.bytesPerBurst = pkt.addr / cfg.bytesPerBurst + k := by
  have pos := bytesPerBurst_pos cfg
  rw [burstStart]
  obtain h | h := Nat.le_total pkt.addr ((pkt.addr / cfg.bytesPerBurst + k) * cfg.bytesPerBurst)
  · rw [Nat.max_eq_right h, Nat.mul_div_cancel _ pos]
  · rw [Nat.max_eq_left h]
    have le := (Nat.le_div_iff_mul_le pos).mpr h
    omega

theorem nextBurst_burstStart :
    nextBurst cfg (burstStart cfg pkt k) =
      (pkt.addr / cfg.bytesPerBurst + k + 1) * cfg.bytesPerBurst := by
  rw [nextBurst_eq, burstStart_div]

theorem burstStart_succ : burstStart cfg pkt (k + 1) = nextBurst cfg (burstStart cfg pkt k) := by
  have above : pkt.addr < (pkt.addr / cfg.bytesPerBurst + k + 1) * cfg.bytesPerBurst :=
    Nat.lt_mul_of_div_lt (by omega) (bytesPerBurst_pos cfg)
  rw [nextBurst_burstStart, burstStart]
  exact Nat.max_eq_right above.le

theorem bursts_eq : bursts cfg pkt n = (List.range n).map fun k =>
    (burstStart cfg pkt k, Ctrl.burstSize cfg pkt (burstStart cfg pkt k)) := by
  simp only [bursts, Ctrl.burstSize, nextBurst_burstStart]
  rfl

theorem burstsFrom_eq (k : Nat) : burstsFrom cfg pkt n (burstStart cfg pkt k) =
    (List.range n).map fun j =>
      (burstStart cfg pkt (k + j), Ctrl.burstSize cfg pkt (burstStart cfg pkt (k + j))) := by
  induction n generalizing k with
  | zero => rfl
  | succ n ih =>
    rw [burstsFrom, ← burstStart_succ, ih, List.range_succ_eq_map, List.map_cons, List.map_map]
    simp only [Nat.add_zero, Function.comp_def, Nat.succ_eq_add_one, Nat.add_comm 1,
      Nat.add_assoc]

/-- The loops see the bursts of the packet. -/
theorem burstsFrom_addr : burstsFrom cfg pkt n pkt.addr = bursts cfg pkt n := by
  have all : burstsFrom cfg pkt n (burstStart cfg pkt 0) = _ := burstsFrom_eq 0
  rw [burstStart_zero] at all
  rw [all, bursts_eq]
  simp only [Nat.zero_add]

theorem pktCount_eq (small : cfg.bytesPerBurst < 2 ^ 32) : Ctrl.pktCount cfg pkt =
    (pkt.addr % cfg.bytesPerBurst + pkt.size.toNat + cfg.bytesPerBurst - 1) % 2 ^ 32 /
      cfg.bytesPerBurst := by
  have pos := bytesPerBurst_pos cfg
  have offset : pkt.addr % cfg.bytesPerBurst < 2 ^ 32 := (Nat.mod_lt _ pos).trans small
  simp only [Ctrl.pktCount, and_mask, BitVec.toNat_udiv, BitVec.toNat_sub, BitVec.toNat_add,
    BitVec.toNat_ofNat, Nat.mod_eq_of_lt offset, Nat.mod_eq_of_lt small]
  have one : (1 : BitVec 32).toNat = 1 := rfl
  congr 1
  omega

/-- The count is at most the number of bursts the packet touches. It is less when
the sum in the source wraps around. -/
theorem pktCount_le (cfg : Config) (pkt : Packet) : Ctrl.pktCount cfg pkt * cfg.bytesPerBurst ≤
    pkt.addr % cfg.bytesPerBurst + pkt.size.toNat + cfg.bytesPerBurst - 1 := by
  by_cases small : cfg.bytesPerBurst < 2 ^ 32
  · rw [pktCount_eq small]
    exact (Nat.div_mul_le_self _ _).trans (Nat.mod_le _ _)
  · have zero : BitVec.ofNat 32 cfg.bytesPerBurst = 0 := by
      have bits : 32 ≤ cfg.burstBits := by
        by_contra few
        exact small (Nat.pow_lt_pow_right (by decide) (by omega))
      apply BitVec.eq_of_toNat_eq
      obtain ⟨m, hm⟩ := Nat.exists_eq_add_of_le bits
      simp [Config.bytesPerBurst, hm, Nat.pow_add]
    simp [Ctrl.pktCount, zero]

/-- Every burst of a packet is within one burst of the memory. -/
theorem bursts_fit (size : 0 < pkt.size.toNat) {burst : Burst}
    (h : burst ∈ bursts cfg pkt (Ctrl.pktCount cfg pkt)) : Fits cfg burst.1 burst.2 := by
  rw [bursts_eq] at h
  obtain ⟨k, hk, rfl⟩ := List.mem_map.mp h
  have count := pktCount_le cfg pkt
  have parts := Nat.div_add_mod' pkt.addr cfg.bytesPerBurst
  have hk : (k + 1) * cfg.bytesPerBurst ≤ Ctrl.pktCount cfg pkt * cfg.bytesPerBurst :=
    Nat.mul_le_mul_right _ (List.mem_range.mp hk)
  rw [Nat.add_mul, Nat.one_mul] at hk
  have inside : burstStart cfg pkt k < pkt.addr + pkt.size.toNat := by
    rw [burstStart, Nat.add_mul]
    have pos := bytesPerBurst_pos cfg
    apply max_lt <;> omega
  have below := lt_nextBurst cfg (burstStart cfg pkt k)
  simp only [Fits, Ctrl.burstSize]
  omega

end MemCtrl
