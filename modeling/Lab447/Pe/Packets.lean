import Lab447.Pe.Model

/-!
The packets of one entry. `operateTraffic` cuts an entry into cache lines; the
lines are the right ones exactly when the entry ends with a line or lies in one,
and when its size fits the 32 bits it is computed with.
-/

namespace Pe

variable {n : Nat}

/-- The lines are the consecutive lines of `size` bytes that the bytes of an entry
lie in. The loop over the lines counts with an `int`. -/
structure Packetised (size : Nat) (t : Traffic) (lines : List Nat) : Prop where
  counter : lines.length < 2 ^ 31
  aligned : ∀ a ∈ lines, size ∣ a
  distinct : lines.Nodup
  consecutive : lines.IsChain fun a b => b = a + size
  covers : ∀ x, t.addr ≤ x → x < t.addr + t.size → ∃ a ∈ lines, a ≤ x ∧ x < a + size
  needed : ∀ a ∈ lines, ∃ x, a ≤ x ∧ x < a + size ∧ t.addr ≤ x ∧ x < t.addr + max t.size size

/-- The entry lies in one line or ends where a line does, and its bytes can be
counted in 32 bits from the start of its first line on; with lines of one byte, in
the 31 bits of the loop's counter. -/
def WholeLines (size : Nat) (t : Traffic) : Prop :=
  size < 2 ^ 32 ∧ t.addr % size + t.size < 2 ^ 32 ∧ t.addr % size + t.size < 2 ^ 31 * size ∧
    (t.addr % size + t.size ≤ size ∨ size ∣ t.addr + t.size)

instance (size : Nat) (t : Traffic) : Decidable (WholeLines size t) :=
  inferInstanceAs (Decidable (_ ∧ _))

section

variable {L : Nat} {t : Traffic}

theorem lineCount_mul_lt (L : Nat) (t : Traffic) : lineCount L t * L < 2 ^ 32 := by
  have le := Nat.div_mul_le_self
  unfold lineCount uint32
  simp only []
  split
  all_goals exact lt_of_le_of_lt (le _ _) (Nat.mod_lt _ (by decide))

theorem lineCount_eq_zero (h : 2 ^ 32 ≤ L) : lineCount L t = 0 := by
  have small := lineCount_mul_lt L t
  by_contra hne
  have := Nat.le_mul_of_pos_left L (Nat.pos_of_ne_zero hne)
  omega

theorem dvd_half {k : Nat} (h : 2 ^ k < 2 ^ 32) : 2 ^ k ≤ 2 ^ 31 := by
  have : k < 32 := (Nat.pow_lt_pow_iff_right (by decide)).mp h
  exact Nat.pow_le_pow_right (by decide) (by omega)

/-- An entry of at most one line makes one packet. -/
theorem lineCount_small (pos : 0 < L) (half : L ≤ 2 ^ 31) (small : t.size ≤ L) :
    lineCount L t = 1 := by
  have off := Nat.mod_lt t.addr pos
  have line : uint32 L = L := Nat.mod_eq_of_lt (by omega)
  have sum : uint32 (L + t.addr % L) = L + t.addr % L := Nat.mod_eq_of_lt (by omega)
  simp only [lineCount, if_pos small, line, sum]
  split
  · rw [Nat.add_div_left _ pos, Nat.div_eq_of_lt off]
  · exact Nat.div_self pos

/-- A larger one makes as many as there are whole lines from its first line on. -/
theorem lineCount_large (large : L < t.size) (fits : t.addr % L + t.size < 2 ^ 32) :
    lineCount L t = (t.addr % L + t.size) / L := by
  have size : uint32 t.size = t.size := Nat.mod_eq_of_lt (by omega)
  have sum : uint32 (t.size + t.addr % L) = t.addr % L + t.size := by
    rw [Nat.add_comm]
    exact Nat.mod_eq_of_lt fits
  simp only [lineCount, if_neg (by omega : ¬ t.size ≤ L), size, sum]
  split
  · rfl
  · rename_i aligned
    rw [not_not.mp aligned, Nat.zero_add]

/-- Every line starts before the end of the entry, or is its only line. -/
theorem lineCount_le (pos : 0 < L) (fits : L ≤ 2 ^ 31) :
    lineCount L t * L ≤ t.addr % L + max t.size L := by
  obtain small | large := le_or_gt t.size L
  · rw [lineCount_small pos fits small]
    omega
  · obtain fit | beyond := lt_or_ge (t.addr % L + t.size) (2 ^ 32)
    · rw [lineCount_large large fit]
      exact (Nat.div_mul_le_self _ _).trans (by omega)
    · have := lineCount_mul_lt L t
      omega

/-- The lines reach the end of the entry exactly when they are whole. -/
theorem reaches_iff {k : Nat} (hL : L = 2 ^ k) (pos : 1 ≤ t.size) :
    (t.addr % L + t.size ≤ lineCount L t * L ∧ lineCount L t < 2 ^ 31) ↔ WholeLines L t := by
  have hpos : 0 < L := hL ▸ Nat.two_pow_pos k
  have off := Nat.mod_lt t.addr hpos
  have dvd_iff : L ∣ t.addr + t.size ↔ L ∣ t.addr % L + t.size := by
    rw [Nat.dvd_iff_mod_eq_zero, Nat.dvd_iff_mod_eq_zero, Nat.mod_add_mod]
  constructor
  · rintro ⟨reach, counter⟩
    have bound := lineCount_mul_lt L t
    have size : L < 2 ^ 32 := by
      by_contra big
      rw [lineCount_eq_zero (by omega), Nat.zero_mul] at reach
      omega
    have half : L ≤ 2 ^ 31 := hL ▸ dvd_half (hL ▸ size)
    have count : t.addr % L + t.size < 2 ^ 31 * L :=
      lt_of_le_of_lt reach (Nat.mul_lt_mul_of_pos_right counter hpos)
    refine ⟨size, by omega, count, ?_⟩
    obtain small | large := le_or_gt t.size L
    · rw [lineCount_small hpos half small] at reach
      exact .inl (by omega)
    · rw [lineCount_large large (by omega)] at reach
      have down := Nat.div_mul_le_self (t.addr % L + t.size) L
      exact .inr (dvd_iff.mpr (Dvd.intro_left ((t.addr % L + t.size) / L) (by omega)))
  · rintro ⟨size, fits, count, whole⟩
    have half : L ≤ 2 ^ 31 := hL ▸ dvd_half (hL ▸ size)
    obtain small | large := le_or_gt t.size L
    · rw [lineCount_small hpos half small]
      refine ⟨?_, by decide⟩
      obtain inside | whole := whole
      · omega
      · obtain ⟨c, hc⟩ := dvd_iff.mp whole
        have : c < 2 := by
          by_contra hc2
          have : L * 2 ≤ L * c := Nat.mul_le_mul_left L (by omega)
          omega
        have : L * c ≤ L * 1 := Nat.mul_le_mul_left L (by omega)
        omega
    · have whole : L ∣ t.addr % L + t.size := dvd_iff.mp (whole.resolve_left (by omega))
      rw [lineCount_large large fits, Nat.div_mul_cancel whole]
      exact ⟨le_rfl, (Nat.div_lt_iff_lt_mul hpos).mpr count⟩

end

variable {t : Traffic}

/-- The addresses of the lines, which do not wrap around. -/
theorem lineAddr_eq {L : Nat} {i : Nat} (pos : 0 < L) (half : L ≤ 2 ^ 31)
    (room : t.addr + t.size < 2 ^ 64) (hi : i < lineCount L t) :
    lineAddr L t i = t.addr - t.addr % L + i * L := by
  have low := Nat.mod_le t.addr L
  have le := lineCount_le pos half (t := t)
  have next : (i + 1) * L ≤ lineCount L t * L := Nat.mul_le_mul_right L hi
  rw [Nat.succ_mul] at next
  exact Nat.mod_eq_of_lt (by omega)

theorem packetised_of_reaches {L : Nat} (pos : 0 < L) (half : L ≤ 2 ^ 31)
    (room : t.addr + t.size < 2 ^ 64) (counter : lineCount L t < 2 ^ 31)
    (reach : t.addr % L + t.size ≤ lineCount L t * L) :
    Packetised L t ((List.range (lineCount L t)).map (lineAddr L t)) := by
  have off := Nat.mod_lt t.addr pos
  have le := lineCount_le pos half (t := t)
  have base : L ∣ t.addr - t.addr % L := Nat.dvd_sub_mod t.addr
  have lines : (List.range (lineCount L t)).map (lineAddr L t) =
      (List.range (lineCount L t)).map fun i => t.addr - t.addr % L + i * L :=
    List.map_congr_left fun i hi => lineAddr_eq pos half room (List.mem_range.mp hi)
  rw [lines]
  refine ⟨by simpa using counter, ?_, ?_, ?_, ?_, ?_⟩
  · intro a ha
    obtain ⟨i, -, rfl⟩ := List.mem_map.mp ha
    exact Dvd.dvd.add base (Dvd.intro_left i rfl)
  · refine List.Nodup.map_on (fun i _ j _ h => ?_) List.nodup_range
    exact Nat.eq_of_mul_eq_mul_right pos (Nat.add_left_cancel h)
  · rw [List.isChain_map]
    refine (List.isChain_range _ _).mpr fun i _ => ?_
    rw [Nat.succ_mul, Nat.add_assoc]
  · intro x first last
    refine ⟨_, List.mem_map.mpr ⟨(x - (t.addr - t.addr % L)) / L, ?_, rfl⟩, ?_, ?_⟩
    · rw [List.mem_range, Nat.div_lt_iff_lt_mul pos]
      omega
    · have := Nat.div_mul_le_self (x - (t.addr - t.addr % L)) L
      omega
    · have := Nat.lt_div_mul_add pos (a := x - (t.addr - t.addr % L))
      omega
  · intro a ha
    obtain ⟨i, hi, rfl⟩ := List.mem_map.mp ha
    have next : (i + 1) * L ≤ lineCount L t * L := Nat.mul_le_mul_right L (List.mem_range.mp hi)
    rw [Nat.succ_mul] at next
    refine ⟨max t.addr (t.addr - t.addr % L + i * L), ?_, ?_, ?_, ?_⟩ <;> omega

/-- The lines of an entry are right exactly when they are whole. -/
theorem packetised_iff {k L : Nat} (hL : L = 2 ^ k) (pos : 1 ≤ t.size)
    (room : t.addr + t.size < 2 ^ 64) :
    Packetised L t ((List.range (lineCount L t)).map (lineAddr L t)) ↔ WholeLines L t := by
  have hpos : 0 < L := hL ▸ Nat.two_pow_pos k
  constructor
  · intro h
    apply (reaches_iff hL pos).mp
    refine ⟨?_, by simpa using h.counter⟩
    -- the line of the last byte
    obtain ⟨a, ha, -, last⟩ := h.covers (t.addr + t.size - 1) (by omega) (by omega)
    obtain ⟨i, hi, rfl⟩ := List.mem_map.mp ha
    have hi := List.mem_range.mp hi
    have half : L ≤ 2 ^ 31 := by
      rw [hL]
      refine dvd_half (lt_of_not_ge fun big => ?_)
      rw [lineCount_eq_zero (hL ▸ big)] at hi
      omega
    rw [lineAddr_eq hpos half room hi] at last
    have next : (i + 1) * L ≤ lineCount L t * L := Nat.mul_le_mul_right L hi
    rw [Nat.succ_mul] at next
    have low := Nat.mod_le t.addr L
    omega
  · intro whole
    have half : L ≤ 2 ^ 31 := hL ▸ dvd_half (hL ▸ whole.1)
    obtain ⟨reach, counter⟩ := (reaches_iff hL pos).mpr whole
    exact packetised_of_reaches hpos half room counter reach

/-! ### The packets that are pushed -/

/-- The queue of an entry's packets. -/
def queueFor (t : Traffic) (pe : PE n) : List (PacketPtr n) :=
  if t.type = .read then pe.waitingSendRead else pe.waitingSendWrite

variable {s : System n} {p : Fin n}

theorem queueFor_set {pe : PE n} (h : queueFor t pe = queueFor t (s.pe p)) :
    queueFor t ((s.set p pe).pe p) = queueFor t (s.pe p) := by
  rw [System.set]
  simpa using h

theorem queueFor_scheduleScheduleReq {s' : System n} {q : Fin n} {when : Nat}
    (h : s.scheduleScheduleReq q when = .ok s') : queueFor t (s'.pe p) = queueFor t (s.pe p) := by
  unfold System.scheduleScheduleReq at h
  split at h
  · cases h
  · cases h
    by_cases hq : p = q
    · subst hq
      exact queueFor_set rfl
    · simp [System.set, hq]

theorem queueFor_waitSync {s' : System n} (h : waitSync s p = .ok s') :
    queueFor t (s'.pe p) = queueFor t (s.pe p) := by
  unfold waitSync sendBroadcast at h
  simp only [] at h
  split at h
  · have kept := queueFor_scheduleScheduleReq (p := p) (t := t) h
    exact kept
  · cases h
    rfl

/-- `operateTraffic` appends the packets of a read or write to its queue. -/
theorem queueFor_operateTraffic {cfg : Config n} {s' : System n}
    (entry : (s.pe p).trafficList[(s.pe p).curTraffic]? = some t) (access : t.isAccess = true)
    (run : operateTraffic cfg s p = .ok s') : queueFor t (s'.pe p) = queueFor t (s.pe p) ++
      (makeRequests cfg.cacheLineSize p (s.pe p).created t).map .packet := by
  have kind : t.type = .read ∨ t.type = .write := by simpa [Traffic.isAccess] using access
  simp only [operateTraffic, entry] at run
  cases hs : start cfg s p t with
  | error e =>
    rw [hs] at run
    cases run
  | ok u =>
    rw [hs] at run
    cases run
    have pushed : queueFor t (u.pe p) = queueFor t (s.pe p) ++
        (makeRequests cfg.cacheLineSize p (s.pe p).created t).map .packet := by
      have grown (reqs : List (Request n)) (e : Event n) :
          queueFor t ((push (s.record e) p t reqs).pe p) =
            queueFor t (s.pe p) ++ reqs.map .packet := by
        obtain h | h := kind
        all_goals simp [push, queueFor, System.set, System.record, h]
      unfold start at hs
      split at hs
      · rename_i h
        simp [h] at kind
      · rename_i h
        simp [h] at kind
      · split at hs
        · rw [queueFor_waitSync hs, grown]
        · rw [queueFor_scheduleScheduleReq hs, grown]
    rw [← pushed]
    exact queueFor_set rfl

/-- The packets `operateTraffic` pushes for a read or write are the consecutive
lines its bytes lie in, exactly when the entry is one of whole lines. -/
theorem packets_cover_iff (cfg : Config n) (s s' : System n) (p : Fin n) (t : Traffic) (k : Nat)
    (line : cfg.cacheLineSize = 2 ^ k)
    (entry : (s.pe p).trafficList[(s.pe p).curTraffic]? = some t) (access : t.isAccess = true)
    (pos : 1 ≤ t.size) (room : t.addr + t.size < 2 ^ 64)
    (run : operateTraffic cfg s p = .ok s') :
    ∃ pushed : List (Request n),
      queueFor t (s'.pe p) = queueFor t (s.pe p) ++ pushed.map .packet ∧
      (Packetised cfg.cacheLineSize t (pushed.map Request.addr) ↔
        WholeLines cfg.cacheLineSize t) := by
  refine ⟨_, queueFor_operateTraffic entry access run, ?_⟩
  rw [makeRequests, List.map_map]
  exact packetised_iff line pos room

/-- One PE with one entry, and lines of 64 bytes. -/
def alone (t : Traffic) : Config 1 := ⟨fun _ => [t], 64, fun _ => true⟩

/-- A read of `size` bytes at address 0. -/
def readFirst (size : Nat) : Traffic := ⟨.read, (0, 0), (1, 0), 0, size, .unicast, .unicast⟩

theorem packets_cover_two_lines :
    ∃ s', operateTraffic (alone (readFirst 128)) (sim (alone (readFirst 128))).start 0 = .ok s' ∧
      ∃ pushed : List (Request 1), queueFor (readFirst 128) (s'.pe 0) = [] ++ pushed.map .packet ∧
        Packetised 64 (readFirst 128) (pushed.map Request.addr) := by
  refine ⟨_, rfl, ?_⟩
  obtain ⟨pushed, queue, iff⟩ := packets_cover_iff (alone (readFirst 128))
    (sim (alone (readFirst 128))).start _ 0 (readFirst 128) 6 rfl rfl rfl (by decide) (by decide) rfl
  exact ⟨pushed, queue, iff.mpr (by decide)⟩

/-- The last byte of a read of 65 bytes is in no packet. -/
theorem packets_miss_byte :
    ∃ s', operateTraffic (alone (readFirst 65)) (sim (alone (readFirst 65))).start 0 = .ok s' ∧
      ∃ pushed : List (Request 1), queueFor (readFirst 65) (s'.pe 0) = [] ++ pushed.map .packet ∧
        ¬ Packetised 64 (readFirst 65) (pushed.map Request.addr) := by
  refine ⟨_, rfl, [⟨0, 0, 0, true, false⟩], rfl, fun h => ?_⟩
  obtain ⟨a, ha, -, last⟩ := h.covers 64 (by decide) (by decide)
  cases List.mem_singleton.mp ha
  exact absurd last (by decide)

end Pe
