import Lab447.Dram.Model

/-!
The search for a slot on the command bus. A window that is full holds a command, so
moving on from it leaves fewer commands ahead: the search ends. It only moves commands
to a later tick.
-/

namespace Dram

open Script

variable {bus : CommandBus} {burstTicks : List Nat}

/-- The only failure that can happen: no window takes a command at all. -/
def NoCommands (cfg : Config) (f : Fault) : Prop := f = .noSlot ∧ cfg.maxCommandsPerWindow = 0

/-- The same for a bus. -/
def CommandBus.Closed (bus : CommandBus) (f : Fault) : Prop := f = .noSlot ∧ bus.maxCmdsPerBurst = 0

/-- The commands on the bus from `t` on. -/
def ahead (burstTicks : List Nat) (t : Nat) : Nat := burstTicks.countP fun u => decide (t ≤ u)

theorem ahead_le_length (burstTicks : List Nat) (t : Nat) : ahead burstTicks t ≤ burstTicks.length := List.countP_le_length

theorem ahead_add (burstTicks : List Nat) (t : Nat) {w : Nat} (hw : 0 < w) :
    ahead burstTicks (t + w) + burstTicks.count t ≤ ahead burstTicks t := by
  unfold ahead
  induction burstTicks with
  | nil => simp
  | cons u us ih =>
    simp only [List.countP_cons, List.count_cons, decide_eq_true_eq, beq_iff_eq]
    split_ifs <;> omega

theorem lt_getBurstWindow_add (t : Nat) : t < getBurstWindow bus t + bus.commandWindow := by
  have := Nat.mod_lt t bus.commandWindow_pos
  unfold getBurstWindow
  omega

/-! ### One command -/

variable {burstTick fuel cmdAt : Nat}

theorem le_singleSlot {t : Nat} {slot : Nat × Nat} (at_ : t ≤ cmdAt)
    (window : t < burstTick + bus.commandWindow)
    (h : singleSlot bus burstTicks fuel burstTick cmdAt = some slot) : t ≤ slot.2 := by
  induction fuel generalizing burstTick cmdAt with
  | zero => cases h
  | succ fuel ih =>
    rw [singleSlot] at h
    split at h
    · exact ih window.le (by omega) h
    · cases h
      exact at_

theorem singleSlot_isSome (some_ : 0 < bus.maxCmdsPerBurst) (h : ahead burstTicks burstTick < fuel) :
    (singleSlot bus burstTicks fuel burstTick cmdAt).isSome := by
  induction fuel generalizing burstTick cmdAt with
  | zero => omega
  | succ fuel ih =>
    rw [singleSlot]
    split
    · apply ih
      have := ahead_add burstTicks burstTick bus.commandWindow_pos
      omega
    · rfl

theorem verifySingleCmd_ends (t : Nat) :
    Ends (bus.Closed) (fun slot => t ≤ slot.2) (verifySingleCmd bus burstTicks t) := by
  unfold verifySingleCmd
  cases h : singleSlot bus burstTicks (burstTicks.length + 1) (getBurstWindow bus t) t with
  | some slot => exact le_singleSlot le_rfl (lt_getBurstWindow_add t) h
  | none =>
    refine ⟨rfl, Nat.eq_zero_of_not_pos fun some_ => ?_⟩
    have found : (singleSlot bus burstTicks (burstTicks.length + 1)
        (getBurstWindow bus t) t).isSome :=
      singleSlot_isSome some_ (Nat.lt_succ_of_le (ahead_le_length _ _))
    rw [h] at found
    cases found

/-! ### Two commands -/

/-- The search for the first window, over at most `maxMultiCmdSplit` ticks, ends. -/
theorem le_burstOffset {split first offset : Nat} (h : split ≤ first + offset + fuel) :
    split ≤ first + burstOffset bus split first fuel offset := by
  induction fuel generalizing offset with
  | zero => exact h
  | succ fuel ih =>
    rw [burstOffset]
    split
    · have := bus.commandWindow_pos
      exact ih (by omega)
    · omega

theorem le_multiSlot {t split : Nat} {slot : Nat × Nat × Nat} {first : Nat} (at_ : t ≤ cmdAt)
    (window : t < burstTick + bus.commandWindow)
    (h : multiSlot bus burstTicks split fuel first burstTick cmdAt = some slot) : t ≤ slot.2.2 := by
  induction fuel generalizing first burstTick cmdAt with
  | zero => cases h
  | succ fuel ih =>
    simp only [multiSlot] at h
    split at h
    · cases h
      exact at_
    · apply ih _ _ h
      · split <;> omega
      · split <;> omega

/-- A step of the search passes a full window, or separates the two commands. -/
theorem multiSlot_isSome (some_ : 0 < bus.maxCmdsPerBurst) {split : Nat} {first : Nat}
    (h : 2 * (ahead burstTicks first + ahead burstTicks burstTick) +
      (if burstTick = first then 1 else 0) < fuel) :
    (multiSlot bus burstTicks split fuel first burstTick cmdAt).isSome := by
  induction fuel generalizing first burstTick cmdAt with
  | zero => omega
  | succ fuel ih =>
    simp only [multiSlot]
    split
    · rfl
    · rename_i busy
      apply ih
      have w := bus.commandWindow_pos
      have full := ahead_add burstTicks burstTick w
      have firstFull := ahead_add burstTicks first w
      by_cases same : burstTick = first
      · subst same
        simp only [secondCmdCount, ↓reduceIte, Bool.and_eq_true, decide_eq_true_eq,
          Bool.or_eq_true, Bool.not_eq_true', decide_eq_false_iff_not, ne_eq, not_true_eq_false,
          decide_false, Bool.false_and, Bool.and_false, Bool.false_eq_true, or_false] at busy h ⊢
        split_ifs <;> omega
      · simp only [secondCmdCount, same, ↓reduceIte, Bool.and_eq_true, decide_eq_true_eq,
          Bool.or_eq_true, Bool.not_eq_true', decide_eq_false_iff_not, ne_eq, not_false_eq_true,
          decide_true, Bool.true_and] at busy h ⊢
        split_ifs <;> omega

theorem verifyMultiCmd_ends (t split : Nat) :
    Ends (bus.Closed) (fun slot => t ≤ slot.2) (verifyMultiCmd bus burstTicks t split) := by
  unfold verifyMultiCmd
  simp only []
  generalize getBurstWindow bus t - min _ _ = first
  cases h : multiSlot bus burstTicks split (4 * burstTicks.length + 2) first
      (getBurstWindow bus t) t with
  | some slot => exact le_multiSlot le_rfl (lt_getBurstWindow_add t) h
  | none =>
    refine ⟨rfl, Nat.eq_zero_of_not_pos fun some_ => ?_⟩
    have found : (multiSlot bus burstTicks split (4 * burstTicks.length + 2) first
        (getBurstWindow bus t) t).isSome := by
      apply multiSlot_isSome some_
      have := ahead_le_length burstTicks first
      have := ahead_le_length burstTicks (getBurstWindow bus t)
      split <;> omega
    rw [h] at found
    cases found

end Dram
