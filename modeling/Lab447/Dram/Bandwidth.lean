import Lab447.Dram.Slots

/-!
Whole runs of the command bus. The bus forgets the commands of windows that began
before the tick of an access, so a run is looked at with all commands ever issued.
-/

namespace Dram

variable {bus : CommandBus} {burstTicks : List Nat}

inductive BusCall where
  | verifySingleCmd (cmdTick : Nat)
  | verifyMultiCmd (cmdTick maxMultiCmdSplit : Nat)
  deriving DecidableEq

namespace BusCall

def cmdTick : BusCall → Nat
  | .verifySingleCmd t | .verifyMultiCmd t _ => t

def issue (bus : CommandBus) (burstTicks : List Nat) : BusCall → Except Fault (List Nat × Nat)
  | .verifySingleCmd t => Dram.verifySingleCmd bus burstTicks t
  | .verifyMultiCmd t split => Dram.verifyMultiCmd bus burstTicks t split

/-- The first window that the search of a call looks at. -/
def earliest (bus : CommandBus) : BusCall → Nat
  | .verifySingleCmd t => getBurstWindow bus t
  | .verifyMultiCmd t split =>
    getBurstWindow bus t -
      min (burstOffset bus split (t % bus.commandWindow) split 0) (getBurstWindow bus t)

end BusCall

/-- A call that has returned: when it was made, the windows it took and the tick it
gave. -/
structure Issue where
  curTick : Nat
  call : BusCall
  windows : List Nat
  cmdAt : Nat
  deriving DecidableEq

/-- The windows of all commands. -/
def assigned (issued : List Issue) : List Nat := issued.flatMap Issue.windows

/-- `issued` has every call since the start, the last one first. -/
structure BusState where
  curTick : Nat
  burstTicks : List Nat
  issued : List Issue
  deriving DecidableEq

inductive BusEvent where
  | access (curTick : Nat)
  | call (call : BusCall)

namespace CommandBus

/-- What a returned call adds to the bus and to the record. -/
def record (s : BusState) (call : BusCall) (slot : List Nat × Nat) : BusState :=
  { s with
    burstTicks := slot.1
    issued := ⟨s.curTick, call, slot.1.take (slot.1.length - s.burstTicks.length), slot.2⟩ :: s.issued }

/-- Accesses come in the order of time, and commands are not asked for in the past. -/
def machine (bus : CommandBus) : Machine BusState BusEvent Fault where
  start := ⟨0, [], []⟩
  step s
    | .access t =>
      if s.curTick ≤ t then
        some (.ok { s with curTick := t, burstTicks := pruneBurstTick s.burstTicks t })
      else none
    | .call call =>
      if s.curTick ≤ call.cmdTick then
        some ((call.issue bus s.burstTicks).map (record s call))
      else none

end CommandBus

/-! ### One call -/

/-- What a call gets: windows with room, none before the first one it looked at, the
first command's not after the second's, and a tick that is not too early. -/
structure Granted (bus : CommandBus) (burstTicks : List Nat) (call : BusCall)
    (windows : List Nat) (cmdAt : Nat) : Prop where
  aligned : ∀ w ∈ windows, bus.commandWindow ∣ w
  earliest : ∀ w ∈ windows, call.earliest bus ≤ w
  room : ∀ w ∈ windows, (windows ++ burstTicks).count w ≤ bus.maxCmdsPerBurst
  order : windows.Pairwise (· ≤ ·)
  tick : call.cmdTick ≤ cmdAt

theorem dvd_getBurstWindow (t : Nat) : bus.commandWindow ∣ getBurstWindow bus t :=
  Nat.dvd_sub_mod t

variable {fuel : Nat}

theorem singleSlot_eq_some {burstTick cmdAt : Nat} {slot : Nat × Nat}
    (h : singleSlot bus burstTicks fuel burstTick cmdAt = some slot) :
    burstTicks.count slot.1 < bus.maxCmdsPerBurst ∧
      ∃ k, slot.1 = burstTick + k * bus.commandWindow := by
  induction fuel generalizing burstTick cmdAt with
  | zero => cases h
  | succ fuel ih =>
    rw [singleSlot] at h
    split at h
    · obtain ⟨room, k, hk⟩ := ih h
      refine ⟨room, k + 1, ?_⟩
      rw [hk, Nat.add_mul]
      omega
    · rename_i free
      cases h
      exact ⟨Nat.lt_of_not_le free, 0, by simp⟩

theorem dvd_burstOffset {split first offset : Nat} (h : bus.commandWindow ∣ offset) :
    bus.commandWindow ∣ burstOffset bus split first fuel offset := by
  induction fuel generalizing offset with
  | zero => exact h
  | succ fuel ih =>
    rw [burstOffset]
    split
    · exact ih (Nat.dvd_add h (Nat.dvd_refl _))
    · exact h

/-- A step of the search leaves the first command's window a number of windows in
front of the second's: a full window with both commands in it moves both. -/
theorem multiSlot_busy {split first k cmdAt : Nat}
    (busy : ¬ (burstTicks.count first < bus.maxCmdsPerBurst ∧
      secondCmdCount burstTicks first (first + k * bus.commandWindow) < bus.maxCmdsPerBurst)) :
    ∃ i l next, multiSlot bus burstTicks split (fuel + 1) first (first + k * bus.commandWindow) cmdAt =
      multiSlot bus burstTicks split fuel (first + i * bus.commandWindow)
        (first + i * bus.commandWindow + l * bus.commandWindow) next := by
  simp only [multiSlot, Bool.and_eq_true, decide_eq_true_eq]
  rw [if_neg busy]
  cases k with
  | zero =>
    simp only [Nat.zero_mul, Nat.add_zero] at busy ⊢
    have second : secondCmdCount burstTicks first first = burstTicks.count first + 1 := by
      simp [secondCmdCount]
    have full : ¬ secondCmdCount burstTicks first first < bus.maxCmdsPerBurst := by omega
    simp only [full, if_false, ne_eq, not_true_eq_false, decide_false, Bool.false_and,
      Bool.and_false, Bool.or_false]
    split
    · refine ⟨1, 0, first + bus.commandWindow, ?_⟩
      simp
    · refine ⟨0, 1, first + bus.commandWindow, ?_⟩
      simp
  | succ k =>
    by_cases second : secondCmdCount burstTicks first (first + (k + 1) * bus.commandWindow) <
        bus.maxCmdsPerBurst
    · simp only [second, if_true]
      split
      · refine ⟨1, k, cmdAt, ?_⟩
        congr 1 <;> ring
      · refine ⟨0, k + 1, cmdAt, ?_⟩
        congr 1 <;> ring
    · simp only [second, if_false]
      split
      · refine ⟨1, k + 1, first + (k + 1) * bus.commandWindow + bus.commandWindow, ?_⟩
        congr 1 <;> ring
      · refine ⟨0, k + 2, first + (k + 1) * bus.commandWindow + bus.commandWindow, ?_⟩
        congr 1 <;> ring

theorem multiSlot_eq_some {split first k cmdAt : Nat} {slot : Nat × Nat × Nat}
    (h : multiSlot bus burstTicks split fuel first (first + k * bus.commandWindow) cmdAt = some slot) :
    burstTicks.count slot.1 < bus.maxCmdsPerBurst ∧
      secondCmdCount burstTicks slot.1 slot.2.1 < bus.maxCmdsPerBurst ∧
      (∃ i, slot.1 = first + i * bus.commandWindow) ∧
      ∃ l, slot.2.1 = slot.1 + l * bus.commandWindow := by
  induction fuel generalizing first k cmdAt with
  | zero => cases h
  | succ fuel ih =>
    by_cases both : burstTicks.count first < bus.maxCmdsPerBurst ∧
        secondCmdCount burstTicks first (first + k * bus.commandWindow) < bus.maxCmdsPerBurst
    · simp only [multiSlot, Bool.and_eq_true, decide_eq_true_eq] at h
      rw [if_pos both] at h
      cases h
      exact ⟨both.1, both.2, ⟨0, by simp⟩, k, rfl⟩
    · obtain ⟨i, l, next, step⟩ := multiSlot_busy both
      rw [step] at h
      obtain ⟨room, second, ⟨j, hj⟩, behind⟩ := ih h
      refine ⟨room, second, ⟨i + j, ?_⟩, behind⟩
      rw [hj, Nat.add_mul, Nat.add_assoc]

theorem take_append_self (windows burstTicks : List Nat) :
    (windows ++ burstTicks).take ((windows ++ burstTicks).length - burstTicks.length) = windows := by
  rw [List.length_append, Nat.add_sub_cancel, List.take_left]

theorem verifySingleCmd_granted (t : Nat) :
    Script.Ends bus.Closed (fun slot => ∃ windows, slot.1 = windows ++ burstTicks ∧
      Granted bus burstTicks (.verifySingleCmd t) windows slot.2) (verifySingleCmd bus burstTicks t) := by
  have ends : Script.Ends bus.Closed (fun slot => t ≤ slot.2) (verifySingleCmd bus burstTicks t) :=
    verifySingleCmd_ends t
  unfold verifySingleCmd at ends ⊢
  cases h : singleSlot bus burstTicks (burstTicks.length + 1) (getBurstWindow bus t) t with
  | none =>
    rw [h] at ends
    exact ends
  | some slot =>
    obtain ⟨w, cmdAt⟩ := slot
    rw [h] at ends
    obtain ⟨room, k, hk⟩ := singleSlot_eq_some h
    simp only at room hk
    refine ⟨[w], rfl, ?_, ?_, ?_, List.pairwise_singleton _ _, ends⟩
    · intro u hu
      cases List.mem_singleton.mp hu
      rw [hk]
      exact Nat.dvd_add (dvd_getBurstWindow t) (Nat.dvd_mul_left _ _)
    · intro u hu
      cases List.mem_singleton.mp hu
      rw [hk]
      exact Nat.le_add_right _ _
    · intro u hu
      cases List.mem_singleton.mp hu
      simpa using room

theorem verifyMultiCmd_granted (t split : Nat) :
    Script.Ends bus.Closed (fun slot => ∃ windows, slot.1 = windows ++ burstTicks ∧
      Granted bus burstTicks (.verifyMultiCmd t split) windows slot.2)
      (verifyMultiCmd bus burstTicks t split) := by
  have ends : Script.Ends bus.Closed (fun slot => t ≤ slot.2) (verifyMultiCmd bus burstTicks t split) :=
    verifyMultiCmd_ends t split
  have offset : bus.commandWindow ∣
      min (burstOffset bus split (t % bus.commandWindow) split 0) (getBurstWindow bus t) := by
    rcases min_choice (burstOffset bus split (t % bus.commandWindow) split 0)
      (getBurstWindow bus t) with least | least <;> rw [least]
    · exact dvd_burstOffset (Nat.dvd_zero _)
    · exact dvd_getBurstWindow t
  have firstAligned : bus.commandWindow ∣ BusCall.earliest bus (.verifyMultiCmd t split) :=
    Nat.dvd_sub (dvd_getBurstWindow t) offset
  have second : getBurstWindow bus t = BusCall.earliest bus (.verifyMultiCmd t split) +
      min (burstOffset bus split (t % bus.commandWindow) split 0) (getBurstWindow bus t) := by
    simp only [BusCall.earliest]
    omega
  obtain ⟨k, hk⟩ := offset
  rw [hk, Nat.mul_comm] at second
  have first : getBurstWindow bus t - min (burstOffset bus split (t % bus.commandWindow) split 0)
      (getBurstWindow bus t) = BusCall.earliest bus (.verifyMultiCmd t split) := rfl
  unfold verifyMultiCmd at ends ⊢
  simp only [first] at ends ⊢
  cases h : multiSlot bus burstTicks split (4 * burstTicks.length + 2)
      (BusCall.earliest bus (.verifyMultiCmd t split)) (getBurstWindow bus t) t with
  | none =>
    rw [h] at ends
    exact ends
  | some slot =>
    obtain ⟨f, w, cmdAt⟩ := slot
    rw [h] at ends
    rw [second] at h
    obtain ⟨room, roomBoth, ⟨i, hi⟩, l, hl⟩ := multiSlot_eq_some h
    simp only at room roomBoth hi hl
    refine ⟨[f, w], rfl, ?_, ?_, ?_, ?_, ends⟩
    · have hf : bus.commandWindow ∣ f := by
        rw [hi]
        exact Nat.dvd_add firstAligned (Nat.dvd_mul_left _ _)
      intro u hu
      simp only [List.mem_cons, List.not_mem_nil, or_false] at hu
      rcases hu with rfl | rfl
      · exact hf
      · rw [hl]
        exact Nat.dvd_add hf (Nat.dvd_mul_left _ _)
    · intro u hu
      simp only [List.mem_cons, List.not_mem_nil, or_false] at hu
      rcases hu with rfl | rfl <;> omega
    · intro u hu
      unfold secondCmdCount at roomBoth
      simp only [List.mem_cons, List.not_mem_nil, or_false] at hu
      by_cases same : w = f
      · subst same
        rw [if_pos rfl] at roomBoth
        have : u = w := by simpa using hu
        subst this
        simp
        omega
      · rw [if_neg same] at roomBoth
        rcases hu with rfl | rfl
        · simp [same]
          omega
        · simp [Ne.symm same]
          omega
    · simp
      omega

theorem issue_granted (call : BusCall) :
    Script.Ends bus.Closed (fun slot => ∃ windows, slot.1 = windows ++ burstTicks ∧
      Granted bus burstTicks call windows slot.2) (call.issue bus burstTicks) := by
  cases call with
  | verifySingleCmd t => exact verifySingleCmd_granted t
  | verifyMultiCmd t split => exact verifyMultiCmd_granted t split

/-! ### Whole runs -/

open CommandBus

theorem count_pruneBurstTick {t w : Nat} (h : t ≤ w) :
    (pruneBurstTick burstTicks t).count w = burstTicks.count w := by
  apply List.count_filter
  simpa using h

theorem assigned_cons (i : Issue) (issued : List Issue) :
    assigned (i :: issued) = i.windows ++ assigned issued := List.flatMap_cons

/-- What holds in every run: the bus still knows every command of a window that has
not begun, each call got what it should, and a window that has not begun when a
command is put into it is not too full. -/
structure Tracked (bus : CommandBus) (s : BusState) : Prop where
  known : ∀ w, s.curTick ≤ w → s.burstTicks.count w = (assigned s.issued).count w
  aligned : ∀ w ∈ assigned s.issued, bus.commandWindow ∣ w
  granted : ∀ i ∈ s.issued, i.call.cmdTick ≤ i.cmdAt ∧ i.windows.Pairwise (· ≤ ·) ∧
    ∀ w ∈ i.windows, i.call.earliest bus ≤ w
  room : ∀ newer i older, s.issued = newer ++ i :: older → ∀ w ∈ i.windows, i.curTick ≤ w →
    (assigned (i :: older)).count w ≤ bus.maxCmdsPerBurst

variable {s : BusState}

theorem Tracked.access (h : Tracked bus s) {t : Nat} (later : s.curTick ≤ t) :
    Tracked bus { s with curTick := t, burstTicks := pruneBurstTick s.burstTicks t } := by
  refine ⟨?_, h.aligned, h.granted, h.room⟩
  intro w hw
  rw [count_pruneBurstTick hw]
  exact h.known w (le_trans later hw)

theorem Tracked.record (h : Tracked bus s) {call : BusCall} {slot : List Nat × Nat}
    (granted : ∃ windows, slot.1 = windows ++ s.burstTicks ∧
      Granted bus s.burstTicks call windows slot.2) : Tracked bus (record s call slot) := by
  obtain ⟨windows, eq, granted⟩ := granted
  obtain ⟨ticks, cmdAt⟩ := slot
  subst eq
  simp only [CommandBus.record, take_append_self]
  refine ⟨?_, ?_, ?_, ?_⟩
  · intro w hw
    rw [assigned_cons, List.count_append, List.count_append, h.known w hw]
  · intro w hw
    rcases List.mem_append.mp hw with hw | hw
    · exact granted.aligned w hw
    · exact h.aligned w hw
  · intro i hi
    rcases List.mem_cons.mp hi with rfl | hi
    · exact ⟨granted.tick, granted.order, granted.earliest⟩
    · exact h.granted i hi
  · intro newer i older split w hw begins
    cases newer with
    | nil =>
      obtain ⟨rfl, rfl⟩ := List.cons.inj split
      have room := granted.room w hw
      rw [List.count_append, h.known w begins] at room
      rw [assigned_cons, List.count_append]
      exact room
    | cons j newer =>
      obtain ⟨-, rest⟩ := List.cons.inj split
      exact h.room newer i older rest w hw begins

theorem tracked_of_run {events : List BusEvent}
    (hr : bus.machine.run bus.machine.start events = some s) : Tracked bus s := by
  have reached : bus.machine.Reaches (fun _ _ => True) s :=
    Machine.Reaches.start.run events (fun _ _ => trivial) hr
  apply reached.invariant
  · exact ⟨fun _ _ => rfl, by simp [machine, assigned], by simp [machine],
      fun newer i older split => by simp [machine] at split⟩
  · intro s event t tracked _ step
    cases event with
    | access u =>
      simp only [machine] at step
      split at step
      · cases step
        exact tracked.access ‹_›
      · cases step
    | call call =>
      simp only [machine] at step
      split at step
      · obtain ⟨slot, issued, rfl⟩ := Script.map_eq_ok.mp (Option.some.inj step)
        exact tracked.record ((issue_granted call).ok issued)
      · cases step

/-- What the bus promises: every window of the time line gets at most its number of
commands, and each call ends and gives a tick that was asked for or a later one, with
the first of two commands in a window not after the second's. -/
structure Bandwidth (bus : CommandBus) (s : BusState) : Prop where
  windows : ∀ k, ((assigned s.issued).countP fun w => decide (w / bus.commandWindow = k)) ≤
    bus.maxCmdsPerBurst
  ticks : ∀ i ∈ s.issued, i.call.cmdTick ≤ i.cmdAt ∧ i.windows.Pairwise (· ≤ ·)
  returns : ∀ call : BusCall, s.curTick ≤ call.cmdTick →
    ∃ t, bus.machine.step s (.call call) = some (.ok t)

/-- Windows are counted by the tick they begin at. -/
theorem Tracked.countP_eq (h : Tracked bus s) (k : Nat) :
    ((assigned s.issued).countP fun w => decide (w / bus.commandWindow = k)) =
      (assigned s.issued).count (k * bus.commandWindow) := by
  apply List.countP_congr
  intro w hw
  obtain ⟨j, rfl⟩ := h.aligned w hw
  have pos := bus.commandWindow_pos
  rw [Nat.mul_div_cancel_left j pos]
  simp only [decide_eq_true_eq, beq_iff_eq]
  rw [Nat.mul_comm, Nat.mul_right_cancel_iff pos]

theorem returns_of_pos (pos : 1 ≤ bus.maxCmdsPerBurst) (s : BusState) (call : BusCall)
    (h : s.curTick ≤ call.cmdTick) : ∃ t, bus.machine.step s (.call call) = some (.ok t) := by
  simp only [machine, if_pos h]
  cases hi : call.issue bus s.burstTicks with
  | ok slot => exact ⟨_, rfl⟩
  | error f =>
    have closed := ((issue_granted call).error hi).2
    omega

/-- Every command that is put into a window that began before `curTick` finds room in
it, with all the commands counted that the window has got. -/
def OldWindowsHaveRoom (bus : CommandBus) (s : BusState) : Prop :=
  ∀ newer i older, s.issued = newer ++ i :: older → ∀ w ∈ i.windows, w < i.curTick →
    (assigned (i :: older)).count w ≤ bus.maxCmdsPerBurst

theorem count_assigned_le {n w : Nat} {issued : List Issue}
    (h : ∀ newer i older, issued = newer ++ i :: older → w ∈ i.windows →
      (assigned (i :: older)).count w ≤ n) : (assigned issued).count w ≤ n := by
  induction issued with
  | nil => simp [assigned]
  | cons i issued ih =>
    by_cases hw : w ∈ i.windows
    · exact h [] i issued rfl hw
    · rw [assigned_cons, List.count_append, List.count_eq_zero.mpr hw, Nat.zero_add]
      apply ih
      intro newer j older split hj
      exact h (i :: newer) j older (by rw [split, List.cons_append]) hj

/-- The bus keeps its bandwidth in a run exactly when no command is put into a full
window that began before the tick of its access; so it does when each call of the run
starts its search at a window that has not begun. -/
theorem bandwidth_iff (bus : CommandBus) (pos : 1 ≤ bus.maxCmdsPerBurst) (events : List BusEvent)
    (s : BusState) (hr : bus.machine.run bus.machine.start events = some s) :
    (Bandwidth bus s ↔ OldWindowsHaveRoom bus s) ∧
    ((∀ i ∈ s.issued, i.curTick ≤ i.call.earliest bus) → OldWindowsHaveRoom bus s) := by
  have tracked := tracked_of_run hr
  refine ⟨⟨?_, ?_⟩, ?_⟩
  · intro bandwidth newer i older split w hw _
    have all : w ∈ assigned s.issued := by
      rw [split]
      exact List.mem_flatMap.mpr ⟨i, by simp, hw⟩
    obtain ⟨k, rfl⟩ := tracked.aligned w all
    have limit := bandwidth.windows k
    rw [tracked.countP_eq, Nat.mul_comm] at limit
    refine le_trans ?_ limit
    rw [split]
    simp only [assigned, List.flatMap_append, List.count_append]
    exact Nat.le_add_left _ _
  · intro room
    refine ⟨?_, ?_, fun call h => returns_of_pos pos s call h⟩
    · intro k
      rw [tracked.countP_eq]
      apply count_assigned_le
      intro newer i older split hw
      by_cases old : k * bus.commandWindow < i.curTick
      · exact room newer i older split _ hw old
      · exact tracked.room newer i older split _ hw (by omega)
    · intro i hi
      exact ⟨(tracked.granted i hi).1, (tracked.granted i hi).2.1⟩
  · intro fresh newer i older split w hw old
    have hi : i ∈ s.issued := by
      rw [split]
      simp
    have := (tracked.granted i hi).2.2 w hw
    have := fresh i hi
    omega

/-- Accesses at the beginning of a window keep within it. -/
theorem aligned_accesses_bandwidth :
    ∃ s, (CommandBus.mk 10 1 (by decide)).machine.run ⟨0, [], []⟩
        [.access 0, .call (.verifySingleCmd 3), .access 10, .call (.verifySingleCmd 12),
          .call (.verifySingleCmd 13)] = some s ∧
      assigned s.issued = [20, 10, 0] ∧ Bandwidth (CommandBus.mk 10 1 (by decide)) s := by
  refine ⟨_, rfl, rfl, ?_⟩
  have both := bandwidth_iff (CommandBus.mk 10 1 (by decide)) (by decide)
    [.access 0, .call (.verifySingleCmd 3), .access 10, .call (.verifySingleCmd 12),
      .call (.verifySingleCmd 13)] _ rfl
  apply both.1.mpr (both.2 _)
  decide

/-- An access at tick 5 asks for a command in the window of ten ticks that has begun
at 0 and has its one command. -/
theorem window_in_progress_reused :
    ∃ s, (CommandBus.mk 10 1 (by decide)).machine.run ⟨0, [], []⟩
        [.access 0, .call (.verifySingleCmd 0), .access 5, .call (.verifySingleCmd 5)] = some s ∧
      assigned s.issued = [0, 0] :=
  ⟨_, rfl, rfl⟩

end Dram
