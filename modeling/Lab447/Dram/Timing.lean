import Lab447.Dram.Model

/-!
What the commands issued to a rank have to satisfy. Every command is compared with the
commands issued before it, and the activations of the rank are counted over every
window of time.
-/

namespace Dram

variable {B : Nat}

namespace Command

def bank : Command B → Fin B
  | .act b _ _ | .pre b _ | .col _ b _ _ => b

def timeStamp : Command B → Nat
  | .act _ _ t | .pre _ t | .col _ _ _ t => t

/-- The open row of bank `b` after the command. -/
def rowAfter (b : Fin B) (row : Option Nat) : Command B → Option Nat
  | .act i r _ => if i = b then some r else row
  | .pre i _ => if i = b then none else row
  | .col .. => row

/-- The command is meant for a bank with this open row. -/
def Fits (row : Option Nat) : Command B → Prop
  | .act .. => row = none
  | .pre .. => row ≠ none
  | .col _ _ r _ => row = some r

def activation : Command B → Option Nat
  | .act _ _ t => some t
  | .pre .. | .col .. => none

end Command

def Config.tRCD (cfg : Config) (isRead : Bool) : Nat := if isRead then cfg.tRCD_RD else cfg.tRCD_WR

/-- The least time from a command to a later command of its rank. -/
def delay (cfg : Config) : Command B → Command B → Option Nat
  | .act b _ _, .act c _ _ => some (cfg.actToAct b c)
  | .act b _ _, .col isRead c _ _ => if b = c then some (cfg.tRCD isRead) else none
  | .act b _ _, .pre c _ => if b = c then some cfg.tRAS else none
  | .pre b _, .act c _ _ => if b = c then some cfg.tRP else none
  | _, _ => none

/-- The open row of a bank after some commands, closed at first. -/
def openRow (b : Fin B) (cmds : List (Command B)) : Option Nat :=
  cmds.foldl (Command.rowAfter b) none

/-- The ticks of the activations of a rank. -/
def activations (cmds : List (Command B)) : List Nat := cmds.filterMap Command.activation

/-- A command that may be issued after those of `before`. -/
structure Follows (cfg : Config) (before : List (Command B)) (c : Command B) : Prop where
  fits : c.Fits (openRow c.bank before)
  ordered : ∀ d ∈ before, d.bank = c.bank → d.timeStamp ≤ c.timeStamp
  apart : ∀ d ∈ before, ∀ t, delay cfg d c = some t → d.timeStamp + t ≤ c.timeStamp

/-- The timing constraints of a rank. -/
structure Timing (cfg : Config) (cmds : List (Command B)) : Prop where
  follows : ∀ i c, cmds[i]? = some c → Follows cfg (cmds.take i) c
  rrd : (activations cmds).Pairwise fun a b => a + cfg.tRRD ≤ b
  window : 0 < cfg.activationLimit → ∀ t, (activations cmds).countP
    (fun a => decide (t ≤ a ∧ a < t + cfg.tXAW)) ≤ cfg.activationLimit

variable {cfg : Config} {cmds : List (Command B)} {c : Command B}

@[simp]
theorem openRow_nil (b : Fin B) : openRow b [] = none := rfl

@[simp]
theorem openRow_concat (b : Fin B) : openRow b (cmds ++ [c]) = c.rowAfter b (openRow b cmds) := by
  simp [openRow]

@[simp]
theorem activations_act (b : Fin B) (row t : Nat) :
    activations (cmds ++ [.act b row t]) = activations cmds ++ [t] := by
  simp [activations, Command.activation]

theorem activations_other (h : c.activation = none) :
    activations (cmds ++ [c]) = activations cmds := by
  simp [activations, h]

theorem mem_activations {t : Nat} : t ∈ activations cmds ↔ ∃ b row, .act b row t ∈ cmds := by
  simp only [activations, List.mem_filterMap]
  constructor
  · rintro ⟨c, hc, h⟩
    cases c with
    | act b row u =>
      cases h
      exact ⟨b, row, hc⟩
    | pre | col => cases h
  · rintro ⟨b, row, h⟩
    exact ⟨_, h, rfl⟩

/-! ### Windows -/

/-- Each element is `w` after the one `n` places before it. -/
def Spaced (n w : Nat) (ticks : List Nat) : Prop :=
  ∀ k a b, ticks[k]? = some a → ticks[k + n]? = some b → a + w ≤ b

theorem Spaced.tail {n w a : Nat} {ticks : List Nat} (h : Spaced n w (a :: ticks)) :
    Spaced n w ticks := by
  intro k b c hb hc
  apply h (k + 1) b c (by simpa using hb)
  rw [Nat.add_right_comm]
  simpa using hc

theorem Spaced.concat {n w t : Nat} {ticks : List Nat} (h : Spaced n w ticks)
    (new : ∀ k a, ticks[k]? = some a → k + n = ticks.length → a + w ≤ t) (hn : 0 < n) :
    Spaced n w (ticks ++ [t]) := by
  intro k a b ha hb
  obtain ⟨lt, -⟩ := List.getElem?_eq_some_iff.mp hb
  rw [List.length_append, List.length_singleton] at lt
  rw [List.getElem?_append_left (by omega)] at ha
  by_cases last : k + n = ticks.length
  · rw [last, List.getElem?_concat_length] at hb
    cases hb
    exact new k a ha last
  · rw [List.getElem?_append_left (by omega)] at hb
    exact h k a b ha hb

/-- In spaced ascending ticks, no window of width `w` has more than `n`. -/
theorem Spaced.countP_le {n w : Nat} {ticks : List Nat} (h : Spaced n w ticks)
    (sorted : ticks.Pairwise (· ≤ ·)) (t : Nat) :
    ticks.countP (fun a => decide (t ≤ a ∧ a < t + w)) ≤ n := by
  induction ticks with
  | nil => simp
  | cons a ticks ih =>
    by_cases inside : t ≤ a ∧ a < t + w
    · -- the window ends before the elements `n` places on
      rw [← List.take_append_drop n (a :: ticks), List.countP_append]
      have outside : ((a :: ticks).drop n).countP (fun a => decide (t ≤ a ∧ a < t + w)) = 0 := by
        rw [List.countP_eq_zero]
        intro b hb
        obtain ⟨i, hi⟩ := List.mem_iff_getElem?.mp hb
        rw [List.getElem?_drop] at hi
        obtain ⟨first, hf⟩ : ∃ first, (a :: ticks)[n]? = some first := by
          obtain ⟨lt, -⟩ := List.getElem?_eq_some_iff.mp hi
          exact ⟨_, List.getElem?_eq_getElem (by omega)⟩
        have far : a + w ≤ first := h 0 a first rfl (by simpa using hf)
        have le : first ≤ b := by
          obtain rfl | pos := Nat.eq_zero_or_pos i
          · rw [Nat.add_zero, hf] at hi
            exact (Option.some.inj hi).le
          · obtain ⟨hlt, rfl⟩ := List.getElem?_eq_some_iff.mp hf
            obtain ⟨hlt', rfl⟩ := List.getElem?_eq_some_iff.mp hi
            exact List.pairwise_iff_getElem.mp sorted _ _ hlt hlt' (by omega)
        simp only [decide_eq_true_eq]
        omega
      rw [outside]
      exact List.countP_le_length.trans (List.length_take_le _ _)
    · rw [List.countP_cons_of_neg (by simpa using inside)]
      exact ih h.tail sorted.of_cons

/-! ### One more command -/

/-- The constraints as they are kept: the windows by the activations that bound them. -/
structure Issued (cfg : Config) (cmds : List (Command B)) : Prop where
  follows : ∀ i c, cmds[i]? = some c → Follows cfg (cmds.take i) c
  rrd : (activations cmds).Pairwise fun a b => a + cfg.tRRD ≤ b
  spaced : 0 < cfg.activationLimit → Spaced cfg.activationLimit cfg.tXAW (activations cmds)

theorem Issued.timing (h : Issued cfg cmds) : Timing cfg cmds where
  follows := h.follows
  rrd := h.rrd
  window pos t := by
    apply (h.spaced pos).countP_le
    exact h.rrd.imp fun h => (Nat.le_add_right _ _).trans h

theorem issued_nil : Issued cfg ([] : List (Command B)) where
  follows i c h := by simp at h
  rrd := .nil
  spaced _ k a b h := by simp [activations] at h

theorem follows_concat (h : ∀ i c, cmds[i]? = some c → Follows cfg (cmds.take i) c)
    (new : Follows cfg cmds c) (i : Nat) (d : Command B) (hd : (cmds ++ [c])[i]? = some d) :
    Follows cfg ((cmds ++ [c]).take i) d := by
  obtain ⟨lt, -⟩ := List.getElem?_eq_some_iff.mp hd
  rw [List.length_append, List.length_singleton] at lt
  rw [List.take_append_of_le_length (by omega)]
  by_cases last : i = cmds.length
  · subst last
    rw [List.getElem?_concat_length] at hd
    cases hd
    rw [List.take_length]
    exact new
  · rw [List.getElem?_append_left (by omega)] at hd
    exact h i d hd

theorem Issued.other (h : Issued cfg cmds) (new : Follows cfg cmds c)
    (other : c.activation = none) : Issued cfg (cmds ++ [c]) where
  follows := follows_concat h.follows new
  rrd := by
    rw [activations_other other]
    exact h.rrd
  spaced pos := by
    rw [activations_other other]
    exact h.spaced pos

theorem Issued.act {b : Fin B} {row t : Nat} (h : Issued cfg cmds)
    (new : Follows cfg cmds (.act b row t)) (rrd : ∀ a ∈ activations cmds, a + cfg.tRRD ≤ t)
    (spaced : ∀ k a, (activations cmds)[k]? = some a →
      k + cfg.activationLimit = (activations cmds).length → a + cfg.tXAW ≤ t) :
    Issued cfg (cmds ++ [.act b row t]) where
  follows := follows_concat h.follows new
  rrd := by
    rw [activations_act, List.pairwise_append]
    refine ⟨h.rrd, List.pairwise_singleton _ _, fun a ha u hu => ?_⟩
    rw [List.mem_singleton.mp hu]
    exact rrd a ha
  spaced pos := by
    rw [activations_act]
    exact (h.spaced pos).concat spaced pos

end Dram
