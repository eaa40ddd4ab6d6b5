import Lab447.Dram.Slots
import Lab447.Dram.Timing

/-!
How the banks of a rank carry the timing constraints: the tick from which a bank takes
a command is far enough from every command issued before, and each command moves the
ticks of the commands after it.
-/

namespace Dram

open Script

variable {B : Nat} {cfg : Config} {r r' : Rank B} {b : Fin B} {t row : Nat}

/-- A bank with an open row takes column commands and a precharge, and one without takes
an activate, each when the commands so far allow it. -/
structure Live (cfg : Config) (r : Rank B) : Prop where
  rows : ∀ b, (r.banks b).openRow = openRow b r.cmdList
  act : ∀ (c : Fin B) row t, .act c row t ∈ r.cmdList →
    ∀ b : Fin B, t + cfg.actToAct c b ≤ (r.banks b).actAllowedAt
  col : ∀ b row t, .act b row t ∈ r.cmdList →
    ∀ isRead, t + cfg.tRCD isRead ≤ (r.banks b).colAllowedAt isRead
  ras : ∀ b row t, .act b row t ∈ r.cmdList →
    (r.banks b).openRow ≠ none → t + cfg.tRAS ≤ (r.banks b).preAllowedAt
  rp : ∀ b t, .pre b t ∈ r.cmdList → t + cfg.tRP ≤ (r.banks b).actAllowedAt
  closed : ∀ c ∈ r.cmdList, (r.banks c.bank).openRow = none →
    c.timeStamp ≤ (r.banks c.bank).actAllowedAt
  opened : ∀ c ∈ r.cmdList, (r.banks c.bank).openRow ≠ none →
    c.timeStamp ≤ (r.banks c.bank).preAllowedAt ∧
      ∀ isRead, c.timeStamp ≤ (r.banks c.bank).colAllowedAt isRead

/-! ### What the banks allow -/

theorem Live.follows_act (h : Live cfg r) (none_ : (r.banks b).openRow = none)
    (at_ : (r.banks b).actAllowedAt ≤ t) : Follows cfg r.cmdList (.act b row t) where
  fits := (h.rows b).symm.trans none_
  ordered d hd same := by
    obtain rfl : d.bank = b := same
    exact (h.closed d hd none_).trans at_
  apart d hd u hu := by
    cases d with
    | act c row s =>
      cases hu
      exact (h.act c row s hd b).trans at_
    | pre c s =>
      obtain ⟨rfl, eq⟩ := Option.ite_none_right_eq_some.mp hu
      cases eq
      exact (h.rp c s hd).trans at_
    | col => cases hu

theorem Live.follows_pre (h : Live cfg r) (some_ : (r.banks b).openRow ≠ none)
    (at_ : (r.banks b).preAllowedAt ≤ t) : Follows cfg r.cmdList (.pre b t) where
  fits := by
    rw [h.rows b] at some_
    exact some_
  ordered d hd same := by
    obtain rfl : d.bank = b := same
    exact (h.opened d hd some_).1.trans at_
  apart d hd u hu := by
    cases d with
    | act c row s =>
      obtain ⟨rfl, eq⟩ := Option.ite_none_right_eq_some.mp hu
      cases eq
      exact (h.ras c row s hd some_).trans at_
    | pre | col => cases hu

theorem Live.follows_col {isRead : Bool} (h : Live cfg r)
    (some_ : (r.banks b).openRow = some row) (at_ : (r.banks b).colAllowedAt isRead ≤ t) :
    Follows cfg r.cmdList (.col isRead b row t) where
  fits := (h.rows b).symm.trans some_
  ordered d hd same := by
    obtain rfl : d.bank = b := same
    exact ((h.opened d hd (by simp [some_])).2 isRead).trans at_
  apart d hd u hu := by
    cases d with
    | act c row s =>
      obtain ⟨rfl, eq⟩ := Option.ite_none_right_eq_some.mp hu
      cases eq
      exact (h.col c row s hd isRead).trans at_
    | pre | col => cases hu

/-! ### Ticks moved to later -/

/-- The banks are as they were, but take their commands later. -/
structure Later (r r' : Rank B) : Prop where
  cmdList : r'.cmdList = r.cmdList
  openRow : ∀ b, (r'.banks b).openRow = (r.banks b).openRow
  act : ∀ b, (r.banks b).actAllowedAt ≤ (r'.banks b).actAllowedAt
  pre : ∀ b, (r.banks b).preAllowedAt ≤ (r'.banks b).preAllowedAt
  col : ∀ b isRead, (r.banks b).colAllowedAt isRead ≤ (r'.banks b).colAllowedAt isRead

theorem Live.later (h : Live cfg r) (l : Later r r') : Live cfg r' where
  rows b := by rw [l.openRow, l.cmdList, h.rows]
  act c row t mem b := by
    rw [l.cmdList] at mem
    exact (h.act c row t mem b).trans (l.act b)
  col b row t mem isRead := by
    rw [l.cmdList] at mem
    exact (h.col b row t mem isRead).trans (l.col b isRead)
  ras b row t mem some_ := by
    rw [l.cmdList] at mem
    rw [l.openRow] at some_
    exact (h.ras b row t mem some_).trans (l.pre b)
  rp b t mem := by
    rw [l.cmdList] at mem
    exact (h.rp b t mem).trans (l.act b)
  closed c mem none_ := by
    rw [l.cmdList] at mem
    rw [l.openRow] at none_
    exact (h.closed c mem none_).trans (l.act _)
  opened c mem some_ := by
    rw [l.cmdList] at mem
    rw [l.openRow] at some_
    obtain ⟨pre, col⟩ := h.opened c mem some_
    exact ⟨pre.trans (l.pre _), fun isRead => (col isRead).trans (l.col _ isRead)⟩

/-! ### An activation -/

section Activated

variable (cfg r b t row) (i : Fin B)

@[simp]
theorem activated_openRow : ((r.activated cfg b t row).banks i).openRow =
    if i = b then some row else (r.banks i).openRow := by
  simp only [Rank.activated]
  split <;> rfl

@[simp]
theorem activated_act : ((r.activated cfg b t row).banks i).actAllowedAt =
    max (t + cfg.actToAct b i) (r.banks i).actAllowedAt := by
  simp only [Rank.activated]
  split <;> rfl

@[simp]
theorem activated_pre : ((r.activated cfg b t row).banks i).preAllowedAt =
    if i = b then t + cfg.tRAS else (r.banks i).preAllowedAt := by
  simp only [Rank.activated]
  split <;> rfl

@[simp]
theorem activated_col (isRead : Bool) : ((r.activated cfg b t row).banks i).colAllowedAt isRead =
    if i = b then max (t + cfg.tRCD isRead) ((r.banks i).colAllowedAt isRead)
    else (r.banks i).colAllowedAt isRead := by
  by_cases same : i = b <;> cases isRead <;>
    simp [Rank.activated, Bank.colAllowedAt, Config.tRCD, same]

end Activated

theorem mem_concat {c d : Command B} {cmds : List (Command B)} :
    c ∈ cmds ++ [d] ↔ c ∈ cmds ∨ c = d := by
  simp

theorem Live.activated (h : Live cfg r) (none_ : (r.banks b).openRow = none)
    (at_ : (r.banks b).actAllowedAt ≤ t) : Live cfg (r.activated cfg b t row) where
  rows i := by
    rw [activated_openRow, h.rows i]
    change _ = openRow i (r.cmdList ++ [.act b row t])
    rw [openRow_concat, Command.rowAfter]
    simp only [eq_comm]
  act c row' s mem i := by
    rw [activated_act]
    obtain mem | eq := mem_concat.mp mem
    · exact (h.act c row' s mem i).trans (le_max_right _ _)
    · cases eq
      exact le_max_left _ _
  col c row' s mem isRead := by
    rw [activated_col]
    obtain mem | eq := mem_concat.mp mem
    · have := h.col c row' s mem isRead
      split
      · exact this.trans (le_max_right _ _)
      · exact this
    · cases eq
      rw [if_pos rfl]
      exact le_max_left _ _
  ras c row' s mem some_ := by
    rw [activated_openRow] at some_
    rw [activated_pre]
    by_cases same : c = b
    · -- the activations of the bank before this one are not after it
      subst same
      rw [if_pos rfl]
      obtain mem | eq := mem_concat.mp mem
      · have := (h.closed _ mem none_).trans at_
        exact Nat.add_le_add_right this _
      · cases eq
        exact le_rfl
    · rw [if_neg same] at some_ ⊢
      obtain mem | eq := mem_concat.mp mem
      · exact h.ras c row' s mem some_
      · cases eq
        exact absurd rfl same
  rp c s mem := by
    rw [activated_act]
    obtain mem | eq := mem_concat.mp mem
    · exact (h.rp c s mem).trans (le_max_right _ _)
    · cases eq
  closed c mem closed := by
    rw [activated_act]
    rw [activated_openRow] at closed
    obtain mem | eq := mem_concat.mp mem
    · split at closed
      · cases closed
      · exact (h.closed c mem closed).trans (le_max_right _ _)
    · cases eq
      exact (Nat.le_add_right _ _).trans (le_max_left _ _)
  opened c mem opened := by
    simp only [activated_pre, activated_col]
    rw [activated_openRow] at opened
    by_cases same : c.bank = b
    · have le : c.timeStamp ≤ t := by
        obtain mem | eq := mem_concat.mp mem
        · have closed := h.closed c mem (by rw [same]; exact none_)
          rw [same] at closed
          exact closed.trans at_
        · cases eq
          exact le_rfl
      simp only [if_pos same]
      refine ⟨le.trans (Nat.le_add_right _ _), fun isRead => ?_⟩
      exact (le.trans (Nat.le_add_right _ _)).trans (le_max_left _ _)
    · rw [if_neg same] at opened
      simp only [if_neg same]
      obtain mem | eq := mem_concat.mp mem
      · exact h.opened c mem opened
      · cases eq
        exact absurd rfl same

/-! ### A precharge -/

section Precharged

variable (cfg r b t) (auto trace : Bool) (i : Fin B)

@[simp]
theorem precharged_openRow : ((r.precharged cfg b t auto trace).banks i).openRow =
    if i = b then none else (r.banks i).openRow := by
  simp only [Rank.precharged]
  split
  · rfl
  · split <;> rfl

@[simp]
theorem precharged_act : ((r.precharged cfg b t auto trace).banks i).actAllowedAt =
    if i = b then max (r.banks i).actAllowedAt (t + cfg.tRP) else (r.banks i).actAllowedAt := by
  simp only [Rank.precharged]
  split
  · cases auto <;> rfl
  · split <;> rfl

@[simp]
theorem precharged_col (isRead : Bool) :
    ((r.precharged cfg b t auto trace).banks i).colAllowedAt isRead =
      (r.banks i).colAllowedAt isRead := by
  simp only [Rank.precharged]
  split
  · cases auto <;> rfl
  · split <;> rfl

theorem le_precharged_pre (ne : i ≠ b) :
    (r.banks i).preAllowedAt ≤ ((r.precharged cfg b t auto trace).banks i).preAllowedAt := by
  simp only [Rank.precharged, if_neg ne]
  split
  · exact le_rfl
  · exact le_max_right _ _

end Precharged

theorem Live.precharged {auto : Bool} (h : Live cfg r) (some_ : (r.banks b).openRow ≠ none)
    (at_ : (r.banks b).preAllowedAt ≤ t) : Live cfg (r.precharged cfg b t auto true) where
  rows i := by
    rw [precharged_openRow, h.rows i]
    change _ = openRow i (r.cmdList ++ [.pre b t])
    rw [openRow_concat, Command.rowAfter]
    simp only [eq_comm]
  act c row s mem i := by
    rw [precharged_act]
    obtain mem | eq := mem_concat.mp mem
    · have := h.act c row s mem i
      split
      · exact this.trans (le_max_left _ _)
      · exact this
    · cases eq
  col c row s mem isRead := by
    rw [precharged_col]
    obtain mem | eq := mem_concat.mp mem
    · exact h.col c row s mem isRead
    · cases eq
  ras c row s mem opened := by
    rw [precharged_openRow] at opened
    split at opened
    · cases opened rfl
    · rename_i ne
      obtain mem | eq := mem_concat.mp mem
      · exact (h.ras c row s mem opened).trans (le_precharged_pre cfg r b t auto true c ne)
      · cases eq
  rp c s mem := by
    rw [precharged_act]
    obtain mem | eq := mem_concat.mp mem
    · have := h.rp c s mem
      split
      · exact this.trans (le_max_left _ _)
      · exact this
    · cases eq
      rw [if_pos rfl]
      exact le_max_right _ _
  closed c mem closed := by
    rw [precharged_act]
    rw [precharged_openRow] at closed
    by_cases same : c.bank = b
    · rw [if_pos same]
      have le : c.timeStamp ≤ t := by
        obtain mem | eq := mem_concat.mp mem
        · have opened := (h.opened c mem (by rw [same]; exact some_)).1
          rw [same] at opened
          exact opened.trans at_
        · cases eq
          exact le_rfl
      exact (le.trans (Nat.le_add_right _ _)).trans (le_max_right _ _)
    · rw [if_neg same] at closed ⊢
      obtain mem | eq := mem_concat.mp mem
      · exact h.closed c mem closed
      · cases eq
        exact absurd rfl same
  opened c mem opened := by
    simp only [precharged_col]
    rw [precharged_openRow] at opened
    split at opened
    · cases opened rfl
    · rename_i ne
      obtain mem | eq := mem_concat.mp mem
      · obtain ⟨pre, col⟩ := h.opened c mem opened
        exact ⟨pre.trans (le_precharged_pre cfg r b t auto true c.bank ne), col⟩
      · cases eq
        exact absurd rfl ne

/-! ### A burst -/

theorem later_delayed {isRead sameRank : Bool} {gap : Nat} :
    Later r (r.delayed cfg b t isRead gap sameRank) where
  cmdList := rfl
  openRow _ := rfl
  act _ := le_rfl
  pre _ := le_rfl
  col i isRead := by cases isRead <;> exact le_max_right _ _

theorem le_delayed_col {isRead sameRank : Bool} {gap : Nat} (i : Fin B) (read : Bool) :
    t ≤ ((r.delayed cfg b t isRead gap sameRank).banks i).colAllowedAt read := by
  cases read <;> exact (Nat.le_add_right _ _).trans (le_max_left _ _)

section Burst

variable (cfg r b t row) (isRead : Bool) (i : Fin B)

@[simp]
theorem burst_openRow :
    ((r.burst cfg b t isRead row).banks i).openRow = (r.banks i).openRow := by
  simp only [Rank.burst]
  split <;> rfl

@[simp]
theorem burst_act :
    ((r.burst cfg b t isRead row).banks i).actAllowedAt = (r.banks i).actAllowedAt := by
  simp only [Rank.burst]
  split <;> rfl

@[simp]
theorem burst_col (read : Bool) :
    ((r.burst cfg b t isRead row).banks i).colAllowedAt read = (r.banks i).colAllowedAt read := by
  simp only [Rank.burst]
  split <;> rfl

theorem le_burst_pre :
    (r.banks i).preAllowedAt ≤ ((r.burst cfg b t isRead row).banks i).preAllowedAt := by
  simp only [Rank.burst]
  split
  · exact le_max_left _ _
  · exact le_rfl

theorem le_burst_pre_self : t ≤ ((r.burst cfg b t isRead row).banks b).preAllowedAt := by
  simp only [Rank.burst, if_pos]
  split <;> omega

end Burst

theorem Live.burst {isRead : Bool} (h : Live cfg r) (some_ : (r.banks b).openRow = some row)
    (at_ : ∀ read, t ≤ (r.banks b).colAllowedAt read) :
    Live cfg (r.burst cfg b t isRead row) where
  rows i := by
    rw [burst_openRow, h.rows i]
    change _ = openRow i (r.cmdList ++ [.col isRead b row t])
    rw [openRow_concat, Command.rowAfter]
  act c row' s mem i := by
    rw [burst_act]
    obtain mem | eq := mem_concat.mp mem
    · exact h.act c row' s mem i
    · cases eq
  col c row' s mem read := by
    rw [burst_col]
    obtain mem | eq := mem_concat.mp mem
    · exact h.col c row' s mem read
    · cases eq
  ras c row' s mem opened := by
    rw [burst_openRow] at opened
    obtain mem | eq := mem_concat.mp mem
    · exact (h.ras c row' s mem opened).trans (le_burst_pre cfg r b t row isRead c)
    · cases eq
  rp c s mem := by
    rw [burst_act]
    obtain mem | eq := mem_concat.mp mem
    · exact h.rp c s mem
    · cases eq
  closed c mem closed := by
    rw [burst_act]
    rw [burst_openRow] at closed
    obtain mem | eq := mem_concat.mp mem
    · exact h.closed c mem closed
    · cases eq
      exact absurd (some_.symm.trans closed) nofun
  opened c mem opened := by
    simp only [burst_col]
    rw [burst_openRow] at opened
    obtain mem | eq := mem_concat.mp mem
    · obtain ⟨pre, col⟩ := h.opened c mem opened
      exact ⟨pre.trans (le_burst_pre cfg r b t row isRead c.bank), col⟩
    · cases eq
      exact ⟨le_burst_pre_self cfg r b t row isRead, at_⟩

end Dram
