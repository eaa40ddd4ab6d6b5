import Lab447.Dram.Banks

/-!
Every run keeps the timing constraints, as long as no bank is activated at tick zero,
which the record of the last activations takes for no activation, and as long as a
refresh leaves enough time after them.
-/

namespace Dram

open Script

variable {R B : Nat} {cfg : Config} {r r' : Rank B} {b : Fin B} {t row : Nat}

/-! ### The activation limit -/

/-- `actTicks` has the last activations, those before the last refresh at the back, and
no bank is activated too early after them. -/
structure Limited (cfg : Config) (r : Rank B) : Prop where
  recorded : ∃ older, r.actTicks =
    ((activations r.cmdList).reverse ++ older).take cfg.activationLimit
  recent : ∀ t ∈ r.actTicks, ∀ b, t ≤ (r.banks b).actAllowedAt
  back : ∀ back, r.actTicks.getLast? = some back → back ≠ 0 →
    ∀ b, back + cfg.tXAW ≤ (r.banks b).actAllowedAt
  nonzero : 0 < cfg.activationLimit → 0 ∉ activations r.cmdList

/-- The limit only reads the activations, their record and the banks' times. -/
theorem Limited.of_activations (h : Limited cfg r)
    (acts : activations r'.cmdList = activations r.cmdList) (same : r'.actTicks = r.actTicks)
    (act : ∀ b, (r.banks b).actAllowedAt ≤ (r'.banks b).actAllowedAt) : Limited cfg r' where
  recorded := by
    rw [same, acts]
    exact h.recorded
  recent t mem b := by
    rw [same] at mem
    exact (h.recent t mem b).trans (act b)
  back back eq ne b := by
    rw [same] at eq
    exact (h.back back eq ne b).trans (act b)
  nonzero := by
    rw [acts]
    exact h.nonzero

theorem Limited.later (h : Limited cfg r) (l : Later r r') (same : r'.actTicks = r.actTicks) :
    Limited cfg r' :=
  h.of_activations (by rw [l.cmdList]) same l.act

theorem Limited.other {c : Command B} (h : Limited cfg r) (none_ : c.activation = none)
    (cmdList : r'.cmdList = r.cmdList ++ [c]) (same : r'.actTicks = r.actTicks)
    (act : ∀ b, (r.banks b).actAllowedAt ≤ (r'.banks b).actAllowedAt) : Limited cfg r' :=
  h.of_activations (by rw [cmdList, activations_other none_]) same act

/-- The activation that bounds the window of a new one is at the back of the record. -/
theorem Limited.spaced (h : Limited cfg r) (size : r.actTicks.length = cfg.activationLimit)
    (at_ : (r.banks b).actAllowedAt ≤ t) (pos : 0 < cfg.activationLimit) {k a : Nat}
    (ha : (activations r.cmdList)[k]? = some a)
    (hk : k + cfg.activationLimit = (activations r.cmdList).length) : a + cfg.tXAW ≤ t := by
  obtain ⟨older, recorded⟩ := h.recorded
  obtain ⟨lt, rfl⟩ := List.getElem?_eq_some_iff.mp ha
  have last : r.actTicks.getLast? = some ((activations r.cmdList)[k]) := by
    rw [List.getLast?_eq_getElem?, size, recorded, List.getElem?_take_of_lt (by omega),
      List.getElem?_append_left (by rw [List.length_reverse]; omega),
      List.getElem?_reverse (by omega), List.getElem?_eq_some_iff]
    exact ⟨by omega, by congr 1; omega⟩
  have ne : (activations r.cmdList)[k] ≠ 0 := fun zero =>
    h.nonzero pos (zero ▸ List.getElem_mem lt)
  exact (h.back _ last ne b).trans at_

theorem take_cons_dropLast {l : List Nat} {n : Nat} (pos : 0 < n) (len : (l.take n).length = n) :
    t :: (l.take n).dropLast = (t :: l).take n := by
  obtain ⟨n, rfl⟩ := Nat.exists_eq_succ_of_ne_zero pos.ne'
  rw [List.take_succ_cons, List.dropLast_eq_take, len, List.take_take]
  simp

/-- The record moves on by one activation. -/
theorem Limited.moved (h : Limited cfg r) (size : r.actTicks.length = cfg.activationLimit)
    (pos : 0 < cfg.activationLimit) (ne : t ≠ 0)
    (cmdList : r'.cmdList = r.cmdList ++ [.act b row t])
    (actTicks : r'.actTicks = t :: r.actTicks.dropLast)
    (act : ∀ i, (r.banks i).actAllowedAt ≤ (r'.banks i).actAllowedAt)
    (new : ∀ i, t ≤ (r'.banks i).actAllowedAt)
    (back : ∀ back, r'.actTicks.getLast? = some back → back ≠ 0 →
      ∀ i, back + cfg.tXAW ≤ (r'.banks i).actAllowedAt) : Limited cfg r' where
  recorded := by
    obtain ⟨older, recorded⟩ := h.recorded
    rw [recorded] at size
    refine ⟨older, ?_⟩
    rw [actTicks, recorded, cmdList, activations_act, List.reverse_concat]
    exact take_cons_dropLast pos size
  recent u mem i := by
    rw [actTicks, List.mem_cons] at mem
    obtain rfl | mem := mem
    · exact new i
    · exact (h.recent u (List.mem_of_mem_dropLast mem) i).trans (act i)
  back := back
  nonzero _ := by
    rw [cmdList, activations_act, List.mem_append, List.mem_singleton]
    rintro (old | eq)
    · exact h.nonzero pos old
    · exact ne eq.symm

theorem tickSub_of_le {a c : Nat} (h : c ≤ a) : tickSub a c = a - c := if_pos h

theorem recordActivation_actTicks :
    (r.recordActivation cfg t).actTicks = t :: r.actTicks.dropLast := by
  unfold Rank.recordActivation
  simp only []
  split <;> rfl

theorem recordActivation_numBanksActive :
    (r.recordActivation cfg t).numBanksActive = r.numBanksActive := by
  unfold Rank.recordActivation
  simp only []
  split <;> rfl

/-- After a new activation the next one is far enough from the one now at the back. -/
theorem recordActivation_back (le : ∀ u ∈ r.actTicks, u ≤ t)
    (new : ∀ i, t ≤ (r.banks i).actAllowedAt) {back : Nat}
    (eq : (r.recordActivation cfg t).actTicks.getLast? = some back) (nz : back ≠ 0) (i : Fin B) :
    back + cfg.tXAW ≤ ((r.recordActivation cfg t).banks i).actAllowedAt := by
  rw [recordActivation_actTicks, List.getLast?_eq_some_getLast (List.cons_ne_nil _ _)] at eq
  have last := Option.some.inj eq
  have le : back ≤ t := by
    obtain rfl | mem := List.mem_cons.mp (last ▸ List.getLast_mem (List.cons_ne_nil _ _))
    · exact le_rfl
    · exact le back (List.mem_of_mem_dropLast mem)
  simp only [Rank.recordActivation, last, tickSub_of_le le]
  split
  · exact le_max_left _ _
  · have := new i
    simp only []
    omega

theorem later_recordActivation : Later r (r.recordActivation cfg t) := by
  unfold Rank.recordActivation
  simp only []
  split
  · refine ⟨rfl, fun _ => rfl, fun _ => le_max_right _ _, fun _ => le_rfl, fun _ isRead => ?_⟩
    cases isRead <;> exact le_rfl
  · exact ⟨rfl, fun _ => rfl, fun _ => le_rfl, fun _ => le_rfl, fun _ _ => le_rfl⟩

/-- An activation that the bank allows is not too early for the limit. -/
theorem limitActivations_ends (h : Limited cfg r) (size : r.actTicks.length = cfg.activationLimit)
    (at_ : (r.banks b).actAllowedAt ≤ t) (ne : 0 < cfg.activationLimit → t ≠ 0) :
    Ends (NoCommands cfg)
      (fun r' => Later (r.activated cfg b t row) r' ∧ Limited cfg r' ∧
        r'.actTicks.length = cfg.activationLimit ∧ r'.numBanksActive = r.numBanksActive + 1)
      ((r.activated cfg b t row).limitActivations cfg t) := by
  have act (i : Fin B) : (r.banks i).actAllowedAt ≤
      ((r.activated cfg b t row).banks i).actAllowedAt := by
    rw [activated_act]
    exact le_max_right _ _
  have new (i : Fin B) : t ≤ ((r.activated cfg b t row).banks i).actAllowedAt := by
    exact (Nat.le_add_right _ _).trans (le_max_left _ _)
  have same : (r.activated cfg b t row).actTicks = r.actTicks := rfl
  unfold Rank.limitActivations
  rw [same]
  cases hback : r.actTicks.getLast? with
  | none =>
    have nil : r.actTicks = [] := List.getLast?_eq_none_iff.mp hback
    have zero : cfg.activationLimit = 0 := by rw [← size, nil, List.length_nil]
    refine ⟨⟨rfl, fun _ => rfl, fun _ => le_rfl, fun _ => le_rfl, fun _ _ => le_rfl⟩,
      ⟨⟨[], ?_⟩, ?_, ?_, ?_⟩, size, rfl⟩
    · rw [zero, List.take_zero]
      exact nil
    · intro u mem
      exact absurd mem (by simp [Rank.activated, nil])
    · intro back eq
      cases hback.symm.trans eq
    · omega
  | some back =>
    have pos : 0 < cfg.activationLimit := by
      rw [← size]
      exact List.length_pos_of_mem (List.mem_of_getLast? hback)
    have early : ¬ (back ≠ 0 ∧ tickSub t back < cfg.tXAW) := by
      rintro ⟨nz, lt⟩
      have far := (h.back back hback nz b).trans at_
      rw [tickSub_of_le (by omega)] at lt
      omega
    simp only [if_neg early]
    have later : Later (r.activated cfg b t row)
        ((r.activated cfg b t row).recordActivation cfg t) := later_recordActivation
    have actTicks : ((r.activated cfg b t row).recordActivation cfg t).actTicks =
        t :: r.actTicks.dropLast := recordActivation_actTicks
    refine ⟨later, h.moved size pos (ne pos) later.cmdList actTicks
      (fun i => (act i).trans (later.act i)) (fun i => (new i).trans (later.act i)) ?_, ?_, ?_⟩
    · intro back eq nz i
      apply recordActivation_back _ new eq nz i
      exact fun u mem => (h.recent u mem b).trans at_
    · rw [actTicks, List.length_cons, List.length_dropLast, size]
      omega
    · exact recordActivation_numBanksActive

/-! ### Ranks -/

def openBanks (r : Rank B) : Finset (Fin B) :=
  Finset.univ.filter fun b => (r.banks b).openRow ≠ none

theorem mem_openBanks : b ∈ openBanks r ↔ (r.banks b).openRow ≠ none := by simp [openBanks]

theorem openBanks_later (l : Later r r') : openBanks r' = openBanks r := by
  ext b
  rw [mem_openBanks, mem_openBanks, l.openRow]

theorem openBanks_activated : openBanks (r.activated cfg b t row) = insert b (openBanks r) := by
  ext i
  rw [mem_openBanks, activated_openRow, Finset.mem_insert, mem_openBanks]
  split <;> simp [*]

theorem openBanks_precharged {auto trace : Bool} :
    openBanks (r.precharged cfg b t auto trace) = (openBanks r).erase b := by
  ext i
  rw [mem_openBanks, precharged_openRow, Finset.mem_erase, mem_openBanks]
  split <;> simp [*]

/-- What holds of a rank at any time. -/
structure Books (cfg : Config) (r : Rank B) : Prop where
  issued : Issued cfg r.cmdList
  counted : r.numBanksActive = (openBanks r).card
  size : r.actTicks.length = cfg.activationLimit

/-- What holds of a rank that takes commands. -/
structure Ready (cfg : Config) (r : Rank B) : Prop extends Books cfg r where
  live : Live cfg r
  limited : Limited cfg r

/-- A rank waiting for a refresh takes no commands before it. -/
def Sound (cfg : Config) (r : Rank B) : Prop :=
  Books cfg r ∧ (r.refreshState ≠ .drain → Ready cfg r)

theorem Ready.sound (h : Ready cfg r) : Sound cfg r := ⟨h.toBooks, fun _ => h⟩

theorem Books.later (h : Books cfg r) (l : Later r r') (actTicks : r'.actTicks = r.actTicks)
    (active : r'.numBanksActive = r.numBanksActive) : Books cfg r' where
  issued := by
    rw [l.cmdList]
    exact h.issued
  counted := by rw [active, openBanks_later l, h.counted]
  size := by rw [actTicks, h.size]

theorem Ready.later (h : Ready cfg r) (l : Later r r') (actTicks : r'.actTicks = r.actTicks)
    (active : r'.numBanksActive = r.numBanksActive) : Ready cfg r' where
  toBooks := h.toBooks.later l actTicks active
  live := h.live.later l
  limited := h.limited.later l actTicks

theorem Sound.later (h : Sound cfg r) (l : Later r r') (actTicks : r'.actTicks = r.actTicks)
    (active : r'.numBanksActive = r.numBanksActive) (state : r'.refreshState = r.refreshState) :
    Sound cfg r' := by
  refine ⟨h.1.later l actTicks active, fun ne => ?_⟩
  rw [state] at ne
  exact (h.2 ne).later l actTicks active

theorem later_of_eq (cmdList : r'.cmdList = r.cmdList) (banks : r'.banks = r.banks) :
    Later r r' :=
  ⟨cmdList, fun _ => by rw [banks], fun _ => by rw [banks], fun _ => by rw [banks],
    fun _ _ => by rw [banks]⟩

theorem later_update {bank : Bank} (openRow : bank.openRow = (r.banks b).openRow)
    (act : (r.banks b).actAllowedAt ≤ bank.actAllowedAt)
    (pre : (r.banks b).preAllowedAt ≤ bank.preAllowedAt)
    (col : ∀ isRead, (r.banks b).colAllowedAt isRead ≤ bank.colAllowedAt isRead) :
    Later r { r with banks := Function.update r.banks b bank } := by
  have other (P : Bank → Bank → Prop) (self : P (r.banks b) bank) (refl : ∀ x, P x x)
      (i : Fin B) : P (r.banks i) (Function.update r.banks b bank i) := by
    by_cases same : i = b
    · subst same
      rw [Function.update_self]
      exact self
    · rw [Function.update_of_ne same]
      exact refl _
  exact ⟨rfl, other (fun x y => y.openRow = x.openRow) openRow fun _ => rfl,
    other (fun x y => x.actAllowedAt ≤ y.actAllowedAt) act fun _ => le_rfl,
    other (fun x y => x.preAllowedAt ≤ y.preAllowedAt) pre fun _ => le_rfl,
    other (fun x y => ∀ isRead, x.colAllowedAt isRead ≤ y.colAllowedAt isRead) col
      fun _ _ => le_rfl⟩

/-! ### The operations of a burst -/

theorem tRRD_le_actToAct (ok : cfg.accepted R B = true) (b c : Nat) :
    cfg.tRRD ≤ cfg.actToAct b c := by
  simp only [Config.accepted, Bool.and_eq_true, Bool.or_eq_true, Bool.not_eq_true',
    decide_eq_true_eq] at ok
  unfold Config.actToAct Config.sameGroup
  split
  · rename_i same
    simp only [Bool.and_eq_true] at same
    obtain no | checks := ok.2
    · rw [same.1] at no
      cases no
    · exact checks.2
  · exact le_rfl

theorem Ready.issued_act (h : Ready cfg r) (ok : cfg.accepted R B = true)
    (none_ : (r.banks b).openRow = none) (at_ : (r.banks b).actAllowedAt ≤ t) :
    Issued cfg (r.cmdList ++ [.act b row t]) := by
  apply h.issued.act (h.live.follows_act none_ at_)
  · intro a ha
    obtain ⟨c, row, mem⟩ := mem_activations.mp ha
    have := tRRD_le_actToAct ok c b
    have := (h.live.act c row a mem b).trans at_
    omega
  · intro k a ha hk
    obtain zero | pos := Nat.eq_zero_or_pos cfg.activationLimit
    · obtain ⟨lt, -⟩ := List.getElem?_eq_some_iff.mp ha
      omega
    · exact h.limited.spaced h.size at_ pos ha hk

theorem Ready.activateBank (h : Ready cfg r) (ok : cfg.accepted R B = true)
    (none_ : (r.banks b).openRow = none) (at_ : (r.banks b).actAllowedAt ≤ t)
    (ne : 0 < cfg.activationLimit → 0 < t) (burstTicks : List Nat) :
    Ends (NoCommands cfg) (fun x => Ready cfg x.2 ∧ (x.2.banks b).openRow = some row)
      (r.activateBank cfg b burstTicks t row) := by
  have slot : Ends (NoCommands cfg) (fun slot => t ≤ slot.2)
      (if cfg.twoCycleActivate then verifyMultiCmd cfg.bus burstTicks t cfg.tAAD
        else verifySingleCmd cfg.bus burstTicks t) := by
    split
    · exact verifyMultiCmd_ends t cfg.tAAD
    · exact verifySingleCmd_ends t
  have closed : b ∉ openBanks r := by simpa [mem_openBanks] using none_
  have room : ¬ B < r.numBanksActive + 1 := by
    have := Finset.card_lt_univ_of_notMem closed
    rw [Fintype.card_fin] at this
    rw [h.counted]
    omega
  unfold Rank.activateBank
  rw [if_neg (not_not.mpr h.size)]
  apply slot.bind
  intro slot le
  rw [if_neg (not_not.mpr none_), if_neg room]
  have at_ := at_.trans le
  apply (limitActivations_ends h.limited h.size at_ fun pos => ((ne pos).trans_le le).ne').map
  rintro r' ⟨later, limited, size, active⟩
  refine ⟨⟨⟨?_, ?_, size⟩, (h.live.activated none_ at_).later later, limited⟩, ?_⟩
  · rw [later.cmdList]
    exact h.issued_act ok none_ at_
  · rw [active, openBanks_later later, openBanks_activated, Finset.card_insert_of_notMem closed,
      h.counted]
  · rw [later.openRow, activated_openRow, if_pos rfl]

theorem Books.counted_precharged {auto trace : Bool} (h : Books cfg r)
    (some_ : (r.banks b).openRow ≠ none) : (r.precharged cfg b t auto trace).numBanksActive =
      (openBanks (r.precharged cfg b t auto trace)).card := by
  rw [openBanks_precharged, Finset.card_erase_of_mem (mem_openBanks.mpr some_), ← h.counted]
  rfl

theorem Books.active (h : Books cfg r) (some_ : (r.banks b).openRow ≠ none) :
    r.numBanksActive ≠ 0 := by
  rw [h.counted]
  exact (Finset.card_pos.mpr ⟨b, mem_openBanks.mpr some_⟩).ne'

theorem Ready.prechargeBank (h : Ready cfg r) (some_ : (r.banks b).openRow ≠ none)
    (at_ : (r.banks b).preAllowedAt ≤ t) (burstTicks : List Nat) (auto : Bool) :
    Ends (NoCommands cfg) (fun x => Ready cfg x.2 ∧ (x.2.banks b).openRow = none)
      (r.prechargeBank cfg b burstTicks t auto true) := by
  have slot : Ends (NoCommands cfg) (fun slot => t ≤ slot.2)
      (if auto then .ok (burstTicks, t) else verifySingleCmd cfg.bus burstTicks t) := by
    split
    · exact le_refl t
    · exact verifySingleCmd_ends t
  unfold Rank.prechargeBank
  rw [if_neg some_]
  apply slot.bind
  intro slot le
  rw [if_neg (h.active some_)]
  have at_ := at_.trans le
  refine ⟨⟨⟨?_, h.counted_precharged some_, h.size⟩, h.live.precharged some_ at_, ?_⟩, ?_⟩
  · exact h.issued.other (h.live.follows_pre some_ at_) rfl
  · have none_ : (Command.pre b slot.2).activation = none := rfl
    refine h.limited.other none_ rfl rfl fun i => ?_
    rw [precharged_act]
    split
    · exact le_max_left _ _
    · exact le_rfl
  · rw [precharged_openRow, if_pos rfl]

theorem Ready.openBank (h : Ready cfg r) (ok : cfg.accepted R B = true)
    (ne : 0 < cfg.activationLimit → 0 < t) (burstTicks : List Nat) :
    Ends (NoCommands cfg) (fun x => Ready cfg x.2 ∧ (x.2.banks b).openRow = some row)
      (r.openBank cfg b burstTicks t row) := by
  have closed : Ends (NoCommands cfg) (fun x => Ready cfg x.2 ∧ (x.2.banks b).openRow = none)
      (if (r.banks b).openRow ≠ none then
        r.prechargeBank cfg b burstTicks (max (r.banks b).preAllowedAt t) false true
      else .ok (burstTicks, r)) := by
    split
    · rename_i some_
      exact h.prechargeBank some_ (le_max_left _ _) burstTicks false
    · rename_i none_
      exact ⟨h, not_not.mp none_⟩
  unfold Rank.openBank
  split
  · rename_i hit
    exact ⟨h, hit⟩
  · apply closed.bind
    rintro x ⟨ready, none_⟩
    apply ready.activateBank ok none_ (le_max_left _ _)
    exact fun pos => (ne pos).trans_le (le_max_right _ _)

theorem columnSlot_ends (burstTicks : List Nat) (curTick nextBurstAt : Nat) (isRead : Bool) :
    Ends (NoCommands cfg) (fun slot => (r.banks b).colAllowedAt isRead ≤ slot.2)
      (r.columnSlot cfg b burstTicks curTick nextBurstAt isRead) := by
  unfold Rank.columnSlot
  simp only []
  generalize cfg.tBURST_MAX + (if isRead then cfg.tRL else cfg.tWL) = maxSync
  split
  · exact (verifyMultiCmd_ends _ cfg.tCK).imp fun slot le => (le_max_left _ _).trans le
  · exact (verifySingleCmd_ends _).imp fun slot le => (le_max_left _ _).trans le

theorem le_interleaved : t ≤ (r.interleaved cfg t).1 := by
  unfold Rank.interleaved
  split_ifs
  · exact le_rfl
  · exact Nat.le_of_lt ‹_›
  · exact le_rfl
  · exact le_rfl

theorem Ready.burst (h : Ready cfg r) (some_ : (r.banks b).openRow = some row) {isRead : Bool}
    (at_ : (r.banks b).colAllowedAt isRead ≤ t) (gap : Nat) :
    Ready cfg ((r.delayed cfg b t isRead gap true).burst cfg b t isRead row) where
  issued := h.issued.other (h.live.follows_col some_ at_) rfl
  counted := by
    have same : openBanks ((r.delayed cfg b t isRead gap true).burst cfg b t isRead row) =
        openBanks r := by
      ext i
      rw [mem_openBanks, burst_openRow, mem_openBanks]
      rfl
    rw [same]
    exact h.counted
  size := h.size
  live := (h.live.later later_delayed).burst some_ (le_delayed_col b)
  limited := by
    have none_ : (Command.col isRead b row t).activation = none := rfl
    refine h.limited.other none_ rfl rfl fun i => ?_
    rw [burst_act]
    exact le_rfl

theorem later_scheduleWakeUpEvent (exitDelay : Nat) :
    Later r (r.scheduleWakeUpEvent t exitDelay) where
  cmdList := rfl
  openRow _ := rfl
  act _ := le_max_right _ _
  pre _ := le_max_right _ _
  col i isRead := by cases isRead <;> exact le_max_right _ _

/-! ### Runs -/

namespace Interface

variable {s : Interface R B}

theorem setRank_sound {k : Fin R} (h : ∀ k, Sound cfg (s.ranks k)) (new : Sound cfg r) (j : Fin R) :
    Sound cfg ((s.setRank k r).ranks j) := by
  change Sound cfg (Function.update s.ranks k r j)
  by_cases same : j = k
  · subst same
    rw [Function.update_self]
    exact new
  · rw [Function.update_of_ne same]
    exact h j

theorem issueBurst_ends (h : ∀ k, Sound cfg (s.ranks k)) {pkt : MemPacket R B} (ready : Ready cfg r)
    (some_ : (r.banks pkt.bank).openRow = some pkt.row)
    (at_ : (r.banks pkt.bank).colAllowedAt pkt.isRead ≤ t) (queue : List (List (MemPacket R B)))
    (burstTicks : List Nat) (gap : Nat) :
    Ends (NoCommands cfg) (fun t => ∀ k, Sound cfg (t.ranks k))
      (s.issueBurst cfg pkt queue burstTicks r t gap) := by
  have burst := ready.burst some_ at_ gap
  have opened := (burst_openRow cfg (r.delayed cfg pkt.bank t pkt.isRead gap true) pkt.bank t
    pkt.row pkt.isRead pkt.bank).trans some_
  unfold issueBurst
  generalize (r.delayed cfg pkt.bank t pkt.isRead gap true).burst cfg pkt.bank t pkt.isRead
    pkt.row = rank at burst opened ⊢
  have closed : Ends (NoCommands cfg) (fun x => Ready cfg x.2)
      (if autoPrecharge cfg pkt queue (rank.banks pkt.bank).rowAccesses then
        rank.prechargeBank cfg pkt.bank burstTicks
          (max s.curTick (rank.banks pkt.bank).preAllowedAt) true true
      else .ok (burstTicks, rank)) := by
    split
    · have some_ : (rank.banks pkt.bank).openRow ≠ none := by
        rw [opened]
        nofun
      exact (burst.prechargeBank some_ (le_max_right _ _) burstTicks true).imp fun _ h => h.1
    · exact burst
  apply closed.map
  intro x ready j
  apply setRank_sound _ ready.sound
  exact fun k => (h k).later later_delayed rfl rfl rfl

theorem doBurstAccess_ends (ok : cfg.accepted R B = true) (h : ∀ k, Sound cfg (s.ranks k))
    {pkt : MemPacket R B} (idle : (s.ranks pkt.rank).refreshState = .idle)
    (late : 0 < cfg.activationLimit → 0 < s.curTick) (nextBurstAt : Nat)
    (queue : List (List (MemPacket R B))) :
    Ends (NoCommands cfg) (fun t => ∀ k, Sound cfg (t.ranks k))
      (s.doBurstAccess cfg pkt nextBurstAt queue) := by
  have ready : Ready cfg (s.ranks pkt.rank) := (h pkt.rank).2 (by rw [idle]; nofun)
  have awake : Ready cfg (if (s.ranks pkt.rank).inLowPowerState then
      (s.ranks pkt.rank).scheduleWakeUpEvent s.curTick cfg.tXP else s.ranks pkt.rank) := by
    split
    · exact ready.later (later_scheduleWakeUpEvent _) rfl rfl
    · exact ready
  unfold doBurstAccess
  rw [if_neg (not_not.mpr idle)]
  apply (awake.openBank ok late _).bind
  rintro opened ⟨ready, some_⟩
  apply (columnSlot_ends opened.1 s.curTick nextBurstAt pkt.isRead).bind
  intro slot le
  exact issueBurst_ends h ready some_ (le.trans le_interleaved) queue _ _

/-! ### Refreshes -/

theorem prechargeFor_ends (i : Fin B) (h : Books cfg r ∧ r.refreshState = .drain) :
    Ends (NoCommands cfg) (fun r' => Books cfg r' ∧ r'.refreshState = .drain)
      (Rank.prechargeFor cfg t i r) := by
  obtain ⟨books, drain⟩ := h
  unfold Rank.prechargeFor
  split
  · rename_i some_
    unfold Rank.prechargeBank
    rw [if_neg some_]
    simp only [if_true, Except.bind]
    rw [if_neg (books.active some_)]
    exact ⟨⟨books.issued, books.counted_precharged some_, books.size⟩, drain⟩
  · refine ⟨books.later (later_update rfl (le_max_left _ _) (le_max_left _ _) fun isRead => ?_)
      rfl rfl, drain⟩
    cases isRead <;> exact le_rfl

theorem prechargeAll_ends (h : ∀ k, Sound cfg (s.ranks k)) {k : Fin R}
    (drain : (s.ranks k).refreshState = .drain) :
    Ends (NoCommands cfg) (fun t => ∀ k, Sound cfg (t.ranks k)) (s.prechargeAll cfg k) := by
  have closed : ∀ preAt, Ends (NoCommands cfg) (fun r => Books cfg r ∧ r.refreshState = .drain)
      (Script.run (Rank.prechargeFor cfg preAt) (List.finRange B) (s.ranks k)) := fun preAt =>
    Ends.run ⟨(h k).1, drain⟩ fun i _ _ hr => prechargeFor_ends i hr
  apply (closed _).map
  rintro r ⟨books, drain⟩
  exact setRank_sound h ⟨books, fun ne => absurd drain ne⟩

/-- After a refresh the banks of the rank are closed and no command has been issued. -/
theorem refresh_ready (h : Books cfg r) (none_ : r.numBanksActive = 0)
    (past : ∀ u ∈ r.actTicks, u ≤ t)
    (rested : ∀ back, r.actTicks.getLast? = some back → back ≠ 0 → back + cfg.tXAW ≤ t) :
    Ready cfg { r with
      banks := fun i => { r.banks i with actAllowedAt := t }
      refreshState := .run
      cmdList := [] } where
  issued := issued_nil
  counted := h.counted
  size := h.size
  live := by
    have closed (b : Fin B) : (r.banks b).openRow = none := by
      by_contra some_
      exact h.active some_ none_
    constructor
    case rows => exact closed
    all_goals simp
  limited := by
    constructor
    case recorded =>
      refine ⟨r.actTicks, ?_⟩
      simp [activations, ← h.size]
    case recent => exact fun u mem _ => past u mem
    case back => exact fun back eq ne _ => rested back eq ne
    case nonzero => simp [activations]

/-- The accesses come after tick zero, and a refresh ends no less than `tXAW` after the
activation at the back of the record. -/
def Careful (cfg : Config) (s : Interface R B) : Action R B → Prop
  | .doBurstAccess .. => 0 < cfg.activationLimit → 0 < s.curTick
  | .refresh k => ∀ back ∈ (s.ranks k).actTicks.getLast?, back ≠ 0 →
      back + cfg.tXAW ≤ s.curTick + cfg.tRFC
  | _ => True

instance (s : Interface R B) : (a : Action R B) → Decidable (Careful cfg s a)
  | .doBurstAccess .. => inferInstanceAs (Decidable (0 < cfg.activationLimit → 0 < s.curTick))
  | .refresh k => inferInstanceAs (Decidable (∀ back ∈ (s.ranks k).actTicks.getLast?, back ≠ 0 →
      back + cfg.tXAW ≤ s.curTick + cfg.tRFC))
  | .advance _ | .powerDownSleep _ | .scheduleWakeUpEvent .. | .refreshDue _ | .prechargeAll _
  | .refreshDone _ => inferInstanceAs (Decidable True)

theorem step_ends (ok : cfg.accepted R B = true) (h : ∀ k, Sound cfg (s.ranks k)) {a : Action R B}
    (careful : Careful cfg s a) {e : Except Fault (Interface R B)} (he : step cfg s a = some e) :
    Ends (NoCommands cfg) (fun t => ∀ k, Sound cfg (t.ranks k)) e := by
  cases a with
  | advance tick =>
    obtain ⟨-, he⟩ := Option.ite_none_right_eq_some.mp he
    cases he
    exact h
  | doBurstAccess pkt nextBurstAt queue =>
    obtain ⟨idle, he⟩ := Option.ite_none_right_eq_some.mp he
    cases he
    exact doBurstAccess_ends ok h idle careful nextBurstAt queue
  | powerDownSleep k =>
    cases he
    exact setRank_sound h ((h k).later (later_of_eq rfl rfl) rfl rfl rfl)
  | scheduleWakeUpEvent k exitDelay =>
    cases he
    exact setRank_sound h ((h k).later (later_scheduleWakeUpEvent exitDelay) rfl rfl rfl)
  | refreshDue k =>
    obtain ⟨-, he⟩ := Option.ite_none_right_eq_some.mp he
    cases he
    exact setRank_sound h ⟨(h k).1.later (later_of_eq rfl rfl) rfl rfl, fun ne => absurd rfl ne⟩
  | prechargeAll k =>
    obtain ⟨⟨drain, -⟩, he⟩ := Option.ite_none_right_eq_some.mp he
    cases he
    exact prechargeAll_ends h drain
  | refresh k =>
    obtain ⟨⟨-, none_, past⟩, he⟩ := Option.ite_none_right_eq_some.mp he
    cases he
    unfold refresh
    rw [if_neg (not_not.mpr none_)]
    apply setRank_sound h
    apply (refresh_ready (h k).1 none_ _ careful).sound
    exact fun u mem => (past u mem).trans (Nat.le_add_right _ _)
  | refreshDone k =>
    obtain ⟨running, he⟩ := Option.ite_none_right_eq_some.mp he
    cases he
    have ready : Ready cfg (s.ranks k) := (h k).2 (by rw [running]; nofun)
    have idle : Ready cfg { s.ranks k with refreshState := .idle } :=
      ready.later (later_of_eq rfl rfl) rfl rfl
    exact setRank_sound h idle.sound

theorem new_ready : Ready cfg (Rank.new cfg B) where
  issued := issued_nil
  counted := by simp [Rank.new, openBanks]
  size := List.length_replicate
  live := by
    constructor
    all_goals simp [Rank.new]
  limited := by
    constructor
    case recorded =>
      refine ⟨List.replicate cfg.activationLimit 0, ?_⟩
      simp [Rank.new, activations]
    case recent =>
      intro u mem _
      exact (List.eq_of_mem_replicate mem).le
    case back =>
      intro back eq ne
      exact absurd (List.eq_of_mem_replicate (List.mem_of_getLast? eq)) ne
    case nonzero => simp [Rank.new, activations]

theorem sound_of_reaches (ok : cfg.accepted R B = true)
    (h : (machine cfg).Reaches (Careful cfg) s) (k : Fin R) : Sound cfg (s.ranks k) := by
  apply h.invariant (I := fun s => ∀ k, Sound cfg (s.ranks k)) (fun _ => new_ready.sound)
  intro s a t sound careful step
  exact step_ends ok sound careful step

/-- In every careful run the commands since the last refresh of a rank satisfy its timing
constraints, and no careful step fails, unless a command window takes no commands. -/
theorem timing_of_careful (cfg : Config) (ok : cfg.accepted R B = true) (s : Interface R B)
    (h : (machine cfg).Reaches (Careful cfg) s) :
    (∀ k, Timing cfg (s.ranks k).cmdList) ∧
      ∀ a f, Careful cfg s a → (machine cfg).step s a = some (.error f) →
        f = .noSlot ∧ cfg.maxCommandsPerWindow = 0 := by
  have sound := sound_of_reaches ok h
  constructor
  · exact fun k => (sound k).1.issued.timing
  · intro a f careful failed
    exact step_ends ok sound careful failed

/-- `DDR3_1600_8x8`, with ticks of a picosecond. -/
def ddr3 : Config where
  burstSize := 64
  bankGroupsPerRank := 0
  activationLimit := 4
  pageMgmt := .openAdaptive
  maxAccessesPerRow := 16
  pseudoChannel := 0
  tCK := 1250
  tCS := 2500
  tBURST := 5000
  tBURST_MIN := 5000
  tBURST_MAX := 5000
  tRTW := 2500
  tWTR := 7500
  tWTR_L := 7500
  tRL := 13750
  tWL := 13750
  tCCD_L := 0
  tCCD_L_WR := 0
  tRCD_RD := 13750
  tRCD_WR := 13750
  tRP := 13750
  tRAS := 35000
  tWR := 15000
  tRTP := 7500
  tRFC := 260000
  tREFI := 7800000
  tRRD := 6000
  tRRD_L := 0
  tPPD := 0
  tAAD := 0
  tXAW := 30000
  tXP := 6000
  dataClockSync := false
  twoCycleActivate := false
  commandWindow := 10000
  commandWindow_pos := by decide

/-- Reads of five banks of the last rank, every 5 ns from `tick` on. -/
def readBanks (tick : Nat) : List (Action 2 8) :=
  (List.finRange 5).flatMap fun i : Fin 5 =>
    [.advance (tick + 5000 * i),
      .doBurstAccess ⟨i, Fin.last 1, i.castLE (by decide), 7, true, 0⟩ (tick + 27500 + 5000 * i) []]

/-- One activation within the window, which outlasts a refresh. -/
def longWindow : Config := { ddr3 with activationLimit := 1, tXAW := 1000000 }

/-- A read, and a refresh of its rank. -/
def refreshAfter : List (Action 2 8) :=
  [.advance 1000, .doBurstAccess ⟨0, Fin.last 1, 0, 7, true, 0⟩ 28500 [], .advance 100000,
    .refreshDue (Fin.last 1), .prechargeAll (Fin.last 1), .advance 200000, .refresh (Fin.last 1),
    .advance 460000, .refreshDone (Fin.last 1)]

/-- Five activations from tick one on: the fifth waits for the end of the window. -/
theorem timing_of_careful_five_banks : ddr3.accepted 2 8 = true ∧
    ∃ s : Interface 2 8, (machine ddr3).Reaches (Careful ddr3) s ∧
      activations (s.ranks (Fin.last 1)).cmdList = [1, 6001, 12001, 18001, 30001] ∧
      (∀ k, Timing ddr3 (s.ranks k).cmdList) ∧
      ∀ a f, Careful ddr3 s a → (machine ddr3).step s a = some (.error f) →
        f = .noSlot ∧ ddr3.maxCommandsPerWindow = 0 := by
  have run : ((machine ddr3).runIf (Careful ddr3) (machine ddr3).start (readBanks 1)).any
      (fun s => activations (s.ranks (Fin.last 1)).cmdList == [1, 6001, 12001, 18001, 30001]) = true := by
    decide +kernel
  obtain ⟨s, run, acts⟩ := (Option.any_eq_true _ _).mp run
  have reaches : (machine ddr3).Reaches (Careful ddr3) s := Machine.Reaches.start.runIf _ run
  have ok : ddr3.accepted 2 8 = true := by decide
  exact ⟨ok, s, reaches, by simpa using acts, timing_of_careful ddr3 ok s reaches⟩

/-- From tick zero on, five activations come within a window that is meant for four. And
an activation before a refresh makes the first one after it fail. -/
theorem activations_crowded : ddr3.accepted 2 8 = true ∧ longWindow.accepted 2 8 = true ∧
    (∃ s : Interface 2 8, (machine ddr3).run (machine ddr3).start (readBanks 0) = some s ∧
      ¬ Timing ddr3 (s.ranks (Fin.last 1)).cmdList) ∧
    ∃ s : Interface 2 8,
      (machine longWindow).run (machine longWindow).start refreshAfter = some s ∧
      (machine longWindow).step s (.doBurstAccess ⟨1, Fin.last 1, 1, 7, true, 0⟩ 487500 []) =
        some (.error .activatesInWindow) := by
  refine ⟨by decide, by decide, ?_, ?_⟩
  · have run : ((machine ddr3).run (machine ddr3).start (readBanks 0)).any (fun s =>
        4 < (activations (s.ranks (Fin.last 1)).cmdList).countP fun a => decide (0 ≤ a ∧ a < 0 + 30000)) =
          true := by decide +kernel
    obtain ⟨s, run, crowded⟩ := (Option.any_eq_true _ _).mp run
    refine ⟨s, run, fun timing => ?_⟩
    exact absurd (timing.window (by decide) 0) (Nat.not_le.mpr (of_decide_eq_true crowded))
  · have run : ((machine longWindow).run (machine longWindow).start refreshAfter).any (fun s =>
        decide (((machine longWindow).step s (.doBurstAccess ⟨1, Fin.last 1, 1, 7, true, 0⟩ 487500
          [])).map (Except.map fun _ => ()) = some (.error .activatesInWindow))) = true := by
      decide +kernel
    obtain ⟨s, run, failed⟩ := (Option.any_eq_true _ _).mp run
    obtain ⟨e, step, failed⟩ := Option.map_eq_some_iff.mp (of_decide_eq_true failed)
    rw [map_eq_error.mp failed] at step
    exact ⟨s, run, step⟩

end Interface

end Dram
