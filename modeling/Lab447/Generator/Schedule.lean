import Lab447.Generator.Calls
import Lab447.Generator.Workload
import Lab447.Pe.Exit

/-!
The barriers of a generated list. A list is a schedule when it is made of
entries that are no barrier and of whole `broadcast_read`s; every generator
makes a schedule, and the lists of the PEs of a schedule are matched in the sense
the barrier protocol of the PEs asks for.
-/

namespace Generator

open Command

/-- The entries of one `broadcast_read`. -/
def barrier (numPE : Nat) (t : Traffic) : List Traffic :=
  t :: (List.range' 1 (numPE - 1)).map (mark .sync)

inductive Schedule (numPE : Nat) : List Traffic → Prop where
  | nil : Schedule numPE []
  | entry {l : List Traffic} {t : Traffic} {i : Nat} (h : Schedule numPE l) (here : i < numPE)
      (src : t.src = (0, (i : Int))) (type : t.type ≠ .sync) (response : t.response ≠ .broadcast) :
      Schedule numPE (l ++ [t])
  | barrier {l : List Traffic} {t : Traffic} (h : Schedule numPE l) (src : t.src = (0, 0))
      (type : t.type = .read) (response : t.response = .broadcast) :
      Schedule numPE (l ++ barrier numPE t)

/-! ## Every generator makes a schedule -/

theorem trafficList_marks (type : RequestType) (xs : List Nat) (s : State) :
    (each xs (fun i => push (mark type i)) s).trafficList =
      s.trafficList ++ xs.map (mark type) := by
  induction xs generalizing s with
  | nil => simp
  | cons x xs ih =>
    rw [each_cons, ih]
    simp [push]

theorem trafficList_broadcastRead (g : TrafficGenerator) (size : Int) (slot : Slot) (s : State) :
    (g.broadcastRead size slot s).trafficList =
      s.trafficList ++ barrier g.numPE (g.entry .read .broadcast size slot 0 s) := by
  refine (trafficList_marks .sync _ (g.access .read .broadcast size slot 0 s)).trans ?_
  simp [TrafficGenerator.access, barrier]

theorem schedule_calls (g : TrafficGenerator) (pos : 0 < g.numPE) (kind : Kind) :
    Keeps (fun s => Schedule g.numPE s.trafficList) (g.generateTraffic kind) := by
  have broadcastRead (size slot) :
      Keeps (fun s => Schedule g.numPE s.trafficList) (g.broadcastRead size slot) := by
    intro s hs
    rw [trafficList_broadcastRead]
    exact hs.barrier rfl rfl rfl
  refine (TrafficGenerator.Calls.of_access ?_ broadcastRead ?_).generateTraffic pos kind
    (fun _ j => broadcastRead _ _)
  · intro type ht size slot i hi s hs
    refine hs.entry hi rfl ?_ (by simp [TrafficGenerator.entry])
    rintro rfl
    simp at ht
  · intro k hk
    refine .each fun i hi s hs => ?_
    have hi := List.mem_range.mp hi
    exact hs.entry (by omega) rfl (by simp [mark]) (by simp [mark])

theorem schedule_generated (g : TrafficGenerator) (pos : 0 < g.numPE) (kind : Kind)
    (heap : Heap) : Schedule g.numPE (g.generated kind heap) :=
  schedule_calls g pos kind _ .nil

/-! ## The barriers of a schedule -/

/-- The `SYNC`s of PE `(0, i)`. -/
def syncs (i : Nat) (l : List Traffic) : Nat :=
  l.countP fun t => t.type = .sync ∧ t.src = (0, (i : Int))

/-- The broadcasts of PE `(0, 0)`. -/
def broadcasts (l : List Traffic) : Nat :=
  l.countP fun t => t.response = .broadcast ∧ t.src = (0, 0)

/-- At every point of the list PE `(0, i)` is at most one barrier behind PE
`(0, 0)`, and it is level with it unless a `SYNC` comes next. -/
def Balanced (i : Nat) (l : List Traffic) : Prop :=
  ∀ done rest, l = done ++ rest →
    syncs i done ≤ broadcasts done ∧ broadcasts done ≤ syncs i done + 1 ∧
      ((∀ t ∈ rest.head?, t.type ≠ .sync) → syncs i done = broadcasts done)

theorem syncs_append (i : Nat) (l m : List Traffic) : syncs i (l ++ m) = syncs i l + syncs i m :=
  List.countP_append

theorem broadcasts_append (l m : List Traffic) :
    broadcasts (l ++ m) = broadcasts l + broadcasts m :=
  List.countP_append

variable {l : List Traffic} {i : Nat}

theorem Balanced.level (h : Balanced i l) : syncs i l = broadcasts l :=
  (h l [] (by simp)).2.2 (by simp)

theorem Balanced.append {m : List Traffic} (hl : Balanced i l) (hm : Balanced i m) :
    Balanced i (l ++ m) := by
  intro done rest split
  have level := hl.level
  obtain ⟨done, rfl, later⟩ | ⟨rest', rfl, rfl⟩ := List.append_eq_append_iff.mp split
  · obtain ⟨low, high, eq⟩ := hm done rest later
    rw [syncs_append, broadcasts_append]
    refine ⟨by omega, by omega, fun hr => ?_⟩
    have := eq hr
    omega
  · obtain ⟨low, high, eq⟩ := hl done rest' rfl
    refine ⟨low, high, fun hr => ?_⟩
    cases rest' with
    | nil => simpa using level
    | cons t rest' => exact eq (by simpa using hr)

variable {t : Traffic}

theorem balanced_entry (type : t.type ≠ .sync) (response : t.response ≠ .broadcast) :
    Balanced i [t] := by
  intro done rest h
  have : syncs i done = 0 ∧ broadcasts done = 0 := by
    have sub : done.Sublist [t] := h ▸ List.sublist_append_left done rest
    constructor
    · exact Nat.le_zero.mp (sub.countP_le.trans (by simp [type]))
    · exact Nat.le_zero.mp (sub.countP_le.trans (by simp [response]))
  omega

theorem syncs_marks (i m : Nat) (pos : 0 < i) :
    syncs i ((List.range' 1 m).map (mark .sync)) = if i ≤ m then 1 else 0 := by
  have eq : syncs i ((List.range' 1 m).map (mark .sync)) = (List.range' 1 m).count i := by
    rw [syncs, List.countP_map]
    refine List.countP_congr fun j _ => ?_
    simp [mark]
  rw [eq, List.count_range_1']
  exact if_congr (by omega) rfl rfl

theorem broadcasts_marks (xs : List Nat) : broadcasts (xs.map (mark .sync)) = 0 := by
  simp [broadcasts, mark]

variable {numPE : Nat}

theorem broadcasts_barrier (src : t.src = (0, 0)) (response : t.response = .broadcast) :
    broadcasts (barrier numPE t) = 1 := by
  rw [barrier, ← List.singleton_append, broadcasts_append, broadcasts_marks]
  simp [broadcasts, src, response]

theorem balanced_barrier (pos : 0 < i) (here : i < numPE) (src : t.src = (0, 0))
    (type : t.type = .read) (response : t.response = .broadcast) :
    Balanced i (barrier numPE t) := by
  intro done rest split
  have issued : syncs i [t] = 0 ∧ broadcasts [t] = 1 := by
    simp [syncs, broadcasts, src, type, response]
  obtain ⟨rfl, rfl⟩ | ⟨done, rfl, marks⟩ := List.cons_eq_append_iff.mp split
  · simp [syncs, broadcasts, type]
  · obtain ⟨xs, ys, hxs, rfl, rfl⟩ := List.map_eq_append_iff.mp marks
    obtain ⟨m, hm, rfl, rfl⟩ := List.range'_eq_append_iff.mp hxs
    rw [← List.singleton_append, syncs_append, broadcasts_append, syncs_marks i m pos,
      broadcasts_marks, issued.1, issued.2]
    refine ⟨by split <;> omega, by omega, fun hr => ?_⟩
    have last : m = numPE - 1 := by
      by_contra hne
      obtain ⟨k, hk⟩ : ∃ k, numPE - 1 - m = k + 1 := ⟨numPE - 1 - m - 1, by omega⟩
      simp [hk, List.range'_succ, mark] at hr
    rw [if_pos (by omega)]

/-- Every entry belongs to one of the PEs `(0, 0), ..., (0, numPE - 1)`. -/
theorem Schedule.src (h : Schedule numPE l) (pos : 0 < numPE) (ht : t ∈ l) :
    ∃ i : Nat, i < numPE ∧ t.src = (0, (i : Int)) := by
  induction h with
  | nil => simp at ht
  | entry _ here src _ _ ih =>
    obtain ht | ht := List.mem_append.mp ht
    · exact ih ht
    · cases List.mem_singleton.mp ht
      exact ⟨_, here, src⟩
  | barrier _ src _ _ ih =>
    obtain ht | ht := List.mem_append.mp ht
    · exact ih ht
    · obtain rfl | ht := List.mem_cons.mp ht
      · exact ⟨0, pos, src⟩
      · obtain ⟨i, hi, rfl⟩ := List.mem_map.mp ht
        rw [List.mem_range'_1] at hi
        exact ⟨i, by omega, rfl⟩

theorem Schedule.broadcast_src (h : Schedule numPE l) (ht : t ∈ l) (hr : t.response = .broadcast) :
    t.type = .read ∧ t.src = (0, 0) := by
  induction h with
  | nil => simp at ht
  | entry _ _ _ _ response ih =>
    obtain ht | ht := List.mem_append.mp ht
    · exact ih ht
    · cases List.mem_singleton.mp ht
      exact absurd hr response
  | barrier _ src type _ ih =>
    obtain ht | ht := List.mem_append.mp ht
    · exact ih ht
    · obtain rfl | ht := List.mem_cons.mp ht
      · exact ⟨type, src⟩
      · obtain ⟨i, -, rfl⟩ := List.mem_map.mp ht
        cases hr

theorem Schedule.sync_src (h : Schedule numPE l) (ht : t ∈ l) (hs : t.type = .sync) :
    ∃ i : Nat, 1 ≤ i ∧ i < numPE ∧ t.src = (0, (i : Int)) := by
  induction h with
  | nil => simp at ht
  | entry _ _ _ type _ ih =>
    obtain ht | ht := List.mem_append.mp ht
    · exact ih ht
    · cases List.mem_singleton.mp ht
      exact absurd hs type
  | barrier _ _ type _ ih =>
    obtain ht | ht := List.mem_append.mp ht
    · exact ih ht
    · obtain rfl | ht := List.mem_cons.mp ht
      · rw [type] at hs
        cases hs
      · obtain ⟨i, hi, rfl⟩ := List.mem_map.mp ht
        rw [List.mem_range'_1] at hi
        exact ⟨i, hi.1, by omega, rfl⟩

theorem Schedule.balanced (h : Schedule numPE l) (pos : 0 < i) (here : i < numPE) :
    Balanced i l := by
  induction h with
  | nil =>
    intro done rest h
    obtain ⟨rfl, rfl⟩ := List.nil_eq_append_iff.mp h
    simp [syncs, broadcasts]
  | entry _ _ _ type response ih => exact ih.append (balanced_entry type response)
  | barrier _ src type response ih => exact ih.append (balanced_barrier pos here src type response)

/-! ## The lists of the PEs -/

/-- The entries of PE `(0, p)`. -/
def project (l : List Traffic) (p : Nat) : List Traffic :=
  l.filter fun t => t.src = (0, (p : Int))

/-- The barriers PE `(0, p)` sees, as broadcasts of its own or not. -/
def view (l : List Traffic) (p : Nat) : List Bool :=
  ((project l p).filter Traffic.isBarrier).map fun t => decide (t.type = .read)

theorem view_append (l m : List Traffic) (p : Nat) : view (l ++ m) p = view l p ++ view m p := by
  simp [view, project]

theorem view_entry (p : Nat) (type : t.type ≠ .sync) (response : t.response ≠ .broadcast) :
    view [t] p = [] := by
  have plain : t.isBarrier = false := by
    simp [Traffic.isBarrier, Traffic.isBroadcast, type, response]
  simp [view, project, List.filter_filter, plain]

theorem project_marks (p m : Nat) (here : p ≤ m) :
    project ((List.range' 1 m).map (mark .sync)) p = if p = 0 then [] else [mark .sync p] := by
  have eq : project ((List.range' 1 m).map (mark .sync)) p =
      ((List.range' 1 m).filter (· = p)).map (mark .sync) := by
    rw [project, List.filter_map]
    congr 2
    funext j
    simp [mark]
  rw [eq, List.filter_eq, List.count_range_1']
  by_cases hp : p = 0
  · simp [hp]
  · rw [if_neg hp, if_pos (by omega)]
    rfl

theorem view_barrier {p : Nat} (here : p < numPE) (src : t.src = (0, 0)) (type : t.type = .read)
    (response : t.response = .broadcast) : view (barrier numPE t) p = [decide (p = 0)] := by
  have own : t.isBarrier = true := by
    simp [Traffic.isBarrier, Traffic.isBroadcast, type, response]
  have marks := project_marks p (numPE - 1) (by omega)
  rw [barrier, ← List.singleton_append, view_append, view, view, marks]
  by_cases hp : p = 0
  · simp [project, src, hp, own, type]
  · have other : ¬(0 : Int) = p := by omega
    simp [project, src, hp, other, mark, Traffic.isBarrier]

theorem Schedule.view_eq {p : Nat} (h : Schedule numPE l) (here : p < numPE) :
    view l p = List.replicate (broadcasts l) (decide (p = 0)) := by
  induction h with
  | nil => rfl
  | entry h _ _ type response ih =>
    rw [view_append, view_entry p type response, ih, broadcasts_append]
    simp [broadcasts, response]
  | barrier h src type response ih =>
    rw [view_append, view_barrier here src type response, ih, broadcasts_append,
      broadcasts_barrier src response, List.replicate_add]
    rfl

/-- The PEs of a schedule have matching barriers, all issued by the first PE. -/
theorem Schedule.matched {n : Nat} (h : Schedule n l) (pos : 0 < n) (cfg : Pe.Config n)
    (own : ∀ p, cfg.traffic p = project l p) :
    Pe.Matched cfg (List.replicate (broadcasts l) ⟨0, pos⟩) := by
  intro p
  have hv := h.view_eq p.isLt
  rw [view, ← own p] at hv
  rw [hv, List.map_replicate]
  congr 1
  rw [decide_eq_decide, Fin.ext_iff, eq_comm]

/-- Whatever the node, the strategy and the number of PEs, a generated list is a
barrier schedule: only PE `(0, 0)` broadcasts, only the others synchronise, at
every point outside a `broadcast_read` each of the others has as many `SYNC`s as
PE `(0, 0)` has broadcasts, and projected to the PEs the barriers match. -/
theorem generated_schedule (g : TrafficGenerator) (kind : Kind) (heap : Heap)
    (pos : 0 < g.numPE) :
    (∀ t ∈ g.generated kind heap, t.response = .broadcast → t.type = .read ∧ t.src = (0, 0)) ∧
    (∀ t ∈ g.generated kind heap, t.type = .sync →
      ∃ i : Nat, 1 ≤ i ∧ i < g.numPE ∧ t.src = (0, (i : Int))) ∧
    (∀ i, 1 ≤ i → i < g.numPE →
      syncs i (g.generated kind heap) = broadcasts (g.generated kind heap) ∧
      Balanced i (g.generated kind heap)) ∧
    ∀ cfg : Pe.Config g.numPE, (∀ p, cfg.traffic p = project (g.generated kind heap) p) →
      Pe.Matched cfg (List.replicate (broadcasts (g.generated kind heap)) ⟨0, pos⟩) := by
  have schedule := schedule_generated g pos kind heap
  refine ⟨fun t ht => schedule.broadcast_src ht, fun t ht => schedule.sync_src ht, ?_,
    schedule.matched pos⟩
  intro i low high
  have balanced := schedule.balanced low high
  exact ⟨balanced.level, balanced⟩

/-- A convolution without bias of two weight tiles, each used with two input tiles. -/
def smallConv : TrafficGenerator where
  numPE := 2
  numSubgraph := 4
  splitNode := ⟨.conv, [0, 1], [2], [], []⟩
  strategy := ⟨[[1, 1, 2, 1], [2, 1, 1, 1]], .weight⟩

theorem generated_schedule_smallConv :
    (smallConv.generated .convWeightStationary fun _ => ⟨[], 4, 0, 64⟩).length = 14 ∧
    syncs 1 (smallConv.generated .convWeightStationary fun _ => ⟨[], 4, 0, 64⟩) =
      broadcasts (smallConv.generated .convWeightStationary fun _ => ⟨[], 4, 0, 64⟩) := by
  refine ⟨by decide, ?_⟩
  have h := generated_schedule smallConv .convWeightStationary (fun _ => ⟨[], 4, 0, 64⟩) (by decide)
  exact (h.2.2.1 1 (by decide) (by decide)).1

/-! ## From the generator to the PEs -/

theorem plan_numPE {numPE : Nat} {node : Node} {strategy : Strategy} {heap : Heap} {p : Plan}
    (h : plan numPE node strategy heap = some p) : p.generator.numPE = numPE := by
  unfold plan at h
  grind [planElementWise, Option.map_eq_some_iff]

/-- A Relu of one tile. -/
def oneRelu : Option (List Traffic) :=
  top 1 [⟨.relu, [0], [1], [], []⟩] ⟨[[1, 1, 1, 1]], .other⟩ fun _ => ⟨[1, 1, 4, 4], 0, 0, 64⟩

def reluConfig : Pe.Config 1 := ⟨fun p => project (oneRelu.getD []) p, 64, fun _ => true⟩

def reluRun (p : Fin 1) : List (Pe.Action 1) :=
  [.wait 1, .operate p, .wait 1, .schedule p true, .respond p ⟨p, 0, 0, true, false⟩, .wait 1,
    .operate p, .wait 100, .operate p, .wait 1, .schedule p true,
    .respond p ⟨p, 1, 64, false, false⟩, .wait 1, .operate p]

end Generator
