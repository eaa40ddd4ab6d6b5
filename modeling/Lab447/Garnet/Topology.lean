import Lab447.Lib.Distance

/-!
Table routing: the distances that `gem5/src/mem/ruby/network/Topology.cc` computes
for a vnet, the links and routing tables it makes from them, and the lookup of
`gem5/src/mem/ruby/network/garnet/RoutingUnit.cc`. Latencies and counts of switches,
which nothing reads, and the directions of ports are left out.
-/

namespace Garnet

open Distance

def INFINITE_LATENCY : Nat := 10000

/-- A link in one direction, with its `m_weight` and `mVnets`. -/
structure Link where
  src : Nat
  dst : Nat
  weight : Nat
  vnets : List Nat
  deriving DecidableEq

def Link.supports (l : Link) (vnet : Nat) : Bool := l.vnets.isEmpty || l.vnets.contains vnet

/-- An external link joins a node and a router in both directions. -/
structure ExtLink where
  node : Nat
  router : Nat
  weight : Nat
  vnets : List Nat := []

structure IntLink where
  srcNode : Nat
  dstNode : Nat
  weight : Nat
  vnets : List Nat := []

/-- The calls of `addLink`. Switches below `nodes` stand for the nodes as sources,
those below `2 * nodes` for the nodes as destinations, the others for routers. -/
def addLinks (nodes : Nat) (extLinks : List ExtLink) (intLinks : List IntLink) : List Link :=
  (extLinks.flatMap fun e =>
    [⟨e.node, 2 * nodes + e.router, e.weight, e.vnets⟩,
      ⟨2 * nodes + e.router, nodes + e.node, e.weight, e.vnets⟩]) ++
  intLinks.map fun l => ⟨2 * nodes + l.srcNode, 2 * nodes + l.dstNode, l.weight, l.vnets⟩

/-- A topology with positive weights that are an `int`, and at most one link for an
ordered pair and a vnet, which `createLinks` checks. -/
structure Topology where
  nodes : Nat
  vnets : Nat
  extLinks : List ExtLink
  intLinks : List IntLink
  node_lt : ∀ e ∈ extLinks, e.node < nodes
  weight : ∀ l ∈ addLinks nodes extLinks intLinks, 0 < l.weight ∧ l.weight < 2 ^ 31
  distinct : (addLinks nodes extLinks intLinks).Pairwise fun a b =>
    a.src = b.src → a.dst = b.dst → ∀ v < vnets, ¬(a.supports v ∧ b.supports v)

/-- The matrix of one vnet. -/
abbrev Matrix := Nat → Nat → Int

/-- The sum of two `int`s. -/
def addInt (a b : Int) : Int := (a + b).bmod (2 ^ 32)

namespace Topology

variable (T : Topology)

def links : List Link := addLinks T.nodes T.extLinks T.intLinks

def numSwitches : Nat := T.links.foldl (fun m l => max m (max l.src l.dst)) 0 + 1

def isLink (v i j : Nat) (l : Link) : Bool :=
  decide (l.src = i) && decide (l.dst = j) && l.supports v

/-- `topology_weights` of a vnet. -/
def weights (v : Nat) : Matrix := fun i j =>
  match T.links.find? (isLink v i j) with
  | some l => l.weight
  | none => if i = j then 0 else INFINITE_LATENCY

end Topology

/-! ### The distances -/

/-- The minimum that the loop over `k` finds for one entry. -/
def minimum (nodes : Nat) (D : Matrix) (i j : Nat) : Int :=
  (List.range nodes).foldl (fun m k => min m (addInt (D i k) (D k j))) (D i j)

def extendEntry (nodes : Nat) (r : Matrix × Bool) (p : Nat × Nat) : Matrix × Bool :=
  if r.1 p.1 p.2 ≠ minimum nodes r.1 p.1 p.2 then
    (Distance.set r.1 p.1 p.2 (minimum nodes r.1 p.1 p.2), true)
  else r

/-- The body of the `while` loop, with `change`. -/
def extendPass (nodes : Nat) (D : Matrix) : Matrix × Bool :=
  ((List.range nodes).product (List.range nodes)).foldl (extendEntry nodes) (D, false)

/-- `extend_shortest_path` for a vnet, if so many passes are enough. -/
def extendShortestPath (nodes : Nat) : Nat → Matrix → Option Matrix
  | 0, _ => none
  | passes + 1, D =>
    if (extendPass nodes D).2 then extendShortestPath nodes passes (extendPass nodes D).1
    else some (extendPass nodes D).1

namespace Topology

variable (T : Topology)

def shortestPath (v passes : Nat) : Option Matrix :=
  extendShortestPath T.numSwitches passes (T.weights v)

/-! ### Links and tables -/

def linkIsShortestPathToNode (v src next final : Nat) (D : Matrix) : Bool :=
  decide (addInt (T.weights v src next) (D next final) = D src final)

def isReal (v i j : Nat) : Bool :=
  decide (0 < T.weights v i j) && decide (T.weights v i j ≠ INFINITE_LATENCY)

/-- The links that `makeLink` makes from a switch, in order. -/
def outLinks (i : Nat) : List Link :=
  (List.range T.numSwitches).flatMap fun j =>
    if (List.range T.vnets).any fun v => T.isReal v i j then
      T.links.filter fun l => decide (l.src = i) && decide (l.dst = j)
    else []

/-- A routing table entry on a vnet: the nodes that it names for the link. -/
def routes (v : Nat) (D : Matrix) (l : Link) (node : Nat) : Bool :=
  l.supports v && T.isReal v l.src l.dst &&
    T.linkIsShortestPathToNode v l.src l.dst (T.nodes + node) D

/-- The link that a node's network interface uses for a vnet. -/
def getOutportForVnet (node v : Nat) : Option Link :=
  (T.outLinks node).find? fun l => l.supports v

/-- `lookupRoutingTable` at a switch for one destination; `none` is the fatal error.
`random` is the number drawn on vnets that are not ordered. -/
def lookupRoutingTable (v : Nat) (D : Matrix) (ordered : Bool) (random router node : Nat) :
    Option Link :=
  let table := T.outLinks router
  let minWeight := table.foldl
    (fun m l => if T.routes v D l node && decide (l.weight ≤ m) then l.weight else m)
    INFINITE_LATENCY
  let candidates := table.filter fun l => T.routes v D l node && decide (l.weight = minWeight)
  candidates[if ordered then 0 else random % candidates.length]?

/-! ### What they are for -/

/-- A link of the vnet from one switch to another. -/
def Edge (v i j w : Nat) : Prop := ∃ l ∈ T.links, isLink v i j l ∧ l.weight = w

/-- Whatever the lookups return, a packet for the node gets from a switch to the
node's external link over links of this weight in all, with the distance that is
left going down at each of them. -/
inductive Delivers (v : Nat) (D : Matrix) (ordered : Bool) (node : Nat) : Nat → Nat → Prop
  | arrived : Delivers v D ordered node (T.nodes + node) 0
  | hop {r d : Nat} (router : 2 * T.nodes ≤ r) (next : Nat → Link)
      (found : ∀ random, T.lookupRoutingTable v D ordered random r node = some (next random))
      (left : ∀ random, D r (T.nodes + node) = d ∧
        D (next random).dst (T.nodes + node) + (next random).weight = d ∧ 0 < (next random).weight)
      (rest : ∀ random, Delivers v D ordered node (next random).dst (d - (next random).weight)) :
      Delivers v D ordered node r d

end Topology

/-! ### The matrix of distances -/

namespace Topology

variable {T : Topology} {v : Nat}

variable {l : Link}

theorem isLink_iff {i j : Nat} : isLink v i j l ↔ l.src = i ∧ l.dst = j ∧ l.supports v := by
  simp [isLink, and_assoc]

theorem lt_numSwitches (mem : l ∈ T.links) : l.src < T.numSwitches ∧ l.dst < T.numSwitches := by
  have bound (ls : List Link) (m : Nat) :
      m ≤ ls.foldl (fun m l => max m (max l.src l.dst)) m ∧
      ∀ l ∈ ls, max l.src l.dst ≤ ls.foldl (fun m l => max m (max l.src l.dst)) m := by
    induction ls generalizing m with
    | nil => simp
    | cons first ls ih =>
      obtain ⟨le, all⟩ := ih (max m (max first.src first.dst))
      refine ⟨(le_max_left _ _).trans le, fun l mem => ?_⟩
      obtain rfl | mem := List.mem_cons.mp mem
      · exact (le_max_right _ _).trans le
      · exact all l mem
  have le := (bound T.links 0).2 l mem
  exact ⟨Nat.lt_succ_of_le ((le_max_left _ _).trans le), Nat.lt_succ_of_le ((le_max_right _ _).trans le)⟩

/-- Two links of one pair and one vnet are the same. -/
theorem isLink_unique (hv : v < T.vnets) {i j : Nat} {a b : Link} (ha : a ∈ T.links)
    (hb : b ∈ T.links) (la : isLink v i j a) (lb : isLink v i j b) : a = b := by
  obtain ⟨rfl, rfl, sa⟩ := isLink_iff.mp la
  obtain ⟨src, dst, sb⟩ := isLink_iff.mp lb
  have symm : Std.Symm fun a b : Link => a.src = b.src → a.dst = b.dst →
      ∀ v < T.vnets, ¬(a.supports v ∧ b.supports v) :=
    ⟨fun x y h src dst w hw both => h src.symm dst.symm w hw both.symm⟩
  by_contra ne
  exact T.distinct.forall ha hb ne src.symm dst.symm v hv ⟨sa, sb⟩

theorem weights_of_isLink (hv : v < T.vnets) (mem : l ∈ T.links) (sup : l.supports v) :
    T.weights v l.src l.dst = l.weight := by
  have is : isLink v l.src l.dst l := isLink_iff.mpr ⟨rfl, rfl, sup⟩
  unfold weights
  split
  next found eq =>
    rw [isLink_unique hv mem (List.mem_of_find?_eq_some eq) is (List.find?_some eq)]
  next none_ =>
    rw [List.find?_eq_none] at none_
    exact absurd is (none_ l mem)

theorem sound_weights : Sound (T.Edge v) INFINITE_LATENCY (T.weights v) := by
  constructor
  · intro i j
    unfold weights
    split
    next => exact Int.natCast_nonneg _
    next => split <;> simp
  · intro i j small
    unfold weights at small ⊢
    split at small
    next l eq =>
      have edge : T.Edge v i j l.weight :=
        ⟨l, List.mem_of_find?_eq_some eq, List.find?_some eq, rfl⟩
      exact ⟨l.weight, .single edge, rfl⟩
    next =>
      split at small
      next same =>
        subst same
        exact ⟨0, .nil i, by simp⟩
      next => exact absurd small (lt_irrefl _)

/-- What every pass keeps: entries are distances or too large, sums of two do not
overflow, and none is above the weight of a link. -/
structure Kept (T : Topology) (v : Nat) (D : Matrix) : Prop where
  sound : Sound (T.Edge v) INFINITE_LATENCY D
  light : ∀ i j, D i j < 2 ^ 30
  below : ∀ i j, D i j ≤ T.weights v i j

theorem kept_weights (light : ∀ l ∈ T.links, l.weight < 2 ^ 30) : T.Kept v (T.weights v) := by
  refine ⟨sound_weights, fun i j => ?_, fun i j => le_rfl⟩
  unfold weights
  split
  next l eq => exact_mod_cast light l (List.mem_of_find?_eq_some eq)
  next => split <;> simp [INFINITE_LATENCY]

variable {D : Matrix}

theorem Kept.addInt (h : T.Kept v D) (i j k l : Nat) : addInt (D i j) (D k l) = D i j + D k l := by
  have := h.light i j
  have := h.light k l
  have := h.sound.nonneg i j
  have := h.sound.nonneg k l
  exact Int.bmod_eq_of_le (by omega) (by omega)

theorem Kept.minimum_spec (h : T.Kept v D) (n i j : Nat) :
    minimum n D i j ≤ D i j ∧ (∀ k < n, minimum n D i j ≤ D i k + D k j) ∧
      (minimum n D i j = D i j ∨ ∃ k, minimum n D i j = D i k + D k j) := by
  obtain ⟨le, all, eq⟩ :=
    foldl_min_spec (fun k => Garnet.addInt (D i k) (D k j)) (List.range n) (D i j)
  refine ⟨le, fun k hk => ?_, ?_⟩
  · rw [← h.addInt]
    exact all k (List.mem_range.mpr hk)
  · obtain eq | ⟨k, -, eq⟩ := eq
    · exact .inl eq
    · exact .inr ⟨k, eq.trans (h.addInt i k k j)⟩

/-- An entry that changes gets smaller. -/
theorem Kept.improve (h : T.Kept v D) {n i j : Nat} (ne : D i j ≠ minimum n D i j) :
    T.Kept v (Distance.set D i j (minimum n D i j)) ∧ 0 ≤ minimum n D i j ∧
      minimum n D i j < D i j := by
  obtain ⟨le, -, same | ⟨k, eq⟩⟩ := h.minimum_spec n i j
  · exact absurd same.symm ne
  · have less := lt_of_le_of_ne le (Ne.symm ne)
    have smaller (a b : Nat) : Distance.set D i j (minimum n D i j) a b ≤ D a b := by
      unfold Distance.set
      split
      next same =>
        obtain ⟨rfl, rfl⟩ := same
        exact le
      next => exact le_rfl
    refine ⟨⟨?_, fun a b => (smaller a b).trans_lt (h.light a b),
      fun a b => (smaller a b).trans (h.below a b)⟩, ?_, less⟩
    · rw [eq]
      exact h.sound.set
    · rw [eq]
      exact Int.add_nonneg (h.sound.nonneg i k) (h.sound.nonneg k j)

/-- The pairs of switches. -/
def pairs (n : Nat) : Finset (Nat × Nat) := Finset.range n ×ˢ Finset.range n

/-- A part of a pass: it changes nothing, or what is left to improve gets less. -/
theorem Kept.extend (h : T.Kept v D) {n : Nat} (ps : List (Nat × Nat))
    (inside : ∀ p ∈ ps, p ∈ pairs n) (change : Bool) :
    let r := ps.foldl (extendEntry n) (D, change)
    T.Kept v r.1 ∧ total (pairs n) r.1 ≤ total (pairs n) D ∧
    (r.2 = true → change = true ∨ total (pairs n) r.1 < total (pairs n) D) ∧
    (r.2 = false → r.1 = D ∧ ∀ p ∈ ps, D p.1 p.2 = minimum n D p.1 p.2) := by
  induction ps generalizing D change with
  | nil => simp [h]
  | cons p ps ih =>
    have rest := fun q mem => inside q (List.mem_cons_of_mem p mem)
    by_cases ne : D p.1 p.2 ≠ minimum n D p.1 p.2
    · obtain ⟨kept, nonneg, less⟩ := h.improve ne
      have down := total_set_lt (inside p List.mem_cons_self) nonneg less
      obtain ⟨kept', le, -, same⟩ := ih kept rest true
      simp only [List.foldl_cons, extendEntry, if_pos ne]
      refine ⟨kept', le.trans down.le, fun _ => .inr (le.trans_lt down), fun unchanged => ?_⟩
      have changed : (ps.foldl (extendEntry n)
          (Distance.set D p.1 p.2 (minimum n D p.1 p.2), true)).2 = true := by
        clear * -
        generalize Distance.set D p.1 p.2 (minimum n D p.1 p.2) = E
        induction ps generalizing E with
        | nil => rfl
        | cons q ps ih =>
          rw [List.foldl_cons, extendEntry]
          split
          · exact ih _
          · exact ih _
      rw [changed] at unchanged
      cases unchanged
    · obtain ⟨kept', le, changed, same⟩ := ih h rest change
      simp only [List.foldl_cons, extendEntry, if_neg ne]
      refine ⟨kept', le, changed, fun unchanged => ⟨(same unchanged).1, fun q mem => ?_⟩⟩
      obtain rfl | mem := List.mem_cons.mp mem
      · exact not_not.mp ne
      · exact (same unchanged).2 q mem

/-- The loop ends, with a matrix that cannot be improved. -/
theorem Kept.extendShortestPath (h : T.Kept v D) (n : Nat) :
    ∃ E, T.Kept v E ∧ Closed (· < n) E ∧
      ∀ passes, total (pairs n) D < passes → Garnet.extendShortestPath n passes D = some E := by
  generalize size : total (pairs n) D = m
  induction m using Nat.strongRecOn generalizing D with
  | ind m ih =>
    have inside : ∀ p ∈ (List.range n).product (List.range n), p ∈ pairs n := by
      rintro ⟨i, j⟩ mem
      obtain ⟨hi, hj⟩ := List.mem_product.mp mem
      exact Finset.mem_product.mpr
        ⟨Finset.mem_range.mpr (List.mem_range.mp hi), Finset.mem_range.mpr (List.mem_range.mp hj)⟩
    obtain ⟨kept, -, changed, same⟩ := h.extend _ inside false
    cases again : (extendPass n D).2 with
    | true =>
      obtain no | less := changed again
      · cases no
      · obtain ⟨E, keptE, closed, ends⟩ := ih _ (size ▸ less) kept rfl
        refine ⟨E, keptE, closed, fun passes enough => ?_⟩
        obtain ⟨passes, rfl⟩ := Nat.exists_eq_succ_of_ne_zero (Nat.ne_zero_of_lt enough)
        rw [Garnet.extendShortestPath, if_pos again]
        apply ends
        rw [size] at less
        exact Nat.lt_of_lt_of_le less (Nat.le_of_lt_succ enough)
    | false =>
      obtain ⟨eq, fixed⟩ := same again
      refine ⟨D, h, ?_, fun passes enough => ?_⟩
      · intro i j k hi hj hk
        have mem : (i, j) ∈ (List.range n).product (List.range n) :=
          List.mem_product.mpr ⟨List.mem_range.mpr hi, List.mem_range.mpr hj⟩
        rw [fixed _ mem]
        exact (h.minimum_spec n i j).2.1 k hk
      · obtain ⟨passes, rfl⟩ := Nat.exists_eq_succ_of_ne_zero (Nat.ne_zero_of_lt enough)
        rw [Garnet.extendShortestPath, if_neg (by simp [again])]
        exact congrArg some eq

/-! ### Lookups -/

/-- Links come from nodes as sources or from routers, and lead to nodes as
destinations or to routers, from a node to a router. -/
theorem ends_of_mem (mem : l ∈ T.links) :
    (l.src < T.nodes ∧ 2 * T.nodes ≤ l.dst) ∨ (2 * T.nodes ≤ l.src ∧ T.nodes ≤ l.dst) := by
  obtain mem | mem := List.mem_append.mp mem
  · obtain ⟨e, he, mem⟩ := List.mem_flatMap.mp mem
    have lt := T.node_lt e he
    obtain rfl | mem := List.mem_cons.mp mem
    · exact .inl ⟨lt, Nat.le_add_right _ _⟩
    · obtain rfl := List.mem_singleton.mp mem
      exact .inr ⟨Nat.le_add_right _ _, Nat.le_add_right _ _⟩
  · obtain ⟨e, -, rfl⟩ := List.mem_map.mp mem
    exact .inr ⟨Nat.le_add_right _ _, by simp only; omega⟩

variable {r : Nat}

theorem mem_outLinks :
    l ∈ T.outLinks r ↔ l ∈ T.links ∧ l.src = r ∧ ∃ u < T.vnets, T.isReal u r l.dst := by
  simp only [outLinks, List.mem_flatMap, List.mem_range]
  constructor
  · rintro ⟨j, hj, mem⟩
    split at mem
    next real =>
      simp only [List.mem_filter, Bool.and_eq_true, decide_eq_true_eq] at mem
      obtain ⟨mem, rfl, rfl⟩ := mem
      obtain ⟨u, hu, real⟩ := List.any_eq_true.mp real
      exact ⟨mem, rfl, u, List.mem_range.mp hu, real⟩
    next => cases mem
  · rintro ⟨mem, rfl, u, hu, real⟩
    refine ⟨l.dst, (lt_numSwitches mem).2, ?_⟩
    rw [if_pos (List.any_eq_true.mpr ⟨u, List.mem_range.mpr hu, real⟩)]
    simp [mem]

/-- The least weight of the links that are asked for, if it is below the start. -/
theorem foldl_least (ls : List Link) (P : Link → Bool) (a : Nat) :
    let m := ls.foldl (fun m l => if P l && decide (l.weight ≤ m) then l.weight else m) a
    (∀ l ∈ ls, P l → m ≤ l.weight) ∧ m ≤ a ∧ (m = a ∨ ∃ l ∈ ls, P l ∧ l.weight = m) := by
  induction ls generalizing a with
  | nil => simp
  | cons first ls ih =>
    rw [List.foldl_cons]
    obtain ⟨all, le, eq⟩ := ih (if P first && decide (first.weight ≤ a) then first.weight else a)
    split at le
    next takes =>
      rw [if_pos takes] at all eq ⊢
      simp only [Bool.and_eq_true, decide_eq_true_eq] at takes
      refine ⟨fun l mem asked => ?_, le.trans takes.2, ?_⟩
      · obtain rfl | mem := List.mem_cons.mp mem
        · exact le
        · exact all l mem asked
      · obtain eq | ⟨l, mem, found⟩ := eq
        · exact .inr ⟨first, List.mem_cons_self, takes.1, eq.symm⟩
        · exact .inr ⟨l, List.mem_cons_of_mem _ mem, found⟩
    next skips =>
      rw [if_neg skips] at all eq ⊢
      simp only [Bool.and_eq_true, decide_eq_true_eq, not_and, Nat.not_le] at skips
      refine ⟨fun l mem asked => ?_, le, ?_⟩
      · obtain rfl | mem := List.mem_cons.mp mem
        · exact le.trans (skips asked).le
        · exact all l mem asked
      · obtain eq | ⟨l, mem, found⟩ := eq
        · exact .inl eq
        · exact .inr ⟨l, List.mem_cons_of_mem _ mem, found⟩

/-- If a link names the node, a lookup returns one that does. -/
theorem lookupRoutingTable_eq {node : Nat} (mem : l ∈ T.outLinks r) (routes : T.routes v D l node)
    (small : l.weight < INFINITE_LATENCY) (ordered : Bool) (random : Nat) :
    ∃ found, T.lookupRoutingTable v D ordered random r node = some found ∧
      found ∈ T.outLinks r ∧ T.routes v D found node := by
  obtain ⟨least, -, eq⟩ := foldl_least (T.outLinks r) (fun l => T.routes v D l node) INFINITE_LATENCY
  simp only [lookupRoutingTable]
  generalize (T.outLinks r).foldl (fun m l => if T.routes v D l node && decide (l.weight ≤ m) then
    l.weight else m) INFINITE_LATENCY = m at least eq ⊢
  have below := least l mem routes
  obtain rfl | ⟨best, hbest, named, weight⟩ := eq
  · omega
  have candidate : best ∈ (T.outLinks r).filter fun l =>
      T.routes v D l node && decide (l.weight = m) := by
    simp [hbest, named, weight]
  have len := List.length_pos_of_mem candidate
  have inside : (if ordered then 0 else random % ((T.outLinks r).filter fun l =>
      T.routes v D l node && decide (l.weight = m)).length) <
      ((T.outLinks r).filter fun l => T.routes v D l node && decide (l.weight = m)).length := by
    split
    · exact len
    · exact Nat.mod_lt _ len
  refine ⟨_, List.getElem?_eq_getElem inside, ?_⟩
  have found := List.mem_filter.mp (List.getElem_mem inside)
  exact ⟨found.1, (Bool.and_eq_true_iff.mp found.2).1⟩

section
variable (kept : T.Kept v D) (closed : Closed (· < T.numSwitches) D)
  (light : ∀ l ∈ T.links, l.weight < 2 ^ 30) (hv : v < T.vnets) {node : Nat} (hn : node < T.nodes)

include kept hv in
theorem Kept.direct : Direct (· < T.numSwitches) (T.Edge v) D := by
  rintro i j w ⟨l, mem, is, rfl⟩
  obtain ⟨rfl, rfl, sup⟩ := isLink_iff.mp is
  obtain ⟨hi, hj⟩ := lt_numSwitches mem
  exact ⟨hi, hj, (kept.below _ _).trans (weights_of_isLink hv mem sup).le⟩

include kept hn in
/-- No link leaves a destination. -/
theorem Kept.zero : D (T.nodes + node) (T.nodes + node) = 0 := by
  have none_ : T.links.find? (isLink v (T.nodes + node) (T.nodes + node)) = none := by
    rw [List.find?_eq_none]
    intro l mem is
    have src := (isLink_iff.mp is).1
    have := ends_of_mem mem
    omega
  have weights : T.weights v (T.nodes + node) (T.nodes + node) = 0 := by
    simp [Topology.weights, none_]
  have below := kept.below (T.nodes + node) (T.nodes + node)
  have nonneg := kept.sound.nonneg (T.nodes + node) (T.nodes + node)
  omega

include kept light hv in
/-- A link that names a node is the first of a shortest path to it. -/
theorem Kept.of_routes (mem : l ∈ T.outLinks r) (routes : T.routes v D l node) :
    l.weight + D l.dst (T.nodes + node) = D r (T.nodes + node) ∧ 0 < l.weight ∧
      T.Edge v r l.dst l.weight := by
  obtain ⟨here, rfl, -⟩ := mem_outLinks.mp mem
  simp only [Topology.routes, Bool.and_eq_true] at routes
  obtain ⟨⟨sup, -⟩, shortest⟩ := routes
  have sum := of_decide_eq_true shortest
  have weight := light l here
  have rest := kept.light l.dst (T.nodes + node)
  have nonneg := kept.sound.nonneg l.dst (T.nodes + node)
  rw [weights_of_isLink hv here sup, Garnet.addInt, Int.bmod_eq_of_le (by omega) (by omega)] at sum
  exact ⟨sum, (T.weight l here).1, l, here, isLink_iff.mpr ⟨rfl, rfl, sup⟩, rfl⟩

include kept closed light hv hn in
/-- A switch that has a path to a node has a link that names it. -/
theorem Kept.exists_routes (ne : r ≠ T.nodes + node)
    (small : D r (T.nodes + node) < INFINITE_LATENCY) :
    ∃ l ∈ T.outLinks r, T.routes v D l node ∧ l.weight < INFINITE_LATENCY := by
  obtain ⟨j, w, ⟨l, mem, is, rfl⟩, eq⟩ :=
    exists_next kept.sound closed (kept.direct hv) (kept.zero hn) ne small
  obtain ⟨rfl, rfl, sup⟩ := isLink_iff.mp is
  have weight := T.weight l mem
  have lightl := light l mem
  have nonneg := kept.sound.nonneg l.dst (T.nodes + node)
  have same := weights_of_isLink hv mem sup
  have real : T.isReal v l.src l.dst := by
    simp only [isReal, same, Bool.and_eq_true, decide_eq_true_eq]
    omega
  have rest := kept.light l.dst (T.nodes + node)
  have shortest : T.linkIsShortestPathToNode v l.src l.dst (T.nodes + node) D := by
    rw [linkIsShortestPathToNode, same, Garnet.addInt, Int.bmod_eq_of_le (by omega) (by omega)]
    exact decide_eq_true eq
  refine ⟨l, mem_outLinks.mpr ⟨mem, rfl, v, hv, real⟩, ?_, by omega⟩
  simp [Topology.routes, sup, real, shortest]

include kept closed light hv hn in
theorem Kept.delivers (ordered : Bool) (d : Nat) (router : 2 * T.nodes ≤ r)
    (dist : D r (T.nodes + node) = d) (small : d < INFINITE_LATENCY) :
    T.Delivers v D ordered node r d := by
  induction d using Nat.strongRecOn generalizing r with
  | ind d ih =>
    obtain ⟨l, mem, named, weight⟩ :=
      kept.exists_routes closed light hv hn (r := r) (by omega) (by rw [dist]; exact_mod_cast small)
    choose next found out routes using lookupRoutingTable_eq mem named weight ordered
    refine .hop router next found (fun random => ?_) fun random => ?_
    · obtain ⟨sum, pos, -⟩ := kept.of_routes light hv (out random) (routes random)
      exact ⟨dist, by omega, pos⟩
    · obtain ⟨sum, pos, edge⟩ := kept.of_routes light hv (out random) (routes random)
      by_cases last : (next random).dst = T.nodes + node
      · have none_ : d - (next random).weight = 0 := by
          rw [last, kept.zero hn] at sum
          omega
        rw [last, none_]
        exact .arrived
      · have left : D (next random).dst (T.nodes + node) = (d - (next random).weight : Nat) := by
          have := kept.sound.nonneg (next random).dst (T.nodes + node)
          omega
        refine ih _ (by omega) ?_ left (by omega)
        -- a node as a destination has no links, so this is a router
        obtain ⟨m, memm, -⟩ := kept.exists_routes closed light hv hn last
          (by rw [left]; exact_mod_cast (by omega : d - (next random).weight < INFINITE_LATENCY))
        obtain ⟨there, from_, -⟩ := mem_outLinks.mp memm
        have := ends_of_mem (mem_outLinks.mp (out random)).1
        have := ends_of_mem there
        omega

end

/-- The node has one link for the vnet, if any. -/
def SingleHomed (T : Topology) (v source : Nat) : Prop :=
  ∀ a ∈ T.links, ∀ b ∈ T.links, a.src = source → b.src = source → a.supports v → b.supports v →
    a = b

instance (T : Topology) (v source : Nat) : Decidable (T.SingleHomed v source) :=
  inferInstanceAs (Decidable (∀ a ∈ T.links, ∀ b ∈ T.links, a.src = source → b.src = source →
    a.supports v → b.supports v → a = b))

/-- Two nodes on one router, and a link from there to another router. -/
def withLink (weight : Nat) (pos : 0 < weight ∧ weight < 2 ^ 31) : Topology where
  nodes := 2
  vnets := 1
  extLinks := [⟨0, 0, 1, []⟩, ⟨1, 0, 1, []⟩]
  intLinks := [⟨0, 1, weight, []⟩]
  node_lt := by decide
  weight := by
    simp only [addLinks, List.mem_append]
    rintro l (mem | mem)
    · revert l
      decide
    · obtain rfl : l = ⟨4, 5, weight, []⟩ := by simpa using mem
      exact pos
  distinct := by simp [addLinks]

/-- The path over the router is the shortest from node 0 to node 1. -/
theorem isLeast_withLink {weight : Nat} (pos : 0 < weight ∧ weight < 2 ^ 31) :
    IsLeast {w | Path ((withLink weight pos).Edge 0) 0 3 w} 2 := by
  constructor
  · have first : (withLink weight pos).Edge 0 0 4 1 :=
      ⟨⟨0, 4, 1, []⟩, by simp [links, addLinks, withLink], rfl, rfl⟩
    have next : (withLink weight pos).Edge 0 4 3 1 :=
      ⟨⟨4, 3, 1, []⟩, by simp [links, addLinks, withLink], rfl, rfl⟩
    exact Path.cons first (.single next)
  · intro w path
    have bound := path.le_potential (f := fun i => if i < 2 then 2 else if i = 4 then 1 else 0) ?_
    · simpa using bound
    · rintro i j w ⟨l, mem, is, rfl⟩
      obtain ⟨rfl, rfl, -⟩ := isLink_iff.mp is
      simp only [links, addLinks, withLink, List.flatMap_cons, List.flatMap_nil, List.cons_append,
        List.nil_append, List.append_nil, List.map_cons, List.map_nil, List.mem_cons,
        List.not_mem_nil, or_false] at mem
      obtain rfl | rfl | rfl | rfl | rfl := mem <;> simp
      omega

/-- Node 0 has links to two routers, node 1 is on the second of them. -/
def twoHomed : Topology where
  nodes := 2
  vnets := 1
  extLinks := [⟨0, 0, 1, []⟩, ⟨0, 1, 1, []⟩, ⟨1, 1, 1, []⟩]
  intLinks := [⟨0, 1, 1, []⟩]
  node_lt := by decide
  weight := by decide
  distinct := by decide

/-- How far the switches of `twoHomed` are from node 1. -/
def toNodeOne (i : Nat) : Nat := if i = 3 then 0 else if i = 2 ∨ i = 5 then 1 else 2

theorem toNodeOne_le {i w : Nat} (path : Path (twoHomed.Edge 0) i 3 w) : toNodeOne i ≤ w := by
  have drops : ∀ l ∈ twoHomed.links, toNodeOne l.src ≤ l.weight + toNodeOne l.dst := by decide
  have bound := path.le_potential (f := toNodeOne) fun i j w edge => by
    obtain ⟨l, mem, is, rfl⟩ := edge
    obtain ⟨rfl, rfl, -⟩ := isLink_iff.mp is
    exact drops l mem
  simpa [toNodeOne] using bound

end Topology

end Garnet
