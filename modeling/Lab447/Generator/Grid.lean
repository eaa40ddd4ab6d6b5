import Lab447.Generator.Schedule
import Lab447.TrafficFile

/-!
The generator numbers the PEs along one row, `(0, 0), ..., (0, numPE - 1)`. The
simulator places them in a grid as wide as a tile. `HWParser.getPE` gives the
generator `numTiles * pePerTile` PEs, as many as `buildSystem.py` builds.
-/

namespace Generator

open Command TrafficFile

/-- With this hardware every generated source is a PE, so that reading the
traffic file finds all of them. -/
def SourcesExist (numTiles pePerTile : Nat) : Prop :=
  ∀ (g : TrafficGenerator) (kind : Kind) (heap : Heap), g.numPE = numTiles * pePerTile →
    (∀ t ∈ g.generated kind heap,
      coordinate t.src ∈ (build pePerTile (numTiles * pePerTile)).map PE.getCoordinate) ∧
    ∀ params, ∃ l, parseTraffic params ((g.generated kind heap).map toJson)
      (build pePerTile (numTiles * pePerTile)) = .ok l

/-- The first row of the grid holds `pePerTile` PEs. -/
theorem row_mem_build_iff {numTiles pePerTile : Nat} (tiles : 0 < numTiles) (i : Nat) :
    coordinate (0, i) ∈ (build pePerTile (numTiles * pePerTile)).map PE.getCoordinate ↔
      i < pePerTile := by
  rw [build_eq, List.map_map, List.mem_map]
  constructor
  · rintro ⟨j, hj, he⟩
    obtain ⟨hx, hy⟩ := coordinate_inj (a := j / pePerTile) (b := j % pePerTile) (c := 0) (d := i) he
    have pos : 0 < pePerTile := by
      have := List.mem_range.mp hj
      exact Nat.pos_of_ne_zero fun h => by simp [h] at this
    exact hy ▸ Nat.mod_lt _ pos
  · intro hi
    refine ⟨i, List.mem_range.mpr ?_, ?_⟩
    · exact lt_of_lt_of_le hi (Nat.le_mul_of_pos_left _ tiles)
    · simp [PE.getCoordinate, PE.place, Nat.div_eq_of_lt hi, Nat.mod_eq_of_lt hi]

/-- One round of an element-wise operator on `n` PEs. -/
def oneRound (n : Nat) : TrafficGenerator where
  numPE := n
  numSubgraph := n
  splitNode := ⟨.relu, [0], [1], [], []⟩
  strategy := ⟨[[1, n, 1, 1]], .other⟩

theorem keeps_source (g : TrafficGenerator) (i : Nat) :
    TrafficGenerator.Calls g fun s => mark .compute i ∈ s.trafficList := by
  have keep (type response size slot j) : Keeps (fun s => mark .compute i ∈ s.trafficList)
      (g.access type response size slot j) :=
    fun s hs => List.mem_append_left _ hs
  have pushed (t) : Keeps (fun s => mark .compute i ∈ s.trafficList) (push t) :=
    fun s hs => List.mem_append_left _ hs
  refine .of_access (fun type _ size slot j _ => keep _ _ _ _ _) (fun size slot => ?_)
    (fun k _ => .each fun j _ => pushed _)
  exact .cons (keep _ _ _ _ _) <| .cons (.each fun j _ => pushed _) .nil

/-- In that round every PE computes. -/
theorem mark_mem_oneRound {n i : Nat} (hi : i < n) (heap : Heap) :
    mark .compute i ∈ (oneRound n).generated .elementWise heap := by
  have calls := keeps_source (oneRound n) i
  have round : (oneRound n).round = 1 := by
    simp only [TrafficGenerator.round, oneRound]
    exact Nat.div_eq_of_lt_le (by omega) (by omega)
  have rest : (oneRound n).remainder = 0 := Nat.mod_self n
  rw [TrafficGenerator.generated, TrafficGenerator.generateTraffic,
    TrafficGenerator.generateTrafficElementWise, round, rest]
  refine calls.write n le_rfl .output _ ?_
  change mark .compute i ∈ (TrafficGenerator.compute n _).trafficList
  rw [TrafficGenerator.compute, trafficList_marks]
  exact List.mem_append_right _ (List.mem_map_of_mem (List.mem_range.mpr hi))

/-- The sources are PEs exactly when there is one tile: with more, the row of the
generator is longer than a row of the grid. -/
theorem sourcesExist_iff {numTiles pePerTile : Nat} (tiles : 0 < numTiles) (pes : 0 < pePerTile) :
    SourcesExist numTiles pePerTile ↔ numTiles = 1 := by
  constructor
  · intro h
    by_contra many
    have inside : pePerTile < numTiles * pePerTile := by
      have : 1 < numTiles := by omega
      exact (Nat.lt_mul_iff_one_lt_left pes).mpr this
    have known := (h (oneRound _) .elementWise (fun _ => ⟨[], 4, 0, 0⟩) rfl).1 _
      (mark_mem_oneRound inside _)
    exact absurd ((row_mem_build_iff tiles pePerTile).mp known) (lt_irrefl _)
  · rintro rfl g kind heap hn
    have known : ∀ t ∈ g.generated kind heap,
        coordinate t.src ∈ (build pePerTile (1 * pePerTile)).map PE.getCoordinate := by
      intro t ht
      have pos : 0 < g.numPE := by omega
      obtain ⟨i, hi, hs⟩ := (schedule_generated g pos kind heap).src pos ht
      rw [hs]
      exact (row_mem_build_iff Nat.one_pos i).mpr (by omega)
    exact ⟨known, fun params => parseTraffic_isOk known⟩

/-- Two tiles of one PE: the second source is `(0, 1)`, the second PE `(1, 0)`. -/
theorem second_tile_unknown :
    parseTraffic ⟨2 ^ 30, 0⟩
        (((oneRound 2).generated .elementWise fun _ => ⟨[], 4, 0, 8⟩).map toJson) (build 1 2) =
      .error (.unknownPe "0,1".toList) := by
  decide

theorem sourcesExist_one_tile : SourcesExist 1 16 := (sourcesExist_iff (by decide) (by decide)).mpr rfl

end Generator
