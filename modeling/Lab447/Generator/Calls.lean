import Lab447.Generator.Model

/-!
The generators change the state only through the helper functions. What the
helpers keep, for at most `numPE` PEs at a time, every generator keeps.
-/

namespace Generator

open Command

namespace TrafficGenerator

variable {g : TrafficGenerator} {P : State → Prop}

/-- The helper calls of the generators keep `P`. -/
structure Calls (g : TrafficGenerator) (P : State → Prop) : Prop where
  read : ∀ k ≤ g.numPE, ∀ slot, Keeps P (g.read k slot)
  write : ∀ k ≤ g.numPE, ∀ slot, Keeps P (g.write k slot)
  broadcast : ∀ slot, Keeps P (g.broadcast slot)
  compute : ∀ k ≤ g.numPE, Keeps P (compute k)

/-- Calls that keep `P` whatever size they are given. -/
theorem Calls.of_access
    (access : ∀ type ∈ [RequestType.read, .write], ∀ size slot, ∀ i < g.numPE,
      Keeps P (g.access type .unicast size slot i))
    (broadcastRead : ∀ size slot, Keeps P (g.broadcastRead size slot))
    (compute : ∀ k ≤ g.numPE, Keeps P (TrafficGenerator.compute k)) : Calls g P := by
  have unicast (type) (ht : type ∈ [RequestType.read, .write]) (k) (hk : k ≤ g.numPE) (size slot) :
      Keeps P (g.unicast type k size slot) :=
    .each fun i hi => access type ht size slot i (lt_of_lt_of_le (List.mem_range.mp hi) hk)
  constructor
  · exact fun k hk slot s hs => unicast .read (by decide) k hk _ slot s hs
  · exact fun k hk slot s hs => unicast .write (by decide) k hk _ slot s hs
  · exact fun slot s hs => broadcastRead _ slot s hs
  · exact compute

section

variable (h : Calls g P) (pos : 0 < g.numPE)

include h

theorem Calls.weightTile : Keeps P g.weightTile :=
  .cons (h.read _ le_rfl _) <| .cons
    (.times _ <| .cons (h.broadcast _) <| .cons (h.compute _ le_rfl) <|
      .cons (h.write _ le_rfl _) .nil)
    .nil

theorem Calls.batchnormTiles {k : Nat} (hk : k ≤ g.numPE) : Keeps P (g.batchnormTiles k) :=
  .cons (h.read _ hk _) <| .cons (h.compute _ hk) <| .cons (h.write _ hk _) .nil

theorem Calls.readBatchnormWeight : Keeps P g.readBatchnormWeight :=
  .each fun _ _ => h.read _ le_rfl _

theorem Calls.convWeightStationary : Keeps P g.generateTrafficConvWeightStationary :=
  .times _ <| .cons (.onlyIf _ fun _ => h.read _ le_rfl _) <| .cons (.times _ h.weightTile) .nil

theorem Calls.convWeightReduction : Keeps P g.generateTrafficConvWeightReduction :=
  .cons (.onlyIf _ fun _ => h.broadcast _) <| .cons (.times _ <| .times _ h.weightTile) .nil

theorem Calls.convBatchnormWeight : Keeps P g.generateTrafficConvBatchnormWeight :=
  .times _ <| .cons (.onlyIf _ fun _ => h.read _ le_rfl _) <|
    .cons h.readBatchnormWeight <| .cons (.times _ h.weightTile) .nil

include pos

theorem Calls.elementWise : Keeps P g.generateTrafficElementWise := by
  have part : g.remainder ≤ g.numPE := (Nat.mod_lt _ pos).le
  exact .cons
    (.times _ <| .cons (.each fun _ _ => h.read _ le_rfl _) <| .cons (h.compute _ le_rfl) <|
      .cons (h.write _ le_rfl _) .nil) <| .cons
    (.onlyIf _ fun _ => .cons (.each fun _ _ => h.read _ le_rfl _) <|
      .cons (h.compute _ part) <| .cons (h.write _ part _) .nil)
    .nil

theorem Calls.convOutputStationary : Keeps P g.generateTrafficConvOutputStationary := by
  have part : g.inputRemainder ≤ g.numPE := (Nat.mod_lt _ pos).le
  exact .cons
    (.times _ <| .cons
      (.times _ <| .cons (h.read _ le_rfl _) <| .cons
        (.times _ <| .cons (h.broadcast _) <| .cons (.onlyIf _ fun _ => h.read _ le_rfl _) <|
          .cons (h.compute _ le_rfl) .nil)
        .nil) <| .cons
      (.onlyIf _ fun _ => .cons (h.read _ part _) <|
        .cons (.onlyIf _ fun _ => h.read _ part _) <| .cons
        (.times _ <| .cons (h.broadcast _) <| .cons (.onlyIf _ fun _ => h.read _ le_rfl _) <|
          .cons (h.compute _ part) .nil)
        .nil)
      .nil) <|
    .cons (h.write _ le_rfl _) .nil

theorem Calls.batchnorm : Keeps P g.generateTrafficBatchnorm := by
  have part (m : Nat) : m % g.numPE ≤ g.numPE := (Nat.mod_lt _ pos).le
  have parameters : Keeps P (each g.parameters fun j => g.broadcast (.input j)) :=
    .each fun _ _ => h.broadcast _
  unfold generateTrafficBatchnorm
  split
  · exact .cons
      (.times _ <| .cons (h.read _ le_rfl _) <| .cons (.each fun _ _ => h.read _ le_rfl _) <|
        .cons (h.compute _ le_rfl) <| .cons (h.write _ le_rfl _) .nil) <| .cons
      (.onlyIf _ fun _ => .cons (h.read _ (part _) _) <| .cons parameters <|
        .cons (h.compute _ (part _)) <| .cons (h.write _ (part _) _) .nil)
      .nil
  split
  · exact .times _ <| .cons parameters <| .cons (.times _ <| h.batchnormTiles le_rfl) <|
      .cons (.onlyIf _ fun _ => h.batchnormTiles (part _)) .nil
  split
  · exact .cons parameters <| .cons (.times _ <| h.batchnormTiles le_rfl) <| .cons
      (.onlyIf _ fun _ => .cons (h.read _ le_rfl _) <| .cons (h.compute _ (part _)) <|
        .cons (h.write _ (part _) _) .nil)
      .nil
  · exact fun _ hs => hs

theorem Calls.convBatchnormOutput : Keeps P g.generateTrafficConvBatchnormOutput := by
  have part : g.inputRemainder ≤ g.numPE := (Nat.mod_lt _ pos).le
  exact .cons
    (.times _ <| .cons
      (.times _ <| .cons (h.read _ le_rfl _) <| .cons
        (.times _ <| .cons (h.broadcast _) <| .cons (.onlyIf _ fun _ => h.read _ le_rfl _) <|
          .cons h.readBatchnormWeight <| .cons (h.compute _ le_rfl) .nil)
        .nil) <| .cons
      (.onlyIf _ fun _ => .cons (h.read _ part _) <|
        .cons (.onlyIf _ fun _ => h.read _ le_rfl _) <| .cons
        (.times _ <| .cons (h.broadcast _) <| .cons (.onlyIf _ fun _ => h.read _ le_rfl _) <|
          .cons h.readBatchnormWeight <| .cons (h.compute _ part) .nil)
        .nil)
      .nil) <|
    .cons (h.write _ le_rfl _) .nil

theorem Calls.convOutputReduction
    (broadcastRead : Keeps P (g.broadcastRead (g.originalInputSize 2) (.input 2))) :
    Keeps P g.generateTrafficConvOutputReduction := by
  have part : g.inputRemainder ≤ g.numPE := (Nat.mod_lt _ pos).le
  exact .cons (.onlyIf _ fun _ => broadcastRead) <| .cons
    (.times _ <| .cons
      (.times _ <| .cons (h.read _ le_rfl _) <| .cons
        (.times _ <| .cons (h.broadcast _) <| .cons (h.compute _ le_rfl) .nil)
        .nil) <| .cons
      (.onlyIf _ fun _ => .cons (h.read _ part _) <|
        .cons (.onlyIf _ fun _ => h.read _ part _) <| .cons
        (.times _ <| .cons (h.broadcast _) <| .cons (h.compute _ part) .nil)
        .nil)
      .nil) <|
    .cons (h.write _ le_rfl _) .nil

theorem Calls.batchnormReduction
    (broadcastRead : ∀ j, Keeps P (g.broadcastRead (g.originalInputSize j) (.input j))) :
    Keeps P g.generateTrafficBatchnormReduction :=
  .cons (.each fun _ _ => broadcastRead _) <|
    .cons (.times _ <| h.batchnormTiles le_rfl) <|
    .cons (.onlyIf _ fun _ => h.batchnormTiles (Nat.mod_lt _ pos).le) .nil

/-- A property that the helper calls keep is kept by every generator. Only the
reductions broadcast with a size other than that of the tile. -/
theorem Calls.generateTraffic (kind : Kind)
    (broadcastRead : kind = .convOutputReduction ∨ kind = .batchnormReduction →
      ∀ j, Keeps P (g.broadcastRead (g.originalInputSize j) (.input j))) :
    Keeps P (g.generateTraffic kind) := by
  cases kind with
  | elementWise => exact h.elementWise pos
  | convWeightStationary => exact h.convWeightStationary
  | convOutputStationary => exact h.convOutputStationary pos
  | batchnorm => exact h.batchnorm pos
  | convWeightReduction => exact h.convWeightReduction
  | convOutputReduction => exact h.convOutputReduction pos (broadcastRead (.inl rfl) 2)
  | batchnormReduction => exact h.batchnormReduction pos (broadcastRead (.inr rfl))
  | convBatchnormWeight => exact h.convBatchnormWeight
  | convBatchnormOutput => exact h.convBatchnormOutput pos

end

end TrafficGenerator

end Generator
