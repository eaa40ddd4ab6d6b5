import Mathlib.Init

/-!
Traffic entries: the commands of a processing element. The generator
(`traffic_generator/traffic.hpp`) and the simulated PEs
(`gem5/src/lab447/traffic_pattern.hh`) declare the same record.
-/

/-- `RequestType` of the generator, `TrafficRequestType` of the simulator. -/
inductive RequestType where
  | read
  | write
  | compute
  | sync
  deriving DecidableEq, Repr

inductive TrafficType where
  | unicast
  | multicast
  | broadcast
  deriving DecidableEq, Repr

structure Traffic where
  type : RequestType
  src : Int × Int
  dest : Int × Int
  addr : Nat
  size : Nat
  request : TrafficType
  response : TrafficType
  deriving DecidableEq, Repr

namespace Traffic

/-- Reads and writes, which access memory. -/
def isAccess (t : Traffic) : Bool := t.type = .read ∨ t.type = .write

/-- A read whose response goes to every PE. -/
def isBroadcast (t : Traffic) : Bool := t.type = .read ∧ t.response = .broadcast

/-- The entries at which a PE waits for all the others: the broadcast of one PE
and the `SYNC`s of the rest. -/
def isBarrier (t : Traffic) : Bool := t.type = .sync || t.isBroadcast

end Traffic
