import PinpointAgent.Framework.Word

/-!
# The state of a process

`ProcessState` of `Cache/State.cpp`: the start time that goes into transaction identifiers, the
counter behind `generate_unique_id`, and the per-second count behind `check_trace_limit`. The
clock is an argument of the functions that read it.
-/

namespace PinpointAgent.Cache

open Framework

structure ProcessState where
  tick : Int
  timestamp : Int
  /-- a `uint64_t`; the unix time in milliseconds until a hello message brings another one -/
  startTime : Nat
  traceLimit : Int
  /-- an `int64_t` -/
  uuid : Int
  ready : Bool
deriving DecidableEq, Repr

namespace ProcessState

def new (traceLimit : Int) (unixTimeMs : Nat) : ProcessState :=
  ⟨0, 0, unixTimeMs, traceLimit, 0, false⟩

def getUniqueId (s : ProcessState) : Int × ProcessState :=
  (s.uuid, { s with uuid := toSigned 64 (s.uuid + 1) })

def setStartTime (startTime : Nat) (s : ProcessState) : ProcessState :=
  if s.ready then s else { s with startTime, ready := true }

def pinpointStartTime (unixTimeMs : Nat) (s : ProcessState) : Nat :=
  if s.startTime ≠ 0 then s.startTime else unixTimeMs

/-- Whether the trace is to be dropped; `time` is the reading of the clock in seconds. -/
def checkTraceLimit (timestamp time : Int) (s : ProcessState) : Bool × ProcessState :=
  let now := if timestamp ≠ -1 then timestamp else time
  if s.traceLimit = -1 then (false, s)
  else if s.traceLimit = 0 then (true, s)
  else if s.timestamp ≠ now then
    (false, { s with timestamp := now, tick := 1 })
  else if s.tick ≥ s.traceLimit then (true, s)
  else (false, { s with tick := s.tick + 1 })

end ProcessState

end PinpointAgent.Cache
