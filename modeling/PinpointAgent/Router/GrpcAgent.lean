import PinpointAgent.Framework.Word
/-!
# Spans and the agents that consume them

The collector side keeps one `GrpcAgent` per application id. An agent owns a queue of decoded
spans, a consumer goroutine that runs every span through the filter chain, and a
`RequestCounter`, the first filter of the chain, whose clock reading is the agent's busy time.
-/

namespace PinpointAgent.Router

open Framework

structure TAsyncId where
  asyncId : Int
  sequence : Int
deriving DecidableEq

/-- The fields of `TSpan` that the router and the request counter read. -/
structure TSpan where
  appServerType : Int := 0
  appServerTypeV2 : Int := 0
  elapsedTime : Int := 0
  elapsedTimeV2 : Int := 0
  appId : String := ""
  appIdV2 : String := ""
  appName : String := ""
  appNameV2 : String := ""
  transactionId : String := ""
  localAsyncId : Option TAsyncId := none
deriving DecidableEq

namespace TSpan

def getAppServerType (span : TSpan) : Int :=
  if span.appServerTypeV2 ≠ 0 then span.appServerTypeV2 else span.appServerType

def getElapsedTime (span : TSpan) : Int :=
  if span.elapsedTimeV2 ≠ 0 then span.elapsedTimeV2 else span.elapsedTime

def getAppid (span : TSpan) : String :=
  if 0 < span.appIdV2.utf8ByteSize then span.appIdV2 else span.appId

def getAppName (span : TSpan) : String :=
  if 0 < span.appNameV2.utf8ByteSize then span.appNameV2 else span.appName

end TSpan

/-- What `GetAgentInfo` takes from a span to route it. -/
structure AgentInfo where
  appid : String
  name : String
  appServerType : Int
  startTime : String
deriving DecidableEq

/-- The agent's start time: the second field of the transaction id, in milliseconds, or the
start time of the collector agent. -/
def agentStartTime (configStartTime : Int) (transactionId : String) : String :=
  let holder := transactionId.splitOn "^"
  if holder.length < 3 then configStartTime.repr ++ "000"
  else
    let start := holder.getD 1 ""
    -- ten digits are seconds
    if start.utf8ByteSize ≤ 10 then start ++ "000" else start

def getAgentInfo (configStartTime : Int) (span : TSpan) : Except String AgentInfo :=
  if span.getAppid.utf8ByteSize = 0 then .error "no appid"
  else if span.getAppName.utf8ByteSize = 0 then .error "no appName"
  else if span.getAppServerType = 0 then .error "no AppServerType(FT)"
  else .ok {
    appid := span.getAppid, name := span.getAppName, appServerType := span.getAppServerType
    startTime := agentStartTime configStartTime span.transactionId }

/-- The statistics of an agent. Times are Unix seconds. -/
structure RequestCounter where
  counter : Fin 4 → Int
  reqProfileLastTime : Int
  reqTop1LastTime : Int
  cTime : Int
  max : Nat
  total : Nat
  times : Nat

namespace RequestCounter

def create (now : Int) : RequestCounter where
  counter := fun _ => 0
  reqProfileLastTime := 0
  reqTop1LastTime := 0
  cTime := now
  max := 0
  total := 0
  times := 0

def getReqLevel (exp : Nat) : Fin 4 :=
  if exp ≤ 1 then 0 else if exp ≤ 3 then 1 else if exp ≤ 5 then 2 else 3

def updateReqTimeProfile (r : RequestCounter) (exp : Nat) : RequestCounter :=
  let counter := if r.reqProfileLastTime ≠ r.cTime then fun _ => 0 else r.counter
  let level := getReqLevel exp
  { r with
    counter := Function.update counter level (toSigned 32 (counter level + 1))
    reqProfileLastTime := r.cTime }

/-- `statIntervalSec` is the configured interval in whole seconds. -/
def updateReqTop1TimeSummary (statIntervalSec : Int) (r : RequestCounter) (exp : Nat) :
    RequestCounter :=
  let r :=
    if r.cTime ≥ r.reqTop1LastTime + statIntervalSec + 1 then
      { r with reqTop1LastTime := r.cTime, total := 0, times := 0, max := 0 }
    else r
  { r with
    max := if r.max < exp then exp else r.max
    total := wordAdd 32 r.total exp
    times := wordAdd 32 r.times 1 }

/-- Conversion of an `int32` (or of a whole `float64` of that range) to `uint32`. -/
def toUint32 (n : Int) : Nat := (n % 4294967296).toNat

/-- `Interceptor`: asynchronous spans are not counted. -/
def interceptor (statIntervalSec now : Int) (r : RequestCounter) (span : TSpan) : RequestCounter :=
  if span.localAsyncId.isSome then r
  else
    let elapsed := span.getElapsedTime
    let r := { r with cTime := now }
    let r := r.updateReqTop1TimeSummary statIntervalSec (toUint32 elapsed)
    -- seconds, rounded up
    r.updateReqTimeProfile (toUint32 (-(-elapsed / 1000)))

def getLastBusyTime (r : RequestCounter) : Int := r.cTime

theorem getLastBusyTime_interceptor (statIntervalSec now : Int) (r : RequestCounter)
    (span : TSpan) :
    (r.interceptor statIntervalSec now span).getLastBusyTime =
      if span.localAsyncId.isSome then r.getLastBusyTime else now := by
  unfold interceptor
  split
  · rfl
  · simp only [getLastBusyTime, updateReqTimeProfile, updateReqTop1TimeSummary]
    split <;> rfl

end RequestCounter

/-- An agent. `takenBy`, `stoppedBy` and `observed` are its history: the calls of `Clean` that
took it out of the map and that stopped it, and the times at which it consumed a span, the
latest first. -/
structure GrpcAgent (κ : Type) where
  agentId : String
  agentName : String
  agentType : Int
  startTime : String
  pingId : Int
  reqCounter : RequestCounter
  /-- `tSpanBufCh` -/
  queue : List TSpan := []
  /-- The context is cancelled. -/
  cancelled : Bool := false
  /-- `handleTSpanFromBuf` runs. -/
  consuming : Bool := true
  takenBy : List κ := []
  stoppedBy : List κ := []
  observed : List Int := []

namespace GrpcAgent

variable {κ : Type}

def create (now : Int) (info : AgentInfo) (pingId : Int) : GrpcAgent κ where
  agentId := info.appid
  agentName := info.name
  agentType := info.appServerType
  startTime := info.startTime
  pingId := pingId
  reqCounter := .create now

def sendSpan (a : GrpcAgent κ) (span : TSpan) : GrpcAgent κ := { a with queue := a.queue ++ [span] }

/-- `Stop` cancels the context; the goroutines of the agent end after that. -/
def stop (a : GrpcAgent κ) (cleaner : κ) : GrpcAgent κ :=
  { a with cancelled := true, stoppedBy := cleaner :: a.stoppedBy }

/-- One round of `handleTSpanFromBuf` with a span at hand. -/
def consume (statIntervalSec now : Int) (a : GrpcAgent κ) (span : TSpan) (rest : List TSpan) :
    GrpcAgent κ :=
  { a with
    queue := rest, reqCounter := a.reqCounter.interceptor statIntervalSec now span
    observed := now :: a.observed }

def getLastBusyTime (a : GrpcAgent κ) : Int := a.reqCounter.getLastBusyTime

end GrpcAgent

end PinpointAgent.Router
