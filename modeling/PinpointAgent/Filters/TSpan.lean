import PinpointAgent.Router.GrpcAgent

/-!
# Decoded spans

What `json.Unmarshal` makes of a packet. A field that the packet does not have, or has as `null`,
keeps its default; a pointer is then `nil`. An element of `event` that is `null` becomes a `nil`
pointer in the list.
-/

namespace PinpointAgent.Filters

structure TErrorInfo where
  msg : String
  file : String
  line : Int
deriving DecidableEq

structure TExceptionInfo where
  className : String
  message : String
  /-- an `int64` -/
  startTime : Int
deriving DecidableEq

structure TSpanEvent where
  name : String := ""
  sequence : Int := 0
  depth : Int := 0
  exceptionInfo : String := ""
  exceptionInfoV2 : Option TExceptionInfo := none
  destinationId : String := ""
  nextSpanId : Int := 0
  endPoint : String := ""
  startElapsed : Int := 0
  endElapsed : Int := 0
  startElapsedV2 : Int := 0
  endElapsedV2 : Int := 0
  serviceType : Int := 0
  annotations : List String := []
  sqlMeta : Option String := none
  asyId : Int := 0
deriving DecidableEq

namespace TSpanEvent

def getEndElapsed (ev : TSpanEvent) : Int :=
  if ev.endElapsedV2 ≠ 0 then ev.endElapsedV2 else ev.endElapsed

def getStartElapsed (ev : TSpanEvent) : Int :=
  if ev.startElapsedV2 ≠ 0 then ev.startElapsedV2 else ev.startElapsed

end TSpanEvent

/-- The fields that the filters read, beside those of the router. -/
structure TSpan extends Router.TSpan where
  parentAppServerType : Int := 0
  parentSpanId : Int := -1
  parentApplicationName : String := ""
  startTime : Int := 0
  startTimeV2 : Int := 0
  follows : List (Option TSpanEvent) := []
  annotations : List String := []
  spanName : String := ""
  spanId : Int := 0
  serverType : Int := 0
  uri : String := ""
  ut : String := ""
  endPoint : String := ""
  remoteAddr : String := ""
  acceptorHost : String := ""
  exceptionInfo : String := ""
  exceptionInfoV2 : Option TExceptionInfo := none
  errorInfo : Option TErrorInfo := none
  errorMarked : Int := 0
  nginxHeader : String := ""
  apacheHeader : String := ""
deriving DecidableEq

namespace TSpan

def isFailed (span : TSpan) : Bool := span.errorInfo.isSome || 0 < span.exceptionInfo.utf8ByteSize

/-- The bucket of a response time; there are `histogramSize` of them. -/
def findHistogramLevel (span : TSpan) : Fin 8 :=
  if span.getElapsedTime ≤ 100 then 0
  else if span.getElapsedTime ≤ 300 then 1
  else if span.getElapsedTime ≤ 500 then 2
  else if span.getElapsedTime ≤ 1000 then 3
  else if span.getElapsedTime ≤ 3000 then 4
  else if span.getElapsedTime ≤ 5000 then 5
  else if span.getElapsedTime ≤ 8000 then 6
  else 7

def getStartTime (span : TSpan) : Int :=
  if span.startTimeV2 ≠ 0 then span.startTimeV2 else span.startTime

end TSpan

end PinpointAgent.Filters
