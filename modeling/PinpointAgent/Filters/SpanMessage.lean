import Mathlib.Data.List.Forall2
import PinpointAgent.Framework.Effect
import PinpointAgent.Filters.TSpan
import PinpointAgent.Metadata.IdCache

/-!
# Spans as messages

`makeSpanOrSpanChunk` turns a decoded span into the message for the backend: a `PSpan`, or a
`PSpanChunk` for a span with a `LocalAsyncId`. Names, exception labels and SQL texts become
identifiers, each by a lookup that may register it. What the lookups meet is a parameter: `env n` has
the value of the process-wide counter when the `n`th lookup of the sender takes a number, which other
senders may have advanced, and what becomes of its registration.

The fields of the headers of nginx and Apache, the annotations and the transaction id are texts that
the sender takes apart. A part that is not a number leaves its field as it is, so none of this fails.
-/

namespace PinpointAgent.Filters

open Framework Metadata

/-! ## Texts -/

def stringsSplit (s : String) (sep : Char) : List String := (s.toList.splitOn sep).map String.ofList

def stringsCut (s : String) (sep : Char) : Option (String × String) :=
  match s.toList.span (· ≠ sep) with
  | (_, []) => none
  | (front, _ :: back) => some (String.ofList front, String.ofList back)

def decimal (cs : List Char) : Option Nat :=
  if cs ≠ [] ∧ cs.all Char.isDigit then some (cs.foldl (fun n c => 10 * n + (c.toNat - 48)) 0) else none

/-- `strconv.ParseInt(s, 10, bits)` -/
def parseInt (s : String) (bits : Nat) : Option Int :=
  let limit : Nat := 2 ^ (bits - 1)
  let inRange (n : Int) : Option Int := if -(limit : Int) ≤ n ∧ n < limit then some n else none
  match s.toList with
  | '-' :: cs => (decimal cs).bind fun n => inRange (-n)
  | '+' :: cs => (decimal cs).bind fun n => inRange n
  | cs => (decimal cs).bind fun n => inRange n

structure PTransactionId where
  agentId : String
  agentStartTime : Int
  sequence : Int
deriving DecidableEq

def typeV1StringTransactionId (tid : String) : Option PTransactionId :=
  match stringsSplit tid '^' with
  | agentId :: startTime :: sequenceId :: _ =>
    some ⟨agentId, (parseInt startTime 64).getD 0, (parseInt sequenceId 64).getD 0⟩
  | _ => none

/-- A later field of the same name replaces an earlier one. -/
def parseStringField (v : String) : String → Option String :=
  (stringsSplit v ' ').foldl (fun ret item =>
    match stringsCut item '=' with
    | some (name, value) => Function.update ret name (some value)
    | none => ret) fun _ => none

/-- Seconds and milliseconds with a dot between them, in milliseconds. -/
def parseDotFormatToTime (v : String) : Option Int :=
  match stringsSplit v '.' with
  | sec :: ms :: _ => do return (← parseInt sec 32) * 1000 + (← parseInt ms 32)
  | _ => none

/-! ## Messages -/

inductive PAnnotationValue where
  | stringValue (value : String)
  | bytesStringStringValue (bytesValue : List UInt8) (stringValue1 : String)
  | longIntIntByteByteStringValue (longValue intValue1 intValue2 byteValue1 byteValue2 : Int)
deriving DecidableEq

structure PAnnotation where
  key : Int
  value : PAnnotationValue
deriving DecidableEq

structure PIntStringValue where
  intValue : Int32
  stringValue : String
deriving DecidableEq

structure PMessageEvent where
  destinationId : String
  nextSpanId : Int
  endPoint : String
deriving DecidableEq

structure PSpanEvent where
  startElapsed : Int
  endElapsed : Int
  serviceType : Int
  depth : Int
  sequence : Int
  asyncEvent : Int
  apiId : Int32
  exceptionInfo : Option PIntStringValue
  nextEvent : PMessageEvent
  annotation : List PAnnotation
deriving DecidableEq

structure PSpanChunk where
  version : Int := 1
  transactionId : Option PTransactionId
  spanId : Int
  keyTime : Int
  applicationServiceType : Int
  endPoint : String
  localAsyncId : Router.TAsyncId
  spanEvent : List PSpanEvent
deriving DecidableEq

structure PParentInfo where
  parentApplicationName : String
  parentApplicationType : Int
  acceptorHost : String
deriving DecidableEq

structure PAcceptEvent where
  rpc : String
  endPoint : String
  remoteAddr : String
  parentInfo : PParentInfo
deriving DecidableEq

structure PSpan where
  parentSpanId : Int
  version : Int := 1
  serviceType : Int
  applicationServiceType : Int
  spanId : Int
  startTime : Int
  elapsed : Int
  transactionId : Option PTransactionId
  apiId : Int32
  acceptEvent : PAcceptEvent
  err : Int
  exceptionInfo : Option PIntStringValue
  annotation : List PAnnotation
  spanEvent : List PSpanEvent
deriving DecidableEq

inductive PSpanMessage where
  | span (pSpan : PSpan)
  | spanChunk (chunk : PSpanChunk)
deriving DecidableEq

def PSpanMessage.spanEvent : PSpanMessage → List PSpanEvent
  | .span pSpan => pSpan.spanEvent
  | .spanChunk chunk => chunk.spanEvent

/-- An annotation is a number and a text with a colon between them; others are left out. -/
def annotation (ann : String) : Option PAnnotation :=
  match stringsCut ann ':' with
  | none => none
  | some (key, value) =>
    if key = "" then none else (parseInt key 32).map fun n => ⟨n, .stringValue value⟩

def annotationOfProxy (longValue intValue1 intValue2 byteValue1 byteValue2 : Int) : PAnnotation :=
  ⟨300, .longIntIntByteByteStringValue longValue intValue1 intValue2 byteValue1 byteValue2⟩

def nginxAnnotations (header : String) : List PAnnotation :=
  if 0 < header.utf8ByteSize then
    let ngFormat := parseStringField header
    let time (name : String) : Int := ((ngFormat name).bind parseDotFormatToTime).getD 0
    [annotationOfProxy (time "t") 2 (toSigned 32 (time "D")) 0 0]
  else []

def apacheAnnotations (header : String) : List PAnnotation :=
  if 0 < header.utf8ByteSize then
    let npAr := parseStringField header
    let number (name : String) (bits : Nat) : Int := ((npAr name).bind fun v => parseInt v bits).getD 0
    [annotationOfProxy ((number "t" 64).tdiv 1000) 3 (number "D" 32) (number "i" 32) (number "b" 32)]
  else []

/-! ## Conversion -/

inductive Panic where
  | nilPointer
  | interfaceConversion (failed : Metadata.Panic)

/-- The identifiers of a sender, and how many lookups it has made. -/
structure IdLookups where
  ids : Metadata.SpanSender
  count : Nat

abbrev SenderM := EStateM Panic IdLookups

section Convert

variable (hash : String → List UInt8) (env : Nat → Int32 × Outcome)

def getMetaApiId (name : String) (metaType : MetaType) : SenderM Int32 := fun s =>
  match s.ids.getMetaApiId (env s.count).1 name metaType (env s.count).2 with
  | .ok (found, ids) => .ok found.id ⟨ids, s.count + 1⟩
  | .error failed => .error (.interfaceConversion failed) s

def getSqlUidMetaApiId (name : String) : SenderM (List UInt8) := fun s =>
  match s.ids.getSqlUidMetaApiId hash name (env s.count).2 with
  | .ok (found, ids) => .ok found.id ⟨ids, s.count + 1⟩
  | .error failed => .error (.interfaceConversion failed) s

def labelled (label text : String) : SenderM PIntStringValue := do
  let id ← getMetaApiId env label .stringApi
  return ⟨id, text⟩

def exceptionLabel : String := "___EXP___"

def errorLabel : String := "___ERR___"

def apiInvocationServiceType : Int := 100

def eventMetaType (ev : TSpanEvent) : MetaType :=
  if ev.serviceType = apiInvocationServiceType then .invocationApi else .defaultApi

def exceptionInfo (text : String) : SenderM (Option PIntStringValue) :=
  if 0 < text.utf8ByteSize then do
    let info ← labelled env exceptionLabel text
    return some info
  else return none

def sqlAnnotations : Option String → SenderM (List PAnnotation)
  | none => return []
  | some sql => do
    let uid ← getSqlUidMetaApiId hash env sql
    return [⟨25, .bytesStringStringValue uid sql⟩]

def createPinpointSpanEv (ev : TSpanEvent) : SenderM PSpanEvent := do
  let apiId ← getMetaApiId env ev.name (eventMetaType ev)
  let exception ← exceptionInfo env ev.exceptionInfo
  let sql ← sqlAnnotations hash env ev.sqlMeta
  return {
    startElapsed := ev.getStartElapsed, endElapsed := ev.getEndElapsed, serviceType := ev.serviceType
    depth := ev.depth, sequence := ev.sequence, asyncEvent := ev.asyId
    apiId, exceptionInfo := exception
    nextEvent := ⟨ev.destinationId, ev.nextSpanId, ev.endPoint⟩
    annotation := ev.annotations.filterMap annotation ++ sql }

/-- The application's type is taken from the old field only, unlike in `makePinpointSpan`. -/
def makeSpanChunk (span : TSpan) (localAsyncId : Router.TAsyncId) : PSpanChunk where
  transactionId := typeV1StringTransactionId span.transactionId
  spanId := span.spanId
  keyTime := span.getStartTime
  applicationServiceType := span.appServerType
  endPoint := span.endPoint
  localAsyncId := localAsyncId
  spanEvent := []

/-- An error takes the place of an exception. -/
def makePinpointSpan (span : TSpan) : SenderM PSpan := do
  let apiId ← getMetaApiId env span.spanName .webRequestApi
  let exception ← exceptionInfo env span.exceptionInfo
  let (err, info) ← match span.errorInfo with
    | none => pure ((0 : Int), exception)
    | some error => do
      let info ← labelled env errorLabel error.msg
      pure (1, some info)
  return {
    parentSpanId := if 0 < span.parentSpanId then span.parentSpanId else -1
    serviceType := span.serverType, applicationServiceType := span.getAppServerType
    spanId := span.spanId, startTime := span.getStartTime, elapsed := span.getElapsedTime
    transactionId := typeV1StringTransactionId span.transactionId
    apiId
    acceptEvent := {
      rpc := span.uri, endPoint := span.endPoint, remoteAddr := span.remoteAddr
      parentInfo := ⟨span.parentApplicationName, span.parentAppServerType, span.acceptorHost⟩ }
    err, exceptionInfo := info
    annotation := span.annotations.filterMap annotation ++ nginxAnnotations span.nginxHeader ++
      apacheAnnotations span.apacheHeader
    spanEvent := [] }

/-- The loop over `Follows`, which steps over `nil`. -/
def makeSpanEvents : List (Option TSpanEvent) → SenderM (List PSpanEvent)
  | [] => return []
  | none :: follows => makeSpanEvents follows
  | some ev :: follows => do
    let pbSpanEv ← createPinpointSpanEv hash env ev
    let spanEv ← makeSpanEvents follows
    return pbSpanEv :: spanEv

def makeSpanOrSpanChunk (span : TSpan) : SenderM PSpanMessage := do
  let spanEv ← makeSpanEvents hash env span.follows
  match span.localAsyncId with
  | none =>
    let pSpan ← makePinpointSpan env span
    return .span { pSpan with spanEvent := spanEv }
  | some localAsyncId => return .spanChunk { makeSpanChunk span localAsyncId with spanEvent := spanEv }

end Convert

/-! ## What a conversion builds -/

def IdLookups.Typed (s : IdLookups) : Prop := ∀ key id, s.ids.idMap key = some id → id.Fits key

theorem IdLookups.typed_new : IdLookups.Typed ⟨.new, 0⟩ := fun _ _ h => absurd h nofun

/-- From identifiers of the right kinds `c` returns: it keeps the identifiers there are, and what it
returns is right, as `P` says, for those there are then. -/
def Builds {α : Type} (c : SenderM α) (P : α → (MetaKey → Option CachedId) → Prop) : Prop :=
  ∀ s : IdLookups, s.Typed → ∃ a s', c s = .ok a s' ∧ s'.Typed ∧
    (∀ key id, s.ids.idMap key = some id → s'.ids.idMap key = some id) ∧ P a s'.ids.idMap

/-- What holds for some identifiers holds with more of them. -/
def Lasting (P : (MetaKey → Option CachedId) → Prop) : Prop :=
  ∀ ids ids' : MetaKey → Option CachedId, (∀ key id, ids key = some id → ids' key = some id) → P ids → P ids'

private theorem Lasting.const (p : Prop) : Lasting fun _ => p := fun _ _ _ h => h

private theorem Lasting.entry (key : MetaKey) (id : CachedId) : Lasting fun ids => ids key = some id :=
  fun _ _ hkept h => hkept key id h

private theorem Lasting.and {P Q : (MetaKey → Option CachedId) → Prop} (hP : Lasting P) (hQ : Lasting Q) :
    Lasting fun ids => P ids ∧ Q ids :=
  fun ids ids' hkept h => ⟨hP ids ids' hkept h.1, hQ ids ids' hkept h.2⟩

namespace Builds

variable {α β : Type} {P : α → (MetaKey → Option CachedId) → Prop}
  {Q : β → (MetaKey → Option CachedId) → Prop}

private theorem pure {a : α} (h : ∀ ids, P a ids) : Builds (pure a : SenderM α) P :=
  fun s hs => ⟨a, s, rfl, hs, fun _ _ hid => hid, h _⟩

theorem bind {c : SenderM α} {k : α → SenderM β} (hc : Builds c P) (hlasting : ∀ a, Lasting (P a))
    (hk : ∀ a, Builds (k a) fun b ids => P a ids → Q b ids) : Builds (c >>= k) Q := by
  intro s hs
  obtain ⟨a, s', hrun, hs', hkept, ha⟩ := hc s hs
  obtain ⟨b, s'', hrest, hs'', hkept', hb⟩ := hk a s' hs'
  refine ⟨b, s'', (bind_of_ok k hrun).trans hrest, hs'', fun key id hid => hkept' key id (hkept key id hid), ?_⟩
  exact hb (hlasting a _ _ hkept' ha)

end Builds

section Lookups

variable {hash : String → List UInt8} {env : Nat → Int32 × Outcome}

private theorem Looked.keeps {α : Type} {wrap : α → CachedId} {fresh : α} {s s' : Metadata.SpanSender} {key : MetaKey}
    {r : Lookup α} (h : Looked wrap fresh s key r s') (hfits : (wrap r.id).Fits key)
    (hs : ∀ key id, s.idMap key = some id → id.Fits key) :
    (∀ key id, s'.idMap key = some id → id.Fits key) ∧
      (∀ key id, s.idMap key = some id → s'.idMap key = some id) ∧ s'.idMap key = some (wrap r.id) := by
  rw [h.idMap]
  refine ⟨fun other id hid => ?_, fun other id hid => ?_, Function.update_self ..⟩
  · by_cases heq : other = key
    · subst heq
      rw [Function.update_self] at hid
      exact Option.some.inj hid ▸ hfits
    · rw [Function.update_of_ne heq] at hid
      exact hs other id hid
  · by_cases heq : other = key
    · subst heq
      obtain ⟨hold, -⟩ | ⟨hnone, -⟩ := h.origin
      · rw [Function.update_self, ← hold, hid]
      · rw [hnone] at hid
        exact absurd hid nofun
    · rw [Function.update_of_ne heq]
      exact hid

private theorem getMetaApiId_builds {name : String} {metaType : MetaType} (htype : metaType ≠ .sqlUidApi) :
    Builds (getMetaApiId env name metaType) fun n ids => ids ⟨metaType, name⟩ = some (.int32 n) := by
  intro s hs
  let fresh := (env s.count).1 + 1
  let key : MetaKey := ⟨metaType, name⟩
  have hfits : ∀ n, (CachedId.int32 n).Fits key := fun _ => htype
  obtain ⟨r, ids, hlookup, hlooked⟩ : ∃ r ids,
      s.ids.lookup asInt32 .int32 fresh key (env s.count).2 = .ok (r, ids) ∧
        Looked .int32 fresh s.ids key r ids :=
    lookup_spec fresh (Process.asInt32_fits htype) (hfits fresh) (hs key) _
  obtain ⟨htyped, hkept, hentry⟩ := Looked.keeps hlooked (hfits r.id) hs
  refine ⟨r.id, ⟨ids, s.count + 1⟩, ?_, htyped, hkept, hentry⟩
  rw [getMetaApiId, Metadata.SpanSender.getMetaApiId, hlookup]

private theorem getSqlUidMetaApiId_builds {name : String} :
    Builds (getSqlUidMetaApiId hash env name) fun uid ids => ids ⟨.sqlUidApi, name⟩ = some (.bytes uid) := by
  intro s hs
  let key : MetaKey := ⟨.sqlUidApi, name⟩
  have hfits : ∀ uid, (CachedId.bytes uid).Fits key := fun _ => rfl
  obtain ⟨r, ids, hlookup, hlooked⟩ : ∃ r ids,
      s.ids.lookup asBytes .bytes (hash name) key (env s.count).2 = .ok (r, ids) ∧
        Looked .bytes (hash name) s.ids key r ids :=
    lookup_spec (hash name) (Process.asBytes_fits rfl) (hfits _) (hs key) _
  obtain ⟨htyped, hkept, hentry⟩ := Looked.keeps hlooked (hfits r.id) hs
  refine ⟨r.id, ⟨ids, s.count + 1⟩, ?_, htyped, hkept, hentry⟩
  rw [getSqlUidMetaApiId, Metadata.SpanSender.getSqlUidMetaApiId, hlookup]

end Lookups

def ExceptionOf (text : String) (info : Option PIntStringValue) (ids : MetaKey → Option CachedId) : Prop :=
  if 0 < text.utf8ByteSize then
    ∃ id, info = some ⟨id, text⟩ ∧ ids ⟨.stringApi, exceptionLabel⟩ = some (.int32 id)
  else info = none

def SqlOf (sql : Option String) (anns : List PAnnotation) (ids : MetaKey → Option CachedId) : Prop :=
  match sql with
  | none => anns = []
  | some text => ∃ uid, anns = [⟨25, .bytesStringStringValue uid text⟩] ∧
      ids ⟨.sqlUidApi, text⟩ = some (.bytes uid)

/-- The message has the event, with the identifiers that stand for its texts. -/
structure EventOf (ev : TSpanEvent) (pb : PSpanEvent) (ids : MetaKey → Option CachedId) : Prop where
  api : ids ⟨eventMetaType ev, ev.name⟩ = some (.int32 pb.apiId)
  elapsed : pb.startElapsed = ev.getStartElapsed ∧ pb.endElapsed = ev.getEndElapsed
  place : pb.sequence = ev.sequence ∧ pb.depth = ev.depth ∧ pb.serviceType = ev.serviceType ∧
    pb.asyncEvent = ev.asyId
  next : pb.nextEvent = ⟨ev.destinationId, ev.nextSpanId, ev.endPoint⟩
  exception : ExceptionOf ev.exceptionInfo pb.exceptionInfo ids
  annotation : ∃ sql, pb.annotation = ev.annotations.filterMap annotation ++ sql ∧ SqlOf ev.sqlMeta sql ids

/-- The message has exactly the events of the span that are there, in order, and its kind is that of
the span. -/
structure MessageOf (span : TSpan) (message : PSpanMessage) (ids : MetaKey → Option CachedId) : Prop where
  events : List.Forall₂ (EventOf · · ids) (span.follows.filterMap fun ev => ev) message.spanEvent
  kind : span.localAsyncId.isSome ↔ ∃ chunk, message = .spanChunk chunk

private theorem lasting_exceptionOf (text : String) (info : Option PIntStringValue) :
    Lasting (ExceptionOf text info) := by
  intro ids ids' hkept h
  unfold ExceptionOf at h ⊢
  split at h
  · obtain ⟨id, hinfo, hid⟩ := h
    rw [if_pos ‹_›]
    exact ⟨id, hinfo, hkept _ _ hid⟩
  · rwa [if_neg ‹_›]

private theorem lasting_sqlOf (sql : Option String) (anns : List PAnnotation) : Lasting (SqlOf sql anns) := by
  intro ids ids' hkept h
  cases sql with
  | none => exact h
  | some text =>
    obtain ⟨uid, hanns, hid⟩ := h
    exact ⟨uid, hanns, hkept _ _ hid⟩

private theorem lasting_eventOf (ev : TSpanEvent) (pb : PSpanEvent) : Lasting (EventOf ev pb) := by
  intro ids ids' hkept h
  obtain ⟨sql, hanns, hsql⟩ := h.annotation
  exact ⟨hkept _ _ h.api, h.elapsed, h.place, h.next, lasting_exceptionOf _ _ ids ids' hkept h.exception,
    sql, hanns, lasting_sqlOf _ _ ids ids' hkept hsql⟩

private theorem lasting_eventsOf (evs : List TSpanEvent) (pbs : List PSpanEvent) :
    Lasting fun ids => List.Forall₂ (EventOf · · ids) evs pbs :=
  fun ids ids' hkept h => h.imp fun ev pb hev => lasting_eventOf ev pb ids ids' hkept hev

section Conversion

variable {hash : String → List UInt8} {env : Nat → Int32 × Outcome}

private theorem labelled_builds (label text : String) :
    Builds (labelled env label text) fun info ids =>
      info.stringValue = text ∧ ids ⟨.stringApi, label⟩ = some (.int32 info.intValue) := by
  have htype : MetaType.stringApi ≠ .sqlUidApi := by decide
  refine (getMetaApiId_builds htype).bind (fun n => Lasting.entry _ _) fun n => ?_
  exact Builds.pure fun ids hid => ⟨rfl, hid⟩

private theorem exceptionInfo_builds (text : String) :
    Builds (exceptionInfo env text) (ExceptionOf text) := by
  unfold exceptionInfo
  by_cases htext : 0 < text.utf8ByteSize
  · rw [if_pos htext]
    refine (labelled_builds exceptionLabel text).bind
      (fun info => (Lasting.const _).and (Lasting.entry _ _)) fun info => ?_
    refine Builds.pure fun ids ⟨hvalue, hid⟩ => ?_
    rw [ExceptionOf, if_pos htext]
    exact ⟨info.intValue, by rw [← hvalue], hid⟩
  · rw [if_neg htext]
    refine Builds.pure fun ids => ?_
    rw [ExceptionOf, if_neg htext]

private theorem sqlAnnotations_builds (sql : Option String) : Builds (sqlAnnotations hash env sql) (SqlOf sql) := by
  cases sql with
  | none => exact Builds.pure fun ids => rfl
  | some text =>
    refine getSqlUidMetaApiId_builds.bind (fun uid => Lasting.entry _ _) fun uid => ?_
    exact Builds.pure fun ids hid => ⟨uid, rfl, hid⟩

private theorem eventMetaType_ne (ev : TSpanEvent) : eventMetaType ev ≠ .sqlUidApi := by
  unfold eventMetaType
  split
  · decide
  · decide

private theorem createPinpointSpanEv_builds (ev : TSpanEvent) :
    Builds (createPinpointSpanEv hash env ev) (EventOf ev) := by
  refine (getMetaApiId_builds (eventMetaType_ne ev)).bind (fun n => Lasting.entry _ _) fun n => ?_
  refine (exceptionInfo_builds ev.exceptionInfo).bind (lasting_exceptionOf _) fun info => ?_
  refine (sqlAnnotations_builds ev.sqlMeta).bind (lasting_sqlOf _) fun sql => ?_
  refine Builds.pure fun ids hsql hinfo hapi => ?_
  exact ⟨hapi, ⟨rfl, rfl⟩, ⟨rfl, rfl, rfl, rfl⟩, rfl, hinfo, sql, rfl, hsql⟩

private theorem makeSpanEvents_builds (follows : List (Option TSpanEvent)) :
    Builds (makeSpanEvents hash env follows) fun pbs ids =>
      List.Forall₂ (EventOf · · ids) (follows.filterMap fun ev => ev) pbs := by
  induction follows with
  | nil => exact Builds.pure fun ids => .nil
  | cons ev follows ih =>
    cases ev with
    | none => exact ih
    | some ev =>
      refine (createPinpointSpanEv_builds ev).bind (lasting_eventOf ev) fun pb => ?_
      refine ih.bind (fun pbs => lasting_eventsOf _ pbs) fun pbs => ?_
      exact Builds.pure fun ids hrest hev => .cons hev hrest

private theorem makePinpointSpan_builds (span : TSpan) : Builds (makePinpointSpan env span) fun _ _ => True := by
  have htype : MetaType.webRequestApi ≠ .sqlUidApi := by decide
  refine (getMetaApiId_builds htype).bind (fun n => Lasting.entry _ _) fun n => ?_
  refine (exceptionInfo_builds span.exceptionInfo).bind (lasting_exceptionOf _) fun info => ?_
  cases span.errorInfo with
  | none => exact Builds.pure fun _ _ _ => trivial
  | some error =>
    refine (labelled_builds errorLabel error.msg).bind
      (fun info => (Lasting.const _).and (Lasting.entry _ _)) fun info => ?_
    exact Builds.pure fun _ _ _ _ => trivial

theorem makeSpanOrSpanChunk_builds (hash : String → List UInt8) (env : Nat → Int32 × Outcome)
    (span : TSpan) :
    Builds (makeSpanOrSpanChunk hash env span) (MessageOf span) := by
  refine (makeSpanEvents_builds span.follows).bind (fun pbs => lasting_eventsOf _ pbs) fun pbs => ?_
  cases hasync : span.localAsyncId with
  | none =>
    refine (makePinpointSpan_builds span).bind (fun _ => Lasting.const True) fun pSpan => ?_
    exact Builds.pure fun ids _ hevents => ⟨hevents, by simp [hasync]⟩
  | some localAsyncId => exact Builds.pure fun ids hevents => ⟨hevents, by simp [hasync]⟩

end Conversion

end PinpointAgent.Filters
