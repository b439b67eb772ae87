import PinpointAgent.Framework.Interleaving

/-!
# The metadata identifiers of a span sender

A span refers to an API, a string or an SQL statement by an identifier that its `SpanSender` has
registered with the backend. `idMap` has the identifier of every name looked up since the last clean,
`pendingMeta` marks those whose registration nothing has confirmed yet. API and string identifiers are
numbers from a counter that all senders of the process share; the identifier of an SQL statement is a
hash of its text. Both kinds stand in one map as `interface{}` values and are taken out by a type
assertion, which panics on a value of the other kind.

One goroutine of an agent does the lookups and the cleans of its sender, one after the other. `hash` is
`murmur3`, and what becomes of a registration is a parameter of the lookup.
-/

namespace PinpointAgent.Metadata

open Framework

/-- `common.Meta_Type` is an `int32`: there are values that name no type. -/
inductive MetaType where
  | defaultApi
  | webRequestApi
  | stringApi
  | sqlUidApi
  | invocationApi
  | noSuchType (code : Int32)
  deriving DecidableEq

structure MetaKey where
  metaType : MetaType
  name : String
  deriving DecidableEq

/-- A value of `ApiIdMap`. -/
inductive CachedId where
  | int32 (id : Int32)
  | bytes (uid : List UInt8)
  deriving DecidableEq

/-- A failed type assertion, on a value of another type or on `nil`. -/
inductive Panic where
  | interfaceConversion (found : Option CachedId)

def asInt32 : Option CachedId → Except Panic Int32
  | some (.int32 id) => .ok id
  | other => .error (.interfaceConversion other)

def asBytes : Option CachedId → Except Panic (List UInt8)
  | some (.bytes uid) => .ok uid
  | other => .error (.interfaceConversion other)

inductive Registration where
  | apiMetaData (apiId : Int32) (apiInfo : String) (apiType : Nat)
  | stringMetaData (stringId : Int32) (stringValue : String)
  | sqlUidMetaData (sqlUid : List UInt8) (sql : String)
  deriving DecidableEq

/-- What becomes of a registration: no connection, an error as answer, or success. -/
inductive Outcome where
  | connectFailed
  | requestFailed
  | succeeded
  deriving DecidableEq

structure SpanSender where
  idMap : MetaKey → Option CachedId
  pendingMeta : MetaKey → Bool

/-- What a lookup returns, and what it did: whether it took a new identifier, the registration it
tried, if any, and the request that this sent. -/
structure Lookup (α : Type) where
  id : α
  allocated : Bool
  registering : Option Outcome
  sent : Option Registration

namespace SpanSender

def new : SpanSender := ⟨fun _ => none, fun _ => false⟩

def cleanAllMetaData (_ : SpanSender) : SpanSender := new

def assign (s : SpanSender) (key : MetaKey) (id : CachedId) : SpanSender :=
  ⟨Function.update s.idMap key (some id), Function.update s.pendingMeta key true⟩

def markConfirmed (s : SpanSender) (key : MetaKey) : SpanSender :=
  { s with pendingMeta := Function.update s.pendingMeta key false }

def requestFor (s : SpanSender) (key : MetaKey) : Except Panic (Option Registration) :=
  match key.metaType with
  | .defaultApi => (asInt32 (s.idMap key)).map fun id => some (.apiMetaData id key.name 0)
  | .webRequestApi => (asInt32 (s.idMap key)).map fun id => some (.apiMetaData id key.name 100)
  | .stringApi => (asInt32 (s.idMap key)).map fun id => some (.stringMetaData id key.name)
  | .sqlUidApi => (asBytes (s.idMap key)).map fun uid => some (.sqlUidMetaData uid key.name)
  | .invocationApi => (asInt32 (s.idMap key)).map fun id => some (.apiMetaData id key.name 200)
  | .noSuchType _ => .ok none

def senderGrpcMetaData (s : SpanSender) (key : MetaKey) (outcome : Outcome) :
    Except Panic (Option Registration × SpanSender) :=
  match outcome with
  | .connectFailed => .ok (none, s)
  | .requestFailed => (s.requestFor key).map fun request => (request, s)
  | .succeeded =>
    (s.requestFor key).map fun request => (request, if request.isSome then s.markConfirmed key else s)

/-- A lookup that takes its value out of the map by `assert`, or puts `fresh` into it by `wrap`. -/
def lookup {α : Type} (assert : Option CachedId → Except Panic α) (wrap : α → CachedId) (fresh : α)
    (s : SpanSender) (key : MetaKey) (outcome : Outcome) : Except Panic (Lookup α × SpanSender) :=
  match s.idMap key with
  | some id =>
    if !s.pendingMeta key then (assert (some id)).map fun n => (⟨n, false, none, none⟩, s)
    else do
      let (sent, s') ← s.senderGrpcMetaData key outcome
      let n ← assert (some id)
      return (⟨n, false, some outcome, sent⟩, s')
  | none => do
    let (sent, s') ← (s.assign key (wrap fresh)).senderGrpcMetaData key outcome
    return (⟨fresh, true, some outcome, sent⟩, s')

/-- A new identifier is what `atomic.AddInt32(&unique_id_count, 1)` returns. -/
def getMetaApiId (s : SpanSender) (uniqueIdCount : Int32) (name : String) (metaType : MetaType)
    (outcome : Outcome) : Except Panic (Lookup Int32 × SpanSender) :=
  s.lookup asInt32 .int32 (uniqueIdCount + 1) ⟨metaType, name⟩ outcome

def getSqlUidMetaApiId (hash : String → List UInt8) (s : SpanSender) (name : String) (outcome : Outcome) :
    Except Panic (Lookup (List UInt8) × SpanSender) :=
  s.lookup asBytes .bytes (hash name) ⟨.sqlUidApi, name⟩ outcome

end SpanSender

structure Entry (ι : Type) where
  sender : ι
  key : MetaKey
  id : CachedId
  registering : Option Outcome
  sent : Option Registration

inductive Event (ι : Type) where
  | looked (e : Entry ι)
  | cleaned (sender : ι)

/-- The process with its senders; `allocated` has the keys in the order in which they took a number, and
`history` what happened so far, the latest first. -/
structure Process (ι : Type) where
  uniqueIdCount : Int32
  senders : ι → SpanSender
  allocated : List MetaKey
  history : List (Event ι)

inductive Call (ι : Type) where
  | getMetaApiId (sender : ι) (name : String) (metaType : MetaType) (outcome : Outcome)
  | getSqlUidMetaApiId (sender : ι) (name : String) (outcome : Outcome)
  | cleanAllMetaData (sender : ι)

namespace Process

variable {ι : Type} [DecidableEq ι]

def new : Process ι := ⟨1, fun _ => .new, [], []⟩

def note {α : Type} (p : Process ι) (i : ι) (key : MetaKey) (wrap : α → CachedId) (r : Lookup α)
    (s : SpanSender) : Process ι :=
  { p with
    senders := Function.update p.senders i s
    history := .looked ⟨i, key, wrap r.id, r.registering, r.sent⟩ :: p.history }

/-- The process after a call; `none` when the call panics. -/
def step (hash : String → List UInt8) (p : Process ι) : Call ι → Option (Process ι)
  | .getMetaApiId i name metaType outcome =>
    match (p.senders i).getMetaApiId p.uniqueIdCount name metaType outcome with
    | .error _ => none
    | .ok (r, s) =>
      let q := p.note i ⟨metaType, name⟩ .int32 r s
      some (if r.allocated then
        { q with uniqueIdCount := p.uniqueIdCount + 1, allocated := p.allocated ++ [⟨metaType, name⟩] }
      else q)
  | .getSqlUidMetaApiId i name outcome =>
    match (p.senders i).getSqlUidMetaApiId hash name outcome with
    | .error _ => none
    | .ok (r, s) => some (p.note i ⟨.sqlUidApi, name⟩ .bytes r s)
  | .cleanAllMetaData i =>
    some { p with
      senders := Function.update p.senders i (p.senders i).cleanAllMetaData
      history := .cleaned i :: p.history }

end Process

/-- The lookups of a sender since its last clean, the latest first. -/
def sinceClean {ι : Type} [DecidableEq ι] (i : ι) : List (Event ι) → List (Entry ι)
  | [] => []
  | .looked e :: older => if e.sender = i then e :: sinceClean i older else sinceClean i older
  | .cleaned j :: older => if j = i then [] else sinceClean i older

/-- The request carries exactly the identifier, the name and the type. -/
def Registration.Carries : Registration → MetaKey → CachedId → Prop
  | .apiMetaData apiId apiInfo apiType, key, id => id = .int32 apiId ∧ apiInfo = key.name ∧
      (key.metaType = .defaultApi ∧ apiType = 0 ∨ key.metaType = .webRequestApi ∧ apiType = 100 ∨
        key.metaType = .invocationApi ∧ apiType = 200)
  | .stringMetaData stringId stringValue, key, id =>
      id = .int32 stringId ∧ stringValue = key.name ∧ key.metaType = .stringApi
  | .sqlUidMetaData sqlUid sql, key, id => id = .bytes sqlUid ∧ sql = key.name ∧ key.metaType = .sqlUidApi

/-- The type that `getSqlUidMetaApiId` looks up is left to it. -/
def Call.Typed {ι : Type} : Call ι → Prop
  | .getMetaApiId _ _ metaType _ => metaType ≠ .sqlUidApi
  | .getSqlUidMetaApiId .. | .cleanAllMetaData _ => True

instance Call.decidableTyped {ι : Type} : (call : Call ι) → Decidable call.Typed
  | .getMetaApiId .. => inferInstanceAs (Decidable (_ ≠ _))
  | .getSqlUidMetaApiId .. | .cleanAllMetaData _ => isTrue trivial

end PinpointAgent.Metadata
