import PinpointAgent.Framework.Effect
import PinpointAgent.NodePool.PoolManager
/-!
# The single-threaded agent

The calls of `Agent` on its node pool and the wrappers of the public interface, which
catch every exception. Exceptions leave the writes made before them in place. The wall
clock is a sequence of readings, one for each call of `get_unix_time_ms`; whether handing
a span to `TrySendSpan` throws (it reads the collector's answers) is an argument of
`endTrace`. A wrapper of a node lives inside one call, so its reference count is back where
it was when the call ends and is left out here.
-/

namespace PinpointAgent

open Framework NodePool

structure Agent where
  pool : PoolManager
  agentType : Int
  clock : Nat → Nat
  /-- How often the clock has been read. -/
  tick : Nat
  /-- The spans handed to `TrySendSpan` so far. -/
  spans : List Members

namespace Agent

def new (agentType : Int) (clock : Nat → Nat) : Agent := ⟨.new, agentType, clock, 0, []⟩

abbrev AgentM := EStateM AgentError Agent

def getUnixTimeMs : AgentM Nat := fun a => .ok (a.clock a.tick) { a with tick := a.tick + 1 }

def referNode (id : Int) : AgentM TraceNode := fun a =>
  match a.pool.getUsedNode id with
  | .ok n => .ok n a
  | .error e => .error e a

def getNode : AgentM Int := fun a =>
  match a.pool.getReadyNode with
  | .ok (id, p) => .ok id { a with pool := p }
  | .error e => .error e a

def modifyNode (id : Int) (f : TraceNode → TraceNode) : AgentM Unit :=
  modify fun a => { a with pool := a.pool.modifyNode id f }

def appendToRootTrace (root new : Int) : AgentM Unit := fun a =>
  match a.pool.appendToRootTrace root new with
  | (.ok _, p) => .ok () { a with pool := p }
  | (.error e, p) => .error e { a with pool := p }

def startTraceNode (id : Int) : AgentM Unit := do
  let now ← getUnixTimeMs
  modifyNode id (·.startTrace now)

def endTraceNode (id : Int) : AgentM Unit := do
  let now ← getUnixTimeMs
  modifyNode id (·.endTrace now)

def startRoot : AgentM Int := do
  let id ← getNode
  let a ← get
  modifyNode id (·.upgradeToRootNode a.agentType)
  startTraceNode id
  return id

def startChild (parentId : Int) : AgentM Int := do
  let parent ← referNode parentId
  let _ ← referNode parent.rootId
  let id ← getNode
  startTraceNode id
  modifyNode id (·.bindParentTrace parent)
  appendToRootTrace parent.rootId id
  return id

def startNode (parentId : Int) : AgentM Int :=
  if parentId ≤ invalidNode then throw .invalidNodeId
  else if parentId = rootNode then startRoot
  else startChild parentId

def setNodeUserOption (id : Int) (opts : List String) : AgentM Unit := fun a =>
  let outcome := (a.pool.nodeAt id).setNodeUserOption opts
  let a' := { a with pool := a.pool.modifyNode id fun _ => outcome.1 }
  if outcome.2 then .error .badNumber a' else .ok () a'

/-- `StartTrace`; a root ignores its options, and an option that throws leaves the node
in its trace. -/
def startTrace (parentId : Int) (opts : List String) : AgentM Int := do
  let id ← startNode parentId
  setNodeUserOption id (if parentId = rootNode then [] else opts)
  return id

def appendAnnotationMember (id : Int) (key : String) (v : Json) : AgentM Unit := fun a =>
  match (a.pool.nodeAt id).value.append key v with
  | none => .error .notAppendable a
  | some members => .ok () { a with pool := a.pool.modifyNode id fun n => { n with value := members } }

/-- The end that `EncodeTraceToJsonSpan` forces on a node that is still running. -/
def forceEnd (id : Int) (node : TraceNode) : AgentM Unit :=
  if node.expiredTime = -1 then endTraceNode id else pure ()

/-- The loop's body in `EncodeTraceToJsonSpan`: the node's members are appended to the
root's events and the node after it is reported. -/
def encodeNode (root id : Int) : AgentM Int := do
  let node ← referNode id
  forceEnd id node
  let a ← get
  appendAnnotationMember root "event" (.obj (a.pool.nodeAt id).value)
  return node.next

def encodeLoop (root : Int) : Nat → Int → AgentM Unit
  | 0, next => if next = invalidNode then pure () else throw .diverged
  | fuel + 1, next =>
    if next = invalidNode then pure ()
    else do
      let next' ← encodeNode root next
      encodeLoop root fuel next'

def getConstValue (id : Int) : AgentM Members := fun a => .ok (a.pool.nodeAt id).value a

/-- `EncodeTraceToJsonSpan`, with a round of its loop for every node of the pool. -/
def encodeTraceToJsonSpan (root : Int) : AgentM Members := do
  let a ← get
  if (a.pool.nodeAt root).isRootNode then
    encodeLoop root (a.pool.maxId.toNat + 1) (a.pool.nodeAt root).next
    modifyNode root (·.runUserOptionFunc)
    getConstValue root
  else getConstValue root

/-- `TrySendSpan` and the raw span handler; `raises` says whether one of them throws. -/
def trySendSpan (span : Members) (raises : Bool) : AgentM Unit := do
  modify fun a => { a with spans := a.spans ++ [span] }
  if raises then throw .sendFailed else pure ()

def sendSpanTrace (rootId : Int) (raises : Bool) : AgentM Unit := do
  let _ ← referNode rootId
  let span ← encodeTraceToJsonSpan rootId
  trySendSpan span raises

def freeNodeTree (root : Int) : AgentM Unit := fun a =>
  match a.pool.freeNodeTree root with
  | some p => .ok () { a with pool := p }
  | none => .error .diverged a

/-- `EndTrace` of a root up to the release: a passing trace is ended and sent, any other
dropped. -/
def deliverRoot (id : Int) (raises : Bool) : AgentM Unit := do
  let a ← get
  if (a.pool.rootExtra id).status = tracePass then
    endTraceNode id
    sendSpanTrace id raises
  else pure ()

def endRoot (id : Int) (raises : Bool) : AgentM Int := do
  deliverRoot id raises
  freeNodeTree id
  return rootNode

def endTrace (id : Int) (raises : Bool) : AgentM Int := do
  let node ← referNode id
  if node.isRootNode then endRoot id raises
  else
    endTraceNode id
    return node.parentId

/-- `GetWrapperTraceNode`: the node itself, or its root when `flag` is `E_LOC_ROOT`. -/
def getWrapperTraceNode (id : Int) (flag : Int) : AgentM Int := do
  let node ← referNode id
  if flag = 1 then
    let _ ← referNode node.rootId
    return node.rootId
  else return id

def notInternalKey (key : String) : AgentM Unit :=
  if key.toList.head? = some ':' then throw (.internalKey key) else pure ()

def annotateTraceV1 (id : Int) (key value : String) (flag : Int) : AgentM Unit := do
  notInternalKey key
  let node ← getWrapperTraceNode id flag
  modifyNode node (·.addAnnotationMember key (.str value))

def annotateTraceV2 (id : Int) (key value : String) (flag : Int) : AgentM Unit := do
  notInternalKey key
  let node ← getWrapperTraceNode id flag
  appendAnnotationMember node "anno" (.str (key ++ ":" ++ value))

def annotateErrorTrace (id : Int) (msg file : String) (line : Nat) : AgentM Unit := do
  let root ← getWrapperTraceNode id 1
  modifyNode root (·.addAnnotationMember "ERR"
    (.obj [("msg", .str msg), ("file", .str file), ("line", .uint line)]))

/-- The members of an `EXP_V2` annotation taken at `now`, its offset a `uint64`. -/
def exceptionMembers (exception : String) (now start : Nat) : Members :=
  [("M", .str exception), ("C", .str "class"), (":S", .uint (wordSub 64 now start))]

def annotateExceptionTrace (id : Int) (exception : String) : AgentM Unit := do
  let node ← getWrapperTraceNode id 0
  modifyNode node ({ · with setExp := true })
  let root ← getWrapperTraceNode id 1
  modifyNode root ({ · with setExp := true })
  let now ← getUnixTimeMs
  let a ← get
  modifyNode node (·.addAnnotationMember "EXP_V2"
    (.obj (exceptionMembers exception now (a.pool.nodeAt root).traceStartTime)))

def addTraceContext (id : Int) (key value : String) : AgentM Unit := do
  let root ← getWrapperTraceNode id 1
  modifyNode root fun n => { n with contextMap := (key, value) :: n.contextMap }

def setAsyncContext (id : Int) (asyncNodeId nodeSequence : Int) : AgentM Unit := do
  let root ← getWrapperTraceNode id 1
  modifyNode root (·.addAnnotationMember "asy" (.obj [("id", .int asyncNodeId), ("seq", .int nodeSequence)]))

def changeTraceStatus (id : Int) (status : Int) : AgentM Int := do
  let node ← referNode id
  let _ ← referNode node.rootId
  let a ← get
  let older := a.pool.rootExtra node.rootId
  modifyNode node.rootId fun n => { n with rootNodeExtra := some { older with status := status } }
  return older.status

def isRootTrace (id : Int) : AgentM Bool := do
  let node ← referNode id
  return node.isRootNode

def getDepth (id : Int) : AgentM Int := do
  let node ← referNode id
  return node.depth

def getSequenceId (id : Int) : AgentM Int := do
  let node ← getWrapperTraceNode id 0
  let a ← get
  return (a.pool.nodeAt node).sequence

/-- `GetTraceContext`: the length it reports and what it writes to the buffer, if there is a
buffer (`hasBuf`) and the value fits. -/
def getTraceContext (id : Int) (key : String) (hasBuf : Bool) (bufSize : Int) :
    AgentM (Int × Option String) := do
  let root ← getWrapperTraceNode id 1
  let a ← get
  match (a.pool.nodeAt root).contextMap.lookup key with
  | none => throw .noContext
  | some value =>
    let size := toSigned 32 value.utf8ByteSize
    if hasBuf = true ∧ size < bufSize then return (size, some value) else return (-1, none)

inductive ApiCall where
  | startTrace (parentId : Int) (opts : List String)
  | endTrace (id : Int) (raises : Bool)
  | addClue (id : Int) (key value : String) (flag : Int)
  | addClues (id : Int) (key value : String) (flag : Int)
  | addException (id : Int) (exception : String)
  | catchError (id : Int) (msg file : String) (line : Nat)
  | setContextKey (id : Int) (key value : String)
  | setAsyncCtx (id : Int) (asyncNodeId nodeSequence : Int)
  | changeTraceStatus (id : Int) (status : Int)

def after (a : Agent) : ApiCall → Agent
  | .startTrace parentId opts => finalState (Agent.startTrace parentId opts) a
  | .endTrace id raises => finalState (Agent.endTrace id raises) a
  | .addClue id key value flag => finalState (annotateTraceV1 id key value flag) a
  | .addClues id key value flag => finalState (annotateTraceV2 id key value flag) a
  | .addException id exception => finalState (annotateExceptionTrace id exception) a
  | .catchError id msg file line => finalState (annotateErrorTrace id msg file line) a
  | .setContextKey id key value => finalState (addTraceContext id key value) a
  | .setAsyncCtx id asyncNodeId nodeSequence =>
    finalState (setAsyncContext id asyncNodeId nodeSequence) a
  | .changeTraceStatus id status => finalState (Agent.changeTraceStatus id status) a

def pinpointStartTraceV1 (a : Agent) (parentId : Int) (opts : List String) : Int × Agent :=
  match startTrace parentId opts a with
  | .ok id a' => (id, a')
  | .error _ a' => (invalidNode, a')

def pinpointEndTrace (a : Agent) (id : Int) (raises : Bool) : Int × Agent :=
  match endTrace id raises a with
  | .ok parent a' => (parent, a')
  | .error _ a' => (invalidNode, a')

/-- The loop of `pinpoint_force_end_trace`; `diverged` when `fuel` rounds do not end it. -/
def forceEndLoop (raises : Bool) : Nat → Int → AgentM Unit
  | 0, id => if id = rootNode then pure () else throw .diverged
  | fuel + 1, id =>
    if id = rootNode then pure ()
    else do
      let id ← endTrace id raises
      if id = invalidNode then pure () else forceEndLoop raises fuel id

def pinpointForceEndTrace (a : Agent) (id : Int) (raises : Bool) : Int × Agent :=
  match forceEndLoop raises (a.pool.maxId.toNat + 1) id a with
  | .ok _ a' => (rootNode, a')
  | .error _ a' => (invalidNode, a')

def pinpointTraceIsRoot (a : Agent) (id : Int) : Int :=
  if id = rootNode then -1
  else match isRootTrace id a with
    | .ok isRoot _ => if isRoot then 1 else 0
    | .error _ _ => -1

def pinpointGetDepth (a : Agent) (id : Int) : Int :=
  if id = rootNode then -1
  else match getDepth id a with
    | .ok depth _ => depth
    | .error _ _ => -1

def pinpointGetSequenceId (a : Agent) (id : Int) : Int :=
  match getSequenceId id a with
  | .ok sequence _ => sequence
  | .error _ _ => -1

/-- `pinpoint_get_context_key`: a key that is not set is an exception and reported as 0. -/
def pinpointGetContextKey (a : Agent) (id : Int) (key : String) (hasBuf : Bool) (bufSize : Int) :
    Int × Option String :=
  match getTraceContext id key hasBuf bufSize a with
  | .ok result _ => result
  | .error _ _ => (0, none)

end Agent

end PinpointAgent
