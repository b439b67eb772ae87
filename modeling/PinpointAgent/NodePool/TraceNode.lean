import Mathlib.Data.List.Basic
import PinpointAgent.Framework.JsonTree
import PinpointAgent.Framework.Word

/-!
# Trace nodes

`TraceNode` holds one node of a trace: its links in the trace tree (`root_id_`,
`parent_id_`, `next_`, `depth_`, `sequence_`), its times, and the JSON object that becomes
a span or a span event. A node that was upgraded to a root also carries
`RootTraceNodeExtra`. Machine times are `uint64` words and the elapsed time is an `int64`;
identifiers and counters never leave the `int32` range (the pool holds at most 12928
nodes), so they are integers here. Annotations are the members of a JSON object, of which
only the lookup by key matters; jsoncpp's `append` refuses a member that is neither null nor
an array, and the exception it throws is `AgentError.notAppendable`.
-/

namespace PinpointAgent.NodePool

open Framework

abbrev invalidNode : Int := -1

abbrev rootNode : Int := 0

/-- `E_TRACE_PASS`; every other status drops the span. -/
abbrev tracePass : Int := 2

inductive AgentError where
  | invalidNodeId
  | idZero
  | notAlive (id : Int)
  | poolLimit
  | internalKey (key : String)
  | badNumber
  | notAppendable
  | noContext
  | sendFailed
  /-- Not an exception: a loop of the source that does not end. -/
  | diverged
  deriving DecidableEq, Repr

abbrev Json := JsonTree String

/-- The members of a JSON object; of two entries of one key the first counts. -/
abbrev Members := List (String × Json)

namespace Members

def get (m : Members) (key : String) : Json := (m.lookup key).getD .null

def set (m : Members) (key : String) (v : Json) : Members := (key, v) :: m

def append (m : Members) (key : String) (v : Json) : Option Members :=
  match m.get key with
  | .null => some (m.set key (.arr [v]))
  | .arr items => some (m.set key (.arr (items ++ [v])))
  | _ => none

@[simp] theorem get_nil (key : String) : get [] key = .null := rfl

@[simp] theorem get_set_self (m : Members) (key : String) (v : Json) :
    (m.set key v).get key = v := by
  simp [get, set]

@[simp] theorem get_set_of_ne (m : Members) {key other : String} (v : Json) (h : other ≠ key) :
    (m.set key v).get other = m.get other := by
  simp [get, set, List.lookup_cons, beq_false_of_ne h]

end Members

def Json.Appendable : Json → Prop
  | .null | .arr _ => True
  | _ => False

instance Json.decidableAppendable (v : Json) : Decidable v.Appendable := by
  cases v <;> simp only [Json.Appendable] <;> infer_instance

theorem Members.append_eq_none_iff (m : Members) (key : String) (v : Json) :
    m.append key v = none ↔ ¬(m.get key).Appendable := by
  unfold append
  cases m.get key <;> simp [Json.Appendable]

def Json.items : Json → List Json
  | .arr items => items
  | _ => []

theorem Members.append_of_appendable (m : Members) (key : String) (v : Json)
    (h : (m.get key).Appendable) : m.append key v = some (m.set key (.arr ((m.get key).items ++ [v]))) := by
  unfold append
  cases hget : m.get key <;> simp_all [Json.Appendable, Json.items]

inductive UserOption where
  | traceMinTimeMs (min : Int)
  | traceOnlyException
  deriving DecidableEq, Repr

structure RootTraceNodeExtra where
  last : Int := invalidNode
  status : Int := tracePass
  sequence : Int := 0
  deriving DecidableEq, Repr

structure TraceNode where
  rootId : Int := invalidNode
  parentId : Int := invalidNode
  id : Int := invalidNode
  next : Int := invalidNode
  depth : Int := 1
  sequence : Int := -1
  traceStartTime : Nat := 0
  preTraceTime : Nat := 0
  expiredTime : Int := -1
  setExp : Bool := false
  referenceCount : Int := 0
  rootNodeExtra : Option RootTraceNodeExtra := none
  value : Members := []
  contextMap : List (String × String) := []
  userOptionalSetting : List UserOption := []
  skipped : Bool := false

namespace TraceNode

/-- `Reset`: a recycled node keeps `depth_`, `sequence_` and `skipped_` of its last use. -/
def reset (n : TraceNode) (id : Int) : TraceNode :=
  { n with
    id := id, rootId := invalidNode, parentId := invalidNode, next := invalidNode
    preTraceTime := 0, traceStartTime := 0, expiredTime := -1, referenceCount := 0
    rootNodeExtra := none, userOptionalSetting := [], value := [], contextMap := []
    setExp := false }

def addAnnotationMember (n : TraceNode) (key : String) (v : Json) : TraceNode :=
  { n with value := n.value.set key v }

def upgradeToRootNode (n : TraceNode) (agentType : Int) : TraceNode :=
  { n with
    rootNodeExtra := some {}, rootId := n.id, parentId := n.id, next := invalidNode
    depth := 0, sequence := 0 }.addAnnotationMember ":FT" (.int agentType)

def isRootNode (n : TraceNode) : Bool := n.rootId == n.id

def startTrace (n : TraceNode) (now : Nat) : TraceNode := { n with traceStartTime := now }

/-- What `EndTrace` stores in `:E`: the elapsed time as an `int64`. -/
def elapsed (n : TraceNode) (now : Nat) : Int :=
  toSigned 64 (wordSub 64 now n.traceStartTime)

/-- What `EndTrace` stores in `:S`: the start offset as a `uint64`. -/
def startOffset (n : TraceNode) : Nat := wordSub 64 n.traceStartTime n.preTraceTime

def endMembers (n : TraceNode) (now : Nat) : Members :=
  let timed := (n.value.set ":E" (.int (n.elapsed now))).set ":S" (.uint n.startOffset)
  let marked := if n.setExp then timed.set "EA" (.int 1) else timed
  if n.rootNodeExtra.isNone then
    (marked.set ":seq" (.int n.sequence)).set ":depth" (.int n.depth)
  else marked

def endTrace (n : TraceNode) (now : Nat) : TraceNode :=
  { n with expiredTime := n.elapsed now, value := n.endMembers now }

theorem stamp_fields (n : TraceNode) (expired : Int) (members : Members) :
    { n with expiredTime := expired, value := members }.traceStartTime = n.traceStartTime ∧
    { n with expiredTime := expired, value := members }.preTraceTime = n.preTraceTime ∧
    { n with expiredTime := expired, value := members }.isRootNode = n.isRootNode ∧
    { n with expiredTime := expired, value := members }.value = members := ⟨rfl, rfl, rfl, rfl⟩

theorem endTrace_fields (n : TraceNode) (now : Nat) :
    (n.endTrace now).traceStartTime = n.traceStartTime ∧
    (n.endTrace now).preTraceTime = n.preTraceTime ∧
    (n.endTrace now).isRootNode = n.isRootNode ∧ (n.endTrace now).value = n.endMembers now :=
  n.stamp_fields (n.elapsed now) (n.endMembers now)

def bindParentTrace (n parent : TraceNode) : TraceNode :=
  { n with parentId := parent.id, depth := parent.depth + 1 }

def runCallback (n : TraceNode) : UserOption → Bool × TraceNode
  | .traceMinTimeMs min =>
    if min ≤ n.expiredTime then (true, n) else (false, { n with skipped := true })
  | .traceOnlyException => (n.setExp, { n with skipped := !n.setExp })

/-- The loop of `runUserOptionFunc`, with its variable `ret`: the callbacks run until one of them answers true. -/
def callbackLoop (ret : Bool) (n : TraceNode) : List UserOption → Bool × TraceNode
  | [] => (ret, n)
  | cb :: rest =>
    if (n.runCallback cb).1 then n.runCallback cb
    else callbackLoop (n.runCallback cb).1 (n.runCallback cb).2 rest

/-- `runUserOptionFunc` with its answer. -/
def runUserOptionFuncAnswer (n : TraceNode) : Bool × TraceNode :=
  callbackLoop true n n.userOptionalSetting

def runUserOptionFunc (n : TraceNode) : TraceNode := n.runUserOptionFuncAnswer.2

end TraceNode

def isSpace (c : Char) : Bool := c == ' ' || (9 ≤ c.toNat && c.toNat ≤ 13)

/-- `std::stoll` in base ten: leading blanks, a sign, then as many digits as there are;
`none` where it throws. -/
def stoll (text : List Char) : Option Int :=
  let body := text.dropWhile isSpace
  let negative := body.head? == some '-'
  let digits := (if negative || body.head? == some '+' then body.drop 1 else body).takeWhile
    Char.isDigit
  let magnitude : Int := digits.foldl (fun n c => 10 * n + (c.toNat - 48 : Nat)) 0
  let number := if negative then -magnitude else magnitude
  if digits.isEmpty then none
  else if -9223372036854775808 ≤ number ∧ number < 9223372036854775808 then some number
  else none

namespace TraceNode

def parseUserOption (n : TraceNode) (key value : List Char) : Option TraceNode :=
  if key = "TraceMinTimeMs".toList then
    (stoll value).map fun min =>
      { n with userOptionalSetting := n.userOptionalSetting ++ [.traceMinTimeMs min] }
  else if key = "TraceOnlyException".toList then
    some { n with userOptionalSetting := n.userOptionalSetting ++ [.traceOnlyException] }
  else some n

/-- One option of `setNodeUserOption`, cut at the first colon. -/
def addUserOption (n : TraceNode) (opt : String) : Option TraceNode :=
  n.parseUserOption (opt.toList.takeWhile (· ≠ ':')) ((opt.toList.dropWhile (· ≠ ':')).drop 1)

/-- `setNodeUserOption`: the node with the options it took, and whether one of them threw. -/
def setNodeUserOption (n : TraceNode) : List String → TraceNode × Bool
  | [] => (n, false)
  | opt :: rest =>
    match n.addUserOption opt with
    | none => (n, true)
    | some n' => n'.setNodeUserOption rest

end TraceNode

end PinpointAgent.NodePool
