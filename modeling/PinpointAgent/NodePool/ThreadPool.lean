import Mathlib.Data.Fintype.Basic
import PinpointAgent.Framework.Interleaving
import PinpointAgent.NodePool.PoolManager
/-!
# The node pool under several threads

In the build with `PINPOINT_MT` all threads share one `ThreadSafePoolManager`: `ReferNode`,
`GetNode` and `returnNode` each hold the pool's lock, and nothing holds it from one of them to
the next. A call of `StartTrace` or `EndTrace` is therefore a sequence of such sections, and
other threads run theirs in between. A `WrapperTraceNodePtr` counts a reference to its node as
long as it is in scope; `ReturnNode` waits for the count to become zero, a thousand times, and
then returns the node by force.

Node identifiers say nothing about the trace they were handed out for. The model keeps that
beside the pool: traces are numbered in the order their roots are started, and `traceOf` is the
trace of the node that an identifier stands for now. Times and annotations play no part here.
-/

namespace PinpointAgent.NodePool

open Framework

def PoolManager.addReference (p : PoolManager) (id : Int) : PoolManager :=
  p.modifyNode id fun n => { n with referenceCount := n.referenceCount + 1 }

def PoolManager.decReference (p : PoolManager) (id : Int) : PoolManager :=
  p.modifyNode id fun n => { n with referenceCount := n.referenceCount - 1 }

/-- Where a thread stands; `trace` is the trace of the call's argument when it was referred to. -/
inductive CallState where
  | resting
  /-- `StartTrace(p)` after `ReferNode(p)`. -/
  | parentHeld (p : Int) (trace : Nat)
  /-- `StartTrace(p)` after `ReferNode(parent->root_id_)`. -/
  | rootHeld (p root : Int) (trace : Nat)
  /-- `StartTrace(p)` after `GetNode` and `BindParentTrace`. -/
  | nodeMade (p root new : Int) (trace : Nat)
  /-- `EndTrace(r)` of a root after `ReferNode(r)`. -/
  | ending (r : Int) (trace : Nat)
  /-- The end of a scope: the references still to be dropped, and the tree to free after that. -/
  | leaving (refs : List Int) (tree : Option (Int × Nat))
  /-- `FreeNodeTree` before an attempt to return `id`, with the attempts left before force. -/
  | returning (id : Int) (tries : Nat) (trace : Nat)
  deriving DecidableEq

namespace CallState

def held : CallState → List Int
  | .parentHeld p _ => [p]
  | .rootHeld p root _ | .nodeMade p root _ _ => [root, p]
  | .ending r _ => [r]
  | .leaving refs _ => refs
  | .resting | .returning .. => []

def made : CallState → Option Int
  | .nodeMade _ _ new _ => some new
  | _ => none

def toReturn : CallState → Option Int
  | .returning id _ _ => some id
  | _ => none

/-- The loop of `FreeNodeTree` before its next round. -/
def walkOn (next : Int) (trace : Nat) : CallState :=
  if next = invalidNode then .resting else .returning next 1000 trace

/-- What follows when the references `refs` are left to drop. -/
def leave (refs : List Int) (tree : Option (Int × Nat)) : CallState :=
  match refs, tree with
  | [], none => .resting
  | [], some (r, trace) => if r = rootNode then .resting else walkOn r trace
  | _ :: _, _ => .leaving refs tree

end CallState

structure ThreadPool (ι : Type) where
  pool : PoolManager
  call : ι → CallState
  agentType : Int
  traceOf : Int → Nat
  /-- The number of traces started so far. -/
  traces : Nat
  /-- For every node that `StartTrace` appended: the trace of its parent and that of the chain. -/
  attached : List (Nat × Nat)
  /-- For every node that `EndTrace` freed: the trace it was to end and that of the node. -/
  freed : List (Nat × Nat)

/-- The sections of the calls of thread `i`, in the order of the source. -/
inductive ThreadEvent (ι : Type) where
  | startRoot (i : ι)
  | referParent (i : ι) (p : Int)
  | referRoot (i : ι)
  | getNode (i : ι)
  | append (i : ι)
  | referEnd (i : ι) (r : Int)
  /-- The span is encoded and sent; `false` when that throws. -/
  | encode (i : ι) (ok : Bool)
  | drop (i : ι)
  | returnNode (i : ι)

namespace ThreadPool

variable {ι : Type} [DecidableEq ι]

def new (agentType : Int) : ThreadPool ι :=
  ⟨.new, fun _ => .resting, agentType, fun _ => 0, 0, [], []⟩

def setCall (s : ThreadPool ι) (i : ι) (c : CallState) : ThreadPool ι :=
  { s with call := Function.update s.call i c }

def adopt (s : ThreadPool ι) (id : Int) (trace : Nat) (pool : PoolManager) : ThreadPool ι :=
  { s with pool := pool, traceOf := Function.update s.traceOf id trace }

def startRoot (s : ThreadPool ι) : ThreadPool ι :=
  match s.pool.getReadyNode with
  | .error _ => s
  | .ok (id, q) =>
    { s.adopt id s.traces (q.modifyNode id (·.upgradeToRootNode s.agentType)) with
      traces := s.traces + 1 }

/-- `ReferNode(id)` by thread `i`, which goes on in `found` or, after the exception, in `lost`. -/
def refer (s : ThreadPool ι) (i : ι) (id : Int) (found : TraceNode → CallState)
    (lost : CallState) : ThreadPool ι :=
  match s.pool.getUsedNode id with
  | .error _ => s.setCall i lost
  | .ok n => { s with pool := s.pool.addReference id }.setCall i (found n)

/-- `GetNode`, `BindParentTrace` of `StartTrace(p)`. -/
def getNode (s : ThreadPool ι) (i : ι) (p root : Int) (trace : Nat) : ThreadPool ι :=
  match s.pool.getReadyNode with
  | .error _ => s.setCall i (.leave [root, p] none)
  | .ok (id, q) =>
    (s.adopt id trace (q.modifyNode id (·.bindParentTrace (q.nodeAt p)))).setCall i
      (.nodeMade p root id trace)

/-- `AppendToRootTrace` under the root's lock. -/
def append (s : ThreadPool ι) (i : ι) (p root new : Int) (trace : Nat) : ThreadPool ι :=
  match s.pool.appendToRootTrace root new with
  | (.error _, q) => { s with pool := q }.setCall i (.leave [root, p] none)
  | (.ok _, q) =>
    { s with pool := q, attached := (trace, s.traceOf root) :: s.attached }.setCall i
      (.leave [root, p] none)

/-- One attempt of `ReturnNode(id)`, by force when no other is left. -/
def returnNode (s : ThreadPool ι) (i : ι) (id : Int) (tries trace : Nat) : ThreadPool ι :=
  let attempt := s.pool.returnNode id invalidNode (tries == 0)
  let freed := if s.pool.Live id ∧ attempt.1 = true then (trace, s.traceOf id) :: s.freed else s.freed
  { s with pool := attempt.2.2, freed := freed }.setCall i
    (if attempt.1 then .walkOn attempt.2.1 trace else .returning id (tries - 1) trace)

def step (s : ThreadPool ι) : ThreadEvent ι → Option (ThreadPool ι)
  | .startRoot i =>
    match s.call i with
    | .resting => some s.startRoot
    | _ => none
  | .referParent i p =>
    match s.call i with
    | .resting => some (s.refer i p (fun _ => .parentHeld p (s.traceOf p)) .resting)
    | _ => none
  | .referRoot i =>
    match s.call i with
    | .parentHeld p trace =>
      let root := (s.pool.nodeAt p).rootId
      some (s.refer i root (fun _ => .rootHeld p root trace) (.leave [p] none))
    | _ => none
  | .getNode i =>
    match s.call i with
    | .rootHeld p root trace => some (s.getNode i p root trace)
    | _ => none
  | .append i =>
    match s.call i with
    | .nodeMade p root new trace => some (s.append i p root new trace)
    | _ => none
  | .referEnd i r =>
    match s.call i with
    | .resting =>
      -- the end of a child stamps its times and frees nothing
      some (s.refer i r
        (fun n => if n.isRootNode then .ending r (s.traceOf r) else .leave [r] none) .resting)
    | _ => none
  | .encode i ok =>
    match s.call i with
    | .ending r trace => some (s.setCall i (.leave [r] (if ok then some (r, trace) else none)))
    | _ => none
  | .drop i =>
    match s.call i with
    | .leaving (id :: refs) tree =>
      some ({ s with pool := s.pool.decReference id }.setCall i (.leave refs tree))
    | _ => none
  | .returnNode i =>
    match s.call i with
    | .returning id tries trace => some (s.returnNode i id tries trace)
    | _ => none

def nextId (s : ThreadPool ι) : Int :=
  match s.pool.freeNodeList with
  | index :: _ => index + 1
  | [] => s.pool.maxId + cellSize

/-- Nothing stands to be looked up or returned under the number `id`: no live node has it as
its root and no call is about to return it. -/
def Retired (s : ThreadPool ι) (id : Int) : Prop :=
  (∀ n, s.pool.Live n → (s.pool.nodeAt n).rootId ≠ id) ∧ ∀ i, (s.call i).toReturn ≠ some id

/-- A number is handed out only when it is retired, and no node is returned by force while it
is referred to. -/
def Careful (s : ThreadPool ι) : ThreadEvent ι → Prop
  | .startRoot _ | .getNode _ => s.Retired s.nextId
  | .returnNode i =>
    match s.call i with
    | .returning id 0 _ => s.pool.Live id → (s.pool.nodeAt id).referenceCount = 0
    | _ => True
  | _ => True

private theorem live_in_range {p : PoolManager} {n : Int} (h : p.Live n) :
    ∃ k ∈ List.range p.maxId.toNat, n = (k : Int) + 1 := by
  obtain ⟨hlo, hhi, -⟩ := PoolManager.live_iff.1 h
  exact ⟨(n - 1).toNat, List.mem_range.2 (by omega), by omega⟩

private theorem forall_live_iff {p : PoolManager} {P : Int → Prop} :
    (∀ k ∈ List.range p.maxId.toNat, p.Live ((k : Int) + 1) → P (k + 1)) ↔ ∀ n, p.Live n → P n := by
  constructor
  · intro h n hlive
    obtain ⟨k, hk, rfl⟩ := live_in_range hlive
    exact h k hk hlive
  · intro h k _ hlive
    exact h _ hlive

instance decidableRetired [Fintype ι] (s : ThreadPool ι) (id : Int) : Decidable (s.Retired id) :=
  decidable_of_iff
    ((∀ k ∈ List.range s.pool.maxId.toNat, s.pool.Live ((k : Int) + 1) →
      (s.pool.nodeAt (k + 1)).rootId ≠ id) ∧ ∀ i, (s.call i).toReturn ≠ some id)
    (and_congr_left' (forall_live_iff (P := fun n => (s.pool.nodeAt n).rootId ≠ id)))

instance decidableCareful [Fintype ι] (s : ThreadPool ι) : (e : ThreadEvent ι) → Decidable (s.Careful e)
  | .startRoot _ | .getNode _ => inferInstanceAs (Decidable (s.Retired _))
  | .returnNode i =>
    match hcall : s.call i with
    | .returning id 0 _ =>
      decidable_of_iff (s.pool.Live id → (s.pool.nodeAt id).referenceCount = 0) (by simp [Careful, hcall])
    | .returning _ (_ + 1) _ | .resting | .parentHeld .. | .rootHeld .. | .nodeMade .. | .ending ..
    | .leaving .. => isTrue (by simp [Careful, hcall])
  | .referParent .. | .referRoot _ | .append _ | .referEnd .. | .encode .. | .drop _ => isTrue trivial

end ThreadPool

end PinpointAgent.NodePool
