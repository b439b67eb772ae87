import PinpointAgent.Agent.PhpRequest
import PinpointAgent.Agent.SpanNumbers
import PinpointAgent.Framework.Logged
import PinpointAgent.Python.CeleryRoundTrip

/-!
# Trees of traced calls

A function that a request runs is a `Func`: its own code and the wrapped functions that it calls, one
after the other and one inside the other, with what it does once it knows how each of them ended. Its
code and the hooks of the plugins may do whatever starts and ends no node of the transaction, and other
threads may take and free nodes meanwhile.

`Func.run` is the run of the decorated functions. `Func.logged` also writes down which nodes were
started and ended and what the trace context was around each call; without the log it is `Func.run`.
-/

namespace PinpointAgent.Agent

open Framework NodePool

variable {w : World} {t : Trace} {id : Int}

/-- The node is one of the trace of `root`. -/
def InTrace (a : Agent) (root id : Int) : Prop := a.pool.Live id ∧ (a.pool.nodeAt id).rootId = root

/-- The calls start and end no node of the trace of `root`. -/
def Apart (root : Int) : Agent → List ApiCall → Prop
  | _, [] => True
  | a, call :: calls => (call.Annotates ∨ ¬a.InTrace root call.node) ∧ Apart root (a.after call) calls

private theorem Apart.append {root : Int} {a : Agent} {calls calls' : List ApiCall} (h : Apart root a calls)
    (h' : Apart root (calls.foldl Agent.after a) calls') : Apart root a (calls ++ calls') := by
  induction calls generalizing a with
  | nil => exact h'
  | cons call calls ih => exact ⟨h.1, ih h.2 h'⟩

namespace World

private theorem parentOf_startTrace (h : w.Ok) (parentId : Int) (opts : List String) (hlive : w.agent.pool.Live id) :
    (w.agent.after (.startTrace parentId opts)).parentOf id = w.agent.parentOf id := by
  obtain ⟨new, a', hstart, hstarted⟩ | ⟨e, hstart, -⟩ := startNode_spec h.holds parentId
  · obtain ⟨next, extra, hnode⟩ := hstarted.kept id hlive
    rw [parentOf_of_view (view_after_startTrace opts hstart), parentOf, hnode]
    rfl
  · rw [after_startTrace_of_error opts hstart]

private theorem parentOf_endTrace (h : w.Ok) (node : Int) (raises : Bool) (id : Int) :
    (w.agent.after (.endTrace node raises)).parentOf id = w.agent.parentOf id := by
  by_cases hroot : ∃ t ∈ w.forest, t.root = node
  · obtain ⟨t, ht, rfl⟩ := hroot
    have hspec := endTrace_root h.holds ht raises
    split at hspec
    · -- the nodes go back to the free list as they are
      obtain ⟨b, q, -, hview, hend, -, -, hnodes, -⟩ := hspec
      have hagent : w.agent.after (.endTrace t.root raises) = { b with pool := q } := finalState_of_ok hend
      rw [hagent, ← parentOf_of_view hview, parentOf, parentOf, PoolManager.nodeAt, PoolManager.nodeAt, hnodes]
    · obtain ⟨e, b, -, hview, hend, -⟩ := hspec
      have hagent : w.agent.after (.endTrace t.root raises) = b := finalState_of_error hend
      rw [hagent, parentOf_of_view hview]
  · have hne : ∀ t ∈ w.forest, t.root ≠ node := fun t ht heq => hroot ⟨t, ht, heq⟩
    exact congrFun (parentOf_of_view (endTrace_other h.holds hne raises)) id

private theorem parentOf_after (h : w.Ok) (call : ApiCall) (hlive : w.agent.pool.Live id) :
    (w.agent.after call).parentOf id = w.agent.parentOf id := by
  by_cases hcall : call.Annotates
  · rw [parentOf_of_view (PhpRequest.view_after_annotates h.holds hcall)]
  cases call with
  | startTrace parentId opts => exact parentOf_startTrace h parentId opts hlive
  | endTrace node raises => exact parentOf_endTrace h node raises id
  | _ => exact absurd trivial hcall

theorem mem_nextForest (ht : t ∈ w.forest) {call : ApiCall} (hcall : call.Annotates ∨ call.node ∉ t.nodes) :
    t ∈ w.nextForest call := by
  cases call with
  | startTrace parentId opts =>
    have hout : parentId ∉ t.nodes := hcall.resolve_left id
    cases hstart : startNode parentId w.agent with
    | ok new a' =>
      simp only [nextForest, hstart, Forest.start]
      split
      · exact List.mem_append_left _ ht
      · exact List.mem_map.2 ⟨t, ht, if_neg hout⟩
    | error e a' =>
      simp only [nextForest, hstart]
      exact ht
  | endTrace node raises =>
    have hout : node ∉ t.nodes := hcall.resolve_left id
    cases hend : Agent.endTrace node raises w.agent with
    | ok parent a' =>
      simp only [nextForest, hend, Forest.finish]
      refine List.mem_filter.2 ⟨ht, decide_eq_true ?_⟩
      rintro rfl
      exact hout List.mem_cons_self
    | error e a' =>
      simp only [nextForest, hend]
      exact ht
  | _ => exact ht

end World

end PinpointAgent.Agent

namespace PinpointAgent.Python

open Framework NodePool Agent

/-! ## A thread in a transaction -/

/-- Only calls were made, by this thread or by others, that start and end no node of the trace of `root`. -/
def Quiet (root : Int) (s s' : PyState) : Prop := ∃ calls, s' = s.made calls ∧ Apart root s.thread.agent calls

theorem Quiet.refl (root : Int) (s : PyState) : Quiet root s s := ⟨[], rfl, trivial⟩

private theorem Quiet.trans {root : Int} (s s' s'' : PyState) (h : Quiet root s s') (h' : Quiet root s' s'') :
    Quiet root s s'' := by
  obtain ⟨calls, rfl, hcalls⟩ := h
  obtain ⟨calls', rfl, hcalls'⟩ := h'
  exact ⟨calls ++ calls', made_made s calls calls', hcalls.append hcalls'⟩

/-- The thread is in the transaction of the trace `t`: its context names a node of `t` or none, and it has
no trace of its own in the extension. -/
structure Inside (f : Forest) (t : NodePool.Trace) (s : PyState) : Prop where
  ok : World.Ok ⟨s.thread.agent, f⟩
  mem : t ∈ f
  context : s.parentId ≤ 0 ∨ s.parentId ∈ t.nodes
  perThread : s.thread.perThreadId ≤ 0

def SameParents (t : NodePool.Trace) (s s' : PyState) : Prop :=
  ∀ id ∈ t.nodes, s'.thread.agent.parentOf id = s.thread.agent.parentOf id

section Inside

variable {f : Forest} {t : NodePool.Trace} {s s' : PyState} {id : Int}

theorem Inside.live (h : Inside f t s) (hid : id ∈ t.nodes) : s.thread.agent.pool.Live id :=
  h.ok.holds.live_of_mem h.mem hid

private theorem Inside.made (h : Inside f t s) {calls : List ApiCall} (hcalls : Apart t.root s.thread.agent calls) :
    (∃ f', Inside f' t (s.made calls)) ∧ SameParents t s (s.made calls) := by
  induction calls generalizing s f with
  | nil => exact ⟨⟨f, h⟩, fun _ _ => rfl⟩
  | cons call calls ih =>
    have hout : call.Annotates ∨ call.node ∉ t.nodes := hcalls.1.imp_right fun hnot hmem =>
      hnot ⟨h.live hmem, ((h.ok.holds.ok t h.mem).node_ids hmem).2⟩
    have hstep : Inside (World.nextForest ⟨s.thread.agent, f⟩ call) t (s.made [call]) :=
      ⟨h.ok.step call, World.mem_nextForest h.mem hout, h.context, h.perThread⟩
    obtain ⟨hrest, hsame⟩ := ih hstep hcalls.2
    refine ⟨hrest, fun id hid => (hsame id hid).trans ?_⟩
    exact World.parentOf_after h.ok call (h.live hid)

theorem Inside.quiet (h : Inside f t s) (hquiet : Quiet t.root s s') :
    (∃ f', Inside f' t s') ∧ s'.parentId = s.parentId ∧ SameParents t s s' := by
  obtain ⟨calls, rfl, hcalls⟩ := hquiet
  obtain ⟨hinside, hsame⟩ := h.made hcalls
  exact ⟨hinside, rfl, hsame⟩

def grown (t : NodePool.Trace) (id : Int) : NodePool.Trace := { t with kids := t.kids ++ [id] }

theorem mem_grown {other : Int} : other ∈ (grown t id).nodes ↔ other ∈ t.nodes ∨ other = id := by
  simp only [grown, NodePool.Trace.nodes, List.mem_cons, List.mem_append, List.not_mem_nil, or_false, or_assoc]

/-- A start under the node of the context makes a new node of the trace the context, or fails and leaves
`-1` there. -/
theorem Inside.start (h : Inside f t s) (hpos : 0 < s.parentId) :
    ((∃ f', Inside f' (grown t (s.started s.parentId).parentId) (s.started s.parentId)) ∧
      (s.started s.parentId).parentId ∉ t.nodes ∧ 0 < (s.started s.parentId).parentId ∧
      (s.started s.parentId).thread.agent.parentOf (s.started s.parentId).parentId = s.parentId ∧
      SameParents t s (s.started s.parentId)) ∨
    s.started s.parentId = ⟨s.thread, invalidNode⟩ := by
  have hmem : s.parentId ∈ t.nodes := h.context.resolve_left (by omega)
  have hne : s.parentId ≠ rootNode := (h.live hmem).ne_rootNode
  rw [started_eq (show s.parentId ≠ -1 by omega)]
  obtain ⟨id, a', hstart, hstarted⟩ | ⟨e, hstart, -⟩ := startNode_spec h.ok.holds s.parentId
  · left
    have hid : (s.thread.agent.pinpointStartTraceV1 s.parentId []).1 = id :=
      startTraceV1_of_ok hstart (.inr fun _ hopt => absurd hopt List.not_mem_nil)
    have hok := h.ok.step (.startTrace s.parentId [])
    rw [World.step, World.nextForest_startTrace (w := ⟨s.thread.agent, f⟩) [] hstart] at hok
    have hmem' : grown t id ∈ f.start s.parentId id := by
      rw [Forest.start, if_neg hne]
      exact List.mem_map.2 ⟨t, h.mem, if_pos hmem⟩
    have hnew : id ∈ (grown t id).nodes := mem_grown.2 (.inr rfl)
    rw [hid, pinpointStartTraceV1_agent]
    refine ⟨⟨_, hok, hmem', .inr hnew, h.perThread⟩, fun hold => hstarted.dead (h.live hold),
      (hok.holds.live_of_mem hmem' hnew).pos, ?_, fun other hother => World.parentOf_after h.ok _ (h.live hother)⟩
    have hself := ((h.ok.holds.ok t h.mem).node_ids hmem).1
    change (s.thread.agent.after (.startTrace s.parentId [])).parentOf id = s.parentId
    rw [parentOf_of_view (World.view_after_startTrace [] hstart), parentOf]
    obtain ⟨n, ⟨hroot, -⟩ | ⟨_, -, -, sequence, hnode⟩⟩ := hstarted.node
    · exact absurd hroot hne
    · rw [hnode]
      exact hself
  · right
    rw [startTraceV1_of_error hstart]

theorem Inside.of_world {w : World} (h : w.Ok) (hs : s.thread.agent = w.agent) (ht : t ∈ w.forest)
    (hcontext : s.parentId ∈ t.nodes) (hthread : s.thread.perThreadId ≤ 0) : Inside w.forest t s :=
  ⟨by rw [hs]; exact h, ht, .inr hcontext, hthread⟩

end Inside

/-! ## The tree of calls -/

/-- What a class derived from `PinTrace` adds to its methods: the code of `onBefore` in front of
`super().onBefore` and after it, the code of `onEnd` in front of `super().onEnd`, and `onException`. -/
structure Plugin (root : Int) (ε ν α : Type) where
  before : Int → Args ν → PyM ε (Args ν)
  after : Int → Args ν → PyM ε (Args ν)
  ending : Int → α → PyM ε Unit
  onException : Int → Raised ε → PyM ε Unit
  before_quiet : ∀ parentId args, Moves (Quiet root) (before parentId args)
  after_quiet : ∀ traceId args, Moves (Quiet root) (after traceId args)
  ending_quiet : ∀ traceId ret, Moves (Quiet root) (ending traceId ret)
  ending_returns : ∀ traceId ret, Returns (ending traceId ret) fun _ => True
  onException_quiet : ∀ traceId e, Moves (Quiet root) (onException traceId e)

/-- A function of the application: its own code, which ends no node of the transaction and starts none,
and the wrapped functions that it calls, with what it does once it knows how each of them ended. -/
inductive Func (root : Int) (ε ν α : Type) where
  | done (outcome : Except (Raised ε) α)
  | work (code : PyM ε α) (quiet : Moves (Quiet root) code) (rest : Except (Raised ε) α → Func root ε ν α)
  | call (plugin : Plugin root ε ν α) (args : Args ν) (func : Args ν → Func root ε ν α)
    (rest : Except (Raised ε) α → Func root ε ν α)

variable {ε ν α : Type} {root : Int}

def Plugin.toPinTrace (p : Plugin root ε ν α) (env : Env ε ν α) : PinTrace ε ν α :=
  { basePinTrace env with
    onBefore parentId args := do
      let args ← p.before parentId args
      let (traceId, args) ← (basePinTrace env).onBefore parentId args
      let args ← p.after traceId args
      return (traceId, args)
    onEnd traceId ret := do
      p.ending traceId ret
      (basePinTrace env).onEnd traceId ret
    onException := p.onException }

section Quiet

private theorem Quiet.of_stays {c : PyM ε α} (h : ∀ s, finalState c s = s) : Moves (Quiet root) c := by
  intro s
  rw [h s]
  exact .refl root s

private theorem quiet_callAgent {call : PyState → ApiCall} (h : ∀ s, (call s).Annotates) :
    Moves (Quiet root) (callAgent call : PyM ε Unit) := fun s => ⟨[call s], rfl, .inl (h s), trivial⟩

private theorem quiet_parseString (text : PyStr) : Moves (Quiet root) (parseString text : PyM ε String) := by
  apply Quiet.of_stays
  intro s
  unfold parseString
  split <;> rfl

private theorem quiet_addNote (traceId : Int) (note : Note) : Moves (Quiet root) (addNote traceId note : PyM ε Unit) := by
  refine Moves.bind Quiet.trans (quiet_parseString _) fun value => quiet_callAgent fun s => ?_
  cases note with
  | header key text => exact trivial
  | context key text => exact trivial

private theorem quiet_addNotes (traceId : Int) (notes : List Note) :
    Moves (Quiet root) (addNotes traceId notes : PyM ε Unit) := by
  induction notes with
  | nil => exact Quiet.of_stays fun _ => rfl
  | cons note notes ih => exact Moves.bind Quiet.trans (quiet_addNote traceId note) fun _ => ih

private theorem quiet_describe (env : Env ε ν α) (e : Raised ε) : Moves (Quiet root) (env.describe e) := by
  apply Quiet.of_stays
  intro s
  cases e with
  | app e =>
    cases hstr : env.str e <;>
    · simp only [Env.describe, hstr]
      rfl
  | _ => rfl

def commonPlugin (root : Int) (env : Env ε ν α) : Plugin root ε ν α where
  before _ args := pure args
  after traceId args := do
    addNotes traceId [.header "name" env.getUniqueName, .header "stp" (.ofString "1701")]
    return args
  ending _ _ := pure ()
  onException traceId e := do
    addException (← env.describe e) traceId
    throw e
  before_quiet _ _ := Quiet.of_stays fun _ => rfl
  after_quiet traceId _ := Moves.bind Quiet.trans (quiet_addNotes traceId _) fun _ => Quiet.of_stays fun _ => rfl
  ending_quiet _ _ := Quiet.of_stays fun _ => rfl
  ending_returns _ _ := Returns.pure trivial
  onException_quiet traceId e := by
    refine Moves.bind Quiet.trans (quiet_describe env e) fun text => Moves.bind Quiet.trans ?_ fun _ =>
      Quiet.of_stays fun _ => rfl
    exact Moves.bind Quiet.trans (quiet_parseString text) fun _ => quiet_callAgent fun _ => trivial

end Quiet

def Func.run (env : Env ε ν α) : Func root ε ν α → PyM ε α
  | .done outcome => ofOutcome outcome
  | .work code _ rest => do
    let outcome ← attempt code
    (rest outcome).run env
  | .call plugin args func rest => do
    let outcome ← attempt ((plugin.toPinTrace env).call env (fun args => (func args).run env) args)
    (rest outcome).run env

/-! ## The log of a run -/

inductive Event where
  | started (id : Int)
  | startFailed
  /-- `onBefore` raised after it had started its node. -/
  | hookRaised
  | ended (id : Int)
  deriving DecidableEq

/-- A wrapped call: the context's parent id before and after it, and what happened during it. -/
structure CallRecord where
  before : Int
  after : Int
  events : List Event
  deriving DecidableEq

structure CallLog where
  events : List Event
  records : List CallRecord

def CallLog.add (log : CallLog) (events : List Event) : CallLog := { log with events := log.events ++ events }

abbrev LogM (ε : Type) := EStateM (Raised ε) (PyState × CallLog)

def startEvent (id : Int) : Event := if id = -1 then .startFailed else .started id

def endEvents (sendRaises : Bool) (id : Int) (s : PyState) : List Event :=
  match Agent.endTrace (s.resolve id) sendRaises s.thread.agent with
  | .ok _ _ => [.ended (s.resolve id)]
  | .error _ _ => []

def loggedStart (parentId : Int) : LogM ε Int := do
  let id ← unlogged (withTrace parentId)
  note fun s => s.2.add [startEvent id]
  return id

def loggedEnd (sendRaises : Bool) (traceId : Int) : LogM ε Int := do
  note fun s => s.2.add (endEvents sendRaises traceId s.1)
  unlogged (endTrace sendRaises traceId)

def baseOnBefore (env : Env ε ν α) (parentId : Int) (args : Args ν) : LogM ε (Int × Args ν) := do
  let traceId ← loggedStart parentId
  unlogged (setParentId env.contextSet traceId)
  return (traceId, args)

def baseOnEnd (env : Env ε ν α) (traceId : Int) : LogM ε Unit := do
  let parentId ← loggedEnd env.sendRaises traceId
  unlogged (setParentId env.contextSet parentId)

namespace Plugin

variable (p : Plugin root ε ν α) (env : Env ε ν α)

def loggedOnBefore (parentId : Int) (args : Args ν) : LogM ε (Int × Args ν) := do
  let args ← unlogged (p.before parentId args)
  let (traceId, args) ← baseOnBefore env parentId args
  let args ← noteError (·.add [.hookRaised]) (p.after traceId args)
  return (traceId, args)

def loggedOnEnd (traceId : Int) (ret : α) : LogM ε Unit := do
  unlogged (p.ending traceId ret)
  baseOnEnd env traceId

def loggedCall (func : Args ν → LogM ε α) (args : Args ν) : LogM ε α := do
  let (sampled, parentId, nArgs) ← unlogged ((basePinTrace env).isSample args)
  if !sampled then func nArgs
  else
    let (traceId, nArgs) ← p.loggedOnBefore env parentId nArgs
    tryFinally
      (tryExcept env.catches (func nArgs) fun e => do
        unlogged (p.onException traceId e)
        throw e)
      fun ret => p.loggedOnEnd env traceId (ret.getD env.pyNone)

end Plugin

def recorded (call : LogM ε α) : LogM ε α :=
  within (fun log => ⟨[], log.records⟩)
    (fun s s' => ⟨s.2.events ++ s'.2.events,
      s'.2.records ++ [⟨s.1.parentId, s'.1.parentId, s'.2.events⟩]⟩) call

def Func.logged (env : Env ε ν α) : Func root ε ν α → LogM ε α
  | .done outcome => ofOutcome outcome
  | .work code _ rest => do
    let outcome ← attempt (unlogged code)
    (rest outcome).logged env
  | .call plugin args func rest => do
    let outcome ← attempt (recorded (plugin.loggedCall env (fun args => (func args).logged env) args))
    (rest outcome).logged env

section Erasure

variable {env : Env ε ν α}

private theorem erases_loggedStart (parentId : Int) : Erases (loggedStart parentId : LogM ε Int) (withTrace parentId) :=
  fun _ => rfl

private theorem erases_loggedEnd (sendRaises : Bool) (traceId : Int) :
    Erases (loggedEnd sendRaises traceId : LogM ε Int) (endTrace sendRaises traceId) :=
  Erases.note_bind _ (.unlogged _)

private theorem erases_baseOnBefore (parentId : Int) (args : Args ν) :
    Erases (baseOnBefore env parentId args) ((basePinTrace env).onBefore parentId args) :=
  (erases_loggedStart parentId).bind fun _ => (Erases.unlogged _).bind fun _ => .pure _

private theorem erases_baseOnEnd (traceId : Int) (ret : α) :
    Erases (baseOnEnd env traceId) ((basePinTrace env).onEnd traceId ret) :=
  (erases_loggedEnd env.sendRaises traceId).bind fun _ => .unlogged _

variable {p : Plugin root ε ν α}

private theorem erases_loggedCall {func : Args ν → LogM ε α} {func' : Args ν → PyM ε α}
    (h : ∀ args, Erases (func args) (func' args)) (args : Args ν) :
    Erases (p.loggedCall env func args) ((p.toPinTrace env).call env func' args) := by
  have hbefore (parentId : Int) (args : Args ν) :
      Erases (p.loggedOnBefore env parentId args) ((p.toPinTrace env).onBefore parentId args) :=
    (Erases.unlogged _).bind fun _ => (erases_baseOnBefore _ _).bind fun _ =>
      (Erases.noteError _ _).bind fun _ => .pure _
  have hend (traceId : Int) (ret : α) :
      Erases (p.loggedOnEnd env traceId ret) ((p.toPinTrace env).onEnd traceId ret) :=
    (Erases.unlogged _).bind fun _ => erases_baseOnEnd traceId ret
  refine Erases.bind (Erases.unlogged _) ?_
  rintro ⟨sampled, parentId, nArgs⟩
  cases sampled with
  | false => exact h nArgs
  | true =>
    refine Erases.bind (hbefore parentId nArgs) ?_
    rintro ⟨traceId, nArgs⟩
    refine Erases.tryFinally (.tryExcept (h nArgs) fun e => ?_) fun ret => hend traceId _
    exact (Erases.unlogged _).bind fun _ => .throw e

theorem Func.erases (g : Func root ε ν α) : Erases (g.logged env) (g.run env) := by
  induction g with
  | done outcome => exact .ofOutcome outcome
  | work code quiet rest ih => exact (Erases.unlogged code).attempt.bind ih
  | call plugin args func rest ihfunc ihrest =>
    exact ((erases_loggedCall ihfunc args).within _ _).attempt.bind ihrest

end Erasure

end PinpointAgent.Python
