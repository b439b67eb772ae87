import PinpointAgent.Framework.Dict
import PinpointAgent.Python.Extension

/-!
# The decorators and what the application sees through them

`Trace`, `PinTrace` and `AsyncPinTrace` wrap a function between `onBefore` and `onEnd` and show its
exceptions to `onException`. A class that defines no `onException` inherits one that raises
`NotImplementedError`, which takes the place of the exception it was called for; and the last block of
`Trace` returns, which drops every exception. So of the shipped plugin classes only those that record
the exception with `add_exception` pass it on, and only if the extension takes its text.

A wrapped function is what it returns or raises for its arguments, with any effect on the tracer.
-/

namespace PinpointAgent.Python

open Framework NodePool Agent

structure Args (ν : Type) where
  positional : List ν
  keywords : List (String × ν)

namespace Args

variable {ν : Type}

def get? (args : Args ν) (key : String) : Option ν := args.keywords.lookup key

def erase (args : Args ν) (keys : List String) : Args ν :=
  { args with keywords := args.keywords.filter fun entry => !keys.contains entry.1 }

/-- `kwargs[key] = value` -/
def set (args : Args ν) (key : String) (value : ν) : Args ν :=
  { args with keywords := Dict.setItem args.keywords key value }

end Args

/-- A function of the application, with what it does to the tracer while it runs. -/
structure PyFunc (ε ν α : Type) where
  outcome : Args ν → Except ε α
  effect : Args ν → PyThread × Int → PyThread × Int

/-- What the decorators need to know of the interpreter, the application and the plugin's settings. -/
structure Env (ε ν α : Type) where
  /-- The exception is an `Exception`, not only a `BaseException`. -/
  isException : ε → Bool
  /-- `str(e)`, which may itself raise. -/
  str : ε → Except ε PyStr
  asStr : ν → Option PyStr
  asInt : ν → Option Int
  /-- The entry function that a hooked target is replaced by. -/
  newEntry : ν → ν
  pyNone : α
  isEngine : α → Bool
  none_not_engine : isEngine pyNone = false
  /-- What `event.listen` raises, if anything. -/
  listen : String → α → Option (Raised ε)
  /-- `set_trace_context` was called. -/
  contextSet : Bool
  name : PyStr
  funcName : PyStr
  appName : PyStr
  appId : PyStr
  sid : PyStr
  tid : PyStr
  asyncId : PyStr
  /-- The values that `HookTargetPlugins` reads from the context all decode. -/
  contextsDecode : Bool
  sendRaises : Bool

variable {ε ν α : Type}

def PyFunc.run (f : PyFunc ε ν α) (args : Args ν) : PyM ε α := fun s =>
  let after := f.effect args (s.thread, s.parentId)
  let s' : PyState := ⟨after.1, after.2⟩
  match f.outcome args with
  | .ok v => .ok v s'
  | .error e => .error (.app e) s'

namespace Env

variable (env : Env ε ν α)

def catches : Raised ε → Bool
  | .app e => env.isException e
  | .notImplemented _ | .badArgument | .missingKey _ | .inLibrary => true

def describe : Raised ε → PyM ε PyStr
  | .app e =>
    match env.str e with
    | .ok text => pure text
    | .error e' => throw (.app e')
  | .notImplemented method => pure (.ofString method)
  | .badArgument | .missingKey _ | .inLibrary => pure []

def getUniqueName : PyStr := if env.name = [] then env.funcName else env.name

end Env

/-- A class derived from `PinTrace`; the wrapper drops what `onEnd` returns. -/
structure PinTrace (ε ν α : Type) where
  isSample : Args ν → PyM ε (Bool × Int × Args ν)
  onBefore : Int → Args ν → PyM ε (Int × Args ν)
  onEnd : Int → α → PyM ε Unit
  onException : Int → Raised ε → PyM ε Unit

def PinTrace.call (self : PinTrace ε ν α) (env : Env ε ν α) (func : Args ν → PyM ε α) (args : Args ν) :
    PyM ε α := do
  let (sampled, parentId, nArgs) ← self.isSample args
  if !sampled then func nArgs
  else
    let (traceId, nArgs) ← self.onBefore parentId nArgs
    tryFinally
      (tryExcept env.catches (func nArgs) fun e => do
        self.onException traceId e
        throw e)
      fun ret => self.onEnd traceId (ret.getD env.pyNone)

/-- `AsyncPinTrace.__call__` awaits the function and is `PinTrace.__call__` otherwise. -/
def PinTrace.asyncCall (self : PinTrace ε ν α) (env : Env ε ν α) (func : Args ν → PyM ε α) (args : Args ν) :
    PyM ε α :=
  self.call env func args

/-- A class derived from `Trace`. -/
structure Trace (ε ν α : Type) where
  onBefore : Args ν → PyM ε (Args ν)
  onEnd : α → PyM ε α
  onException : Raised ε → PyM ε Unit

def Trace.call (self : Trace ε ν α) (env : Env ε ν α) (func : Args ν → PyM ε α) (args : Args ν) : PyM ε α :=
  tryReturn
    (tryExcept env.catches (self.onBefore args >>= func) fun e => do
      self.onException e
      -- the line that is logged has the exception in it
      let _ ← env.describe e
      throw e)
    fun ret => self.onEnd (ret.getD env.pyNone)

section Plugins

variable (env : Env ε ν α)

def basePinTrace : PinTrace ε ν α where
  isSample args := do
    let (ret, parentId) ← getParentId env.contextSet
    return if ret then (true, parentId, args) else (false, -1, args)
  onBefore parentId args := do
    let traceId ← withTrace parentId
    setParentId env.contextSet traceId
    return (traceId, args)
  onEnd traceId _ := do
    let parentId ← endTrace env.sendRaises traceId
    setParentId env.contextSet parentId
  onException _ _ := throw (.notImplemented "")

def pinpointCommonPlugin : PinTrace ε ν α :=
  { basePinTrace env with
    onBefore parentId args := do
      let (traceId, args) ← (basePinTrace env).onBefore parentId args
      addNotes traceId [.header "name" env.getUniqueName, .header "stp" (.ofString "1701")]
      return (traceId, args)
    onException traceId e := do
      addException (← env.describe e) traceId
      throw e }

def asyncCommonPlugin : PinTrace ε ν α :=
  { basePinTrace env with
    onBefore parentId args := do
      let (traceId, args) ← (basePinTrace env).onBefore parentId args
      addNotes traceId [.header "name" env.getUniqueName, .header "stp" (.ofString "1701")]
      return (traceId, args)
    onException traceId e := do
      addException (← env.describe e) traceId }

def hookTargetPlugins : PinTrace ε ν α :=
  { basePinTrace env with
    onBefore parentId args := do
      let (traceId, args) ← (basePinTrace env).onBefore parentId args
      addNotes traceId [.header "name" env.getUniqueName, .header "stp" (.ofString "100"),
        .header "asyId" env.asyncId]
      if !env.contextsDecode then throw .badArgument
      match args.get? "target" with
      | some target => return (traceId, args.set "target" (env.newEntry target))
      | none => return (traceId, args) }

def keyword (args : Args ν) (key : String) : PyM ε ν :=
  match args.get? key with
  | some value => pure value
  | none => throw (.missingKey key)

def asString (value : ν) : PyM ε PyStr :=
  match env.asStr value with
  | some text => pure text
  | none => throw .badArgument

def asInteger (value : ν) : PyM ε Int :=
  match env.asInt value with
  | some n => pure n
  | none => throw .badArgument

def injectedIds : List String :=
  ["_pp_tid_", "_pp_span_id_", "_pp_app_name_", "_pp_app_id_", "_pp_sequence_id_", "_pp_async_id_"]

def celeryNotes : List Note :=
  [.header "sid" env.sid, .context "sid" env.sid, .header "name" (.ofString "celery[worker]"),
    .header "appname" env.appName, .context "appname" env.appName, .header "appid" env.appId,
    .context "appid" env.appId, .header "uri" (.ofString "celery[worker]." ++ env.getUniqueName),
    .header "server" (.ofString "localhost"), .header "client" (.ofString "localhost"),
    .header "stp" (.ofString "1700"), .context "stp" (.ofString "1700"),
    .context "Pinpoint-Sampled" (.ofString "s1"), .header "ptype" (.ofString "1700"),
    .header "pname" env.appName, .header "Ah" (.ofString "localhost"), .header "tid" env.tid,
    .context "tid" env.tid]

def celeryWorkerPlugin : PinTrace ε ν α :=
  { basePinTrace env with
    isSample args := pure (true, 0, args)
    onBefore parentId args := do
      let (traceId, args) ← (basePinTrace env).onBefore parentId args
      match args.get? "_pp_tid_" with
      | none =>
        addNotes traceId (celeryNotes env)
        return (traceId, args)
      | some tid =>
        let spanId ← keyword args "_pp_span_id_"
        let ppName ← keyword args "_pp_app_name_"
        let ppId ← keyword args "_pp_app_id_"
        let ppSeqId ← keyword args "_pp_sequence_id_"
        let ppAsyncId ← keyword args "_pp_async_id_"
        let ppName ← asString env ppName
        addNotes traceId [.header "appname" ppName, .context "appname" ppName]
        let ppId ← asString env ppId
        addNotes traceId [.header "appid" ppId, .context "appid" ppId]
        let spanId ← asString env spanId
        addNotes traceId [.header "sid" spanId, .context "sid" spanId]
        let tid ← asString env tid
        addNotes traceId [.header "tid" tid, .context "tid" tid, .header "stp" (.ofString "1700")]
        setAsyncContext traceId (← asInteger env ppAsyncId) (← asInteger env ppSeqId)
        return (traceId, args.erase injectedIds) }

def createEnginePlugin : Trace ε ν α where
  onBefore args := pure args
  onEnd ret := do
    if env.isEngine ret then
      match env.listen "before_cursor_execute" ret with
      | some x => throw x
      | none => pure ()
      match env.listen "after_cursor_execute" ret with
      | some x => throw x
      | none => pure ()
    return ret
  onException _ := throw (.notImplemented "onException")

end Plugins

/-! ## What the function is called with -/

/-- The arguments that the wrapper calls the function with and the state it calls it in, if it gets
there. -/
def PinTrace.calls (self : PinTrace ε ν α) (args : Args ν) (s : PyState) : Option (Args ν × PyState) :=
  match self.isSample args s with
  | .ok (false, _, nArgs) s' => some (nArgs, s')
  | .ok (true, parentId, nArgs) s' =>
    match self.onBefore parentId nArgs s' with
    | .ok (_, nArgs) s'' => some (nArgs, s'')
    | .error .. => none
  | .error .. => none

section Calls

variable {env : Env ε ν α} {self : PinTrace ε ν α} {args nArgs : Args ν} {s s' : PyState}

theorem calls_of_onBefore {parentId traceId : Int} (hsample : self.isSample args s = .ok (true, parentId, args) s)
    (hbefore : self.onBefore parentId args s = .ok (traceId, nArgs) s') : self.calls args s = some (nArgs, s') := by
  simp only [PinTrace.calls, hsample, hbefore]

theorem onBefore_of_calls {parentId : Int} (hsample : self.isSample args s = .ok (true, parentId, args) s)
    (h : self.calls args s = some (nArgs, s')) : ∃ traceId, self.onBefore parentId args s = .ok (traceId, nArgs) s' := by
  simp only [PinTrace.calls, hsample] at h
  cases hbefore : self.onBefore parentId args s with
  | error e s'' =>
    rw [hbefore] at h
    exact nomatch h
  | ok result s'' =>
    rw [hbefore] at h
    obtain ⟨rfl, rfl⟩ := Prod.mk.inj (Option.some.inj h)
    exact ⟨result.1, rfl⟩

theorem call_of_onBefore {parentId traceId : Int} (hsample : self.isSample args s = .ok (true, parentId, args) s)
    (hbefore : self.onBefore parentId args s = .ok (traceId, nArgs) s') (func : Args ν → PyM ε α) :
    self.call env func args s = tryFinally
      (tryExcept env.catches (func nArgs) fun e => do
        self.onException traceId e
        throw e)
      (fun ret => self.onEnd traceId (ret.getD env.pyNone)) s' := by
  rw [PinTrace.call, bind_of_ok _ hsample]
  simp only [Bool.not_true, Bool.false_eq_true, if_false]
  rw [bind_of_ok _ hbefore]

/-- The thread and the trace context once a node was started. -/
def PyState.started (s : PyState) (parentId : Int) : PyState :=
  ⟨(pyStartTrace s.thread parentId).2, (pyStartTrace s.thread parentId).1⟩

theorem base_onBefore_eq (hctx : env.contextSet = true) (parentId : Int) (args : Args ν) (s : PyState) :
    (basePinTrace env).onBefore parentId args s =
      .ok ((s.started parentId).parentId, args) (s.started parentId) := by
  simp only [basePinTrace, setParentId, hctx, if_true]
  rfl

theorem contextSet_of_onBefore {parentId : Int} {r : Int × Args ν}
    (h : (basePinTrace env).onBefore parentId args s = .ok r s') : env.contextSet = true := by
  obtain ⟨traceId, t, -, hrest⟩ := bind_eq_ok h
  obtain ⟨_, t', hset, -⟩ := bind_eq_ok hrest
  by_contra hunset
  rw [setParentId, if_neg hunset] at hset
  cases hset

theorem base_isSample (hctx : env.contextSet = true) (args : Args ν) (s : PyState) :
    (basePinTrace env).isSample args s =
      .ok (if 0 < s.parentId then (true, s.parentId, args) else (false, -1, args)) s := by
  have hget : (getParentId env.contextSet : PyM ε (Bool × Int)) s =
      .ok (if 0 < s.parentId then (true, s.parentId) else (false, -1)) s := by
    rw [hctx]
    rfl
  refine (bind_of_ok _ hget).trans ?_
  split <;> rfl

end Calls

end PinpointAgent.Python
