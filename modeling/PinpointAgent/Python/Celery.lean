import PinpointAgent.Framework.Dict
import PinpointAgent.Python.ContextKeys
import PinpointAgent.Python.Decorators

/-!
# Tasks sent through Celery

A decorated task's `apply_async` puts six ids into the keyword arguments of the task, wherever the
caller passed them; on the worker, `CeleryWorkerPlugin` takes them out again, puts its own trace under
them and calls the task. One way of passing the arguments is not covered: with the positional arguments
of the task alone, `apply_async(args)`, a new empty dictionary is appended in place of the ids, and the
worker starts a trace of its own.

Celery itself is the binding of `args` and `kwargs` to the parameters of `apply_async`: what is bound
is what the worker calls the task with.
-/

namespace PinpointAgent.Python

open Framework NodePool Agent

inductive PyVal where
  | none
  | bool (b : Bool)
  | int (n : Int)
  | str (text : PyStr)
  | list (items : List PyVal)
  | dict (entries : List (String × PyVal))
  | object

namespace PyVal

/-- The format `s`. -/
def asStr : PyVal → Option PyStr
  | .str text => some text
  | _ => Option.none

/-- The format `i`: a number that fits an `int`, or a boolean, which is a number. -/
def asInt : PyVal → Option Int
  | .int n => if -2147483648 ≤ n ∧ n < 2147483648 then some n else Option.none
  | .bool b => some (if b then 1 else 0)
  | _ => Option.none

def ofKey : KeyResult → PyVal
  | .str value => .str value
  | .no => .bool false
  | .overrun => .object

/-- `value.update(entries)`; only a dictionary has the method. -/
def update (entries : List (String × PyVal)) : PyVal → Option PyVal
  | .dict d => some (.dict (Dict.update d entries))
  | _ => Option.none

end PyVal

variable {ε α : Type}

def Env.onValues (env : Env ε PyVal α) : Env ε PyVal α :=
  { env with asStr := PyVal.asStr, asInt := PyVal.asInt }

/-! ## The caller -/

def getContext (key : String) (traceId : Int) : PyM ε PyVal := do
  return .ofKey (← getContextKey (.ofString key) traceId)

def getSequenceId (traceId : Int) : PyM ε Int := do
  let s ← get
  return toSigned 32 (s.thread.agent.pinpointGetSequenceId (s.resolve traceId))

def genPinpointId (traceId : Int) (asyncId : Int) : PyM ε (List (String × PyVal)) := do
  let sequenceId ← getSequenceId traceId
  let tid ← getContext "tid" traceId
  let spanId ← getContext "sid" traceId
  let appName ← getContext "appname" traceId
  let appId ← getContext "appid" traceId
  return [("_pp_tid_", tid), ("_pp_span_id_", spanId), ("_pp_app_name_", appName), ("_pp_app_id_", appId),
    ("_pp_sequence_id_", .int sequenceId), ("_pp_async_id_", .int asyncId)]

/-- The branches of `CeleryParasInjection_async_Plugin.onBefore`; `none` is an `AttributeError`. -/
def injectIds (pinKwargs : List (String × PyVal)) (args : Args PyVal) : Option (Args PyVal) :=
  match args.get? "kwargs" with
  | some origin => (origin.update pinKwargs).map (args.set "kwargs")
  | none =>
    if (args.get? "args").isSome then
      some { args with keywords := args.keywords ++ [("kwargs", .dict pinKwargs)] }
    else
      match args.positional with
      | [] => some { args with positional := [.list [], .dict pinKwargs] }
      | [arg] => some { args with positional := [arg, .dict []] }
      | arg :: origin :: rest =>
        (origin.update pinKwargs).map fun origin => { args with positional := arg :: origin :: rest }

def orRaise : Option (Args PyVal) → PyM ε (Args PyVal)
  | some args => pure args
  | none => throw .inLibrary

/-- The plugin that wraps `apply_async`; `asyncId` is what `random.randint(0, 9999)` returned. -/
def celeryParasInjectionAsyncPlugin (env : Env ε PyVal α) (asyncId : Fin 10000) : PinTrace ε PyVal α :=
  { pinpointCommonPlugin env with
    onBefore parentId args := do
      let (traceId, args) ← (pinpointCommonPlugin env).onBefore parentId args
      addNotes traceId [.header "stp" (.ofString "100"), .header "asyId" (.ofString (Nat.repr asyncId))]
      let pinKwargs ← genPinpointId traceId asyncId
      let args ← orRaise (injectIds pinKwargs args)
      return (traceId, args) }

/-- `CeleryCallerPlugin`, which names the plugin after the task. -/
def celeryCallerPlugin (env : Env ε PyVal α) (asyncId : Fin 10000) : PinTrace ε PyVal α :=
  celeryParasInjectionAsyncPlugin
    { env with name := .ofString "celery.caller." ++ env.funcName ++ .ofString ".apply_async" } asyncId

/-! ## What Celery makes of the call -/

/-- What is bound to a parameter with a default; the outer `none` is a `TypeError`. -/
def Args.param (args : Args PyVal) (position : Nat) (name : String) : Option (Option PyVal) :=
  match args.positional[position]?, args.get? name with
  | some _, some _ => none
  | some value, none => some (some value)
  | none, passed => some passed

def taskArgs : Option PyVal → Option (List PyVal)
  | none | some .none => some []
  | some (.list items) => some items
  | _ => none

def taskKwargs : Option PyVal → Option (List (String × PyVal))
  | none | some .none => some []
  | some (.dict entries) => some entries
  | _ => none

/-- The arguments of the task in `apply_async(args=None, kwargs=None, ...)`. -/
def Args.invocation (args : Args PyVal) : Option (Args PyVal) := do
  let positional ← taskArgs (← args.param 0 "args")
  let keywords ← taskKwargs (← args.param 1 "kwargs")
  return ⟨positional, keywords⟩

/-- The ways of passing the arguments that the plugin covers: not `apply_async(args)`, and no `None` in
place of the keyword arguments. -/
structure Args.Carries (args : Args PyVal) : Prop where
  not_alone : ¬(args.positional.length = 1 ∧ args.get? "kwargs" = none)
  not_none : args.param 1 "kwargs" ≠ some (some .none)

section Invocation

variable {args args' original : Args PyVal} {pinKwargs : List (String × PyVal)}

private theorem invocation_eq_some_iff : args.invocation = some original ↔
    ∃ passedArgs passedKwargs, args.param 0 "args" = some passedArgs ∧
      taskArgs passedArgs = some original.positional ∧ args.param 1 "kwargs" = some passedKwargs ∧
      taskKwargs passedKwargs = some original.keywords := by
  constructor
  · intro h
    obtain ⟨passedArgs, hparam, h⟩ := Option.bind_eq_some_iff.1 h
    obtain ⟨positional, htask, h⟩ := Option.bind_eq_some_iff.1 h
    obtain ⟨passedKwargs, hparam', h⟩ := Option.bind_eq_some_iff.1 h
    obtain ⟨keywords, htask', h⟩ := Option.bind_eq_some_iff.1 h
    obtain rfl := Option.some.inj h
    exact ⟨passedArgs, passedKwargs, hparam, htask, hparam', htask'⟩
  · rintro ⟨passedArgs, passedKwargs, hparam, htask, hparam', htask'⟩
    rw [Args.invocation, hparam, hparam']
    simp only [Option.bind_eq_bind, Option.bind_some, htask, htask']
    rfl

private theorem param_of_keyword {position : Nat} {name : String} {value : PyVal} {passed : Option PyVal}
    (hget : args.get? name = some value) (h : args.param position name = some passed) :
    args.positional[position]? = none ∧ passed = some value := by
  rw [Args.param, hget] at h
  cases hpos : args.positional[position]? with
  | some other =>
    rw [hpos] at h
    exact nomatch h
  | none =>
    rw [hpos] at h
    exact ⟨rfl, (Option.some.inj h).symm⟩

private theorem param_of_not_keyword {position : Nat} {name : String} (hget : args.get? name = none) :
    args.param position name = some args.positional[position]? := by
  rw [Args.param, hget]
  cases args.positional[position]? with
  | some value => rfl
  | none => rfl

private theorem dict_of_taskKwargs {value : PyVal} {entries : List (String × PyVal)}
    (h : taskKwargs (some value) = some entries) (hne : value ≠ .none) : value = .dict entries := by
  cases value with
  | none => exact absurd rfl hne
  | dict d => exact congrArg PyVal.dict (Option.some.inj h)
  | bool _ | int _ | str _ | list _ | object => exact nomatch h

theorem get?_set_self (key : String) (value : PyVal) : (args.set key value).get? key = some value :=
  Dict.lookup_setItem_self args.keywords key value

private theorem get?_set_of_ne {key other : String} {value : PyVal} (h : other ≠ key) :
    (args.set key value).get? other = args.get? other :=
  Dict.lookup_setItem_of_ne h

private theorem invocation_of_params {passedArgs : Option PyVal} {entries : List (String × PyVal)}
    (hparam : args'.param 0 "args" = some passedArgs) (htask : taskArgs passedArgs = some original.positional)
    (hparam' : args'.param 1 "kwargs" = some (some (.dict entries))) :
    args'.invocation = some { original with keywords := entries } :=
  invocation_eq_some_iff.2 ⟨passedArgs, _, hparam, htask, hparam', rfl⟩

private theorem invocation_set_kwargs {old : PyVal} (entries : List (String × PyVal))
    (hinv : args.invocation = some original) (hkwargs : args.get? "kwargs" = some old) :
    (args.set "kwargs" (.dict entries)).invocation = some { original with keywords := entries } := by
  obtain ⟨passedArgs, passedKwargs, hparam, htask, hparam', -⟩ := invocation_eq_some_iff.1 hinv
  have hpos : (args.set "kwargs" (.dict entries)).positional[1]? = none := (param_of_keyword hkwargs hparam').1
  refine invocation_of_params ?_ htask ?_
  · rw [Args.param, get?_set_of_ne (by decide)]
    exact hparam
  · rw [Args.param, hpos, get?_set_self]

private theorem invocation_append_kwargs {given : PyVal} (entries : List (String × PyVal))
    (hinv : args.invocation = some original) (hargs : args.get? "args" = some given)
    (hkwargs : args.get? "kwargs" = none) :
    original.keywords = [] ∧ Args.invocation ⟨args.positional, args.keywords ++ [("kwargs", .dict entries)]⟩ =
      some { original with keywords := entries } := by
  obtain ⟨passedArgs, passedKwargs, hparam, htask, hparam', htask'⟩ := invocation_eq_some_iff.1 hinv
  obtain ⟨hpos, rfl⟩ := param_of_keyword hargs hparam
  have hnil : args.positional = [] := by simpa using hpos
  rw [param_of_not_keyword hkwargs, hnil] at hparam'
  obtain rfl := Option.some.inj hparam'
  refine ⟨(Option.some.inj htask').symm, invocation_of_params ?_ htask ?_⟩
  · rw [Args.param, Args.get?, List.lookup_append, ← Args.get?, hargs, hnil]
    rfl
  · rw [Args.param, Args.get?, Dict.lookup_append_of_none _ hkwargs, hnil]
    rfl

theorem injectIds_of_carries (hinv : args.invocation = some original) (hnodup : (pinKwargs.map Prod.fst).Nodup)
    (h : args.Carries) : ∃ args', injectIds pinKwargs args = some args' ∧
      args'.invocation = some { original with keywords := Dict.update original.keywords pinKwargs } := by
  have hempty : Dict.update [] pinKwargs = pinKwargs := Dict.update_of_fresh hnodup fun _ _ => rfl
  obtain ⟨passedArgs, passedKwargs, hparam, htask, hparam', htask'⟩ := invocation_eq_some_iff.1 hinv
  rw [injectIds]
  cases hkwargs : args.get? "kwargs" with
  | some origin =>
    obtain ⟨-, rfl⟩ := param_of_keyword hkwargs hparam'
    obtain rfl := dict_of_taskKwargs htask' fun heq => h.not_none (heq ▸ hparam')
    exact ⟨_, rfl, invocation_set_kwargs _ hinv hkwargs⟩
  | none =>
    rw [param_of_not_keyword hkwargs] at hparam'
    obtain rfl := Option.some.inj hparam'
    cases hargs : args.get? "args" with
    | some given =>
      obtain ⟨hkeywords, hafter⟩ := invocation_append_kwargs pinKwargs hinv hargs hkwargs
      rw [hkeywords, hempty]
      exact ⟨_, rfl, hafter⟩
    | none =>
      rw [param_of_not_keyword hargs] at hparam
      obtain rfl := Option.some.inj hparam
      cases hpos : args.positional with
      | nil =>
        rw [hpos] at htask htask'
        have hkeywords : original.keywords = [] := (Option.some.inj htask').symm
        rw [hkeywords, hempty]
        exact ⟨_, rfl, invocation_of_params (param_of_not_keyword hargs) htask (param_of_not_keyword hkwargs)⟩
      | cons arg rest =>
        cases rest with
        | nil => exact absurd ⟨congrArg List.length hpos, hkwargs⟩ h.not_alone
        | cons origin rest =>
          rw [hpos] at htask htask'
          have hne : origin ≠ .none := by
            rintro rfl
            exact h.not_none (by rw [param_of_not_keyword hkwargs, hpos]; rfl)
          obtain rfl := dict_of_taskKwargs htask' hne
          exact ⟨_, rfl, invocation_of_params (param_of_not_keyword hargs) htask (param_of_not_keyword hkwargs)⟩

private theorem get?_args_of_positional {arg : PyVal} {rest : List PyVal} (hinv : args.invocation = some original)
    (hpos : args.positional = arg :: rest) : args.get? "args" = none := by
  obtain ⟨passedArgs, -, hparam, -⟩ := invocation_eq_some_iff.1 hinv
  cases hargs : args.get? "args" with
  | none => rfl
  | some given =>
    have hnone := (param_of_keyword hargs hparam).1
    rw [hpos] at hnone
    exact nomatch hnone

private theorem injectIds_alone (pinKwargs : List (String × PyVal)) {arg : PyVal} (hinv : args.invocation = some original)
    (hpos : args.positional = [arg]) (hkwargs : args.get? "kwargs" = none) :
    injectIds pinKwargs args = some ⟨[arg, .dict []], args.keywords⟩ ∧
      Args.invocation ⟨[arg, .dict []], args.keywords⟩ = some { original with keywords := [] } := by
  have hargs := get?_args_of_positional hinv hpos
  obtain ⟨passedArgs, passedKwargs, hparam, htask, -⟩ := invocation_eq_some_iff.1 hinv
  rw [param_of_not_keyword hargs, hpos] at hparam
  obtain rfl := Option.some.inj hparam
  constructor
  · simp only [injectIds, hkwargs, hargs, hpos, Option.isSome_none, Bool.false_eq_true, if_false]
  · exact invocation_of_params (param_of_not_keyword hargs) htask (param_of_not_keyword hkwargs)

private theorem injectIds_of_none (hinv : args.invocation = some original)
    (hnone : args.param 1 "kwargs" = some (some .none)) : injectIds pinKwargs args = none := by
  cases hkwargs : args.get? "kwargs" with
  | some origin =>
    obtain ⟨-, horigin⟩ := param_of_keyword hkwargs hnone
    obtain rfl := Option.some.inj horigin
    simp only [injectIds, hkwargs]
    rfl
  | none =>
    rw [param_of_not_keyword hkwargs, Option.some.injEq] at hnone
    obtain ⟨arg, rest, hpos⟩ : ∃ arg rest, args.positional = arg :: .none :: rest := by
      cases hpos : args.positional with
      | nil => simp [hpos] at hnone
      | cons arg rest =>
        cases rest with
        | nil => simp [hpos] at hnone
        | cons origin rest =>
          rw [hpos] at hnone
          obtain rfl : origin = .none := Option.some.inj hnone
          exact ⟨arg, rest, rfl⟩
    have hargs := get?_args_of_positional hinv hpos
    simp only [injectIds, hkwargs, hargs, hpos, Option.isSome_none, Bool.false_eq_true, if_false]
    rfl

theorem injectIds_of_not_carries (hinv : args.invocation = some original) (h : ¬args.Carries)
    (hinject : injectIds pinKwargs args = some args') :
    args'.invocation = some { original with keywords := [] } := by
  by_cases halone : args.positional.length = 1 ∧ args.get? "kwargs" = none
  · obtain ⟨arg, hpos⟩ := List.length_eq_one_iff.1 halone.1
    obtain ⟨hinject', hinvocation⟩ := injectIds_alone pinKwargs hinv hpos halone.2
    obtain rfl := Option.some.inj (hinject.symm.trans hinject')
    exact hinvocation
  · have hnone : args.param 1 "kwargs" = some (some .none) := by
      by_contra hne
      exact h ⟨halone, hne⟩
    rw [injectIds_of_none hinv hnone] at hinject
    exact nomatch hinject

end Invocation

end PinpointAgent.Python
