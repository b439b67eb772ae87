import PinpointAgent.Python.Decorators

/-!
# When a decorator is transparent

A call through a decorator should return what the function returns, or raise the exception object that
the function raised. The shipped classes do that for functions that return; for those that raise it
comes down to what `onException` does with the exception, and to the last block of `Trace`.
-/

namespace PinpointAgent.Python

open Framework NodePool Agent

variable {ε ν α : Type}

/-- The call returns the value of the function, or raises the very exception it raised. -/
def Transparent (f : PyFunc ε ν α) (args : Args ν) (call : PyM ε α) (s : PyState) : Prop :=
  match f.outcome args with
  | .ok v => ∃ s', call s = .ok v s'
  | .error e => ∃ s', call s = .error (.app e) s'

/-- The shipped classes whose `onBefore` may pass the arguments on unchanged. -/
inductive Decorator where
  | createEnginePlugin
  | celeryWorkerPlugin
  | pinpointCommonPlugin
  | asyncCommonPlugin
  | hookTargetPlugins

namespace Decorator

def wrapped (d : Decorator) (env : Env ε ν α) (f : PyFunc ε ν α) (args : Args ν) : PyM ε α :=
  match d with
  | .createEnginePlugin => (Python.createEnginePlugin env).call env f.run args
  | .celeryWorkerPlugin => (Python.celeryWorkerPlugin env).call env f.run args
  | .pinpointCommonPlugin => (Python.pinpointCommonPlugin env).call env f.run args
  | .asyncCommonPlugin => (Python.asyncCommonPlugin env).asyncCall env f.run args
  | .hookTargetPlugins => (Python.hookTargetPlugins env).call env f.run args

/-- `onBefore` completes, if the call is sampled, and passes the arguments on unchanged. -/
def Passes (self : PinTrace ε ν α) (env : Env ε ν α) (args : Args ν) (s : PyState) : Prop :=
  env.contextSet = true ∧
    (0 < s.parentId → ∃ traceId s', self.onBefore s.parentId args s = .ok (traceId, args) s')

def BeforePasses (d : Decorator) (env : Env ε ν α) (args : Args ν) (s : PyState) : Prop :=
  match d with
  | .createEnginePlugin => True
  | .celeryWorkerPlugin => ∃ traceId s', (Python.celeryWorkerPlugin env).onBefore 0 args s = .ok (traceId, args) s'
  | .pinpointCommonPlugin => Passes (Python.pinpointCommonPlugin env) env args s
  | .asyncCommonPlugin => Passes (Python.asyncCommonPlugin env) env args s
  | .hookTargetPlugins => Passes (Python.hookTargetPlugins env) env args s

end Decorator

/-- The extension takes the text of the exception; or asking for the text raises the exception itself. -/
def Env.Describable (env : Env ε ν α) (e : ε) : Prop :=
  match env.str e with
  | .ok text => text.Passes
  | .error e' => e' = e

/-- The condition on the function, its arguments and the state before the call. -/
def Decorator.Meets (d : Decorator) (env : Env ε ν α) (f : PyFunc ε ν α) (args : Args ν) (s : PyState) : Prop :=
  match d with
  | .createEnginePlugin => ∃ v, f.outcome args = .ok v ∧ (env.isEngine v = true →
      env.listen "before_cursor_execute" v = none ∧ env.listen "after_cursor_execute" v = none)
  | .celeryWorkerPlugin => ∀ e, f.outcome args = .error e → env.isException e = false
  | .hookTargetPlugins => 0 < s.parentId → ∀ e, f.outcome args = .error e → env.isException e = false
  | .pinpointCommonPlugin | .asyncCommonPlugin =>
      0 < s.parentId → ∀ e, f.outcome args = .error e → env.isException e = true → env.Describable e

section Call

variable {env : Env ε ν α} {f : PyFunc ε ν α} {args : Args ν} {s s' : PyState} {self : PinTrace ε ν α}
  {traceId parentId : Int}

private theorem run_ok {v : α} (h : f.outcome args = .ok v) (s : PyState) : ∃ s', f.run args s = .ok v s' := by
  simp only [PyFunc.run, h]
  exact ⟨_, rfl⟩

private theorem run_error {e : ε} (h : f.outcome args = .error e) (s : PyState) :
    ∃ s', f.run args s = .error (.app e) s' := by
  simp only [PyFunc.run, h]
  exact ⟨_, rfl⟩

def PassesOn (r : EStateM.Result (Raised ε) PyState Unit) (e : ε) : Prop :=
  match r with
  | .ok _ _ => True
  | .error x _ => x = .app e

private theorem call_unsampled (hsample : self.isSample args s = .ok (false, parentId, args) s) :
    Transparent f args (self.call env f.run args) s := by
  have hcall : self.call env f.run args s = f.run args s := bind_of_ok _ hsample
  unfold Transparent
  rw [hcall]
  cases houtcome : f.outcome args with
  | ok v => exact run_ok houtcome s
  | error e => exact run_error houtcome s

/-- A sampled call is transparent if `onException` lets the exceptions of the function go on; `own` says
for which of them it does. -/
theorem call_sampled {own : ε → Prop} (hsample : self.isSample args s = .ok (true, parentId, args) s)
    (hbefore : self.onBefore parentId args s = .ok (traceId, args) s')
    (hend : ∀ ret, Returns (self.onEnd traceId ret) fun _ => True)
    (hown : ∀ e s, PassesOn (self.onException traceId (.app e) s) e ↔ own e) :
    Transparent f args (self.call env f.run args) s ↔
      ∀ e, f.outcome args = .error e → env.isException e = true → own e := by
  unfold Transparent
  rw [call_of_onBefore hsample hbefore f.run]
  cases houtcome : f.outcome args with
  | ok v =>
    obtain ⟨t, hrun⟩ := run_ok houtcome s'
    obtain ⟨_, t', hlast, -⟩ := hend v t
    exact iff_of_true ⟨t', tryFinally_ok (tryExcept_ok hrun) hlast⟩ nofun
  | error e =>
    obtain ⟨t, hrun⟩ := run_error houtcome s'
    cases hcatches : env.isException e with
    | false =>
      obtain ⟨_, t', hlast, -⟩ := hend env.pyNone t
      refine iff_of_true ⟨t', tryFinally_error (tryExcept_passed hrun hcatches) hlast⟩ ?_
      rintro _ ⟨⟩ htrue
      exact absurd (hcatches.symm.trans htrue) Bool.false_ne_true
    | true =>
      -- whatever the handler raises stands at the end
      obtain ⟨x, t', hhandler, hpasses⟩ : ∃ x t', ((do
          self.onException traceId (.app e)
          throw (.app e)) : PyM ε α) t = .error x t' ∧ (x = .app e ↔ own e) := by
        have howne := hown e t
        cases hon : self.onException traceId (.app e) t with
        | ok u t' =>
          rw [hon] at howne
          exact ⟨.app e, t', bind_of_ok _ hon, iff_of_true rfl (howne.1 trivial)⟩
        | error x t' =>
          rw [hon] at howne
          exact ⟨x, t', bind_of_error _ hon, howne⟩
      obtain ⟨_, t'', hlast, -⟩ := hend env.pyNone t'
      rw [tryFinally_error ((tryExcept_caught hrun hcatches).trans hhandler) hlast]
      constructor
      · rintro ⟨_, hresult⟩ _ ⟨⟩ _
        cases hresult
        exact hpasses.1 rfl
      · intro hall
        have hx : x = .app e := hpasses.2 (hall e rfl hcatches)
        exact ⟨t'', by rw [hx]⟩

private theorem returns_onEnd (hctx : env.contextSet = true) (traceId : Int) (ret : α) :
    Returns ((basePinTrace env).onEnd traceId ret) fun _ => True := by
  refine Returns.bind (returns_endTrace env.sendRaises traceId) fun _ _ => ?_
  rw [hctx]
  exact returns_setParentId _

private theorem transparent_of_base {own : ε → Prop} (hsample : self.isSample = (basePinTrace env).isSample)
    (hend : self.onEnd = (basePinTrace env).onEnd)
    (hown : ∀ traceId e s, PassesOn (self.onException traceId (.app e) s) e ↔ own e)
    (hpasses : Decorator.Passes self env args s) :
    Transparent f args (self.call env f.run args) s ↔
      (0 < s.parentId → ∀ e, f.outcome args = .error e → env.isException e = true → own e) := by
  obtain ⟨hctx, hbefore⟩ := hpasses
  have hsampled := base_isSample hctx args s
  rw [← hsample] at hsampled
  by_cases hpos : 0 < s.parentId
  · obtain ⟨traceId, s', hbefore⟩ := hbefore hpos
    rw [if_pos hpos] at hsampled
    have hends : ∀ ret, Returns (self.onEnd traceId ret) fun _ => True := fun ret => hend ▸ returns_onEnd hctx traceId ret
    rw [call_sampled hsampled hbefore hends (hown traceId)]
    exact ⟨fun hall _ => hall, fun hall => hall hpos⟩
  · rw [if_neg hpos] at hsampled
    exact iff_of_true (call_unsampled hsampled) fun habs => absurd habs hpos

private theorem not_passesOn_base (env : Env ε ν α) (traceId : Int) (e : ε) (s : PyState) :
    PassesOn ((basePinTrace env).onException traceId (.app e) s) e ↔ False :=
  iff_false_intro nofun

theorem record_spec (env : Env ε ν α) (traceId : Int) (e : ε) (s : PyState) :
    (∃ s', (env.describe (.app e) >>= fun text => addException text traceId) s = .ok () s' ∧ env.Describable e) ∨
      ∃ x s', (env.describe (.app e) >>= fun text => addException text traceId) s = .error x s' ∧
        (x = .app e ↔ env.Describable e) := by
  unfold Env.Describable
  cases hstr : env.str e with
  | error e' =>
    right
    have hdescribe : env.describe (.app e) s = .error (.app e') s := by
      simp only [Env.describe, hstr]
      rfl
    exact ⟨_, _, bind_of_error _ hdescribe, Raised.app.injEq e' e ▸ Iff.rfl⟩
  | ok text =>
    have hdescribe : env.describe (.app e) s = .ok text s := by
      simp only [Env.describe, hstr]
      rfl
    by_cases hpasses : text.Passes
    · left
      obtain ⟨_, s', hadd, -⟩ := returns_addException hpasses traceId s
      exact ⟨s', (bind_of_ok _ hdescribe).trans hadd, hpasses⟩
    · right
      have hparse : (parseString text : PyM ε String) s = .error .badArgument s :=
        parseString_of_not_passes hpasses s
      refine ⟨_, _, (bind_of_ok _ hdescribe).trans (bind_of_error _ hparse), iff_of_false (fun heq => ?_) hpasses⟩
      cases heq

private theorem passesOn_pinpointCommon (traceId : Int) (e : ε) (s : PyState) :
    PassesOn ((pinpointCommonPlugin env).onException traceId (.app e) s) e ↔ env.Describable e := by
  have heq : (pinpointCommonPlugin env).onException traceId (.app e) =
      ((env.describe (.app e) >>= fun text => addException text traceId) >>= fun _ => throw (.app e)) :=
    (bind_assoc _ _ _).symm
  rw [heq]
  obtain ⟨s', hrecord, hdescribable⟩ | ⟨x, s', hrecord, hx⟩ := record_spec env traceId e s
  · rw [bind_of_ok _ hrecord]
    exact iff_of_true rfl hdescribable
  · rw [bind_of_error _ hrecord]
    exact hx

private theorem passesOn_asyncCommon (traceId : Int) (e : ε) (s : PyState) :
    PassesOn ((asyncCommonPlugin env).onException traceId (.app e) s) e ↔ env.Describable e := by
  have heq : (asyncCommonPlugin env).onException traceId (.app e) =
      env.describe (.app e) >>= fun text => addException text traceId := rfl
  rw [heq]
  obtain ⟨s', hrecord, hdescribable⟩ | ⟨x, s', hrecord, hx⟩ := record_spec env traceId e s
  · rw [hrecord]
    exact iff_of_true trivial hdescribable
  · rw [hrecord]
    exact hx

private theorem onEnd_createEngine (env : Env ε ν α) (v : α) (s : PyState) :
    (createEnginePlugin env).onEnd v s = .ok v s ∧ (env.isEngine v = true →
        env.listen "before_cursor_execute" v = none ∧ env.listen "after_cursor_execute" v = none) ∨
      ∃ x, (createEnginePlugin env).onEnd v s = .error x s ∧ ¬(env.isEngine v = true →
        env.listen "before_cursor_execute" v = none ∧ env.listen "after_cursor_execute" v = none) := by
  cases hengine : env.isEngine v with
  | false =>
    left
    refine ⟨?_, nofun⟩
    simp only [createEnginePlugin, hengine]
    rfl
  | true =>
    cases hbefore : env.listen "before_cursor_execute" v with
    | some x =>
      right
      refine ⟨x, ?_, by simp⟩
      simp only [createEnginePlugin, hengine, hbefore]
      rfl
    | none =>
      cases hafter : env.listen "after_cursor_execute" v with
      | some x =>
        right
        refine ⟨x, ?_, by simp⟩
        simp only [createEnginePlugin, hengine, hbefore, hafter]
        rfl
      | none =>
        left
        refine ⟨?_, fun _ => ⟨rfl, rfl⟩⟩
        simp only [createEnginePlugin, hengine, hbefore, hafter]
        rfl

private theorem createEngine_transparent_iff :
    Transparent f args ((createEnginePlugin env).call env f.run args) s ↔
      Decorator.createEnginePlugin.Meets env f args s := by
  have hbody : (createEnginePlugin env).onBefore args >>= f.run = f.run args := rfl
  unfold Transparent Decorator.Meets Trace.call
  rw [hbody]
  cases houtcome : f.outcome args with
  | ok v =>
    obtain ⟨t, hrun⟩ := run_ok houtcome s
    rw [tryReturn_ok (tryExcept_ok hrun)]
    obtain ⟨hend, hlistens⟩ | ⟨x, hend, hlistens⟩ := onEnd_createEngine env v t
    · exact iff_of_true ⟨t, hend⟩ ⟨v, rfl, hlistens⟩
    · refine iff_of_false ?_ ?_
      · rintro ⟨t', hresult⟩
        exact absurd (hend.symm.trans hresult) nofun
      · rintro ⟨_, ⟨⟩, hall⟩
        exact hlistens hall
  | error e =>
    obtain ⟨t, hrun⟩ := run_error houtcome s
    -- caught or not, the exception is dropped
    obtain ⟨x, hraised⟩ : ∃ x, tryExcept env.catches (f.run args) (fun e => do
        (createEnginePlugin env).onException e
        let _ ← env.describe e
        throw e) s = .error x t := by
      cases hcatches : env.isException e with
      | true => exact ⟨_, tryExcept_caught hrun hcatches⟩
      | false => exact ⟨_, tryExcept_passed hrun hcatches⟩
    rw [tryReturn_error hraised]
    refine iff_of_false ?_ nofun
    rintro ⟨t', hresult⟩
    obtain ⟨hend, -⟩ | ⟨_, -, hlistens⟩ := onEnd_createEngine env env.pyNone t
    · exact absurd (hend.symm.trans hresult) nofun
    · exact hlistens fun hengine => absurd (env.none_not_engine.symm.trans hengine) nofun

end Call

section Before

variable {env : Env ε ν α} {args : Args ν}

structure Env.TextsPass (env : Env ε ν α) : Prop where
  uniqueName : env.getUniqueName.Passes
  appName : env.appName.Passes
  appId : env.appId.Passes
  sid : env.sid.Passes
  tid : env.tid.Passes
  asyncId : env.asyncId.Passes

private theorem returns_base_onBefore (hctx : env.contextSet = true) (parentId : Int) (args : Args ν) :
    Returns ((basePinTrace env).onBefore parentId args) fun r => r.2 = args := by
  refine Returns.bind (returns_withTrace parentId) fun traceId _ => ?_
  rw [hctx]
  exact Returns.bind (returns_setParentId traceId) fun _ _ => Returns.pure rfl

private theorem celeryNotes_pass (h : env.TextsPass) : ∀ note ∈ celeryNotes env, note.value.Passes := by
  have huri : (PyStr.ofString "celery[worker]." ++ env.getUniqueName).Passes := by
    intro c hc
    obtain hliteral | hname := List.mem_append.1 hc
    · exact (show (PyStr.ofString "celery[worker].").Passes by decide) c hliteral
    · exact h.uniqueName c hname
  have hliterals : (PyStr.ofString "celery[worker]").Passes ∧ (PyStr.ofString "localhost").Passes ∧
      (PyStr.ofString "1700").Passes ∧ (PyStr.ofString "s1").Passes := by decide
  simp only [celeryNotes, List.forall_mem_cons, Note.value, h.sid, h.appName, h.appId, h.tid, huri, hliterals,
    true_and, List.not_mem_nil, false_imp_iff, implies_true]

theorem before_passes (d : Decorator) (hctx : env.contextSet = true) (htexts : env.TextsPass)
    (hdecode : env.contextsDecode = true) (htid : args.get? "_pp_tid_" = none) (htarget : args.get? "target" = none)
    (s : PyState) : d.BeforePasses env args s := by
  have hcommon (parentId : Int) : Returns ((pinpointCommonPlugin env).onBefore parentId args) fun r => r.2 = args := by
    refine Returns.bind (returns_base_onBefore hctx parentId args) ?_
    rintro ⟨traceId, _⟩ rfl
    refine Returns.bind (returns_addNotes traceId ?_) fun _ _ => Returns.pure rfl
    simp only [List.forall_mem_cons, Note.value, htexts.uniqueName, true_and]
    decide
  have hhook (parentId : Int) : Returns ((hookTargetPlugins env).onBefore parentId args) fun r => r.2 = args := by
    refine Returns.bind (returns_base_onBefore hctx parentId args) ?_
    rintro ⟨traceId, _⟩ rfl
    refine Returns.bind (returns_addNotes traceId ?_) fun _ _ => ?_
    · simp only [List.forall_mem_cons, Note.value, htexts.uniqueName, htexts.asyncId, true_and]
      decide
    · simp only [hdecode, htarget, Bool.not_true, Bool.false_eq_true, if_false]
      exact Returns.pure rfl
  have hcelery : Returns ((celeryWorkerPlugin env).onBefore 0 args) fun r => r.2 = args := by
    refine Returns.bind (returns_base_onBefore hctx 0 args) ?_
    rintro ⟨traceId, _⟩ rfl
    simp only [htid]
    exact Returns.bind (returns_addNotes traceId (celeryNotes_pass htexts)) fun _ _ => Returns.pure rfl
  have hstep {c : PyM ε (Int × Args ν)} (hc : Returns c fun r => r.2 = args) :
      ∃ traceId s', c s = .ok (traceId, args) s' := by
    obtain ⟨⟨traceId, _⟩, s', hrun, rfl⟩ := hc s
    exact ⟨traceId, s', hrun⟩
  cases d with
  | createEnginePlugin => trivial
  | celeryWorkerPlugin => exact hstep hcelery
  | pinpointCommonPlugin | asyncCommonPlugin => exact ⟨hctx, fun _ => hstep (hcommon _)⟩
  | hookTargetPlugins => exact ⟨hctx, fun _ => hstep (hhook _)⟩

end Before

/-- A call through one of the shipped decorators whose `onBefore` completes and passes the arguments on
returns the value of the function, or raises the very exception it raised, if and only if the decorator
and what the function does go together as `Meets` says. -/
theorem decorated_transparent_iff (d : Decorator) (env : Env ε ν α) (f : PyFunc ε ν α) (args : Args ν)
    (s : PyState) (hbefore : d.BeforePasses env args s) :
    Transparent f args (d.wrapped env f args) s ↔ d.Meets env f args s := by
  cases d with
  | createEnginePlugin => exact createEngine_transparent_iff
  | pinpointCommonPlugin => exact transparent_of_base rfl rfl passesOn_pinpointCommon hbefore
  | asyncCommonPlugin => exact transparent_of_base rfl rfl passesOn_asyncCommon hbefore
  | hookTargetPlugins =>
    have hown (traceId : Int) (e : ε) (s : PyState) :
        PassesOn ((hookTargetPlugins env).onException traceId (.app e) s) e ↔ False :=
      not_passesOn_base env traceId e s
    have hiff : Transparent f args ((hookTargetPlugins env).call env f.run args) s ↔
        (0 < s.parentId → ∀ e, f.outcome args = .error e → env.isException e = true → False) :=
      transparent_of_base rfl rfl hown hbefore
    refine hiff.trans ?_
    simp only [imp_false, Bool.not_eq_true, Decorator.Meets]
  | celeryWorkerPlugin =>
    obtain ⟨traceId, s', hbefore⟩ := hbefore
    obtain ⟨_, _, hbase, -⟩ := bind_eq_ok hbefore
    have hctx := contextSet_of_onBefore hbase
    refine (call_sampled rfl hbefore (fun ret => returns_onEnd hctx traceId ret) (not_passesOn_base env traceId)).trans ?_
    simp only [imp_false, Bool.not_eq_true, Decorator.Meets]

/-- Settings under which nothing of the tracing itself goes wrong; every exception is an `Exception`
with the text `boom`. -/
def plainEnv : Env Nat Unit Nat where
  isException _ := true
  str _ := .ok (.ofString "boom")
  asStr _ := none
  asInt _ := none
  newEntry v := v
  pyNone := 0
  isEngine _ := false
  none_not_engine := rfl
  listen _ _ := none
  contextSet := true
  name := []
  funcName := .ofString "f"
  appName := .ofString "app"
  appId := .ofString "id"
  sid := .ofString "1"
  tid := .ofString "id^1^1"
  asyncId := .ofString "1"
  contextsDecode := true
  sendRaises := false

def alwaysRaises : PyFunc Nat Unit Nat := ⟨fun _ => .error 7, fun _ t => t⟩

private theorem textsPass_plainEnv : plainEnv.TextsPass :=
  ⟨by decide, by decide, by decide, by decide, by decide, by decide⟩

theorem decorated_transparent_iff_recorded :
    Transparent alwaysRaises ⟨[()], []⟩
      (Decorator.pinpointCommonPlugin.wrapped plainEnv alwaysRaises ⟨[()], []⟩)
      ⟨(PyThread.new 1700 id).next .startTrace, 128⟩ := by
  refine (decorated_transparent_iff .pinpointCommonPlugin plainEnv alwaysRaises ⟨[()], []⟩
    ⟨(PyThread.new 1700 id).next .startTrace, 128⟩ ?_).2 ?_
  · exact before_passes _ rfl textsPass_plainEnv rfl rfl rfl _
  · exact fun _ e _ _ => (show (PyStr.ofString "boom").Passes by decide)

/-- The exception 7 of a wrapped `create_engine` is dropped, and that of a worker's task replaced. -/
theorem exception_lost_or_replaced :
    (∃ s', Decorator.createEnginePlugin.wrapped plainEnv alwaysRaises ⟨[()], []⟩
        ⟨PyThread.new 1700 id, 0⟩ = .ok plainEnv.pyNone s') ∧
      ¬Transparent alwaysRaises ⟨[()], []⟩
        (Decorator.createEnginePlugin.wrapped plainEnv alwaysRaises ⟨[()], []⟩)
        ⟨PyThread.new 1700 id, 0⟩ ∧
      (∃ s', Decorator.celeryWorkerPlugin.wrapped plainEnv alwaysRaises ⟨[()], []⟩
        ⟨PyThread.new 1700 id, 0⟩ = .error (.notImplemented "") s') ∧
      ¬Transparent alwaysRaises ⟨[()], []⟩
        (Decorator.celeryWorkerPlugin.wrapped plainEnv alwaysRaises ⟨[()], []⟩)
        ⟨PyThread.new 1700 id, 0⟩ := by
  refine ⟨⟨_, rfl⟩, ?_, ⟨_, rfl⟩, ?_⟩
  · rintro ⟨s', hresult⟩
    cases hresult
  · rintro ⟨s', hresult⟩
    cases hresult

end PinpointAgent.Python
