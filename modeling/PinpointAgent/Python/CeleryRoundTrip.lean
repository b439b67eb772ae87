import PinpointAgent.Python.Celery

/-!
# A task and its trace from caller to worker

Inside a trace, a call of `apply_async` starts a node of its own, reads four ids of the trace and the
number of the node, and puts them, with a random number, into the keyword arguments of the task. The
worker's wrapper starts a trace, makes the ids those of the new trace, and calls the task without them.

Whether the round trip closes depends on little: the way in which the arguments were passed, the ids
being texts that can be read back from the agent, a node to be had on both sides.
-/

namespace PinpointAgent.Python

open Framework NodePool Agent

variable {ε α : Type}

structure PinpointIds where
  tid : PyStr
  spanId : PyStr
  appName : PyStr
  appId : PyStr
  sequenceId : Int
  asyncId : Int

namespace PinpointIds

def kwargs (ids : PinpointIds) : List (String × PyVal) :=
  [("_pp_tid_", .str ids.tid), ("_pp_span_id_", .str ids.spanId), ("_pp_app_name_", .str ids.appName),
    ("_pp_app_id_", .str ids.appId), ("_pp_sequence_id_", .int ids.sequenceId), ("_pp_async_id_", .int ids.asyncId)]

def notes (ids : PinpointIds) : List Note :=
  [.header "appname" ids.appName, .context "appname" ids.appName, .header "appid" ids.appId,
    .context "appid" ids.appId, .header "sid" ids.spanId, .context "sid" ids.spanId, .header "tid" ids.tid,
    .context "tid" ids.tid, .header "stp" (.ofString "1700")]

def calls (ids : PinpointIds) (node : Int) : List ApiCall :=
  ids.notes.map (·.toCall node) ++ [.setAsyncCtx node ids.asyncId ids.sequenceId]

structure In (ids : PinpointIds) (args : Args PyVal) : Prop where
  tid : args.get? "_pp_tid_" = some (.str ids.tid)
  spanId : args.get? "_pp_span_id_" = some (.str ids.spanId)
  appName : args.get? "_pp_app_name_" = some (.str ids.appName)
  appId : args.get? "_pp_app_id_" = some (.str ids.appId)
  sequenceId : args.get? "_pp_sequence_id_" = some (.int ids.sequenceId)
  asyncId : args.get? "_pp_async_id_" = some (.int ids.asyncId)

/-- Numbers that fit an `int`. -/
structure Fit (ids : PinpointIds) : Prop where
  sequenceId : -2147483648 ≤ ids.sequenceId ∧ ids.sequenceId < 2147483648
  asyncId : -2147483648 ≤ ids.asyncId ∧ ids.asyncId < 2147483648

private theorem notes_pass_iff {ids : PinpointIds} : (∀ note ∈ ids.notes, note.value.Passes) ↔
    (ids.tid.Passes ∧ ids.spanId.Passes) ∧ ids.appName.Passes ∧ ids.appId.Passes := by
  have htype : (PyStr.ofString "1700").Passes := by decide +kernel
  simp only [notes, List.forall_mem_cons, Note.value, htype, List.not_mem_nil, false_implies, implies_true, and_true]
  constructor
  · rintro ⟨happName, -, happId, -, hspanId, -, htid, -⟩
    exact ⟨⟨htid, hspanId⟩, happName, happId⟩
  · rintro ⟨⟨htid, hspanId⟩, happName, happId⟩
    exact ⟨happName, happName, happId, happId, hspanId, hspanId, htid, htid⟩

end PinpointIds

/-! ## The worker -/

section Worker

variable {env : Env ε PyVal α} {ids : PinpointIds} {sent : Args PyVal} {w w' : PyState}

private theorem keyword_eq {args : Args PyVal} {key : String} {value : PyVal} (h : args.get? key = some value) :
    (keyword args key : PyM ε PyVal) = pure value := by
  rw [keyword, h]

theorem asString_eq (text : PyStr) : asString env.onValues (.str text) = pure text := rfl

private theorem asInteger_eq {n : Int} (h : -2147483648 ≤ n ∧ n < 2147483648) :
    asInteger env.onValues (.int n) = pure n := by
  have hasInt : env.onValues.asInt (.int n) = some n := if_pos h
  rw [asInteger, hasInt]

theorem celeryWorker_onBefore (hin : ids.In sent) (hfit : ids.Fit) (parentId : Int) :
    (celeryWorkerPlugin env.onValues).onBefore parentId sent = (do
      let (traceId, args) ← (basePinTrace env.onValues).onBefore parentId sent
      addNotes traceId ids.notes
      Python.setAsyncContext traceId ids.asyncId ids.sequenceId
      return (traceId, args.erase injectedIds) : PyM ε (Int × Args PyVal)) := by
  simp only [celeryWorkerPlugin, basePinTrace, bind_assoc, pure_bind, hin.tid, keyword_eq hin.spanId,
    keyword_eq hin.appName, keyword_eq hin.appId, keyword_eq hin.sequenceId, keyword_eq hin.asyncId, asString_eq,
    asInteger_eq hfit.sequenceId, asInteger_eq hfit.asyncId, PinpointIds.notes, addNotes]

private theorem celeryWorker_onBefore_eq (hctx : env.contextSet = true) (hin : ids.In sent) (hfit : ids.Fit)
    (hpass : ∀ note ∈ ids.notes, note.value.Passes) (parentId : Int) (w : PyState) :
    (celeryWorkerPlugin env.onValues).onBefore parentId sent w =
      .ok ((w.started parentId).parentId, sent.erase injectedIds) ((w.started parentId).made
        (ids.notes.map (·.toCall ((w.started parentId).resolve (w.started parentId).parentId)) ++
          [.setAsyncCtx (w.started parentId).parentId ids.asyncId ids.sequenceId])) := by
  have hctx' : env.onValues.contextSet = true := hctx
  rw [celeryWorker_onBefore hin hfit, ← made_made]
  refine (bind_of_ok _ (base_onBefore_eq hctx' parentId sent w)).trans ?_
  exact bind_of_ok _ (addNotes_eq _ hpass _)

private theorem celeryWorker_onBefore_inv {r : Int × Args PyVal} {parentId : Int} (hin : ids.In sent) (hfit : ids.Fit)
    (h : (celeryWorkerPlugin env.onValues).onBefore parentId sent w = .ok r w') :
    env.contextSet = true ∧ ∀ note ∈ ids.notes, note.value.Passes := by
  rw [celeryWorker_onBefore hin hfit] at h
  obtain ⟨_, _, hbase, h⟩ := bind_eq_ok h
  obtain ⟨_, _, hnotes, -⟩ := bind_eq_ok h
  exact ⟨contextSet_of_onBefore hbase, passes_of_addNotes hnotes⟩

end Worker

/-! ## The caller -/

/-- What `get_context` returns. -/
def contextAt (s : PyState) (traceId : Int) (key : String) : PyVal :=
  .ofKey (.ofRead (s.thread.agent.pinpointGetContextKey (s.resolve traceId) (PyStr.utf8 (.ofString key)) true keyBufSize))

def pinKwargsAt (s : PyState) (traceId : Int) (asyncId : Fin 10000) : List (String × PyVal) :=
  [("_pp_tid_", contextAt s traceId "tid"), ("_pp_span_id_", contextAt s traceId "sid"),
    ("_pp_app_name_", contextAt s traceId "appname"), ("_pp_app_id_", contextAt s traceId "appid"),
    ("_pp_sequence_id_", .int (toSigned 32 (s.thread.agent.pinpointGetSequenceId (s.resolve traceId)))),
    ("_pp_async_id_", .int asyncId)]

def callerNotes (env : Env ε PyVal α) (asyncId : Fin 10000) : List Note :=
  [.header "name" (.ofString "celery.caller." ++ env.funcName ++ .ofString ".apply_async"),
    .header "stp" (.ofString "1701"), .header "stp" (.ofString "100"), .header "asyId" (.ofString (Nat.repr asyncId))]

/-- The state of the caller once its node was started and noted. -/
def PyState.calling (s : PyState) (env : Env ε PyVal α) (asyncId : Fin 10000) : PyState :=
  (s.started s.parentId).made
    ((callerNotes env asyncId).map (·.toCall ((s.started s.parentId).resolve (s.started s.parentId).parentId)))

section Caller

variable {env : Env ε PyVal α} {asyncId : Fin 10000} {args args' : Args PyVal} {s s' : PyState}

theorem getContext_eq {key : String} (hkey : (PyStr.ofString key).Passes) (traceId : Int) (s : PyState) :
    (getContext key traceId : PyM ε PyVal) s = .ok (contextAt s traceId key) s := by
  have hread : (getContextKey (.ofString key) traceId : PyM ε KeyResult) s = _ :=
    bind_of_ok _ (parseString_of_passes hkey s)
  exact bind_of_ok _ hread

private theorem genPinpointId_eq (traceId : Int) (asyncId : Fin 10000) (s : PyState) :
    (genPinpointId traceId asyncId : PyM ε (List (String × PyVal))) s = .ok (pinKwargsAt s traceId asyncId) s := by
  have hsequence : (getSequenceId traceId : PyM ε Int) s =
      .ok (toSigned 32 (s.thread.agent.pinpointGetSequenceId (s.resolve traceId))) s := rfl
  rw [genPinpointId, bind_of_ok _ hsequence, bind_of_ok _ (getContext_eq (by decide +kernel) traceId s),
    bind_of_ok _ (getContext_eq (by decide +kernel) traceId s), bind_of_ok _ (getContext_eq (by decide +kernel) traceId s),
    bind_of_ok _ (getContext_eq (by decide +kernel) traceId s)]
  rfl

theorem digit_of_mem_repr {n c : Nat} (h : c ∈ PyStr.ofString (Nat.repr n)) : 48 ≤ c ∧ c ≤ 57 := by
  obtain ⟨digit, hdigit, rfl⟩ := List.mem_map.1 h
  rw [Nat.toList_repr] at hdigit
  have h := Nat.isDigit_of_mem_toDigits (by decide) (by decide) hdigit
  simp only [Char.isDigit, Bool.and_eq_true, decide_eq_true_eq, ge_iff_le, UInt32.le_iff_toNat_le] at h
  exact h

theorem passes_ofString_repr (n : Nat) : (PyStr.ofString (Nat.repr n)).Passes := by
  intro c hc
  have hdigit := digit_of_mem_repr hc
  omega

private theorem callerNotes_pass_iff :
    (∀ note ∈ callerNotes env asyncId, note.value.Passes) ↔ env.funcName.Passes := by
  constructor
  · intro h c hc
    have hname := h _ List.mem_cons_self
    exact hname c (List.mem_append_left _ (List.mem_append_right _ hc))
  · intro h note hnote
    have hprefix : (PyStr.ofString "celery.caller.").Passes := by decide +kernel
    have hsuffix : (PyStr.ofString ".apply_async").Passes := by decide +kernel
    simp only [callerNotes, List.mem_cons, List.not_mem_nil, or_false] at hnote
    obtain rfl | rfl | rfl | rfl := hnote
    · intro c hc
      obtain hc | hc := List.mem_append.1 hc
      · obtain hc | hc := List.mem_append.1 hc
        · exact hprefix c hc
        · exact h c hc
      · exact hsuffix c hc
    · exact (by decide +kernel : (PyStr.ofString "1701").Passes)
    · exact (by decide +kernel : (PyStr.ofString "100").Passes)
    · exact passes_ofString_repr asyncId

theorem celeryCaller_onBefore (parentId : Int) (args : Args PyVal) :
    (celeryCallerPlugin env asyncId).onBefore parentId args = (do
      let (traceId, args) ← (basePinTrace env).onBefore parentId args
      addNotes traceId (callerNotes env asyncId)
      let pinKwargs ← genPinpointId traceId asyncId
      let args ← orRaise (injectIds pinKwargs args)
      return (traceId, args) : PyM ε (Int × Args PyVal)) := by
  have hname : Env.getUniqueName { env with
        name := .ofString "celery.caller." ++ env.funcName ++ .ofString ".apply_async" } =
      .ofString "celery.caller." ++ env.funcName ++ .ofString ".apply_async" := by
    rw [Env.getUniqueName, if_neg (by simp [PyStr.ofString])]
  simp only [celeryCallerPlugin, celeryParasInjectionAsyncPlugin, pinpointCommonPlugin, basePinTrace, addNotes,
    callerNotes, hname, bind_assoc, pure_bind]

private theorem celeryCaller_isSample (hctx : env.contextSet = true) (hpos : 0 < s.parentId) :
    (celeryCallerPlugin env asyncId).isSample args s = .ok (true, s.parentId, args) s := by
  have hsample := base_isSample hctx args s
  rw [if_pos hpos] at hsample
  exact hsample

theorem celeryCaller_calls (hctx : env.contextSet = true) (hpos : 0 < s.parentId) (hname : env.funcName.Passes) :
    (celeryCallerPlugin env asyncId).calls args s =
      (injectIds (pinKwargsAt (s.calling env asyncId) (s.calling env asyncId).parentId asyncId) args).map
        (·, s.calling env asyncId) := by
  have hbefore : (celeryCallerPlugin env asyncId).onBefore s.parentId args s = _ :=
    (congrFun (celeryCaller_onBefore s.parentId args) s).trans
      ((bind_of_ok _ (base_onBefore_eq hctx s.parentId args s)).trans
        ((bind_of_ok _ (addNotes_eq _ (callerNotes_pass_iff.2 hname) _)).trans
          (bind_of_ok _ (genPinpointId_eq _ asyncId _))))
  rw [PinTrace.calls, celeryCaller_isSample hctx hpos]
  simp only [hbefore]
  change _ = (injectIds (pinKwargsAt (s.calling env asyncId) (s.started s.parentId).parentId asyncId) args).map _
  rw [← PyState.calling]
  cases injectIds (pinKwargsAt (s.calling env asyncId) (s.started s.parentId).parentId asyncId) args with
  | some args' => rfl
  | none => rfl

private theorem celeryCaller_calls_inv (hctx : env.contextSet = true) (hpos : 0 < s.parentId)
    (h : (celeryCallerPlugin env asyncId).calls args s = some (args', s')) : env.funcName.Passes := by
  obtain ⟨_, hbefore⟩ := onBefore_of_calls (celeryCaller_isSample hctx hpos) h
  rw [celeryCaller_onBefore] at hbefore
  obtain ⟨_, _, -, hbefore⟩ := bind_eq_ok hbefore
  obtain ⟨_, _, hnotes, -⟩ := bind_eq_ok hbefore
  exact callerNotes_pass_iff.1 (passes_of_addNotes hnotes)

end Caller

/-! ## Nodes of a run -/

section Started

variable {v : World} {s : PyState} {parentId : Int}

theorem agent_run (v : World) (calls : List ApiCall) : (v.run calls).agent = calls.foldl Agent.after v.agent := by
  induction calls generalizing v with
  | nil => rfl
  | cons call calls ih => exact ih (v.step call)

private theorem world_run (l : KeyLog) (calls : List ApiCall) : (l.run calls).world = l.world.run calls := by
  induction calls generalizing l with
  | nil => rfl
  | cons call calls ih => exact ih (l.step call)

theorem started_eq (h : parentId ≠ -1) :
    s.started parentId = ⟨⟨(s.thread.agent.pinpointStartTraceV1 parentId []).2, s.thread.perThreadId⟩,
      (s.thread.agent.pinpointStartTraceV1 parentId []).1⟩ := by
  rw [PyState.started, pyStartTrace, if_neg h]

theorem ne_of_parent {p : PoolManager} (hparent : parentId = rootNode ∨ p.Live parentId) : parentId ≠ -1 := by
  rintro rfl
  obtain h | h := hparent
  · exact nomatch h
  · exact absurd h.pos (by decide)

theorem started_of_room (h : v.Ok) (hs : s.thread.agent = v.agent)
    (hparent : parentId = rootNode ∨ v.agent.pool.Live parentId) (hroom : ¬v.agent.pool.Exhausted) :
    (s.started parentId).thread.agent = (v.step (.startTrace parentId [])).agent ∧
      (v.step (.startTrace parentId [])).forest = v.forest.start parentId (s.started parentId).parentId := by
  rw [started_eq (ne_of_parent hparent), hs]
  obtain ⟨id, a', hstart, -⟩ | ⟨e, -, ⟨-, hfull⟩ | ⟨hroot, hdead⟩⟩ := startNode_spec h.holds parentId
  · have hid : (v.agent.pinpointStartTraceV1 parentId []).1 = id :=
      startTraceV1_of_ok hstart (.inr fun _ hopt => absurd hopt List.not_mem_nil)
    refine ⟨pinpointStartTraceV1_agent v.agent parentId [], ?_⟩
    change v.nextForest (.startTrace parentId []) = _
    simp only [World.nextForest, hstart, hid]
  · exact absurd hfull hroom
  · exact absurd (hparent.resolve_left hroot) hdead

private theorem started_of_exhausted (h : v.Ok) (hs : s.thread.agent = v.agent)
    (hparent : parentId = rootNode ∨ v.agent.pool.Live parentId) (hfull : v.agent.pool.Exhausted) :
    (s.started parentId).parentId = invalidNode := by
  rw [started_eq (ne_of_parent hparent), hs]
  obtain ⟨id, a', -, hstarted⟩ | ⟨e, hstart, -⟩ := startNode_spec h.holds parentId
  · exact absurd hfull hstarted.ready
  · rw [startTraceV1_of_error hstart]

private theorem pinpointGetSequenceId_of_live {a : Agent} {id : Int} (h : a.pool.Live id) :
    a.pinpointGetSequenceId id = (a.pool.nodeAt id).sequence := by
  rw [pinpointGetSequenceId, Agent.getSequenceId, bind_of_ok _ (getWrapperTraceNode_current h)]
  rfl

theorem not_live_invalidNode (p : PoolManager) : ¬p.Live invalidNode := fun h => absurd h.pos (by decide)

end Started

/-! ## The ids of a trace -/

/-- The ids of the trace that the caller is in, and the number of the node it started for the call. -/
structure PinpointIds.OfCaller (ids : PinpointIds) (l : KeyLog) (root : Int) (s : PyState) (asyncId : Fin 10000) :
    Prop where
  tid : (l.last root "tid").map .ofString = some ids.tid
  spanId : (l.last root "sid").map .ofString = some ids.spanId
  appName : (l.last root "appname").map .ofString = some ids.appName
  appId : (l.last root "appid").map .ofString = some ids.appId
  node : s.thread.agent.pool.Live s.parentId
  sequenceId : ids.sequenceId = toSigned 32 (s.thread.agent.pool.nodeAt s.parentId).sequence
  asyncId : ids.asyncId = asyncId

private theorem PinpointIds.OfCaller.fit {ids : PinpointIds} {l : KeyLog} {root : Int} {s : PyState} {asyncId : Fin 10000}
    (h : ids.OfCaller l root s asyncId) : ids.Fit := by
  have hasyncId := asyncId.isLt
  refine ⟨?_, ?_⟩
  · rw [h.sequenceId, toSigned_32]
    omega
  · rw [h.asyncId]
    omega

structure Readable (value : String) : Prop where
  passes : (PyStr.ofString value).Passes
  fits : 0 < value.utf8ByteSize ∧ value.utf8ByteSize < 1024

section Reading

variable {env : Env ε PyVal α} {asyncId : Fin 10000} {l : KeyLog} {t : NodePool.Trace} {s : PyState}

theorem calling_in_run (h : l.Ok) (ht : t ∈ l.world.forest) (hparent : s.parentId ∈ t.nodes)
    (hs : s.thread.agent = l.world.agent) (hroom : ¬l.world.agent.pool.Exhausted) :
    ∃ l₁ : KeyLog, l₁.Ok ∧ (s.calling env asyncId).thread.agent = l₁.world.agent ∧ l₁.set = l.set ∧
      ∃ t₁ ∈ l₁.world.forest, t₁.root = t.root ∧ (s.calling env asyncId).parentId ∈ t₁.nodes := by
  have hlive := h.world.holds.live_of_mem ht hparent
  obtain ⟨hagent, hforest⟩ := started_of_room h.world hs (.inr hlive) hroom
  have hok := (h.step (.startTrace s.parentId [])).run
    ((callerNotes env asyncId).map (·.toCall ((s.started s.parentId).resolve (s.started s.parentId).parentId)))
  refine ⟨_, hok, ?_, ?_, { t with kids := t.kids ++ [(s.started s.parentId).parentId] }, ?_, rfl, ?_⟩
  · change List.foldl Agent.after (s.started s.parentId).thread.agent _ = _
    rw [world_run, agent_run, hagent]
    rfl
  · -- the notes are headers, which are no keys
    change l.note (.startTrace s.parentId []) = l.set
    simp only [KeyLog.note, if_neg hlive.ne_rootNode]
    split <;> rfl
  · change _ ∈ (l.world.step (.startTrace s.parentId [])).forest
    rw [hforest, Forest.start, if_neg hlive.ne_rootNode]
    exact List.mem_map.2 ⟨t, ht, if_pos hparent⟩
  · exact List.mem_cons_of_mem _ (List.mem_append_right _ (List.mem_singleton.2 rfl))

private theorem contextAt_of_mem {id : Int} (h : l.Ok) (ht : t ∈ l.world.forest) (hid : id ∈ t.nodes)
    (hs : s.thread.agent = l.world.agent) {key : String} (hkey : (PyStr.ofString key).utf8 = key) :
    contextAt s id key = (l.last t.root key).elim (.bool false)
      fun value => .ofKey (.ofRead (boundedRead keyBufSize value)) := by
  rw [contextAt, resolve_of_live (h.world.holds.live_of_mem ht hid), hs, hkey, pinpointGetContextKey_of_mem h ht hid]
  cases l.last t.root key with
  | none =>
    rw [Option.elim_none, Option.elim_none]
    rfl
  | some value => rw [Option.elim_some, Option.elim_some]

private theorem ofKey_eq_str_iff {result : KeyResult} {text : PyStr} : PyVal.ofKey result = .str text ↔ result = .str text := by
  cases result with
  | str value => simp only [PyVal.ofKey, PyVal.str.injEq, KeyResult.str.injEq]
  | no => exact iff_of_false nofun nofun
  | overrun => exact iff_of_false nofun nofun

theorem contextAt_eq_str_iff {id : Int} (h : l.Ok) (ht : t ∈ l.world.forest) (hid : id ∈ t.nodes)
    (hs : s.thread.agent = l.world.agent) {key : String} (hkey : (PyStr.ofString key).utf8 = key) {value : String}
    (hlast : l.last t.root key = some value) :
    contextAt s id key = .str (.ofString value) ↔ 0 < value.utf8ByteSize ∧ value.utf8ByteSize < 1024 := by
  rw [contextAt_of_mem h ht hid hs hkey, hlast, Option.elim_some, ofKey_eq_str_iff]
  exact ofRead_boundedRead_iff value

end Reading

/-! ## The round trip -/

section RoundTrip

variable {caller worker : Env ε PyVal α} {asyncId : Fin 10000} {l : KeyLog} {t : NodePool.Trace} {s w : PyState}
  {ids : PinpointIds} {args original : Args PyVal} {pinKwargs : List (String × PyVal)}

/-- What the worker gets of a call, with the ids at the end. -/
def Args.withIds (original : Args PyVal) (pinKwargs : List (String × PyVal)) : Args PyVal :=
  { original with keywords := original.keywords ++ pinKwargs }

private theorem erase_withIds (hfree : ∀ key ∈ injectedIds, original.get? key = none)
    (hkeys : pinKwargs.map Prod.fst = injectedIds) : (original.withIds pinKwargs).erase injectedIds = original := by
  rw [Args.withIds, Args.erase, Dict.filter_append_of_fresh _ hfree]
  intro entry hentry
  exact hkeys ▸ List.mem_map_of_mem hentry

private theorem get?_withIds (hfree : ∀ key ∈ injectedIds, original.get? key = none) {key : String}
    (hkey : key ∈ injectedIds) : (original.withIds pinKwargs).get? key = pinKwargs.lookup key :=
  Dict.lookup_append_of_none _ (hfree key hkey)

private theorem in_withIds (hfree : ∀ key ∈ injectedIds, original.get? key = none) :
    ids.In (original.withIds ids.kwargs) := by
  have hlookup {key : String} {value : PyVal} (hkey : key ∈ injectedIds) (hids : ids.kwargs.lookup key = some value) :
      (original.withIds ids.kwargs).get? key = some value := (get?_withIds hfree hkey).trans hids
  exact ⟨hlookup (by decide) rfl, hlookup (by decide) rfl, hlookup (by decide) rfl, hlookup (by decide) rfl,
    hlookup (by decide) rfl, hlookup (by decide) rfl⟩

private theorem kwargs_of_in (hfree : ∀ key ∈ injectedIds, original.get? key = none) {traceId : Int}
    (h : ids.In (original.withIds (pinKwargsAt s traceId asyncId))) : pinKwargsAt s traceId asyncId = ids.kwargs := by
  have hlookup {key : String} {value value' : PyVal} (hkey : key ∈ injectedIds)
      (hids : (pinKwargsAt s traceId asyncId).lookup key = some value)
      (hget : (original.withIds (pinKwargsAt s traceId asyncId)).get? key = some value') : value = value' :=
    Option.some.inj (hids.symm.trans ((get?_withIds hfree hkey).symm.trans hget))
  have htid := hlookup (by decide) rfl h.tid
  have hspanId := hlookup (by decide) rfl h.spanId
  have happName := hlookup (by decide) rfl h.appName
  have happId := hlookup (by decide) rfl h.appId
  have hsequenceId := hlookup (by decide) rfl h.sequenceId
  have hasyncId := hlookup (by decide) rfl h.asyncId
  rw [pinKwargsAt, PinpointIds.kwargs, htid, hspanId, happName, happId, hsequenceId, hasyncId]

/-- Inside the trace `t`, a call of `apply_async` reaches the worker with the ids of the caller; the
worker's new trace takes over these and no others, and the task is called with the arguments of the
call. -/
def RoundTrip (caller worker : Env ε PyVal α) (asyncId : Fin 10000) (l : KeyLog) (t : NodePool.Trace)
    (args original : Args PyVal) (s w : PyState) : Prop :=
  ∃ ids args' s' sent w', (celeryCallerPlugin caller asyncId).calls args s = some (args', s') ∧
    PinpointIds.OfCaller ids l t.root s' asyncId ∧ args'.invocation = some sent ∧ ids.In sent ∧
    (celeryWorkerPlugin worker.onValues).calls sent w = some (original, w') ∧
    w'.thread.agent.pool.Live w'.parentId ∧
    w'.thread.agent = (.startTrace rootNode [] :: ids.calls w'.parentId).foldl Agent.after w.thread.agent

structure Closes (caller worker : Env ε PyVal α) (l : KeyLog) (t : NodePool.Trace) (args : Args PyVal)
    (s w : PyState) : Prop where
  carries : args.Carries
  ids : ∀ key ∈ ["tid", "sid", "appname", "appid"], ∃ value, l.last t.root key = some value ∧ Readable value
  name : caller.funcName.Passes
  callerRoom : ¬s.thread.agent.pool.Exhausted
  workerRoom : ¬w.thread.agent.pool.Exhausted
  context : worker.contextSet = true

/-- A call inside a trace and a worker, each with an agent that its calls left as they do. -/
structure Setting (caller : Env ε PyVal α) (l : KeyLog) (v : World) (t : NodePool.Trace) (args original : Args PyVal)
    (s w : PyState) : Prop where
  log : l.Ok
  trace : t ∈ l.world.forest
  parent : s.parentId ∈ t.nodes
  agent : s.thread.agent = l.world.agent
  worker : v.Ok
  workerAgent : w.thread.agent = v.agent
  context : caller.contextSet = true
  invocation : args.invocation = some original
  free : ∀ key ∈ injectedIds, original.get? key = none

section Setting

variable {v : World} (h : Setting caller l v t args original s w)

include h

private theorem Setting.live : l.world.agent.pool.Live s.parentId := h.log.world.holds.live_of_mem h.trace h.parent

private theorem Setting.calling_live (asyncId : Fin 10000) (hroom : ¬l.world.agent.pool.Exhausted) :
    (s.calling caller asyncId).thread.agent.pool.Live (s.calling caller asyncId).parentId := by
  obtain ⟨l₁, hok, hagent, -, t₁, ht₁, -, hnode⟩ := calling_in_run h.log h.trace h.parent h.agent hroom
  exact hagent ▸ hok.world.holds.live_of_mem ht₁ hnode

private theorem Setting.contextAt_iff (asyncId : Fin 10000) (hroom : ¬l.world.agent.pool.Exhausted) {key value : String}
    (hkey : (PyStr.ofString key).utf8 = key) (hlast : l.last t.root key = some value) :
    contextAt (s.calling caller asyncId) (s.calling caller asyncId).parentId key = .str (.ofString value) ↔
      0 < value.utf8ByteSize ∧ value.utf8ByteSize < 1024 := by
  obtain ⟨l₁, hok, hagent, hset, t₁, ht₁, hroot, hnode⟩ := calling_in_run h.log h.trace h.parent h.agent hroom
  have hlast₁ : l₁.last t₁.root key = some value := by
    rw [KeyLog.last, hset, hroot]
    exact hlast
  exact contextAt_eq_str_iff hok ht₁ hnode hagent hkey hlast₁

private theorem Setting.sent (hcarries : args.Carries) (s' : PyState) (traceId : Int) :
    ∃ args', injectIds (pinKwargsAt s' traceId asyncId) args = some args' ∧
      args'.invocation = some (original.withIds (pinKwargsAt s' traceId asyncId)) := by
  have hkeys : (pinKwargsAt s' traceId asyncId).map Prod.fst = injectedIds := rfl
  have hnodup : ((pinKwargsAt s' traceId asyncId).map Prod.fst).Nodup := hkeys ▸ (by decide)
  obtain ⟨args', hinject, hinvocation⟩ := injectIds_of_carries h.invocation hnodup hcarries
  rw [Dict.update_of_fresh hnodup (hkeys ▸ h.free)] at hinvocation
  exact ⟨args', hinject, hinvocation⟩

theorem Setting.worker_calls (hfit : ids.Fit) (hroom : ¬w.thread.agent.pool.Exhausted)
    (hctx : worker.contextSet = true) (hpass : ∀ note ∈ ids.notes, note.value.Passes) :
    ∃ w', (celeryWorkerPlugin worker.onValues).calls (original.withIds ids.kwargs) w = some (original, w') ∧
      w'.thread.agent.pool.Live w'.parentId ∧
      w'.thread.agent = (.startTrace rootNode [] :: ids.calls w'.parentId).foldl Agent.after w.thread.agent := by
  obtain ⟨hagent, hforest⟩ := started_of_room h.worker h.workerAgent (.inl rfl : rootNode = rootNode ∨ _)
    (h.workerAgent ▸ hroom)
  -- the calls that follow the start neither start a trace nor end one
  have hok := (h.worker.step (.startTrace rootNode [])).run (ids.calls (w.started rootNode).parentId)
  have hmem : (⟨(w.started rootNode).parentId, []⟩ : NodePool.Trace) ∈
      ((v.step (.startTrace rootNode [])).run (ids.calls (w.started rootNode).parentId)).forest := by
    change _ ∈ (v.step (.startTrace rootNode [])).forest
    rw [hforest, Forest.start, if_pos rfl]
    exact List.mem_append_right _ (List.mem_singleton.2 rfl)
  have hlive := hok.holds.live_of_mem hmem List.mem_cons_self
  have hafter : ((w.started rootNode).made (ids.calls (w.started rootNode).parentId)).thread.agent =
      ((v.step (.startTrace rootNode [])).run (ids.calls (w.started rootNode).parentId)).agent := by
    rw [agent_run, ← hagent]
    rfl
  have hin : ids.In (original.withIds ids.kwargs) := in_withIds h.free
  have hsample : (celeryWorkerPlugin worker.onValues).isSample (original.withIds ids.kwargs) w =
      .ok (true, rootNode, original.withIds ids.kwargs) w := rfl
  have hbefore := celeryWorker_onBefore_eq hctx hin hfit hpass rootNode w
  rw [resolve_of_live hlive, erase_withIds h.free rfl] at hbefore
  refine ⟨_, calls_of_onBefore hsample hbefore, ?_, ?_⟩
  · exact hafter ▸ hlive
  · rw [h.workerAgent, List.foldl_cons]
    exact hafter.trans (agent_run (v.step (.startTrace rootNode [])) _)

private theorem Setting.roundTrip (hc : Closes caller worker l t args s w) :
    RoundTrip caller worker asyncId l t args original s w := by
  obtain ⟨tid, htid, htidReads⟩ := hc.ids "tid" (by decide)
  obtain ⟨spanId, hspanId, hspanIdReads⟩ := hc.ids "sid" (by decide)
  obtain ⟨appName, happName, happNameReads⟩ := hc.ids "appname" (by decide)
  obtain ⟨appId, happId, happIdReads⟩ := hc.ids "appid" (by decide)
  have hroom : ¬l.world.agent.pool.Exhausted := h.agent ▸ hc.callerRoom
  have hlive := h.calling_live asyncId hroom
  have hcontext {key value : String} (hkey : (PyStr.ofString key).utf8 = key) (hlast : l.last t.root key = some value)
      (hreads : Readable value) := (h.contextAt_iff asyncId hroom hkey hlast).2 hreads.fits
  generalize hs₁ : s.calling caller asyncId = s₁ at hlive hcontext
  let ids : PinpointIds := ⟨.ofString tid, .ofString spanId, .ofString appName, .ofString appId,
    toSigned 32 (s₁.thread.agent.pool.nodeAt s₁.parentId).sequence, asyncId⟩
  have hpins : pinKwargsAt s₁ s₁.parentId asyncId = ids.kwargs := by
    rw [pinKwargsAt, hcontext (by decide +kernel) htid htidReads, hcontext (by decide +kernel) hspanId hspanIdReads,
      hcontext (by decide +kernel) happName happNameReads, hcontext (by decide +kernel) happId happIdReads,
      resolve_of_live hlive, pinpointGetSequenceId_of_live hlive]
    rfl
  have hof : ids.OfCaller l t.root s₁ asyncId :=
    ⟨congrArg (Option.map _) htid, congrArg (Option.map _) hspanId, congrArg (Option.map _) happName,
      congrArg (Option.map _) happId, hlive, rfl, rfl⟩
  obtain ⟨args', hinject, hinvocation⟩ := h.sent hc.carries s₁ s₁.parentId
  obtain ⟨w', hcalls, hlive', hagent'⟩ := h.worker_calls hof.fit hc.workerRoom hc.context
    (PinpointIds.notes_pass_iff.2 ⟨⟨htidReads.passes, hspanIdReads.passes⟩, happNameReads.passes, happIdReads.passes⟩)
  refine ⟨ids, args', s₁, original.withIds ids.kwargs, w', ?_, hof, hpins ▸ hinvocation, in_withIds h.free, hcalls,
    hlive', hagent'⟩
  rw [celeryCaller_calls h.context h.live.pos hc.name, hs₁, hinject]
  rfl

theorem Setting.carries {s' : PyState} {traceId : Int} {args' sent : Args PyVal}
    (hinject : injectIds (pinKwargsAt s' traceId asyncId) args = some args') (hsent : args'.invocation = some sent)
    (hin : ids.In sent) : args.Carries ∧ sent = original.withIds ids.kwargs ∧
      pinKwargsAt s' traceId asyncId = ids.kwargs := by
  have hcarries : args.Carries := by
    by_contra hnot
    have hnone := injectIds_of_not_carries h.invocation hnot hinject
    obtain rfl := Option.some.inj (hsent.symm.trans hnone)
    exact nomatch hin.tid
  obtain ⟨_, hinject', hinvocation⟩ := h.sent hcarries s' traceId
  obtain rfl := Option.some.inj (hinject.symm.trans hinject')
  obtain rfl := Option.some.inj (hsent.symm.trans hinvocation)
  have hpins := kwargs_of_in h.free hin
  exact ⟨hcarries, hpins ▸ rfl, hpins⟩

private theorem Setting.worker_room {w' : PyState} {sent : Args PyVal} (hin : ids.In sent) (hfit : ids.Fit)
    (hcalls : (celeryWorkerPlugin worker.onValues).calls sent w = some (original, w'))
    (hlive : w'.thread.agent.pool.Live w'.parentId) :
    (worker.contextSet = true ∧ ∀ note ∈ ids.notes, note.value.Passes) ∧ ¬w.thread.agent.pool.Exhausted := by
  have hsample : (celeryWorkerPlugin worker.onValues).isSample sent w = .ok (true, rootNode, sent) w := rfl
  obtain ⟨traceId, hbefore⟩ := onBefore_of_calls hsample hcalls
  obtain ⟨hctx, hpass⟩ := celeryWorker_onBefore_inv hin hfit hbefore
  refine ⟨⟨hctx, hpass⟩, fun hfull => ?_⟩
  rw [celeryWorker_onBefore_eq hctx hin hfit hpass] at hbefore
  obtain ⟨-, hstate⟩ := EStateM.Result.ok.inj hbefore
  have hinvalid := started_of_exhausted h.worker h.workerAgent (.inl rfl : rootNode = rootNode ∨ _)
    (h.workerAgent ▸ hfull)
  have hparent : w'.parentId = invalidNode := (congrArg PyState.parentId hstate).symm.trans hinvalid
  exact not_live_invalidNode _ (hparent ▸ hlive)

private theorem Setting.closes (hr : RoundTrip caller worker asyncId l t args original s w) :
    Closes caller worker l t args s w := by
  obtain ⟨ids, args', s', sent, w', hcalls, hof, hsent, hin, hcalls', hlive', -⟩ := hr
  have hname := celeryCaller_calls_inv h.context h.live.pos hcalls
  rw [celeryCaller_calls h.context h.live.pos hname] at hcalls
  obtain ⟨_, hinject, hpair⟩ := Option.map_eq_some_iff.1 hcalls
  obtain ⟨rfl, rfl⟩ := Prod.mk.inj hpair
  have hroom : ¬l.world.agent.pool.Exhausted := fun hfull =>
    not_live_invalidNode _ (started_of_exhausted h.log.world h.agent (.inr h.live) hfull ▸ hof.node)
  obtain ⟨hcarries, -, hpins⟩ := h.carries hinject hsent hin
  obtain ⟨⟨hctx, hpass⟩, hroom'⟩ := h.worker_room hin hof.fit hcalls' hlive'
  obtain ⟨⟨htid, hspanId⟩, happName, happId⟩ := PinpointIds.notes_pass_iff.1 hpass
  refine ⟨hcarries, ?_, hname, h.agent ▸ hroom, hroom', hctx⟩
  have hreads {key : String} {text : PyStr} (hkey : (PyStr.ofString key).utf8 = key)
      (hlast : (l.last t.root key).map .ofString = some text)
      (hcontext : contextAt (s.calling caller asyncId) (s.calling caller asyncId).parentId key = .str text)
      (hpasses : text.Passes) : ∃ value, l.last t.root key = some value ∧ Readable value := by
    obtain ⟨value, hvalue, rfl⟩ := Option.map_eq_some_iff.1 hlast
    exact ⟨value, hvalue, hpasses, (h.contextAt_iff asyncId hroom hkey hvalue).1 hcontext⟩
  simp only [pinKwargsAt, PinpointIds.kwargs, List.cons.injEq, Prod.mk.injEq, true_and] at hpins
  obtain ⟨htidAt, hspanIdAt, happNameAt, happIdAt, -⟩ := hpins
  intro key hkey
  simp only [List.mem_cons, List.not_mem_nil, or_false] at hkey
  obtain rfl | rfl | rfl | rfl := hkey
  · exact hreads (by decide +kernel) hof.tid htidAt htid
  · exact hreads (by decide +kernel) hof.spanId hspanIdAt hspanId
  · exact hreads (by decide +kernel) hof.appName happNameAt happName
  · exact hreads (by decide +kernel) hof.appId happIdAt happId

end Setting

/-- Inside a trace, whatever the calls before left of the agents of caller and worker and however the
arguments are passed, a task sent by `apply_async` is called on the worker with these arguments, in a trace
that takes over the six ids of the caller, if and only if they are not the positional arguments alone nor a
`None` for the keyword arguments, the four texts among the ids are set and can be read back, the name of the
task has UTF-8, and there is a node to be had on both sides and a trace context on the worker. -/
theorem celery_round_trip_iff (asyncId : Fin 10000) (agentType agentType' : Int) (clock clock' : Nat → Nat)
    (calls calls' : List ApiCall) (hl : l = (KeyLog.new agentType clock).run calls) (ht : t ∈ l.world.forest)
    (hparent : s.parentId ∈ t.nodes) (hs : s.thread.agent = l.world.agent)
    (hw : w.thread.agent = ((World.new agentType' clock').run calls').agent) (hctx : caller.contextSet = true)
    (hinvocation : args.invocation = some original) (hfree : ∀ key ∈ injectedIds, original.get? key = none) :
    RoundTrip caller worker asyncId l t args original s w ↔ Closes caller worker l t args s w := by
  have hlog : l.Ok := hl ▸ (KeyLog.ok_new agentType clock).run calls
  have hworker : ((World.new agentType' clock').run calls').Ok := (World.ok_new agentType' clock').run calls'
  have h : Setting caller l _ t args original s w := ⟨hlog, ht, hparent, hs, hworker, hw, hctx, hinvocation, hfree⟩
  exact ⟨h.closes, h.roundTrip⟩

end RoundTrip

/-- A process with a task of the name `add`. -/
def taskEnv : Env Unit PyVal Unit where
  isException _ := true
  str _ := .ok []
  asStr := PyVal.asStr
  asInt := PyVal.asInt
  newEntry value := value
  pyNone := ()
  isEngine _ := false
  none_not_engine := rfl
  listen _ _ := none
  contextSet := true
  name := []
  funcName := .ofString "add"
  appName := .ofString "app"
  appId := .ofString "app-1"
  sid := .ofString "3"
  tid := .ofString "app-1^0^1"
  asyncId := .ofString "0"
  contextsDecode := true
  sendRaises := false

def tracedCalls : List ApiCall :=
  [.startTrace 0 [], .setContextKey 128 "tid" "app-1^0^7", .setContextKey 128 "sid" "42",
    .setContextKey 128 "appname" "app", .setContextKey 128 "appid" "app-1"]

def tracedLog : KeyLog := (KeyLog.new 1700 fun _ => 7).run tracedCalls

/-- The caller, in the root of that trace, and a worker before its first task. -/
def inTrace : PyState := ⟨⟨tracedLog.world.agent, 0⟩, 128⟩

def idleWorker : PyState := ⟨⟨((World.new 1700 fun _ => 7).run []).agent, 0⟩, 0⟩

theorem mem_tracedLog : (⟨128, []⟩ : NodePool.Trace) ∈ tracedLog.world.forest := by
  have hforest : tracedLog.world.forest = [⟨128, []⟩] := rfl
  exact hforest ▸ List.mem_singleton.2 rfl

theorem agent_inTrace : inTrace.thread.agent = tracedLog.world.agent := by rw [inTrace]

theorem agent_idleWorker : idleWorker.thread.agent = ((World.new 1700 fun _ => 7).run []).agent := by rw [idleWorker]

def keywordTask : Args PyVal := ⟨[.int 1], [("x", .int 2)]⟩

/-- `add.apply_async(args=[1], kwargs={"x": 2}, countdown=3)` -/
def keywordCall : Args PyVal :=
  ⟨[], [("args", .list [.int 1]), ("kwargs", .dict [("x", .int 2)]), ("countdown", .int 3)]⟩

theorem celery_round_trip_iff_keywords :
    RoundTrip taskEnv taskEnv 5 tracedLog ⟨128, []⟩ keywordCall keywordTask inTrace idleWorker := by
  have hinvocation : keywordCall.invocation = some keywordTask := rfl
  have hparam : keywordCall.param 1 "kwargs" = some (some (.dict [("x", .int 2)])) := rfl
  have hcarries : keywordCall.Carries := ⟨by decide, fun hnone => nomatch hparam.symm.trans hnone⟩
  have hroom : ¬inTrace.thread.agent.pool.Exhausted := by decide +kernel
  have hroom' : ¬idleWorker.thread.agent.pool.Exhausted := by decide +kernel
  refine (celery_round_trip_iff 5 1700 1700 (fun _ => 7) (fun _ => 7) tracedCalls [] rfl mem_tracedLog
    List.mem_cons_self agent_inTrace agent_idleWorker rfl hinvocation (by decide)).2
    ⟨hcarries, ?_, by decide +kernel, hroom, hroom', rfl⟩
  have hreads {key value : String} (hlast : tracedLog.last 128 key = some value)
      (hpasses : (PyStr.ofString value).Passes) (hfits : 0 < value.utf8ByteSize ∧ value.utf8ByteSize < 1024) :
      ∃ value, tracedLog.last 128 key = some value ∧ Readable value := ⟨value, hlast, hpasses, hfits⟩
  intro key hkey
  simp only [List.mem_cons, List.not_mem_nil, or_false] at hkey
  obtain rfl | rfl | rfl | rfl := hkey
  · exact hreads rfl (by decide +kernel) (by decide +kernel)
  · exact hreads rfl (by decide +kernel) (by decide +kernel)
  · exact hreads rfl (by decide +kernel) (by decide +kernel)
  · exact hreads rfl (by decide +kernel) (by decide +kernel)

def positionalTask : Args PyVal := ⟨[.int 1], []⟩

/-- `add.apply_async([1])` -/
def positionalCall : Args PyVal := ⟨[.list [.int 1]], []⟩

/-- The task is sent without a keyword argument, and nothing of the caller's trace reaches the worker. -/
theorem positional_call_loses_ids :
    (∃ args' s', (celeryCallerPlugin taskEnv 5).calls positionalCall inTrace = some (args', s') ∧
      args'.invocation = some ⟨[.int 1], []⟩) ∧
    ¬RoundTrip taskEnv taskEnv 5 tracedLog ⟨128, []⟩ positionalCall positionalTask inTrace idleWorker := by
  have hlog : tracedLog.Ok := (KeyLog.ok_new 1700 fun _ => 7).run tracedCalls
  have hworker : ((World.new 1700 fun _ => 7).run []).Ok := (World.ok_new 1700 fun _ => 7).run []
  have h : Setting taskEnv tracedLog _ ⟨128, []⟩ positionalCall positionalTask inTrace idleWorker :=
    ⟨hlog, mem_tracedLog, List.mem_cons_self, agent_inTrace, hworker, agent_idleWorker, rfl, rfl, by decide⟩
  refine ⟨⟨_, _, celeryCaller_calls rfl (by decide) (by decide +kernel), rfl⟩, fun hr => ?_⟩
  exact (h.closes hr).carries.not_alone ⟨rfl, rfl⟩

end PinpointAgent.Python
