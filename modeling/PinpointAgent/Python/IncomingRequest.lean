import PinpointAgent.Framework.Lists
import PinpointAgent.Python.OutgoingRequest

/-!
# Requests that begin a trace

The plugins of the web frameworks start a trace for each request and take over the ids that came with it: the
transaction, the span that the caller has drawn for this service, and the caller's own span as parent. What did
not come is generated. Header fields are looked for under two names, since a gateway renames them: `Pinpoint-…`
as they were sent, and `HTTP_PINPOINT_…` as they are found in a WSGI environment.

A trace that the caller does not want sampled, or that is over the limit, is dropped: it is built as any other,
but not sent, and it is marked so that requests made in it carry nothing.
-/

namespace PinpointAgent.Python

open Framework NodePool Agent

variable {ε α : Type}

/-- `key in headers` and `headers[key]` -/
abbrev Lookup := String → Option PyStr

def noteIf (get : Lookup) (key : String) (notes : PyStr → List Note) : List Note :=
  match get key with
  | some value => notes value
  | none => []

def header (key : String) (value : PyStr) : List Note := [.header key value]

def contextAndHeader (key : String) (value : PyStr) : List Note := [.context key value, .header key value]

/-- An id that came under one of two names, or the one that is generated. -/
def idOf (get : Lookup) (cgi plain : String) (generated : PyStr) : PyStr :=
  ((get cgi).or (get plain)).getD generated

def parentNotes (get : Lookup) : List Note :=
  noteIf get "HTTP_PINPOINT_PSPANID" (header "psid") ++ noteIf get "HTTP_PINPOINT_PAPPNAME" (contextAndHeader "pname") ++
    noteIf get "HTTP_PINPOINT_PAPPTYPE" (contextAndHeader "ptype") ++
    noteIf get "HTTP_PINPOINT_HOST" (contextAndHeader "Ah") ++ noteIf get "Pinpoint-Pspanid" (header "psid") ++
    noteIf get "Pinpoint-Pappname" (contextAndHeader "pname") ++
    noteIf get "Pinpoint-Papptype" (contextAndHeader "ptype") ++ noteIf get "Pinpoint-Host" (contextAndHeader "Ah") ++
    noteIf get "NP" (header "NP") ++ noteIf get "AP" (header "AP")

/-- The Django plugin looks for the parent's span twice under the name of a gateway, and notes both proxies under the
key of one. -/
def djangoParentNotes (get : Lookup) (sid tid : PyStr) : List Note :=
  noteIf get "HTTP_PINPOINT_PSPANID" (header "psid") ++ [.context "sid" sid, .context "tid" tid] ++
    noteIf get "HTTP_PINPOINT_PAPPNAME" (contextAndHeader "pname") ++
    noteIf get "HTTP_PINPOINT_PAPPTYPE" (contextAndHeader "ptype") ++
    noteIf get "HTTP_PINPOINT_HOST" (contextAndHeader "Ah") ++ noteIf get "HTTP_PINPOINT_PSPANID" (header "psid") ++
    noteIf get "Pinpoint-Pappname" (contextAndHeader "pname") ++
    noteIf get "Pinpoint-Papptype" (contextAndHeader "ptype") ++ noteIf get "Pinpoint-Host" (contextAndHeader "Ah") ++
    noteIf get "NP" (header "AP") ++ noteIf get "AP" (header "AP")

/-- `key in headers and headers[key] == "s0"` -/
def notSampled (get : Lookup) (key : String) : Bool := get key = some (.ofString "s0")

/-- What a plugin does at the start of a trace: notes, the decision to drop the trace, and notes with the ids. -/
structure Entry where
  before : List Note
  dropped : Bool
  after : List Note

def traceBlock : Int := 4

def dropTrace (traceId : Int) : PyM ε Unit := callAgent fun s => .changeTraceStatus (s.resolve traceId) traceBlock

def Entry.run (entry : Entry) (traceId : Int) : PyM ε Unit := do
  addNotes traceId entry.before
  if entry.dropped then
    dropTrace traceId
    addNotes traceId [.context "Pinpoint-Sampled" (.ofString "s0")]
  addNotes traceId entry.after

def markAsError (message file : PyStr) (traceId : Int) : PyM ε Unit := do
  let message ← parseString message
  let file ← parseString file
  callAgent fun s => .catchError (s.resolve traceId) message file 0

structure Request where
  path : PyStr
  /-- `None` where the server does not know it. -/
  remoteAddr : Option PyStr
  host : PyStr
  method : PyStr
  /-- `str(request.resolver_match.route)` of Django, if the request was resolved. -/
  route : Option PyStr
  /-- `request.headers` -/
  headers : Lookup
  /-- `request.META` of Django -/
  environ : Lookup

section Entries

variable (env : Env ε PyVal α)

/-- What the Flask plugin notes; `limited` is what `check_trace_limit` returns. -/
def flaskEntry (r : Request) (limited : Bool) : Entry :=
  let sid := idOf r.headers "HTTP_PINPOINT_SPANID" "Pinpoint-Spanid" env.sid
  let tid := idOf r.headers "HTTP_PINPOINT_TRACEID" "Pinpoint-Traceid" env.tid
  { before := [.header "appname" env.appName, .context "appname" env.appName, .header "appid" env.appId,
        .context "appid" env.appId, .header "name" (.ofString "BaseFlaskrequest"), .header "uri" r.path] ++
      -- an empty address is as good as none
      ((r.remoteAddr.filter (· ≠ [])).elim [] (header "client")) ++
      [.header "server" r.host, .header "stp" (.ofString "1700"), .context "stp" (.ofString "1700")] ++
      parentNotes r.headers ++ [.context "Pinpoint-Sampled" (.ofString "s1")]
    dropped := notSampled r.headers "HTTP_PINPOINT_SAMPLED" || notSampled r.headers "Pinpoint-Sampled" || limited
    after := [.header "tid" tid, .context "tid" tid, .header "sid" sid, .context "sid" sid] }

def djangoNotes : List Note :=
  [.header "appname" env.appName, .header "appid" env.appId, .context "appname" env.appName,
    .header "name" (.ofString "BaseDjangoRequest request")]

def djangoEntry (r : Request) (remoteAddr : PyStr) (limited : Bool) : Entry :=
  let sid := idOf r.environ "HTTP_PINPOINT_SPANID" "Pinpoint-Spanid" env.sid
  let tid := idOf r.environ "HTTP_PINPOINT_TRACEID" "Pinpoint-Traceid" env.tid
  { before := djangoNotes env ++ [.header "uri" r.path, .header "client" remoteAddr, .header "server" r.host,
        .header "stp" (.ofString "1700"), .context "stp" (.ofString "1700")] ++
      djangoParentNotes r.environ sid tid ++ [.context "Pinpoint-Sampled" (.ofString "s1")]
    dropped := notSampled r.headers "HTTP_PINPOINT_SAMPLED" || notSampled r.headers "Pinpoint-Sampled" || limited
    after := [.header "tid" tid, .header "sid" sid, .context "tid" tid, .context "sid" sid] }

def environNotes : List Note :=
  [.header "appname" env.appName, .context "appname" env.appName, .header "appid" env.appId,
    .header "name" (.ofString "WSGI handle")]

/-- Whether the caller wants the trace sampled is looked for under the name of a gateway only. -/
def environEntry (environ : Lookup) (path remoteAddr host : PyStr) (limited : Bool) : Entry :=
  let sid := idOf environ "HTTP_PINPOINT_SPANID" "Pinpoint-Spanid" env.sid
  let tid := idOf environ "HTTP_PINPOINT_TRACEID" "Pinpoint-Traceid" env.tid
  { before := environNotes env ++ [.header "uri" path, .header "client" remoteAddr, .header "server" host,
        .header "stp" (.ofString "1700"), .context "stp" (.ofString "1700")] ++
      parentNotes environ ++ [.context "Pinpoint-Sampled" (.ofString "s1")]
    dropped := notSampled environ "HTTP_PINPOINT_SAMPLED" || limited
    after := [.header "tid" tid, .context "tid" tid, .header "sid" sid, .context "sid" sid] }

def startPinpointByEnviron (environ : Lookup) (limited : Bool) (traceId : Int) : PyM ε Unit :=
  match environ "PATH_INFO", environ "REMOTE_ADDR", environ "HTTP_HOST" with
  | some path, some remoteAddr, some host => (environEntry env environ path remoteAddr host limited).run traceId
  | path, remoteAddr, _ => do
    addNotes traceId (environNotes env)
    throw (.missingKey (if path = none then "PATH_INFO" else if remoteAddr = none then "REMOTE_ADDR" else "HTTP_HOST"))

/-- `BaseFlaskPlugins`, for a call in which Flask makes the request `r` of the environment in `args[1]`. -/
def baseFlaskPlugins (r : Request) (limited : Bool) : PinTrace ε PyVal α :=
  { basePinTrace env with
    isSample args := pure (true, 0, args)
    onBefore parentId args := do
      let (traceId, args) ← (basePinTrace env).onBefore parentId args
      (flaskEntry env r limited).run traceId
      addTraceHeaderV2 "206" r.method traceId
      return (traceId, args)
    onException traceId e := do
      markAsError (← env.describe e) [] traceId
      throw e }

/-- `BaseDjangoRequestPlugins`, for a call with the request `r`. Its `onException` asks the object with the id of the
trace for an attribute that it does not have. -/
def baseDjangoRequestPlugins (web : Web α) (r : Request) (limited : Bool) : PinTrace ε PyVal α :=
  { basePinTrace env with
    isSample args := pure (true, 0, args)
    onBefore parentId args := do
      let (traceId, args) ← (basePinTrace env).onBefore parentId args
      match r.environ "REMOTE_ADDR" with
      | none =>
        addNotes traceId (djangoNotes env ++ [.header "uri" r.path])
        throw (.missingKey "REMOTE_ADDR")
      | some remoteAddr =>
        (djangoEntry env r remoteAddr limited).run traceId
        match r.environ "REQUEST_METHOD" with
        | none => throw (.missingKey "REQUEST_METHOD")
        | some method =>
          addTraceHeaderV2 "206" method traceId
          return (traceId, args)
    onEnd traceId ret := do
      if web.truthy ret then
        addTraceHeaderV2 "46" (web.statusCode ret) traceId
        if web.failed ret then markAsError (.ofString "status_code=" ++ web.statusCode ret) [] traceId
      match r.route with
      | some route => addNotes traceId [.header "UT" route]
      | none => pure ()
      (basePinTrace env).onEnd traceId ret
    onException _ _ := throw .inLibrary }

/-- `WSGIPlugin`, for a call with the environment `environ`. Its `onEnd` passes the value of the application for the
id of the trace and the id for the value; `asInt` is the format `i` of the extension. -/
def wsgiPlugin (asInt : α → Option Int) (environ : Lookup) (limited : Bool) : PinTrace ε PyVal α :=
  { basePinTrace env with
    isSample args := pure (true, 0, args)
    onBefore parentId args := do
      let (traceId, args) ← (basePinTrace env).onBefore parentId args
      startPinpointByEnviron env environ limited traceId
      return (traceId, args)
    onEnd _ ret :=
      match asInt ret with
      | some id => (basePinTrace env).onEnd id ret
      | none => throw .badArgument
    onException traceId e := do
      markAsError (← env.describe e) [] traceId }

end Entries

/-! ## The calls that an entry makes -/

def Entry.calls (entry : Entry) (node : Int) : List ApiCall :=
  entry.before.map (·.toCall node) ++
    (if entry.dropped then
      [.changeTraceStatus node traceBlock, .setContextKey node "Pinpoint-Sampled" (PyStr.ofString "s0").utf8]
    else []) ++
    entry.after.map (·.toCall node)

section Run

variable {entry : Entry} {traceId : Int} {s s' : PyState}

private theorem dropTrace_eq (traceId : Int) (s : PyState) : (dropTrace traceId : PyM ε Unit) s =
    .ok () (s.made [.changeTraceStatus (s.resolve traceId) traceBlock]) := rfl

private theorem Entry.run_eq (hbefore : ∀ note ∈ entry.before, note.value.Passes)
    (hafter : ∀ note ∈ entry.after, note.value.Passes) (traceId : Int) (s : PyState) :
    (entry.run traceId : PyM ε Unit) s = .ok () (s.made (entry.calls (s.resolve traceId))) := by
  have hmark : ∀ note ∈ [Note.context "Pinpoint-Sampled" (.ofString "s0")], note.value.Passes := by
    intro note hnote
    obtain rfl := List.mem_singleton.1 hnote
    exact (by decide +kernel : (PyStr.ofString "s0").Passes)
  rw [Entry.run, bind_of_ok _ (addNotes_eq traceId hbefore s), Entry.calls]
  cases entry.dropped with
  | false =>
    refine (addNotes_eq traceId hafter _).trans ?_
    rw [made_made]
    simp only [Bool.false_eq_true, if_false, List.append_nil]
    rfl
  | true =>
    simp only [if_true]
    rw [bind_of_ok _ (dropTrace_eq traceId _), bind_of_ok _ (addNotes_eq traceId hmark _), addNotes_eq traceId hafter,
      made_made, made_made, made_made, List.append_assoc]
    rfl

private theorem Entry.passes_of_run {u : Unit} (h : (entry.run traceId : PyM ε Unit) s = .ok u s') :
    (∀ note ∈ entry.before, note.value.Passes) ∧ ∀ note ∈ entry.after, note.value.Passes := by
  rw [Entry.run] at h
  obtain ⟨_, s₁, hbefore, h⟩ := bind_eq_ok h
  refine ⟨passes_of_addNotes hbefore, ?_⟩
  cases hdropped : entry.dropped with
  | false =>
    rw [hdropped] at h
    exact passes_of_addNotes h
  | true =>
    rw [hdropped] at h
    simp only [if_true] at h
    obtain ⟨_, s₂, -, h⟩ := bind_eq_ok h
    obtain ⟨_, s₃, -, h⟩ := bind_eq_ok h
    exact passes_of_addNotes h

theorem Entry.made_of_run {u : Unit} (h : (entry.run traceId : PyM ε Unit) s = .ok u s') :
    s' = s.made (entry.calls (s.resolve traceId)) := by
  obtain ⟨hbefore, hafter⟩ := Entry.passes_of_run h
  rw [Entry.run_eq hbefore hafter] at h
  exact (EStateM.Result.ok.inj h).2.symm

end Run

/-! ## What the calls leave in a trace -/

def WritesTo (id : Int) : ApiCall → Prop
  | .addClue i _ _ flag | .addClues i _ _ flag => i = id ∧ flag = 0
  | .setContextKey i _ _ | .changeTraceStatus i _ => i = id
  | _ => False

def keyOf : ApiCall → Option (String × String)
  | .setContextKey _ key value => some (key, value)
  | _ => none

def clueOf : ApiCall → Option (String × String)
  | .addClue _ key value _ => some (key, value)
  | _ => none

section Writes

variable {w : World} {t : NodePool.Trace} {call : ApiCall} {calls : List ApiCall} {key : String}

private theorem nextForest_of_writesTo {id : Int} (h : WritesTo id call) : w.nextForest call = w.forest := by
  cases call with
  | addClue | addClues | setContextKey | changeTraceStatus => rfl
  | startTrace | endTrace | addException | catchError | setAsyncCtx => exact h.elim

private theorem mem_forest_step {id : Int} (h : WritesTo id call) (ht : t ∈ w.forest) : t ∈ (w.step call).forest := by
  change t ∈ w.nextForest call
  rw [nextForest_of_writesTo h]
  exact ht

private theorem frames_get_annotateTraceV2 (node id : Int) (name value : String) (flag : Int) (hkey : key ≠ "anno") :
    Frames (fun a => (a.pool.nodeAt node).value.get key) (annotateTraceV2 id name value flag) := by
  refine Frames.bind (frames_notInternalKey name) fun _ => ?_
  refine Frames.bind (frames_getWrapperTraceNode id flag) fun target => ?_
  intro a
  cases hval : (a.pool.nodeAt target).value.append "anno" (.str (name ++ ":" ++ value)) with
  | none =>
    have hrun : appendAnnotationMember target "anno" (.str (name ++ ":" ++ value)) a = .error .notAppendable a := by
      simp only [appendAnnotationMember, hval]
    rw [finalState_of_error hrun]
  | some members =>
    have hrun : appendAnnotationMember target "anno" (.str (name ++ ":" ++ value)) a =
        .ok () { a with pool := a.pool.modifyNode target fun n => { n with value := members } } := by
      simp only [appendAnnotationMember, hval]
    have happ : ((a.pool.nodeAt target).value.get "anno").Appendable := by
      by_contra hnot
      rw [(Members.append_eq_none_iff _ "anno" _).2 hnot] at hval
      cases hval
    rw [Members.append_of_appendable _ _ _ happ] at hval
    rw [finalState_of_ok hrun]
    dsimp only
    by_cases heq : node = target
    · subst heq
      rw [PoolManager.nodeAt_modifyNode_self, ← Option.some.inj hval]
      exact Members.get_set_of_ne _ _ hkey
    · rw [PoolManager.nodeAt_modifyNode_of_ne _ heq]

private theorem get_after_annotateTraceV1 {a : Agent} {node : Int} (hlive : a.pool.Live node) (name value : String)
    (hplain : key.toList.head? ≠ some ':') :
    ((finalState (annotateTraceV1 node name value 0) a).pool.nodeAt node).value.get key =
      if key = name then .str value else (a.pool.nodeAt node).value.get key := by
  by_cases hname : name.toList.head? = some ':'
  · -- the agent refuses the key, which is not the one that is asked for
    have hrefused : notInternalKey name a = .error (.internalKey name) a := by
      rw [notInternalKey, if_pos hname]
      rfl
    have hrun : annotateTraceV1 node name value 0 a = .error (.internalKey name) a := by
      rw [annotateTraceV1, bind_of_error _ hrefused]
    have hne : key ≠ name := fun heq => hplain (heq ▸ hname)
    rw [finalState_of_error hrun, if_neg hne]
  · have hpasses : notInternalKey name a = .ok () a := by
      rw [notInternalKey, if_neg hname]
      rfl
    have hrun : annotateTraceV1 node name value 0 a =
        .ok () { a with pool := a.pool.modifyNode node (·.addAnnotationMember name (.str value)) } := by
      rw [annotateTraceV1, bind_of_ok _ hpasses, bind_of_ok _ (getWrapperTraceNode_current hlive)]
      rfl
    rw [finalState_of_ok hrun, PoolManager.nodeAt_modifyNode_self]
    change (Members.set _ name (.str value)).get key = _
    by_cases heq : key = name
    · rw [heq, Members.get_set_self, if_pos rfl]
    · rw [Members.get_set_of_ne _ _ heq, if_neg heq]

theorem get_after (h : w.Ok) (ht : t ∈ w.forest) (hcall : WritesTo t.root call)
    (hplain : key.toList.head? ≠ some ':') (hkey : key ≠ "anno") :
    ((w.agent.after call).pool.nodeAt t.root).value.get key =
      ((clueOf call).toList.lookup key).elim ((w.agent.pool.nodeAt t.root).value.get key) JsonTree.str := by
  have hlive := h.holds.live_of_mem ht List.mem_cons_self
  have hroot : (w.agent.pool.nodeAt t.root).rootId = t.root := ((h.holds.ok t ht).node_ids List.mem_cons_self).2
  cases call with
  | addClue id name value flag =>
    obtain ⟨rfl, rfl⟩ := hcall
    rw [after, get_after_annotateTraceV1 hlive name value hplain, clueOf, Option.toList_some, lookup_singleton]
    by_cases heq : key = name
    · rw [if_pos heq, if_pos heq, Option.elim_some]
    · rw [if_neg heq, if_neg heq, Option.elim_none]
  | addClues id name value flag =>
    obtain ⟨rfl, rfl⟩ := hcall
    exact frames_get_annotateTraceV2 t.root t.root name value 0 hkey w.agent
  | setContextKey id name value =>
    obtain rfl : id = t.root := hcall
    have hrun : addTraceContext t.root name value w.agent = .ok () { w.agent with
        pool := w.agent.pool.modifyNode t.root fun n => { n with contextMap := (name, value) :: n.contextMap } } := by
      rw [addTraceContext, bind_of_ok _ (getWrapperTraceNode_root hlive hroot hlive)]
      rfl
    rw [after, finalState_of_ok hrun, PoolManager.nodeAt_modifyNode_self]
    rfl
  | changeTraceStatus id status =>
    obtain rfl : id = t.root := hcall
    rw [after, finalState_of_ok (changeTraceStatus_eq hlive (hroot.symm ▸ hlive) status), hroot,
      PoolManager.nodeAt_modifyNode_self]
    rfl
  | startTrace | endTrace | addException | catchError | setAsyncCtx => exact hcall.elim

private theorem contexts_after (h : w.Ok) (ht : t ∈ w.forest) (hcall : WritesTo t.root call) :
    contexts (w.agent.after call) t.root = (keyOf call).toList ++ contexts w.agent t.root := by
  have hlog : (KeyLog.mk w (contexts w.agent)).Ok := ⟨h, fun _ _ => rfl⟩
  refine ((hlog.step call).kept t (mem_forest_step hcall ht)).trans ?_
  cases call with
  | setContextKey id name value =>
    obtain rfl : id = t.root := hcall
    change (KeyLog.mk w (contexts w.agent)).note (.setContextKey t.root name value) t.root = _
    simp only [KeyLog.note, KeyLog.rootOf_of_mem h.holds ht List.mem_cons_self, Function.update_self]
    rfl
  | addClue | addClues | changeTraceStatus => rfl
  | startTrace | endTrace | addException | catchError | setAsyncCtx => exact hcall.elim

theorem contexts_run (h : w.Ok) (ht : t ∈ w.forest) (hcalls : ∀ call ∈ calls, WritesTo t.root call) :
    contexts (w.run calls).agent t.root = (calls.filterMap keyOf).reverse ++ contexts w.agent t.root := by
  induction calls generalizing w with
  | nil => rfl
  | cons call calls ih =>
    have hcall := hcalls call List.mem_cons_self
    have hrest := ih (h.step call) (mem_forest_step hcall ht) fun other hother =>
      hcalls other (List.mem_cons_of_mem _ hother)
    change contexts ((w.step call).run calls).agent t.root = _
    rw [hrest, show (w.step call).agent = w.agent.after call from rfl, contexts_after h ht hcall]
    cases hkey : keyOf call with
    | none => rw [List.filterMap_cons_none hkey, Option.toList_none, List.nil_append]
    | some entry =>
      rw [List.filterMap_cons_some hkey, List.reverse_cons, List.append_assoc, Option.toList_some]

theorem get_run (h : w.Ok) (ht : t ∈ w.forest) (hcalls : ∀ call ∈ calls, WritesTo t.root call)
    (hplain : key.toList.head? ≠ some ':') (hkey : key ≠ "anno") :
    ((w.run calls).agent.pool.nodeAt t.root).value.get key =
      ((calls.filterMap clueOf).reverse.lookup key).elim ((w.agent.pool.nodeAt t.root).value.get key) JsonTree.str := by
  induction calls generalizing w with
  | nil => rfl
  | cons call calls ih =>
    have hcall := hcalls call List.mem_cons_self
    have hrest := ih (h.step call) (mem_forest_step hcall ht) fun other hother =>
      hcalls other (List.mem_cons_of_mem _ hother)
    change (((w.step call).run calls).agent.pool.nodeAt t.root).value.get key = _
    rw [hrest, show (w.step call).agent = w.agent.after call from rfl,
      get_after h ht hcall hplain hkey]
    cases hclue : clueOf call with
    | none => rw [List.filterMap_cons_none hclue, Option.toList_none, List.lookup_nil, Option.elim_none]
    | some clue =>
      rw [List.filterMap_cons_some hclue, List.reverse_cons, List.lookup_append, Option.toList_some]
      cases (calls.filterMap clueOf).reverse.lookup key with
      | none => rw [Option.none_or, Option.elim_none]
      | some value => rw [Option.some_or, Option.elim_some, Option.elim_some]

end Writes

/-! ## The last note of a key -/

def Note.key : Note → Option (String × String)
  | .context key value => some (key, value.utf8)
  | .header .. => none

def Note.clue : Note → Option (String × String)
  | .header key value => some (key, value.utf8)
  | .context .. => none

def lastKey (notes : List Note) (key : String) : Option String := (notes.filterMap Note.key).reverse.lookup key

/-- What the notes leave among the members of the node. -/
def lastClue (notes : List Note) (key : String) : Option String := (notes.filterMap Note.clue).reverse.lookup key

section LastNote

variable {name key : String} {value : PyStr} {notes : List Note}

@[simp] theorem lastKey_nil (key : String) : lastKey [] key = none := rfl

@[simp] theorem lastClue_nil (key : String) : lastClue [] key = none := rfl

@[simp] theorem lastKey_append (notes later : List Note) (key : String) :
    lastKey (notes ++ later) key = (lastKey later key).or (lastKey notes key) := by
  rw [lastKey, List.filterMap_append, List.reverse_append, List.lookup_append]
  rfl

@[simp] theorem lastClue_append (notes later : List Note) (key : String) :
    lastClue (notes ++ later) key = (lastClue later key).or (lastClue notes key) := by
  rw [lastClue, List.filterMap_append, List.reverse_append, List.lookup_append]
  rfl

@[simp] theorem lastKey_cons_context : lastKey (.context name value :: notes) key =
    (lastKey notes key).or (if key = name then some value.utf8 else none) := by
  rw [← List.singleton_append, lastKey_append, ← lookup_singleton]
  rfl

@[simp] theorem lastKey_cons_header : lastKey (.header name value :: notes) key = lastKey notes key := rfl

@[simp] theorem lastClue_cons_header : lastClue (.header name value :: notes) key =
    (lastClue notes key).or (if key = name then some value.utf8 else none) := by
  rw [← List.singleton_append, lastClue_append, ← lookup_singleton]
  rfl

@[simp] theorem lastClue_cons_context : lastClue (.context name value :: notes) key = lastClue notes key := rfl

@[simp] theorem lastKey_noteIf (get : Lookup) (field : String) (notes : PyStr → List Note) :
    lastKey (noteIf get field notes) key = (get field).bind fun value => lastKey (notes value) key := by
  rw [noteIf]
  cases get field <;> rfl

@[simp] theorem lastClue_noteIf (get : Lookup) (field : String) (notes : PyStr → List Note) :
    lastClue (noteIf get field notes) key = (get field).bind fun value => lastClue (notes value) key := by
  rw [noteIf]
  cases get field <;> rfl

@[simp] theorem lastKey_elim (o : Option PyStr) (notes : PyStr → List Note) :
    lastKey (o.elim [] notes) key = o.bind fun value => lastKey (notes value) key := by
  cases o <;> rfl

@[simp] theorem lastClue_elim (o : Option PyStr) (notes : PyStr → List Note) :
    lastClue (o.elim [] notes) key = o.bind fun value => lastClue (notes value) key := by
  cases o <;> rfl

private theorem bind_some_utf8 (o : Option PyStr) : (o.bind fun value => some value.utf8) = o.map PyStr.utf8 := by
  cases o <;> rfl

theorem filterMap_keyOf (notes : List Note) (node : Int) :
    (notes.map (·.toCall node)).filterMap keyOf = notes.filterMap Note.key := by
  rw [List.filterMap_map]
  refine List.filterMap_congr fun note _ => ?_
  cases note <;> rfl

theorem filterMap_clueOf (notes : List Note) (node : Int) :
    (notes.map (·.toCall node)).filterMap clueOf = notes.filterMap Note.clue := by
  rw [List.filterMap_map]
  refine List.filterMap_congr fun note _ => ?_
  cases note <;> rfl

end LastNote

/-! ## What an entry takes over -/

/-- What came with a request; the two ids are generated if they did not come. -/
structure Taken where
  tid : PyStr
  sid : PyStr
  psid : Option PyStr
  pname : Option PyStr
  ptype : Option PyStr

structure Entry.Takes (entry : Entry) (taken : Taken) (appName : PyStr) : Prop where
  mark : lastKey entry.before "Pinpoint-Sampled" = some "s1" ∧ lastKey entry.after "Pinpoint-Sampled" = none
  tidKey : lastKey entry.after "tid" = some taken.tid.utf8
  sidKey : lastKey entry.after "sid" = some taken.sid.utf8
  appNameKey : (lastKey entry.after "appname").or (lastKey entry.before "appname") = some appName.utf8
  typeKey : (lastKey entry.after "stp").or (lastKey entry.before "stp") = some "1700"
  tid : lastClue (entry.before ++ entry.after) "tid" = some taken.tid.utf8
  sid : lastClue (entry.before ++ entry.after) "sid" = some taken.sid.utf8
  psid : lastClue (entry.before ++ entry.after) "psid" = taken.psid.map PyStr.utf8
  pname : lastClue (entry.before ++ entry.after) "pname" = taken.pname.map PyStr.utf8
  ptype : lastClue (entry.before ++ entry.after) "ptype" = taken.ptype.map PyStr.utf8

section Takes

variable (env : Env ε PyVal α)

theorem flaskEntry_takes (r : Request) (limited : Bool) : (flaskEntry env r limited).Takes
    ⟨idOf r.headers "HTTP_PINPOINT_TRACEID" "Pinpoint-Traceid" env.tid,
      idOf r.headers "HTTP_PINPOINT_SPANID" "Pinpoint-Spanid" env.sid,
      (r.headers "Pinpoint-Pspanid").or (r.headers "HTTP_PINPOINT_PSPANID"),
      (r.headers "Pinpoint-Pappname").or (r.headers "HTTP_PINPOINT_PAPPNAME"),
      (r.headers "Pinpoint-Papptype").or (r.headers "HTTP_PINPOINT_PAPPTYPE")⟩ env.appName := by
  constructor <;>
    simp [flaskEntry, parentNotes, header, contextAndHeader, utf8_ofString, bind_some_utf8, Option.map_or]

theorem environEntry_takes (environ : Lookup) (path remoteAddr host : PyStr) (limited : Bool) :
    (environEntry env environ path remoteAddr host limited).Takes
      ⟨idOf environ "HTTP_PINPOINT_TRACEID" "Pinpoint-Traceid" env.tid,
        idOf environ "HTTP_PINPOINT_SPANID" "Pinpoint-Spanid" env.sid,
        (environ "Pinpoint-Pspanid").or (environ "HTTP_PINPOINT_PSPANID"),
        (environ "Pinpoint-Pappname").or (environ "HTTP_PINPOINT_PAPPNAME"),
        (environ "Pinpoint-Papptype").or (environ "HTTP_PINPOINT_PAPPTYPE")⟩ env.appName := by
  constructor <;>
    simp [environEntry, environNotes, parentNotes, header, contextAndHeader, utf8_ofString, bind_some_utf8, Option.map_or]

theorem djangoEntry_takes (r : Request) (remoteAddr : PyStr) (limited : Bool) :
    (djangoEntry env r remoteAddr limited).Takes
      ⟨idOf r.environ "HTTP_PINPOINT_TRACEID" "Pinpoint-Traceid" env.tid,
        idOf r.environ "HTTP_PINPOINT_SPANID" "Pinpoint-Spanid" env.sid, r.environ "HTTP_PINPOINT_PSPANID",
        (r.environ "Pinpoint-Pappname").or (r.environ "HTTP_PINPOINT_PAPPNAME"),
        (r.environ "Pinpoint-Papptype").or (r.environ "HTTP_PINPOINT_PAPPTYPE")⟩ env.appName := by
  constructor <;>
    simp [djangoEntry, djangoNotes, djangoParentNotes, header, contextAndHeader, utf8_ofString, bind_some_utf8,
      Option.map_or]

end Takes

end PinpointAgent.Python
