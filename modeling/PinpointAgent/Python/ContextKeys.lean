import PinpointAgent.Agent.World
import PinpointAgent.Python.Extension

/-!
# The context keys of a trace

`set_context_key` writes into a map at the root of the trace, whatever node of the trace it is called
with, and `get_context_key` reads from it. On the way out the value is copied to a buffer of 1024
bytes, and its length comes back as the result of the call, where zero also stands for a key that is
not set and a negative number for a value that does not fit. So an empty value and a value of 1024
bytes or more cannot be read back: Python gets `False`, as if the key had never been set.
-/

namespace PinpointAgent.Python

open Framework NodePool Agent

/-- What `get_context_key` returns: a string, `False`, or what lies behind a buffer without a NUL. -/
inductive KeyResult where
  | str (value : PyStr)
  | no
  | overrun
deriving DecidableEq

def keyBufSize : Nat := 1024

/-- The text in the buffer after `strncpy`. -/
def readBuffer (value : String) : KeyResult :=
  if value.utf8ByteSize < keyBufSize then .str (.ofString value) else .overrun

/-- What `py_pinpoint_get_key` makes of the size returned and the text copied. -/
def KeyResult.ofRead : Int × Option String → KeyResult
  | (size, some value) => if 0 < size then readBuffer value else .no
  | (_, none) => .no

variable {ε : Type}

def getContextKey (key : PyStr) (id : Int) : PyM ε KeyResult := do
  let key ← parseString key
  let s ← get
  return .ofRead (s.thread.agent.pinpointGetContextKey (s.resolve id) key true keyBufSize)

/-! ## What writes to the map -/

def contexts (a : Agent) (id : Int) : List (String × String) := (a.pool.nodeAt id).contextMap

section Frames

private theorem contexts_modifyNode {a : Agent} {id : Int} {g : TraceNode → TraceNode}
    (h : (g (a.pool.nodeAt id)).contextMap = (a.pool.nodeAt id).contextMap) :
    contexts { a with pool := a.pool.modifyNode id g } = contexts a := by
  funext other
  rw [contexts, contexts]
  by_cases heq : other = id
  · rw [heq, PoolManager.nodeAt_modifyNode_self, h]
  · rw [PoolManager.nodeAt_modifyNode_of_ne _ heq]

private theorem contextMap_of_bare {n m : TraceNode} (h : bare n = bare m) : n.contextMap = m.contextMap := by
  have hmap : (bare n).contextMap = (bare m).contextMap := by rw [h]
  exact hmap

instance blindContexts : Blind contexts := ⟨fun _ _ => rfl, fun h => contexts_modifyNode (contextMap_of_bare h)⟩

private theorem framesContexts_changeTraceStatus (id status : Int) :
    Frames contexts (changeTraceStatus id status) := by
  refine Frames.bind (frames_referNode id) fun node => ?_
  refine Frames.bind (frames_referNode _) fun _ => ?_
  refine Frames.bind Frames.get fun _ => ?_
  refine Frames.bind ?_ fun _ => Frames.pure _
  apply Moves.modify
  intro a
  exact contexts_modifyNode rfl

private theorem bare_stamp (n : TraceNode) (expired : Int) (members : Members) :
    bare { n with expiredTime := expired, value := members } = bare n := rfl

private theorem framesContexts_endTraceNode (id : Int) : Frames contexts (endTraceNode id) := by
  refine Frames.bind frames_getUnixTimeMs fun now => ?_
  exact frames_modifyNode fun n => bare_stamp n _ _

private theorem framesContexts_encodeNode (root id : Int) : Frames contexts (encodeNode root id) := by
  refine Frames.bind (frames_referNode id) fun node => ?_
  refine Frames.bind ?_ fun _ => ?_
  · unfold forceEnd
    split
    · exact framesContexts_endTraceNode id
    · exact Frames.pure _
  · refine Frames.bind Frames.get fun _ => ?_
    exact Frames.bind (frames_appendAnnotationMember _ _ _) fun _ => Frames.pure _

private theorem framesContexts_encodeLoop (root : Int) (fuel : Nat) (next : Int) :
    Frames contexts (encodeLoop root fuel next) := by
  induction fuel generalizing next with
  | zero =>
    unfold encodeLoop
    split
    · exact Frames.pure _
    · exact Frames.throw _
  | succ fuel ih =>
    unfold encodeLoop
    split
    · exact Frames.pure _
    · exact Frames.bind (framesContexts_encodeNode root next) fun next' => ih next'

private theorem framesContexts_deliverRoot (id : Int) (raises : Bool) : Frames contexts (deliverRoot id raises) := by
  refine Frames.bind Frames.get fun a => ?_
  split
  · refine Frames.bind (framesContexts_endTraceNode id) fun _ => ?_
    refine Frames.bind (frames_referNode id) fun _ => ?_
    refine Frames.bind (Frames.bind Frames.get fun b => ?_) fun span => ?_
    · split
      · refine Frames.bind (framesContexts_encodeLoop _ _ _) fun _ => ?_
        refine Frames.bind (frames_modifyNode fun n => ?_) fun _ => fun _ => rfl
        obtain ⟨skipped, hskipped⟩ := runUserOptionFunc_eq n
        rw [hskipped]
        rfl
      · exact fun _ => rfl
    · refine Frames.bind (fun _ => rfl) fun _ => ?_
      split
      · exact Frames.throw _
      · exact Frames.pure _
  · exact Frames.pure _

end Frames

/-! ## What the callers have set -/

def rootOf (f : Forest) (id : Int) : Option Int := (f.find? (id ∈ ·.nodes)).map NodePool.Trace.root

/-- The agent, and what was set in each trace, the latest first; a trace goes by its root. -/
structure KeyLog where
  world : World
  set : Int → List (String × String)

namespace KeyLog

def new (agentType : Int) (clock : Nat → Nat) : KeyLog := ⟨.new agentType clock, fun _ => []⟩

/-- A new trace has no keys; a key that is set through a node goes to the trace of the node. -/
def note (l : KeyLog) : ApiCall → Int → List (String × String)
  | .startTrace parentId _ =>
    match startNode parentId l.world.agent with
    | .ok id _ => if parentId = rootNode then Function.update l.set id [] else l.set
    | .error .. => l.set
  | .setContextKey id key value =>
    match rootOf l.world.forest id with
    | some root => Function.update l.set root ((key, value) :: l.set root)
    | none => l.set
  | _ => l.set

def step (l : KeyLog) (call : ApiCall) : KeyLog := ⟨l.world.step call, l.note call⟩

def run (l : KeyLog) (calls : List ApiCall) : KeyLog := calls.foldl step l

def last (l : KeyLog) (root : Int) (key : String) : Option String := (l.set root).lookup key

/-- The map at the root of every trace is what was set in the trace. -/
structure Ok (l : KeyLog) : Prop where
  world : l.world.Ok
  kept : ∀ t ∈ l.world.forest, contexts l.world.agent t.root = l.set t.root

variable {l : KeyLog} {t : NodePool.Trace} {id : Int}

theorem ok_new (agentType : Int) (clock : Nat → Nat) : (new agentType clock).Ok :=
  ⟨World.ok_new agentType clock, fun _ h => absurd h List.not_mem_nil⟩

theorem rootOf_of_mem {p : PoolManager} {f : Forest} (h : Holds p f []) (ht : t ∈ f) (hid : id ∈ t.nodes) :
    rootOf f id = some t.root := by
  rw [rootOf]
  rcases hfind : f.find? (id ∈ ·.nodes) with _ | u
  · have hnone := List.find?_eq_none.1 hfind t ht
    exact absurd hid (by simpa using hnone)
  · have hu := List.mem_of_find?_eq_some hfind
    have hin : id ∈ u.nodes := by simpa using List.find?_some hfind
    have hsame : u.root = t.root :=
      ((h.ok u hu).node_ids hin).2.symm.trans ((h.ok t ht).node_ids hid).2
    rw [hfind, Option.map_some, hsame]

private theorem rootOf_of_dead {p : PoolManager} {f : Forest} (h : Holds p f []) (hdead : ¬p.Live id) :
    rootOf f id = none := by
  rw [rootOf, Option.map_eq_none_iff, List.find?_eq_none]
  intro t ht hin
  exact hdead (h.live_of_mem ht (by simpa using hin))

private theorem Ok.of_contexts (h : l.Ok) {call : ApiCall} (hnote : l.note call = l.set)
    (hcontexts : contexts (l.world.agent.after call) = contexts l.world.agent)
    (hforest : ∀ t ∈ l.world.nextForest call, t ∈ l.world.forest) : (l.step call).Ok := by
  refine ⟨h.world.step call, fun t ht => ?_⟩
  change contexts (l.world.agent.after call) t.root = l.note call t.root
  rw [hcontexts, hnote]
  exact h.kept t (hforest t ht)

private theorem Ok.startTrace (h : l.Ok) (parentId : Int) (opts : List String) :
    (l.step (.startTrace parentId opts)).Ok := by
  obtain ⟨id, a', hstart, hstarted⟩ | ⟨e, hstart, -⟩ := startNode_spec h.world.holds parentId
  · refine ⟨h.world.step _, fun t ht => ?_⟩
    have hcontexts : contexts (l.world.agent.after (.startTrace parentId opts)) = contexts a' := by
      rw [World.after_startTrace opts hstart]
      exact frames_setNodeUserOption id _ a'
    have hold : ∀ u ∈ l.world.forest, u.root ≠ id ∧ contexts a' u.root = l.set u.root := by
      intro u hu
      have hlive := h.world.holds.live_of_mem hu List.mem_cons_self
      obtain ⟨next, extra, hnode⟩ := hstarted.kept u.root hlive
      refine ⟨fun heq => hstarted.dead (heq ▸ hlive), ?_⟩
      rw [contexts, hnode]
      exact h.kept u hu
    change t ∈ l.world.nextForest (.startTrace parentId opts) at ht
    change contexts (l.world.agent.after (.startTrace parentId opts)) t.root =
      l.note (.startTrace parentId opts) t.root
    rw [World.nextForest_startTrace opts hstart] at ht
    rw [hcontexts]
    simp only [note, hstart]
    by_cases hroot : parentId = rootNode
    · rw [Forest.start, if_pos hroot, List.mem_append, List.mem_singleton] at ht
      rw [if_pos hroot]
      obtain ht | rfl := ht
      · rw [Function.update_of_ne (hold t ht).1]
        exact (hold t ht).2
      · rw [Function.update_self, contexts]
        obtain ⟨n, ⟨-, hnode⟩ | ⟨u, hu, hparent, -⟩⟩ := hstarted.node
        · rw [hnode]
          rfl
        · exact absurd hroot (h.world.holds.live_of_mem hu hparent).ne_rootNode
    · rw [Forest.start, if_neg hroot] at ht
      obtain ⟨u, hu, rfl⟩ := List.mem_map.1 ht
      have hsame : (if parentId ∈ u.nodes then { u with kids := u.kids ++ [id] } else u).root = u.root := by
        split <;> rfl
      rw [if_neg hroot, hsame]
      exact (hold u hu).2
  · apply h.of_contexts
    · simp only [note, hstart]
    · rw [World.after_startTrace_of_error opts hstart]
    · rw [World.nextForest_startTrace_of_error opts hstart]
      exact fun t ht => ht

private theorem contexts_endTrace (h : l.Ok) (id : Int) (raises : Bool) :
    contexts (l.world.agent.after (.endTrace id raises)) = contexts l.world.agent := by
  by_cases hlive : l.world.agent.pool.Live id
  · obtain ⟨t, ht, hid⟩ := h.world.holds.exists_trace hlive
    by_cases hroot : id = t.root
    · subst hroot
      have hframe := framesContexts_deliverRoot t.root raises l.world.agent
      have hspec := endTrace_root h.world.holds ht raises
      split at hspec
      · obtain ⟨b, q, hdeliver, -, hend, -, -, hnodes, -⟩ := hspec
        rw [finalState_of_ok hdeliver] at hframe
        rw [after, finalState_of_ok hend, ← hframe]
        funext other
        rw [contexts, contexts, PoolManager.nodeAt, PoolManager.nodeAt, hnodes]
      · obtain ⟨e, b, hdeliver, -, hend, -⟩ := hspec
        rw [finalState_of_error hdeliver] at hframe
        rw [after, finalState_of_error hend, hframe]
    · have hchild := endTrace_child hlive (not_isRootNode h.world.holds ht hid hroot) raises
      rw [after, finalState_of_ok hchild]
      exact framesContexts_endTraceNode id l.world.agent
  · obtain ⟨e, he, -⟩ := referNode_of_dead hlive
    have hend : Agent.endTrace id raises l.world.agent = .error e l.world.agent := by
      rw [Agent.endTrace, bind_of_error _ he]
    rw [after, finalState_of_error hend]

private theorem Ok.setContextKey (h : l.Ok) (id : Int) (key value : String) :
    (l.step (.setContextKey id key value)).Ok := by
  refine ⟨h.world.step _, fun t ht => ?_⟩
  change contexts (finalState (addTraceContext id key value) l.world.agent) t.root =
    l.note (.setContextKey id key value) t.root
  change t ∈ l.world.forest at ht
  by_cases hlive : l.world.agent.pool.Live id
  · obtain ⟨u, hu, hid⟩ := h.world.holds.exists_trace hlive
    have hrootLive := h.world.holds.live_of_mem hu List.mem_cons_self
    have hwrapper := getWrapperTraceNode_root hlive ((h.world.holds.ok u hu).node_ids hid).2 hrootLive
    have hrun : addTraceContext id key value l.world.agent = .ok () { l.world.agent with
        pool := l.world.agent.pool.modifyNode u.root fun n =>
          { n with contextMap := (key, value) :: n.contextMap } } := by
      rw [addTraceContext, bind_of_ok _ hwrapper]
      rfl
    rw [finalState_of_ok hrun]
    simp only [note, rootOf_of_mem h.world.holds hu hid]
    by_cases heq : t.root = u.root
    · rw [heq, Function.update_self, contexts, PoolManager.nodeAt_modifyNode_self, ← h.kept u hu]
      rfl
    · rw [Function.update_of_ne heq, contexts, PoolManager.nodeAt_modifyNode_of_ne _ heq]
      exact h.kept t ht
  · obtain ⟨e, he, -⟩ := referNode_of_dead hlive
    have hrun : addTraceContext id key value l.world.agent = .error e l.world.agent := by
      rw [addTraceContext, getWrapperTraceNode, bind_of_error _ (bind_of_error _ he)]
    rw [finalState_of_error hrun]
    simp only [note, rootOf_of_dead h.world.holds hlive]
    exact h.kept t ht

theorem Ok.step (h : l.Ok) (call : ApiCall) : (l.step call).Ok := by
  cases call with
  | startTrace parentId opts => exact h.startTrace parentId opts
  | endTrace id raises =>
    apply h.of_contexts rfl (contexts_endTrace h id raises)
    intro t ht
    simp only [World.nextForest] at ht
    split at ht
    · exact List.mem_of_mem_filter ht
    · exact ht
  | addClue id key value flag =>
    exact h.of_contexts rfl (frames_annotateTraceV1 id key value flag _) fun _ ht => ht
  | addClues id key value flag =>
    exact h.of_contexts rfl (frames_annotateTraceV2 id key value flag _) fun _ ht => ht
  | addException id exception =>
    exact h.of_contexts rfl (frames_annotateExceptionTrace id exception _) fun _ ht => ht
  | catchError id msg file line =>
    exact h.of_contexts rfl (frames_annotateErrorTrace id msg file line _) fun _ ht => ht
  | setContextKey id key value => exact h.setContextKey id key value
  | setAsyncCtx id asyncNodeId nodeSequence =>
    exact h.of_contexts rfl (frames_setAsyncContext id asyncNodeId nodeSequence _) fun _ ht => ht
  | changeTraceStatus id status =>
    exact h.of_contexts rfl (framesContexts_changeTraceStatus id status _) fun _ ht => ht

theorem Ok.run (h : l.Ok) (calls : List ApiCall) : (l.run calls).Ok := by
  induction calls generalizing l with
  | nil => exact h
  | cons call calls ih => exact ih (h.step call)

end KeyLog

/-! ## Reading back -/

/-- What `getTraceContext` makes of the value it found. -/
def boundedRead (bufSize : Int) (value : String) : Int × Option String :=
  if toSigned 32 value.utf8ByteSize < bufSize then (toSigned 32 value.utf8ByteSize, some value) else (-1, none)

theorem resolve_of_live {p : PoolManager} {id : Int} (h : p.Live id) (s : PyState) : s.resolve id = id := by
  have hpos := h.pos
  rw [PyState.resolve, if_neg (by omega)]

section ReadBack

variable {l : KeyLog} {t : NodePool.Trace} {id : Int} {key : PyStr} {s : PyState}

private theorem getTraceContext_of_mem (h : l.Ok) (ht : t ∈ l.world.forest) (hid : id ∈ t.nodes) (text : String)
    (bufSize : Int) :
    getTraceContext id text true bufSize l.world.agent =
      match l.last t.root text with
      | none => .error .noContext l.world.agent
      | some value => .ok (boundedRead bufSize value) l.world.agent := by
  have hlive := h.world.holds.live_of_mem ht hid
  have hrootLive := h.world.holds.live_of_mem ht List.mem_cons_self
  have hwrapper := getWrapperTraceNode_root hlive ((h.world.holds.ok t ht).node_ids hid).2 hrootLive
  have hget : (get : AgentM Agent) l.world.agent = .ok l.world.agent l.world.agent := rfl
  have hmap : (l.world.agent.pool.nodeAt t.root).contextMap.lookup text = l.last t.root text := by
    rw [KeyLog.last, ← h.kept t ht]
    rfl
  rw [getTraceContext, bind_of_ok _ hwrapper, bind_of_ok _ hget, hmap]
  cases l.last t.root text with
  | none => rfl
  | some value =>
    change (if true = true ∧ toSigned 32 value.utf8ByteSize < bufSize then _ else _ : AgentM _) _ =
      .ok (boundedRead bufSize value) _
    rw [boundedRead]
    by_cases hsize : toSigned 32 value.utf8ByteSize < bufSize
    · rw [if_pos ⟨rfl, hsize⟩, if_pos hsize]
      rfl
    · rw [if_neg fun h => hsize h.2, if_neg hsize]
      rfl

theorem pinpointGetContextKey_of_mem (h : l.Ok) (ht : t ∈ l.world.forest) (hid : id ∈ t.nodes) (text : String)
    (bufSize : Int) :
    l.world.agent.pinpointGetContextKey id text true bufSize =
      (l.last t.root text).elim (0, none) (boundedRead bufSize) := by
  rw [pinpointGetContextKey, getTraceContext_of_mem h ht hid]
  cases l.last t.root text with
  | none => rfl
  | some value => rfl

private theorem getContextKey_of_mem (h : l.Ok) (ht : t ∈ l.world.forest) (hid : id ∈ t.nodes) (hkey : key.Passes)
    (hs : s.thread.agent = l.world.agent) :
    (getContextKey key id : PyM ε KeyResult) s =
      .ok ((l.last t.root key.utf8).elim .no fun value => .ofRead (boundedRead keyBufSize value)) s := by
  have hget : (get : PyM ε PyState) s = .ok s s := rfl
  rw [getContextKey, bind_of_ok _ (parseString_of_passes hkey s), bind_of_ok _ hget,
    resolve_of_live (h.world.holds.live_of_mem ht hid), hs, pinpointGetContextKey_of_mem h ht hid]
  cases l.last t.root key.utf8 with
  | none => rfl
  | some value =>
    rw [Option.elim_some, Option.elim_some]
    rfl

end ReadBack

private theorem ofRead_some_iff (size : Int) (value : String) :
    KeyResult.ofRead (size, some value) = .str (.ofString value) ↔ 0 < size ∧ value.utf8ByteSize < keyBufSize := by
  rw [KeyResult.ofRead, readBuffer]
  by_cases hpos : 0 < size
  · rw [if_pos hpos]
    by_cases hfits : value.utf8ByteSize < keyBufSize
    · rw [if_pos hfits]
      exact ⟨fun _ => ⟨hpos, hfits⟩, fun _ => rfl⟩
    · rw [if_neg hfits]
      exact ⟨nofun, fun h => absurd h.2 hfits⟩
  · rw [if_neg hpos]
    exact ⟨nofun, fun h => absurd h.1 hpos⟩

theorem ofRead_boundedRead_iff (value : String) :
    KeyResult.ofRead (boundedRead keyBufSize value) = .str (.ofString value) ↔
      0 < value.utf8ByteSize ∧ value.utf8ByteSize < keyBufSize := by
  rw [boundedRead]
  by_cases hsize : toSigned 32 value.utf8ByteSize < keyBufSize
  · rw [if_pos hsize, ofRead_some_iff]
    refine and_congr_left fun hfits => ?_
    rw [keyBufSize] at hfits
    rw [toSigned_32_eq (by omega) (by omega)]
    exact Int.natCast_pos
  · rw [if_neg hsize]
    refine ⟨nofun, fun h => absurd ?_ hsize⟩
    have hfits := h.2
    rw [keyBufSize] at hfits ⊢
    rw [toSigned_32_eq (by omega) (by omega)]
    omega

/-- Whatever calls were made, through whatever nodes, `get_context_key` returns through every live node of a
trace what was last set for the key in the trace, and `False` if it was not set there, if and only if
the key has UTF-8 and the value that was last set, if any, has between 1 and 1023 bytes. -/
theorem context_key_read_back_iff (agentType : Int) (clock : Nat → Nat) (calls : List ApiCall)
    {l : KeyLog} (hl : l = (KeyLog.new agentType clock).run calls) {t : NodePool.Trace} (ht : t ∈ l.world.forest)
    {id : Int} (hid : id ∈ t.nodes) (key : PyStr) {s : PyState} (hs : s.thread.agent = l.world.agent) :
    (getContextKey key id : PyM ε KeyResult) s =
        .ok ((l.last t.root key.utf8).elim .no fun value => .str (.ofString value)) s ↔
      key.Passes ∧ ∀ value, l.last t.root key.utf8 = some value →
        0 < value.utf8ByteSize ∧ value.utf8ByteSize < 1024 := by
  have hok : l.Ok := hl ▸ (KeyLog.ok_new agentType clock).run calls
  by_cases hkey : key.Passes
  · rw [getContextKey_of_mem hok ht hid hkey hs, and_iff_right hkey]
    cases l.last t.root key.utf8 with
    | none =>
      rw [Option.elim_none, Option.elim_none]
      refine ⟨fun _ value h => ?_, fun _ => rfl⟩
      cases h
    | some value =>
      rw [Option.elim_some, Option.elim_some, EStateM.Result.ok.injEq]
      simp only [and_true, Option.some.injEq, forall_eq']
      exact ofRead_boundedRead_iff value
  · rw [getContextKey, bind_of_error _ (parseString_of_not_passes hkey s)]
    refine ⟨fun h => ?_, fun h => absurd h.1 hkey⟩
    cases h

/-- A trace with a key that was set through a child of its root. -/
def keyLogOf (value : String) : KeyLog :=
  (KeyLog.new 1500 fun _ => 7).run [.startTrace 0 [], .startTrace 128 [], .setContextKey 127 "tid" value]

def stateOf (value : String) : PyState := ⟨⟨(keyLogOf value).world.agent, 128⟩, 128⟩

private theorem forest_keyLogOf (value : String) : (keyLogOf value).world.forest = [⟨128, [127]⟩] := rfl

private theorem mem_forest_keyLogOf (value : String) : (⟨128, [127]⟩ : NodePool.Trace) ∈ (keyLogOf value).world.forest :=
  forest_keyLogOf value ▸ List.mem_singleton.2 rfl

private theorem last_keyLogOf (value : String) : (keyLogOf value).last 128 (PyStr.utf8 (.ofString "tid")) = some value :=
  rfl

theorem context_key_read_back_iff_root :
    (getContextKey (.ofString "tid") 128 : PyM Unit KeyResult) (stateOf "a^1^2") =
      .ok (.str (.ofString "a^1^2")) (stateOf "a^1^2") := by
  have hl : keyLogOf "a^1^2" = (KeyLog.new 1500 fun _ => 7).run _ := rfl
  have h := (context_key_read_back_iff (ε := Unit) 1500 (fun _ => 7) _ hl (mem_forest_keyLogOf _)
    List.mem_cons_self (.ofString "tid") (rfl : (stateOf "a^1^2").thread.agent = _)).2 ?_
  · rw [h, last_keyLogOf]
    rfl
  · refine ⟨by decide +kernel, fun value hvalue => ?_⟩
    obtain rfl := Option.some.inj ((last_keyLogOf _).symm.trans hvalue)
    decide +kernel

private theorem getContextKey_stateOf (value : String) :
    (getContextKey (.ofString "tid") 128 : PyM ε KeyResult) (stateOf value) =
      .ok (.ofRead (boundedRead keyBufSize value)) (stateOf value) := by
  have hok : (keyLogOf value).Ok := (KeyLog.ok_new 1500 fun _ => 7).run _
  rw [getContextKey_of_mem hok (mem_forest_keyLogOf value) List.mem_cons_self (by decide +kernel) rfl,
    last_keyLogOf, Option.elim_some]

/-- A text that needs the whole buffer. -/
def longText : String := String.ofList (List.replicate 1024 'a')

/-- An empty value was set, and a text of 1024 bytes; both read as if nothing had been set. -/
theorem empty_and_long_read_as_unset :
    ((keyLogOf "").last 128 "tid" = some "" ∧
      (getContextKey (.ofString "tid") 128 : PyM Unit KeyResult) (stateOf "") = .ok .no (stateOf "")) ∧
    ((keyLogOf longText).last 128 "tid" = some longText ∧
      (getContextKey (.ofString "tid") 128 : PyM Unit KeyResult) (stateOf longText) = .ok .no (stateOf longText)) := by
  have hempty : KeyResult.ofRead (boundedRead keyBufSize "") = .no := by decide +kernel
  have hlong : KeyResult.ofRead (boundedRead keyBufSize longText) = .no := by decide +kernel
  exact ⟨⟨rfl, (getContextKey_stateOf "").trans (by rw [hempty])⟩,
    ⟨rfl, (getContextKey_stateOf longText).trans (by rw [hlong])⟩⟩

end PinpointAgent.Python
