import PinpointAgent.Python.IncomingRequest

/-!
# The trace of a request

The calls of a plugin at the start of a request are a run of the agent, so that what the trace holds afterwards can
be read off the notes of the plugin: its keys, with which later requests are made, and the members of its span. A
service that is called out of a sampled trace takes over the ids of that trace; one that is called without ids makes
its own.

The Flask and Django plugins keep the ids in fields of the plugin, which all threads share, until they note them; here
a thread that begins a request is not interrupted by another one that begins a request.
-/

namespace PinpointAgent.Python

open Framework NodePool Agent

variable {ε α : Type}

namespace Visit

def member (v : Visit) (key : String) : Json := (v.world.agent.pool.nodeAt v.trace.root).value.get key

/-- What the trace and its span say of a request that came with these ids. -/
structure Records (v : Visit) (taken : Taken) (appName : PyStr) (dropped : Bool) : Prop where
  sampled : v.context "Pinpoint-Sampled" = some (if dropped then "s0" else "s1")
  tidKey : v.context "tid" = some taken.tid.utf8
  sidKey : v.context "sid" = some taken.sid.utf8
  appNameKey : v.context "appname" = some appName.utf8
  typeKey : v.context "stp" = some "1700"
  tid : v.member "tid" = .str taken.tid.utf8
  sid : v.member "sid" = .str taken.sid.utf8
  psid : v.member "psid" = taken.psid.elim .null fun text => .str text.utf8
  pname : v.member "pname" = taken.pname.elim .null fun text => .str text.utf8
  ptype : v.member "ptype" = taken.ptype.elim .null fun text => .str text.utf8

end Visit

/-! ## The trace of a request -/

section Entered

variable {w : World} {s s' : PyState} {entry : Entry} {taken : Taken} {appName : PyStr}

private theorem started_root (h : w.Ok) (hs : s.thread.agent = w.agent) (hroom : ¬w.agent.pool.Exhausted) :
    ∃ a', startNode rootNode w.agent = .ok (s.started rootNode).parentId a' ∧
      Started w.agent w.forest rootNode (s.started rootNode).parentId a' := by
  rw [started_eq (by decide : rootNode ≠ -1), hs]
  obtain ⟨id, a', hstart, hstarted⟩ | ⟨e, -, ⟨-, hfull⟩ | ⟨hroot, -⟩⟩ := startNode_spec h.holds rootNode
  · have hid : (w.agent.pinpointStartTraceV1 rootNode []).1 = id :=
      startTraceV1_of_ok hstart (.inr fun _ hopt => absurd hopt List.not_mem_nil)
    rw [hid]
    exact ⟨a', hstart, hstarted⟩
  · exact absurd hfull hroom
  · exact absurd rfl hroot

theorem started_root_empty (h : w.Ok) (hs : s.thread.agent = w.agent) (hroom : ¬w.agent.pool.Exhausted) {key : String}
    (hkey : key ≠ ":FT") :
    contexts (w.step (.startTrace rootNode [])).agent (s.started rootNode).parentId = [] ∧
      ((w.step (.startTrace rootNode [])).agent.pool.nodeAt (s.started rootNode).parentId).value.get key = .null := by
  obtain ⟨a', hstart, hstarted⟩ := started_root h hs hroom
  have hagent : (w.step (.startTrace rootNode [])).agent =
      finalState (setNodeUserOption (s.started rootNode).parentId []) a' := by
    refine (World.after_startTrace [] hstart).trans ?_
    rw [if_pos rfl]
  obtain ⟨n, ⟨-, hnode⟩ | ⟨t, ht, hparent, -⟩⟩ := hstarted.node
  · constructor
    · rw [hagent]
      refine (congrFun (frames_setNodeUserOption _ [] a') _).trans ?_
      rw [contexts, hnode]
      rfl
    · have hoptions : setNodeUserOption (s.started rootNode).parentId [] a' = .ok () { a' with
          pool := a'.pool.modifyNode (s.started rootNode).parentId fun _ =>
            ((a'.pool.nodeAt (s.started rootNode).parentId).setNodeUserOption []).1 } := rfl
      rw [hagent, finalState_of_ok hoptions, PoolManager.nodeAt_modifyNode_self, hnode]
      exact Members.get_set_of_ne [] _ hkey
  · exact absurd rfl (h.holds.live_of_mem ht hparent).ne_rootNode

private theorem writesTo_notes (id : Int) (notes : List Note) : ∀ call ∈ notes.map (·.toCall id), WritesTo id call := by
  intro call hcall
  obtain ⟨note, -, rfl⟩ := List.mem_map.1 hcall
  cases note with
  | header key value => exact ⟨rfl, rfl⟩
  | context key value => rfl

private theorem Entry.writesTo (entry : Entry) (id : Int) : ∀ call ∈ entry.calls id, WritesTo id call := by
  intro call hcall
  rw [Entry.calls, List.mem_append, List.mem_append] at hcall
  obtain (hcall | hcall) | hcall := hcall
  · exact writesTo_notes id entry.before call hcall
  · split at hcall
    · simp only [List.mem_cons, List.not_mem_nil, or_false] at hcall
      obtain rfl | rfl := hcall <;> rfl
    · exact absurd hcall List.not_mem_nil
  · exact writesTo_notes id entry.after call hcall

private theorem Entry.lookup_keys (entry : Entry) (id : Int) (key : String) :
    ((entry.calls id).filterMap keyOf).reverse.lookup key = ((lastKey entry.after key).or
      (if entry.dropped ∧ key = "Pinpoint-Sampled" then some "s0" else none)).or (lastKey entry.before key) := by
  rw [Entry.calls, List.filterMap_append, List.filterMap_append, filterMap_keyOf, filterMap_keyOf, List.reverse_append,
    List.reverse_append, List.lookup_append, List.lookup_append, ← lastKey, ← lastKey, Option.or_assoc]
  congr 2
  cases entry.dropped with
  | false => simp
  | true =>
    refine (lookup_singleton "Pinpoint-Sampled" key _).trans ?_
    simp only [true_and]
    rw [utf8_ofString]

private theorem Entry.lookup_clues (entry : Entry) (id : Int) (key : String) :
    ((entry.calls id).filterMap clueOf).reverse.lookup key = lastClue (entry.before ++ entry.after) key := by
  have hmiddle : (if entry.dropped = true then [ApiCall.changeTraceStatus id traceBlock,
      .setContextKey id "Pinpoint-Sampled" (PyStr.ofString "s0").utf8] else []).filterMap clueOf = [] := by
    split <;> rfl
  rw [Entry.calls, List.filterMap_append, List.filterMap_append, filterMap_clueOf, filterMap_clueOf, hmiddle,
    List.append_nil, ← List.filterMap_append]
  rfl

/-- A plugin has begun the trace of a request: it has started a root and run the entry; annotations of the second
kind may follow. -/
structure Begun (entry : Entry) (s s' : PyState) : Prop where
  parent : s'.parentId = (s.started rootNode).parentId
  made : ∃ extra : List ApiCall, (∀ call ∈ extra, ∃ key value, call = .addClues s'.parentId key value 0) ∧
    s' = (s.started rootNode).made (entry.calls s'.parentId ++ extra)

private theorem filterMap_addClues {id : Int} {extra : List ApiCall} {f : ApiCall → Option (String × String)}
    (hf : ∀ key value, f (.addClues id key value 0) = none)
    (hextra : ∀ call ∈ extra, ∃ key value, call = .addClues id key value 0) (calls : List ApiCall) :
    (calls ++ extra).filterMap f = calls.filterMap f := by
  have hnil : extra.filterMap f = [] := by
    rw [List.filterMap_eq_nil_iff]
    intro call hcall
    obtain ⟨key, value, rfl⟩ := hextra call hcall
    exact hf key value
  rw [List.filterMap_append, hnil, List.append_nil]

private theorem Begun.exists_calls (h : Begun entry s s') (hw : w.Ok) (hs : s.thread.agent = w.agent)
    (hroom : ¬w.agent.pool.Exhausted) :
    (⟨s'.parentId, []⟩ : NodePool.Trace) ∈ (w.step (.startTrace rootNode [])).forest ∧
      ∃ calls : List ApiCall, (∀ call ∈ calls, WritesTo s'.parentId call) ∧
        s'.thread.agent = ((w.step (.startTrace rootNode [])).run calls).agent ∧
        calls.filterMap keyOf = (entry.calls s'.parentId).filterMap keyOf ∧
        calls.filterMap clueOf = (entry.calls s'.parentId).filterMap clueOf := by
  obtain ⟨hagent, hforest⟩ := started_of_room hw hs (.inl rfl : rootNode = rootNode ∨ _) hroom
  obtain ⟨extra, hextra, hmade⟩ := h.made
  refine ⟨?_, entry.calls s'.parentId ++ extra, fun call hcall => ?_, ?_, ?_, ?_⟩
  · rw [hforest, Forest.start, if_pos rfl, h.parent]
    exact List.mem_append_right _ (List.mem_singleton.2 rfl)
  · obtain hcall | hcall := List.mem_append.1 hcall
    · exact entry.writesTo s'.parentId call hcall
    · obtain ⟨key, value, rfl⟩ := hextra call hcall
      exact ⟨rfl, rfl⟩
  · refine (congrArg (·.thread.agent) hmade).trans ?_
    change List.foldl Agent.after (s.started rootNode).thread.agent _ = _
    rw [hagent, ← agent_run]
  · exact filterMap_addClues (fun _ _ => rfl) hextra _
  · exact filterMap_addClues (fun _ _ => rfl) hextra _

section Visited

variable {v : Visit} (hruns : v.Runs s') (hroot : v.trace.root = s'.parentId)

include hruns hroot

private theorem Begun.context_eq (h : Begun entry s s') (hw : w.Ok) (hs : s.thread.agent = w.agent)
    (hroom : ¬w.agent.pool.Exhausted) (key : String) :
    v.context key = ((lastKey entry.after key).or
      (if entry.dropped ∧ key = "Pinpoint-Sampled" then some "s0" else none)).or (lastKey entry.before key) := by
  obtain ⟨ht, calls, hwrites, hagent, hkeys, -⟩ := h.exists_calls hw hs hroom
  have hempty := (started_root_empty hw hs hroom (by decide : "" ≠ ":FT")).1
  rw [← h.parent] at hempty
  have hcontexts : contexts ((w.step (.startTrace rootNode [])).run calls).agent s'.parentId = _ :=
    contexts_run (hw.step _) ht hwrites
  rw [Visit.context, ← hruns.agent, hroot, hagent, hcontexts, hempty, List.append_nil, hkeys]
  exact entry.lookup_keys s'.parentId key

private theorem Begun.member_eq (h : Begun entry s s') (hw : w.Ok) (hs : s.thread.agent = w.agent)
    (hroom : ¬w.agent.pool.Exhausted) {key : String} (hplain : key.toList.head? ≠ some ':') (hkey : key ≠ "anno") :
    v.member key = (lastClue (entry.before ++ entry.after) key).elim .null JsonTree.str := by
  obtain ⟨ht, calls, hwrites, hagent, -, hclues⟩ := h.exists_calls hw hs hroom
  have hnull := (started_root_empty hw hs hroom (fun heq : key = ":FT" => hplain (by rw [heq]; rfl))).2
  rw [← h.parent] at hnull
  have hget : (((w.step (.startTrace rootNode [])).run calls).agent.pool.nodeAt s'.parentId).value.get key = _ :=
    get_run (hw.step _) ht hwrites hplain hkey
  rw [Visit.member, ← hruns.agent, hroot, hagent, hget, hnull, hclues, entry.lookup_clues]

theorem Begun.records (h : Begun entry s s') (hw : w.Ok) (hs : s.thread.agent = w.agent)
    (hroom : ¬w.agent.pool.Exhausted) (htakes : entry.Takes taken appName) :
    v.Records taken appName entry.dropped := by
  have hcontext := h.context_eq hruns hroot hw hs hroom
  have hclue {key : String} (text : Option PyStr) (hplain : key.toList.head? ≠ some ':') (hkey : key ≠ "anno")
      (hlast : lastClue (entry.before ++ entry.after) key = text.map PyStr.utf8) :
      v.member key = text.elim .null fun text => .str text.utf8 := by
    rw [h.member_eq hruns hroot hw hs hroom hplain hkey, hlast]
    cases text <;> rfl
  exact {
    sampled := by
      rw [hcontext, htakes.mark.1, htakes.mark.2]
      cases entry.dropped <;> simp
    tidKey := by rw [hcontext, htakes.tidKey]; rfl
    sidKey := by rw [hcontext, htakes.sidKey]; rfl
    appNameKey := by
      rw [hcontext, if_neg (fun hmark => absurd hmark.2 (by decide)), Option.or_none]
      exact htakes.appNameKey
    typeKey := by
      rw [hcontext, if_neg (fun hmark => absurd hmark.2 (by decide)), Option.or_none]
      exact htakes.typeKey
    tid := hclue (some taken.tid) (by decide) (by decide) htakes.tid
    sid := hclue (some taken.sid) (by decide) (by decide) htakes.sid
    psid := hclue taken.psid (by decide) (by decide) htakes.psid
    pname := hclue taken.pname (by decide) (by decide) htakes.pname
    ptype := hclue taken.ptype (by decide) (by decide) htakes.ptype }

end Visited

theorem resolve_started (h : w.Ok) (hs : s.thread.agent = w.agent) (hroom : ¬w.agent.pool.Exhausted) (s₁ : PyState) :
    s₁.resolve (s.started rootNode).parentId = (s.started rootNode).parentId := by
  obtain ⟨a', -, hstarted⟩ := started_root h hs hroom
  exact resolve_of_live ((hstarted.live_iff _).2 (.inl rfl)) s₁

variable {env : Env ε PyVal α} {r : Request} {limited : Bool} {args args' : Args PyVal}

theorem after_base_onBefore {β : Type} {k : Int × Args PyVal → PyM ε β} {result : β}
    (h : ((basePinTrace env).onBefore rootNode args >>= k) s = .ok result s') :
    k ((s.started rootNode).parentId, args) (s.started rootNode) = .ok result s' := by
  obtain ⟨started, s₁, hbase, h⟩ := bind_eq_ok h
  rw [base_onBefore_eq (contextSet_of_onBefore hbase)] at hbase
  obtain ⟨rfl, rfl⟩ := EStateM.Result.ok.inj hbase
  exact h

private theorem begun_of_made (extra : List (String × String)) (h : s' = (s.started rootNode).made
    (entry.calls (s.started rootNode).parentId ++
      extra.map fun clue => .addClues (s.started rootNode).parentId clue.1 clue.2 0)) : Begun entry s s' := by
  have hparent : s'.parentId = (s.started rootNode).parentId := by rw [h]; rfl
  refine ⟨hparent, _, fun call hcall => ?_, hparent ▸ h⟩
  obtain ⟨clue, -, rfl⟩ := List.mem_map.1 hcall
  exact ⟨clue.1, clue.2, rfl⟩

private theorem run_of_startPinpointByEnviron {environ : Lookup} {traceId : Int} {u : Unit}
    (h : startPinpointByEnviron env environ limited traceId s = .ok u s') :
    ∃ path remoteAddr host,
      ((environEntry env environ path remoteAddr host limited).run traceId : PyM ε Unit) s = .ok u s' := by
  cases hpath : environ "PATH_INFO" <;> cases hremote : environ "REMOTE_ADDR" <;> cases hhost : environ "HTTP_HOST" <;>
    simp only [startPinpointByEnviron, hpath, hremote, hhost] at h
  case some.some.some path remoteAddr host => exact ⟨path, remoteAddr, host, h⟩
  all_goals
    obtain ⟨_, _, -, hthrow⟩ := bind_eq_ok h
    cases hthrow

section Plugins

variable (hw : w.Ok) (hs : s.thread.agent = w.agent) (hroom : ¬w.agent.pool.Exhausted)

include hw hs hroom

private theorem made_of_entry {u : Unit}
    (h : (entry.run (s.started rootNode).parentId : PyM ε Unit) (s.started rootNode) = .ok u s') :
    s' = (s.started rootNode).made (entry.calls (s.started rootNode).parentId) := by
  have hmade := Entry.made_of_run h
  rwa [resolve_started hw hs hroom] at hmade

private theorem begun_of_method {method : PyStr} {u v : Unit} {s₁ : PyState}
    (hrun : (entry.run (s.started rootNode).parentId : PyM ε Unit) (s.started rootNode) = .ok u s₁)
    (hmethod : (addTraceHeaderV2 "206" method (s.started rootNode).parentId : PyM ε Unit) s₁ = .ok v s') :
    Begun entry s s' := by
  have hs' := made_of_addTraceHeaderV2 hmethod
  rw [resolve_started hw hs hroom, made_of_entry hw hs hroom hrun, made_made] at hs'
  exact begun_of_made [("206", method.utf8)] hs'

theorem begun_of_flask (hcalls : (baseFlaskPlugins env r limited).calls args s = some (args', s')) :
    Begun (flaskEntry env r limited) s s' := by
  have hsample : (baseFlaskPlugins env r limited).isSample args s = .ok (true, rootNode, args) s := rfl
  obtain ⟨traceId, hbefore⟩ := onBefore_of_calls hsample hcalls
  obtain ⟨_, s₁, hrun, hbefore⟩ := bind_eq_ok (after_base_onBefore hbefore)
  obtain ⟨_, s₂, hmethod, hbefore⟩ := bind_eq_ok hbefore
  obtain ⟨-, rfl⟩ := EStateM.Result.ok.inj hbefore
  exact begun_of_method hw hs hroom hrun hmethod

private theorem begun_of_django {web : Web α}
    (hcalls : (baseDjangoRequestPlugins env web r limited).calls args s = some (args', s')) :
    ∃ remoteAddr, Begun (djangoEntry env r remoteAddr limited) s s' := by
  have hsample : (baseDjangoRequestPlugins env web r limited).isSample args s = .ok (true, rootNode, args) s := rfl
  obtain ⟨traceId, hbefore⟩ := onBefore_of_calls hsample hcalls
  have hafter := after_base_onBefore hbefore
  cases hremote : r.environ "REMOTE_ADDR" with
  | none =>
    simp only [hremote] at hafter
    obtain ⟨_, _, -, hthrow⟩ := bind_eq_ok hafter
    cases hthrow
  | some remoteAddr =>
    simp only [hremote] at hafter
    obtain ⟨_, s₁, hrun, hafter⟩ := bind_eq_ok hafter
    cases hmethod : r.environ "REQUEST_METHOD" with
    | none =>
      simp only [hmethod] at hafter
      cases hafter
    | some method =>
      simp only [hmethod] at hafter
      obtain ⟨_, s₂, hnote, hafter⟩ := bind_eq_ok hafter
      obtain ⟨-, rfl⟩ := EStateM.Result.ok.inj hafter
      exact ⟨remoteAddr, begun_of_method hw hs hroom hrun hnote⟩

private theorem begun_of_wsgi {asInt : α → Option Int} {environ : Lookup}
    (hcalls : (wsgiPlugin env asInt environ limited).calls args s = some (args', s')) :
    ∃ path remoteAddr host, Begun (environEntry env environ path remoteAddr host limited) s s' := by
  have hsample : (wsgiPlugin env asInt environ limited).isSample args s = .ok (true, rootNode, args) s := rfl
  obtain ⟨traceId, hbefore⟩ := onBefore_of_calls hsample hcalls
  obtain ⟨_, s₁, hstart, hafter⟩ := bind_eq_ok (after_base_onBefore hbefore)
  obtain ⟨-, rfl⟩ := EStateM.Result.ok.inj hafter
  obtain ⟨path, remoteAddr, host, hrun⟩ := run_of_startPinpointByEnviron hstart
  refine ⟨path, remoteAddr, host, begun_of_made [] ?_⟩
  rw [List.map_nil, List.append_nil]
  exact made_of_entry hw hs hroom hrun

end Plugins

end Entered

/-! ## From one service to the next -/

/-- The fields that carry ids, with the names that a gateway gives them. -/
def idFields : List (String × String) :=
  [("Pinpoint-Sampled", "HTTP_PINPOINT_SAMPLED"), ("Pinpoint-Traceid", "HTTP_PINPOINT_TRACEID"),
    ("Pinpoint-Pspanid", "HTTP_PINPOINT_PSPANID"), ("Pinpoint-Spanid", "HTTP_PINPOINT_SPANID"),
    ("Pinpoint-Pappname", "HTTP_PINPOINT_PAPPNAME"), ("Pinpoint-Papptype", "HTTP_PINPOINT_PAPPTYPE")]

/-- What a service finds of the header fields that were sent: all under the names of a gateway, or none of them. Texts
of visible characters arrive as they are, and what was not sent does not arrive. -/
structure Delivered (sent : List (String × PyVal)) (get : Lookup) (gateway : Bool) : Prop where
  text : ∀ field ∈ idFields, ∀ text : PyStr, sent.lookup field.1 = some (.str text) →
    (∀ c ∈ text, 0x21 ≤ c ∧ c ≤ 0x7E) → get (if gateway then field.2 else field.1) = some text
  absent : ∀ field ∈ idFields, sent.lookup field.1 = none → get (if gateway then field.2 else field.1) = none
  once : ∀ field ∈ idFields, get (if gateway then field.1 else field.2) = none

section Delivery

variable {sent : List (String × PyVal)} {get : Lookup} {gateway : Bool}

private theorem Delivered.either (h : Delivered sent get gateway) {plain cgi : String} (hfield : (plain, cgi) ∈ idFields)
    {text : PyStr} (hsent : sent.lookup plain = some (.str text)) (hvisible : ∀ c ∈ text, 0x21 ≤ c ∧ c ≤ 0x7E) :
    (get plain).or (get cgi) = some text ∧ (get cgi).or (get plain) = some text := by
  have htext := h.text _ hfield text hsent hvisible
  have honce := h.once _ hfield
  cases gateway with
  | false =>
    simp only [Bool.false_eq_true, if_false] at htext honce
    rw [htext, honce]
    exact ⟨rfl, rfl⟩
  | true =>
    simp only [if_true] at htext honce
    rw [htext, honce]
    exact ⟨rfl, rfl⟩

end Delivery

/-- A service begins a trace for a request with these header fields, within its limit. -/
inductive Begins (env : Env ε PyVal α) (sent : List (String × PyVal)) (s s' : PyState) : Prop where
  | flask (r : Request) (gateway : Bool) (args args' : Args PyVal) (hdelivered : Delivered sent r.headers gateway)
      (hcalls : (baseFlaskPlugins env r false).calls args s = some (args', s'))
  | django (web : Web α) (r : Request) (args args' : Args PyVal) (henviron : Delivered sent r.environ true)
      (hheaders : Delivered sent r.headers false)
      (hcalls : (baseDjangoRequestPlugins env web r false).calls args s = some (args', s'))
  | wsgi (asInt : α → Option Int) (environ : Lookup) (args args' : Args PyVal)
      (hdelivered : Delivered sent environ true)
      (hcalls : (wsgiPlugin env asInt environ false).calls args s = some (args', s'))

section Begins

variable {env : Env ε PyVal α} {sent : List (String × PyVal)} {w : World} {s s' : PyState} {ids : TraceIds} {next : Sid}

/-- What a service takes over of a request that left a trace. -/
def takenOf (ids : TraceIds) (next : Sid) : Taken :=
  ⟨.ofString ids.tid, genSid next, some (.ofString ids.sid), some (.ofString ids.appName),
    some (.ofString ids.serverType)⟩

/-- The fields of a request that left a trace, as a service finds them. -/
structure FindsIds (get : Lookup) (ids : TraceIds) (next : Sid) : Prop where
  sampled : notSampled get "HTTP_PINPOINT_SAMPLED" = false ∧ notSampled get "Pinpoint-Sampled" = false
  tid : ∀ generated, idOf get "HTTP_PINPOINT_TRACEID" "Pinpoint-Traceid" generated = .ofString ids.tid
  sid : ∀ generated, idOf get "HTTP_PINPOINT_SPANID" "Pinpoint-Spanid" generated = genSid next
  psid : (get "Pinpoint-Pspanid").or (get "HTTP_PINPOINT_PSPANID") = some (.ofString ids.sid)
  pname : (get "Pinpoint-Pappname").or (get "HTTP_PINPOINT_PAPPNAME") = some (.ofString ids.appName)
  ptype : (get "Pinpoint-Papptype").or (get "HTTP_PINPOINT_PAPPTYPE") = some (.ofString ids.serverType)

private theorem Delivered.notSampled_eq_false {get : Lookup} {gateway : Bool} (h : Delivered sent get gateway)
    (hcarries : CarriesIds sent ids next) :
    notSampled get "HTTP_PINPOINT_SAMPLED" = false ∧ notSampled get "Pinpoint-Sampled" = false := by
  have hvisible : ∀ c ∈ PyStr.ofString "s1", 0x21 ≤ c ∧ c ≤ 0x7E := by decide +kernel
  have hother : (PyStr.ofString "s1") ≠ .ofString "s0" := by decide +kernel
  have htext := h.text _ (by decide : ("Pinpoint-Sampled", "HTTP_PINPOINT_SAMPLED") ∈ idFields) _ hcarries.sampled hvisible
  have honce := h.once _ (by decide : ("Pinpoint-Sampled", "HTTP_PINPOINT_SAMPLED") ∈ idFields)
  cases gateway with
  | false =>
    simp only [Bool.false_eq_true, if_false] at htext honce
    simp [notSampled, htext, honce, hother]
  | true =>
    simp only [if_true] at htext honce
    simp [notSampled, htext, honce, hother]

private theorem Delivered.findsIds {get : Lookup} {gateway : Bool} (h : Delivered sent get gateway)
    (hcarries : CarriesIds sent ids next)
    (hportable : Portable ids.tid ∧ Portable ids.sid ∧ Portable ids.appName ∧ Portable ids.serverType) :
    FindsIds get ids next := by
  obtain ⟨htid, hsid, happName, hserverType⟩ := hportable
  exact {
    sampled := h.notSampled_eq_false hcarries
    tid := fun generated => by rw [idOf, (h.either (by decide) hcarries.tid htid.visible).2, Option.getD_some]
    sid := fun generated => by
      rw [idOf, (h.either (by decide) hcarries.sid (portable_repr next).visible).2, Option.getD_some]
    psid := (h.either (by decide) hcarries.psid hsid.visible).1
    pname := (h.either (by decide) hcarries.pname happName.visible).1
    ptype := (h.either (by decide) hcarries.ptype hserverType.visible).1 }

variable (hw : w.Ok) (hs : s.thread.agent = w.agent) (hroom : ¬w.agent.pool.Exhausted)

include hw hs hroom

theorem Begins.takes_over (h : Begins env sent s s') (hcarries : CarriesIds sent ids next)
    (hportable : Portable ids.tid ∧ Portable ids.sid ∧ Portable ids.appName ∧ Portable ids.serverType) :
    ∃ entry, Begun entry s s' ∧ entry.Takes (takenOf ids next) env.appName ∧ entry.dropped = false := by
  cases h with
  | flask r gateway args args' hdelivered hcalls =>
    obtain ⟨⟨hcgi, hplain⟩, htid, hsid, hpsid, hpname, hptype⟩ := hdelivered.findsIds hcarries hportable
    refine ⟨_, begun_of_flask hw hs hroom hcalls, ?_, ?_⟩
    · have htakes := flaskEntry_takes env r false
      rw [htid, hsid, hpsid, hpname, hptype] at htakes
      exact htakes
    · simp only [flaskEntry, hcgi, hplain, Bool.or_false]
  | django web r args args' henviron hheaders hcalls =>
    obtain ⟨-, htid, hsid, -, hpname, hptype⟩ := henviron.findsIds hcarries hportable
    obtain ⟨hcgi, hplain⟩ := hheaders.notSampled_eq_false hcarries
    have hpsid : r.environ "HTTP_PINPOINT_PSPANID" = some (.ofString ids.sid) :=
      henviron.text ("Pinpoint-Pspanid", "HTTP_PINPOINT_PSPANID") (by decide) _ hcarries.psid hportable.2.1.visible
    obtain ⟨remoteAddr, hbegun⟩ := begun_of_django hw hs hroom hcalls
    refine ⟨_, hbegun, ?_, ?_⟩
    · have htakes := djangoEntry_takes env r remoteAddr false
      rw [htid, hsid, hpsid, hpname, hptype] at htakes
      exact htakes
    · simp only [djangoEntry, hcgi, hplain, Bool.or_false]
  | wsgi asInt environ args args' hdelivered hcalls =>
    obtain ⟨⟨hcgi, -⟩, htid, hsid, hpsid, hpname, hptype⟩ := hdelivered.findsIds hcarries hportable
    obtain ⟨path, remoteAddr, host, hbegun⟩ := begun_of_wsgi hw hs hroom hcalls
    refine ⟨_, hbegun, ?_, ?_⟩
    · have htakes := environEntry_takes env environ path remoteAddr host false
      rw [htid, hsid, hpsid, hpname, hptype] at htakes
      exact htakes
    · simp only [environEntry, hcgi, Bool.or_false]

end Begins

end PinpointAgent.Python
