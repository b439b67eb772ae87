import Mathlib.Data.String.Basic
import Mathlib.Data.Nat.Digits.Defs
import PinpointAgent.Python.CeleryRoundTrip

/-!
# Requests that leave a trace

`NextSpanPlugin` wraps `requests.request`. In a trace that is sampled, it puts the ids of the trace into the
headers of the request, with a new id for the span of the service that is called, and keeps that id in the
context of the trace until the call has returned. In a trace that was dropped it sends no header at all, and
outside of a trace it asks the service not to sample.

Headers that have a mark already are left as they are, and the request is not traced.
-/

namespace PinpointAgent.Python

open Framework NodePool Agent

variable {ε α : Type}

/-- What the plugins need of the libraries around them. -/
structure Web (α : Type) where
  /-- `urlparse(url).netloc`, which may raise. -/
  netloc : PyStr → Option PyStr
  truthy : α → Bool
  /-- `str(ret.status_code)` -/
  statusCode : α → PyStr
  /-- `ret.status_code >= 400` -/
  failed : α → Bool
  str : α → PyStr

/-- What `random.randint(0, 2147483647)` can return. -/
abbrev Sid := Fin 2147483648

def genSid (n : Sid) : PyStr := .ofString (Nat.repr n)

def addTraceHeaderV2 (key : String) (value : PyStr) (traceId : Int) : PyM ε Unit := do
  let value ← parseString value
  callAgent fun s => .addClues (s.resolve traceId) key value 0

def PyVal.isText (text : String) : PyVal → Bool
  | .str value => value = .ofString text
  | _ => false

/-- The headers that the caller passes, if they are a dictionary. -/
def Args.headers (args : Args PyVal) : Option (List (String × PyVal)) :=
  match args.get? "headers" with
  | none => some []
  | some (.dict entries) => some entries
  | some _ => none

def orRaises {β : Type} : Option β → PyM ε β
  | some value => pure value
  | none => throw .inLibrary

/-- `args[1]`, which is not there when the caller passes the URL by keyword. -/
def Args.url (args : Args PyVal) : Option PyStr := args.positional[1]?.bind PyVal.asStr

def pinpointHeaders (ptype pname : PyVal) (host : PyStr) (tid psid : PyVal) (sid : PyStr) : List (String × PyVal) :=
  [("Pinpoint-Sampled", .str (.ofString "s1")), ("Pinpoint-Papptype", ptype), ("Pinpoint-Pappname", pname),
    ("Pinpoint-Flags", .str (.ofString "0")), ("Pinpoint-Host", .str host), ("Pinpoint-Traceid", tid),
    ("Pinpoint-Pspanid", psid), ("Pinpoint-Spanid", .str sid)]

def generatePinpointHeader (host : PyStr) (headers : List (String × PyVal)) (traceId : Int) (next : Sid) :
    PyM ε (List (String × PyVal)) := do
  let ptype ← getContext "stp" traceId
  let pname ← getContext "appname" traceId
  let tid ← getContext "tid" traceId
  let psid ← getContext "sid" traceId
  addNote traceId (.context "nsid" (genSid next))
  return Dict.update headers (pinpointHeaders ptype pname host tid psid (genSid next))

/-- `next` is the id that is drawn for the service that is called. -/
def nextSpanPlugin (env : Env ε PyVal α) (web : Web α) (next : Sid) : PinTrace ε PyVal α :=
  { basePinTrace env with
    isSample args := do
      let (sampled, parentId, _) ← (basePinTrace env).isSample args
      let headers ← orRaises args.headers
      if (headers.lookup "Pinpoint-Sampled").isSome then return (false, parentId, args)
      if sampled then
        let url ← orRaises args.url
        let target ← orRaises (web.netloc url)
        let mark ← getContext "Pinpoint-Sampled" parentId
        let headers ← if mark.isText "s1" then generatePinpointHeader target headers parentId next else pure headers
        return (true, parentId, args.set "headers" (.dict headers))
      else
        let headers := Dict.setItem headers "Pinpoint-Sampled" (.str (.ofString "s0"))
        return (false, parentId, args.set "headers" (.dict headers))
    onBefore parentId args := do
      let (traceId, args) ← (basePinTrace env).onBefore parentId args
      let url ← orRaises args.url
      let target ← orRaises (web.netloc url)
      addNotes traceId [.header "name" env.getUniqueName, .header "stp" (.ofString "9900")]
      addTraceHeaderV2 "-1" url traceId
      addTraceHeaderV2 "40" url traceId
      addNotes traceId [.header "dst" target]
      return (traceId, args)
    onEnd traceId ret := do
      match ← getContext "nsid" traceId with
      | .str nextSpan => addNotes traceId [.header "nsid" nextSpan]
      | .object => throw .badArgument
      | _ => pure ()
      if web.truthy ret then
        addTraceHeaderV2 "46" (web.statusCode ret) traceId
        addTraceHeaderV2 "14" (web.str ret) traceId
      (basePinTrace env).onEnd traceId ret
    onException traceId e := do
      addException (← env.describe e) traceId }

/-! ## A trace in which a request is made -/

/-- A service that works on a request: its agent, as whatever calls may have left it, and a trace that was
started and not ended. -/
structure Visit where
  world : World
  trace : NodePool.Trace
  ok : world.Ok
  live : trace ∈ world.forest

namespace Visit

def context (v : Visit) (key : String) : Option String := (contexts v.world.agent v.trace.root).lookup key

def log (v : Visit) : KeyLog := ⟨v.world, contexts v.world.agent⟩

theorem log_ok (v : Visit) : v.log.Ok := ⟨v.ok, fun _ _ => rfl⟩

structure Runs (v : Visit) (s : PyState) : Prop where
  agent : s.thread.agent = v.world.agent
  parent : s.parentId ∈ v.trace.nodes

theorem Runs.live {v : Visit} {s : PyState} (h : v.Runs s) : v.world.agent.pool.Live s.parentId :=
  v.ok.holds.live_of_mem v.live h.parent

private theorem Runs.contextAt_of_fits {v : Visit} {s : PyState} (h : v.Runs s) {key value : String}
    (hkey : (PyStr.ofString key).utf8 = key) (hvalue : v.context key = some value)
    (hfits : 0 < value.utf8ByteSize ∧ value.utf8ByteSize < 1024) :
    contextAt s s.parentId key = .str (.ofString value) :=
  (contextAt_eq_str_iff v.log_ok v.live h.parent h.agent hkey hvalue).2 hfits

end Visit

structure TraceIds where
  tid : String
  sid : String
  appName : String
  serverType : String

/-- A text that can be read back from the agent and that a header field carries as it is. -/
structure Portable (value : String) : Prop where
  visible : ∀ c ∈ PyStr.ofString value, 0x21 ≤ c ∧ c ≤ 0x7E
  fits : 0 < value.utf8ByteSize ∧ value.utf8ByteSize < 1024

theorem utf8_ofString (text : String) : (PyStr.ofString text).utf8 = text := by
  rw [PyStr.ofString, PyStr.utf8, List.map_map]
  have hid : Char.ofNat ∘ Char.toNat = id := funext Char.ofNat_toNat
  rw [hid, List.map_id, String.ofList_toList]

private theorem utf8Len_le (chars : List Char) :
    chars.length ≤ String.utf8Len chars ∧ String.utf8Len chars ≤ 4 * chars.length := by
  induction chars with
  | nil => exact ⟨Nat.le_refl _, Nat.le_refl _⟩
  | cons c chars ih =>
    have hpos := Char.utf8Size_pos c
    have hle := Char.utf8Size_le_four c
    rw [String.utf8Len_cons, List.length_cons]
    omega

theorem portable_repr (n : Sid) : Portable (Nat.repr n) := by
  refine ⟨fun c hc => ?_, ?_⟩
  · have hdigit := digit_of_mem_repr hc
    omega
  · have hsize := utf8Len_le (Nat.toDigits 10 n)
    have hlt := n.isLt
    have hlength : (Nat.toDigits 10 n).length ≤ 10 := Nat.toDigits_length 10 n 10 (by decide) (by omega)
    have hpos : 0 < (Nat.toDigits 10 n).length := Nat.length_toDigits_pos
    rw [Nat.repr, String.utf8ByteSize_ofList]
    omega

/-- What the plugins keep in a trace: whether it is sampled or was dropped, and ids that can be passed on. -/
structure Visit.Traced (v : Visit) (ids : TraceIds) (dropped : Bool) : Prop where
  mark : v.context "Pinpoint-Sampled" = some (if dropped then "s0" else "s1")
  tid : v.context "tid" = some ids.tid
  sid : v.context "sid" = some ids.sid
  appName : v.context "appname" = some ids.appName
  serverType : v.context "stp" = some ids.serverType
  portable : Portable ids.tid ∧ Portable ids.sid ∧ Portable ids.appName ∧ Portable ids.serverType

/-! ## What a request is sent with -/

section Sending

variable {env : Env ε PyVal α} {web : Web α} {next : Sid} {args args' : Args PyVal} {s s' : PyState}
  {given : List (String × PyVal)} {traceId parentId : Int}

private theorem of_orRaises {β : Type} {o : Option β} {value : β} (h : (orRaises o : PyM ε β) s = .ok value s') :
    o = some value ∧ s' = s := by
  cases o with
  | none => cases h
  | some found =>
    obtain ⟨rfl, rfl⟩ := EStateM.Result.ok.inj h
    exact ⟨rfl, rfl⟩

private theorem made_of_addNotes {notes : List Note} {u : Unit} (h : (addNotes traceId notes : PyM ε Unit) s = .ok u s') :
    s' = s.made (notes.map (·.toCall (s.resolve traceId))) := by
  rw [addNotes_eq traceId (passes_of_addNotes h)] at h
  exact (EStateM.Result.ok.inj h).2.symm

theorem made_of_addTraceHeaderV2 {key : String} {value : PyStr} {u : Unit}
    (h : (addTraceHeaderV2 key value traceId : PyM ε Unit) s = .ok u s') :
    s' = s.made [.addClues (s.resolve traceId) key value.utf8 0] := by
  obtain ⟨text, s₁, hparse, hcall⟩ := bind_eq_ok h
  by_cases hpasses : value.Passes
  · rw [parseString_of_passes hpasses] at hparse
    obtain ⟨rfl, rfl⟩ := EStateM.Result.ok.inj hparse
    exact (EStateM.Result.ok.inj hcall).2.symm
  · rw [parseString_of_not_passes hpasses] at hparse
    cases hparse

private theorem passes_genSid (n : Sid) : (genSid n).Passes := passes_ofString_repr n

private theorem generatePinpointHeader_eq (host : PyStr) (given : List (String × PyVal)) (traceId : Int) (next : Sid)
    (s : PyState) :
    (generatePinpointHeader host given traceId next : PyM ε (List (String × PyVal))) s =
      .ok (Dict.update given (pinpointHeaders (contextAt s traceId "stp") (contextAt s traceId "appname") host
          (contextAt s traceId "tid") (contextAt s traceId "sid") (genSid next)))
        (s.made [.setContextKey (s.resolve traceId) "nsid" (genSid next).utf8]) := by
  have hpasses : (Note.context "nsid" (genSid next)).value.Passes := passes_genSid next
  have hnote : (addNote traceId (.context "nsid" (genSid next)) : PyM ε Unit) s = _ := addNote_eq hpasses traceId s
  rw [generatePinpointHeader, bind_of_ok _ (getContext_eq (by decide +kernel) traceId s),
    bind_of_ok _ (getContext_eq (by decide +kernel) traceId s), bind_of_ok _ (getContext_eq (by decide +kernel) traceId s),
    bind_of_ok _ (getContext_eq (by decide +kernel) traceId s), bind_of_ok _ hnote]
  rfl

private theorem isSample_of_url (next : Sid) (hctx : env.contextSet = true) (hpos : 0 < s.parentId)
    (hgiven : args.headers = some given) (hfresh : given.lookup "Pinpoint-Sampled" = none) {url target : PyStr}
    (hurl : args.url = some url) (htarget : web.netloc url = some target) :
    (nextSpanPlugin env web next).isSample args s =
      (if (contextAt s s.parentId "Pinpoint-Sampled").isText "s1" then do
          let headers ← generatePinpointHeader target given s.parentId next
          pure (true, s.parentId, args.set "headers" (.dict headers))
        else pure (true, s.parentId, args.set "headers" (.dict given))) s := by
  have hbase := base_isSample hctx args s
  rw [if_pos hpos] at hbase
  have hgetMark : (getContext "Pinpoint-Sampled" s.parentId : PyM ε PyVal) s = _ :=
    getContext_eq (by decide +kernel) s.parentId s
  simp only [nextSpanPlugin, hgiven, hurl]
  rw [bind_of_ok _ hbase]
  simp only [orRaises, pure_bind, hfresh, Option.isSome_none, Bool.false_eq_true, if_false, if_true, htarget]
  rw [bind_of_ok _ hgetMark]

private theorem isSample_marked (next : Sid) (hctx : env.contextSet = true) (hpos : 0 < s.parentId) (hgiven : args.headers = some given)
    (hfresh : given.lookup "Pinpoint-Sampled" = none) {url target : PyStr} (hurl : args.url = some url)
    (htarget : web.netloc url = some target) (hmark : (contextAt s s.parentId "Pinpoint-Sampled").isText "s1" = true) :
    (nextSpanPlugin env web next).isSample args s =
      .ok (true, s.parentId, args.set "headers" (.dict (Dict.update given
          (pinpointHeaders (contextAt s s.parentId "stp") (contextAt s s.parentId "appname") target
            (contextAt s s.parentId "tid") (contextAt s s.parentId "sid") (genSid next)))))
        (s.made [.setContextKey (s.resolve s.parentId) "nsid" (genSid next).utf8]) := by
  rw [isSample_of_url next hctx hpos hgiven hfresh hurl htarget, hmark, if_pos rfl]
  exact bind_of_ok _ (generatePinpointHeader_eq target given s.parentId next s)

private theorem headers_set (args : Args PyVal) (entries : List (String × PyVal)) :
    (args.set "headers" (.dict entries)).headers = some entries := by
  rw [Args.headers, get?_set_self]

def IsClue : ApiCall → Prop
  | .addClue .. | .addClues .. => True
  | _ => False

theorem made_of_onBefore {r : Int × Args PyVal}
    (h : (nextSpanPlugin env web next).onBefore parentId args s = .ok r s') :
    r.2 = args ∧ ∃ clues : List ApiCall, (∀ call ∈ clues, IsClue call) ∧ s' = (s.started parentId).made clues := by
  obtain ⟨started, s₁, hbase, h⟩ := bind_eq_ok h
  rw [base_onBefore_eq (contextSet_of_onBefore hbase)] at hbase
  obtain ⟨rfl, rfl⟩ := EStateM.Result.ok.inj hbase
  obtain ⟨url, s₂, hurl, h⟩ := bind_eq_ok h
  obtain ⟨-, rfl⟩ := of_orRaises hurl
  obtain ⟨target, s₃, htarget, h⟩ := bind_eq_ok h
  obtain ⟨-, rfl⟩ := of_orRaises htarget
  obtain ⟨_, s₄, hname, h⟩ := bind_eq_ok h
  obtain ⟨_, s₅, hfirst, h⟩ := bind_eq_ok h
  obtain ⟨_, s₆, hsecond, h⟩ := bind_eq_ok h
  obtain ⟨_, s₇, hdst, h⟩ := bind_eq_ok h
  obtain ⟨rfl, rfl⟩ := EStateM.Result.ok.inj h
  have hmade := made_of_addNotes hdst
  rw [made_of_addTraceHeaderV2 hsecond, made_of_addTraceHeaderV2 hfirst, made_of_addNotes hname, made_made, made_made,
    made_made] at hmade
  refine ⟨rfl, _, ?_, hmade⟩
  simp [Note.toCall, IsClue]

/-- The headers of a request have the ids of the trace that it is made in. -/
structure CarriesIds (sent : List (String × PyVal)) (ids : TraceIds) (next : Sid) : Prop where
  sampled : sent.lookup "Pinpoint-Sampled" = some (.str (.ofString "s1"))
  tid : sent.lookup "Pinpoint-Traceid" = some (.str (.ofString ids.tid))
  psid : sent.lookup "Pinpoint-Pspanid" = some (.str (.ofString ids.sid))
  sid : sent.lookup "Pinpoint-Spanid" = some (.str (genSid next))
  pname : sent.lookup "Pinpoint-Pappname" = some (.str (.ofString ids.appName))
  ptype : sent.lookup "Pinpoint-Papptype" = some (.str (.ofString ids.serverType))

private theorem nodup_pinpointHeaders (ptype pname : PyVal) (host : PyStr) (tid psid : PyVal) (sid : PyStr) :
    ((pinpointHeaders ptype pname host tid psid sid).map Prod.fst).Nodup := by
  have hkeys : (pinpointHeaders ptype pname host tid psid sid).map Prod.fst =
      ["Pinpoint-Sampled", "Pinpoint-Papptype", "Pinpoint-Pappname", "Pinpoint-Flags", "Pinpoint-Host",
        "Pinpoint-Traceid", "Pinpoint-Pspanid", "Pinpoint-Spanid"] := rfl
  rw [hkeys]
  decide

private theorem lookup_update_pinpointHeaders (given : List (String × PyVal)) {ptype pname tid psid value : PyVal}
    {host sid : PyStr} {key : String} (hkey : (pinpointHeaders ptype pname host tid psid sid).lookup key = some value) :
    (Dict.update given (pinpointHeaders ptype pname host tid psid sid)).lookup key = some value := by
  rw [Dict.lookup_update (nodup_pinpointHeaders ..), hkey, Option.some_or]

variable {v : Visit} {ids : TraceIds} {dropped : Bool}

private theorem Visit.Traced.carriesIds (h : v.Traced ids dropped) (hruns : v.Runs s) (given : List (String × PyVal))
    (target : PyStr) (next : Sid) :
    CarriesIds (Dict.update given (pinpointHeaders (contextAt s s.parentId "stp") (contextAt s s.parentId "appname")
      target (contextAt s s.parentId "tid") (contextAt s s.parentId "sid") (genSid next))) ids next := by
  obtain ⟨htid, hsid, happName, hserverType⟩ := h.portable
  rw [hruns.contextAt_of_fits (by decide +kernel) h.serverType hserverType.fits,
    hruns.contextAt_of_fits (by decide +kernel) h.appName happName.fits,
    hruns.contextAt_of_fits (by decide +kernel) h.tid htid.fits,
    hruns.contextAt_of_fits (by decide +kernel) h.sid hsid.fits]
  exact {
    sampled := lookup_update_pinpointHeaders given rfl
    tid := lookup_update_pinpointHeaders given rfl
    psid := lookup_update_pinpointHeaders given rfl
    sid := lookup_update_pinpointHeaders given rfl
    pname := lookup_update_pinpointHeaders given rfl
    ptype := lookup_update_pinpointHeaders given rfl }

private theorem Visit.Traced.isText_mark (h : v.Traced ids dropped) (hruns : v.Runs s) :
    (contextAt s s.parentId "Pinpoint-Sampled").isText "s1" = !dropped := by
  rw [hruns.contextAt_of_fits (by decide +kernel) h.mark (by cases dropped <;> decide +kernel)]
  cases dropped <;> rfl

theorem sampled_of_calls (hgiven : args.headers = some given) (hfresh : given.lookup "Pinpoint-Sampled" = none)
    (hpos : 0 < s.parentId) (hcalls : (nextSpanPlugin env web next).calls args s = some (args', s')) :
    env.contextSet = true ∧ ∃ url target, args.url = some url ∧ web.netloc url = some target := by
  rw [PinTrace.calls] at hcalls
  cases hctx : env.contextSet with
  | false =>
    have hraises : (nextSpanPlugin env web next).isSample args s = .error (.notImplemented "get_parent_id") s := by
      simp only [nextSpanPlugin, basePinTrace, getParentId, hctx]
      rfl
    rw [hraises] at hcalls
    cases hcalls
  | true =>
    have hbase := base_isSample hctx args s
    rw [if_pos hpos] at hbase
    refine ⟨rfl, ?_⟩
    cases hurl : args.url with
    | none =>
      have hraises : (nextSpanPlugin env web next).isSample args s = .error .inLibrary s := by
        simp only [nextSpanPlugin, hgiven, hurl]
        rw [bind_of_ok _ hbase]
        simp only [orRaises, pure_bind, hfresh, Option.isSome_none, Bool.false_eq_true, if_false, if_true]
        rfl
      rw [hraises] at hcalls
      cases hcalls
    | some url =>
      cases htarget : web.netloc url with
      | some target => exact ⟨url, target, rfl, htarget⟩
      | none =>
        have hraises : (nextSpanPlugin env web next).isSample args s = .error .inLibrary s := by
          simp only [nextSpanPlugin, hgiven, hurl]
          rw [bind_of_ok _ hbase]
          simp only [orRaises, pure_bind, hfresh, Option.isSome_none, Bool.false_eq_true, if_false, if_true, htarget]
          rfl
        rw [hraises] at hcalls
        cases hcalls

theorem made_of_calls {nArgs : Args PyVal} {s₁ : PyState}
    (hsample : (nextSpanPlugin env web next).isSample args s = .ok (true, parentId, nArgs) s₁)
    (hcalls : (nextSpanPlugin env web next).calls args s = some (args', s')) :
    args' = nArgs ∧ ∃ clues : List ApiCall, (∀ call ∈ clues, IsClue call) ∧ s' = (s₁.started parentId).made clues := by
  rw [PinTrace.calls, hsample] at hcalls
  cases hbefore : (nextSpanPlugin env web next).onBefore parentId nArgs s₁ with
  | error e s₂ =>
    simp only [hbefore] at hcalls
    cases hcalls
  | ok r s₂ =>
    simp only [hbefore] at hcalls
    obtain ⟨rfl, rfl⟩ := Prod.mk.inj (Option.some.inj hcalls)
    exact made_of_onBefore hbefore

section Calls

variable (hruns : v.Runs s) (hgiven : args.headers = some given) (hfresh : given.lookup "Pinpoint-Sampled" = none)
  (hcalls : (nextSpanPlugin env web next).calls args s = some (args', s'))

include hruns hgiven hfresh hcalls

/-- A request that leaves a sampled trace has the ids of the trace in its headers, and the trace has the id that was
drawn for the span of the service that is called. -/
theorem sent_of_sampled (htraced : v.Traced ids false) :
    (∃ sent, args'.headers = some sent ∧ CarriesIds sent ids next) ∧
      ∃ clues : List ApiCall, (∀ call ∈ clues, IsClue call) ∧
        s' = ((s.made [.setContextKey s.parentId "nsid" (genSid next).utf8]).started s.parentId).made clues := by
  have hpos := hruns.live.pos
  obtain ⟨hctx, url, target, hurl, htarget⟩ := sampled_of_calls hgiven hfresh hpos hcalls
  have hsample := isSample_marked next hctx hpos hgiven hfresh hurl htarget (htraced.isText_mark hruns)
  rw [resolve_of_live hruns.live] at hsample
  obtain ⟨rfl, hclues⟩ := made_of_calls hsample hcalls
  exact ⟨⟨_, headers_set args _, htraced.carriesIds hruns given target next⟩, hclues⟩

end Calls

end Sending

end PinpointAgent.Python
