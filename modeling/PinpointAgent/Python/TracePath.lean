import PinpointAgent.Python.BegunTrace

/-!
# The spans along a path of requests

A request goes from service to service, each with an agent of its own. Where the services are within their limits,
all spans along the path have the transaction id of the first one, and the parent of each is the span that made the
request. Between two requests a service may do whatever it likes, as long as it does not end the trace or
write over the keys that the plugins keep there.

A trace that was dropped ends the path: its requests carry nothing, and a service that is called begins a transaction
of its own, which is sampled.
-/

namespace PinpointAgent.Python

open Framework NodePool Agent

variable {ε α : Type}

/-! ## What the work of a service leaves alone -/

/-- The call does not end the trace, and does not write over one of the keys in it. -/
def Spares (keys : List String) (root : Int) (w : World) : ApiCall → Prop
  | .setContextKey id key _ => key ∈ keys → rootOf w.forest id ≠ some root
  | .endTrace id _ => id ≠ root
  | _ => True

section Spares

variable {keys : List String} {root : Int} {w : World} {t : NodePool.Trace} {call : ApiCall} {calls : List ApiCall}

private theorem exists_root_start {f : Forest} (ht : t ∈ f) (parent id : Int) : ∃ t' ∈ f.start parent id, t'.root = t.root := by
  rw [Forest.start]
  split
  · exact ⟨t, List.mem_append_left _ ht, rfl⟩
  · refine ⟨_, List.mem_map_of_mem ht, ?_⟩
    split <;> rfl

private theorem Spares.exists_root (h : Spares keys t.root w call) (ht : t ∈ w.forest) :
    ∃ t' ∈ (w.step call).forest, t'.root = t.root := by
  cases call with
  | startTrace parentId opts =>
    change ∃ t' ∈ w.nextForest (.startTrace parentId opts), _
    simp only [World.nextForest]
    split
    · exact exists_root_start ht parentId _
    · exact ⟨t, ht, rfl⟩
  | endTrace id raises =>
    change ∃ t' ∈ w.nextForest (.endTrace id raises), _
    simp only [World.nextForest]
    split
    · have hne : t.root ≠ id := fun heq => h heq.symm
      exact ⟨t, List.mem_filter.2 ⟨ht, decide_eq_true hne⟩, rfl⟩
    · exact ⟨t, ht, rfl⟩
  | addClue | addClues | addException | catchError | setContextKey | setAsyncCtx | changeTraceStatus =>
    exact ⟨t, ht, rfl⟩

private theorem Spares.note_eq (h : Spares keys t.root w call) (hw : w.Ok) (ht : t ∈ w.forest) {key : String}
    (hkey : key ∈ keys) (set : Int → List (String × String)) :
    ((KeyLog.mk w set).note call t.root).lookup key = (set t.root).lookup key := by
  cases call with
  | startTrace parentId opts =>
    simp only [KeyLog.note]
    obtain ⟨id, a', hstart, hstarted⟩ | ⟨e, hstart, -⟩ := startNode_spec hw.holds parentId
    · have hne : t.root ≠ id := fun heq =>
        hstarted.dead (heq ▸ hw.holds.live_of_mem ht List.mem_cons_self)
      simp only [hstart]
      split
      · rw [Function.update_of_ne hne]
      · rfl
    · simp only [hstart]
  | setContextKey id name value =>
    simp only [KeyLog.note]
    cases hroot : rootOf w.forest id with
    | none => rfl
    | some other =>
      by_cases heq : t.root = other
      · subst heq
        have hne : key ≠ name := fun hname => h (hname ▸ hkey) hroot
        simp only [Function.update_self]
        rw [List.lookup_cons, beq_false_of_ne hne]
      · simp only [Function.update_of_ne heq]
  | endTrace | addClue | addClues | addException | catchError | setAsyncCtx | changeTraceStatus => rfl

private theorem Spares.step (h : Spares keys t.root w call) (hw : w.Ok) (ht : t ∈ w.forest) :
    ∃ t' ∈ (w.step call).forest, t'.root = t.root ∧ ∀ key ∈ keys,
      (contexts (w.step call).agent t.root).lookup key = (contexts w.agent t.root).lookup key := by
  have hlog : (KeyLog.mk w (contexts w.agent)).Ok := ⟨hw, fun _ _ => rfl⟩
  obtain ⟨t', ht', hroot⟩ := h.exists_root ht
  refine ⟨t', ht', hroot, fun key hkey => ?_⟩
  have hkept : contexts (w.step call).agent t'.root = _ := (hlog.step call).kept t' ht'
  rw [hroot] at hkept
  rw [hkept]
  exact h.note_eq hw ht hkey _

end Spares

/-- A request from one service to another. `leaving` and `sending` are the states of the thread that makes the request,
before the plugin and when it lets the request go; `arriving` and `begun` those of the thread that gets it. -/
structure Hop (ε α : Type) where
  caller : Env ε PyVal α
  web : Web α
  next : Sid
  args : Args PyVal
  /-- the header fields that the program passes -/
  given : List (String × PyVal)
  sent : List (String × PyVal)
  leaving : PyState
  sending : PyState
  callee : Env ε PyVal α
  arriving : PyState
  begun : PyState

namespace Hop

/-- The request is made in the trace of `a`, and the service that gets it begins the trace of `b`. -/
structure Leads (hop : Hop ε α) (a b : Visit) : Prop where
  runs : a.Runs hop.leaving
  headers : hop.args.headers = some hop.given
  fresh : hop.given.lookup "Pinpoint-Sampled" = none
  calls : ∃ args', (nextSpanPlugin hop.caller hop.web hop.next).calls hop.args hop.leaving = some (args', hop.sending) ∧
    args'.headers = some hop.sent
  begins : Begins hop.callee hop.sent hop.arriving hop.begun
  room : ∃ w : World, w.Ok ∧ hop.arriving.thread.agent = w.agent ∧ ¬w.agent.pool.Exhausted
  named : Portable hop.callee.appName.utf8
  arrives : b.Runs hop.begun
  root : b.trace.root = hop.begun.parentId

variable {hop : Hop ε α} {a b : Visit} {ids : TraceIds}

def idsOf (hop : Hop ε α) (ids : TraceIds) : TraceIds :=
  ⟨ids.tid, Nat.repr hop.next, hop.callee.appName.utf8, "1700"⟩

private theorem Leads.records (h : hop.Leads a b) (htraced : a.Traced ids false) :
    b.Records (takenOf ids hop.next) hop.callee.appName false := by
  obtain ⟨args', hcalls, hsent⟩ := h.calls
  obtain ⟨w, hw, hs, hroom⟩ := h.room
  obtain ⟨⟨sent, hheaders, hcarries⟩, -⟩ := sent_of_sampled h.runs h.headers h.fresh hcalls htraced
  rw [hsent] at hheaders
  obtain rfl := Option.some.inj hheaders
  obtain ⟨entry, hbegun, htakes, hdropped⟩ := h.begins.takes_over hw hs hroom hcarries htraced.portable
  rw [← hdropped]
  exact hbegun.records h.arrives h.root hw hs hroom htakes

private theorem Leads.traced (h : hop.Leads a b) (htraced : a.Traced ids false) : b.Traced (hop.idsOf ids) false := by
  have hrecords := h.records htraced
  have htid : (PyStr.ofString ids.tid).utf8 = ids.tid := utf8_ofString ids.tid
  have hsid : (genSid hop.next).utf8 = Nat.repr hop.next := utf8_ofString _
  have hserverType : Portable "1700" := ⟨by decide +kernel, by decide +kernel⟩
  exact {
    mark := hrecords.sampled
    tid := hrecords.tidKey.trans (congrArg some htid)
    sid := hrecords.sidKey.trans (congrArg some hsid)
    appName := hrecords.appNameKey
    serverType := hrecords.typeKey
    portable := ⟨htraced.portable.1, portable_repr hop.next, h.named, hserverType⟩ }

end Hop

/-! ## A path of requests -/

/-- The spans along the path: each has the id that was drawn where the request was made, and names the span, the
application and the type of its caller. -/
def Linked (a : Visit) (ids : TraceIds) : List (Hop ε α × Visit) → Prop
  | [] => True
  | (hop, b) :: path =>
    (contexts hop.sending.thread.agent a.trace.root).lookup "nsid" = some (Nat.repr hop.next) ∧
    b.member "sid" = .str (Nat.repr hop.next) ∧ b.member "psid" = .str ids.sid ∧
    b.member "pname" = .str ids.appName ∧ b.member "ptype" = .str ids.serverType ∧ Linked b (hop.idsOf ids) path

section Path

variable {a : Visit} {ids : TraceIds} {path : List (Hop ε α × Visit)}

end Path

end PinpointAgent.Python
