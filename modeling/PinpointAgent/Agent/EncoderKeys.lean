import PinpointAgent.Agent.World

/-!
# The key of the encoder

`EncodeTraceToJsonSpan` appends the children to the member `event` of the root, and throws when that
member is something else. Nothing but a clue of that name makes it so: in a run without such clues
every live node keeps an `event` member that can be appended to.
-/

namespace PinpointAgent.Agent

open Framework NodePool

def EventsOpen (a : Agent) : Prop := ∀ id, a.pool.Live id → a.EventAppendable id

def ApiCall.Collides : ApiCall → Prop
  | .addClue _ key _ _ => key = "event"
  | _ => False

instance ApiCall.decidableCollides : (call : ApiCall) → Decidable call.Collides
  | .addClue _ key _ _ => inferInstanceAs (Decidable (key = "event"))
  | .startTrace .. | .endTrace .. | .addClues .. | .addException .. | .catchError .. | .setContextKey ..
  | .setAsyncCtx .. | .changeTraceStatus .. => isFalse nofun

section Keeps

variable {α β : Type}

/-- However `c` ends, it leaves the events open. -/
private abbrev KeepsOpen (c : AgentM α) : Prop := Preserves EventsOpen c

private theorem keepsOpen_getUnixTimeMs : KeepsOpen getUnixTimeMs := fun _ h => h

private theorem eventsOpen_modifyNode {a : Agent} {id : Int} {g : TraceNode → TraceNode} (h : a.EventsOpen)
    (hg : ((a.pool.nodeAt id).value.get "event").Appendable →
      ((g (a.pool.nodeAt id)).value.get "event").Appendable) :
    EventsOpen { a with pool := a.pool.modifyNode id g } := by
  intro other hlive
  have hother := h other hlive
  unfold EventAppendable at hother ⊢
  by_cases heq : other = id
  · subst heq
    rw [PoolManager.nodeAt_modifyNode_self]
    exact hg hother
  · rwa [PoolManager.nodeAt_modifyNode_of_ne _ heq]

private theorem keepsOpen_modifyNode (id : Int) {g : TraceNode → TraceNode}
    (hg : ∀ n, (g n).value.get "event" = n.value.get "event") : KeepsOpen (modifyNode id g) := by
  apply Moves.modify
  intro a h
  exact eventsOpen_modifyNode h fun happ => (hg _).symm ▸ happ

private theorem keepsOpen_appendAnnotationMember (id : Int) (key : String) (v : Json) :
    KeepsOpen (appendAnnotationMember id key v) := by
  intro a h
  by_cases happ : ((a.pool.nodeAt id).value.get key).Appendable
  · have hsome := Members.append_of_appendable _ key v happ
    rw [finalState_of_ok (show appendAnnotationMember id key v a = .ok () { a with
      pool := a.pool.modifyNode id fun n => { n with
        value := (a.pool.nodeAt id).value.set key
          (.arr (((a.pool.nodeAt id).value.get key).items ++ [v])) } } by
        simp only [appendAnnotationMember, hsome])]
    apply eventsOpen_modifyNode h
    intro hevent
    by_cases hkey : "event" = key
    · subst hkey
      rw [Members.get_set_self]
      trivial
    · rwa [Members.get_set_of_ne _ _ hkey]
  · have hnone := (Members.append_eq_none_iff _ key v).2 happ
    rwa [finalState_of_error (show appendAnnotationMember id key v a = .error .notAppendable a by
      simp only [appendAnnotationMember, hnone])]

private theorem keepsOpen_endTraceNode (id : Int) : KeepsOpen (endTraceNode id) := by
  refine Preserves.bind keepsOpen_getUnixTimeMs ?_
  intro now
  exact keepsOpen_modifyNode id fun n => by rw [(n.endTrace_fields now).2.2.2, get_endMembers_event]

private theorem keepsOpen_notInternalKey (key : String) : KeepsOpen (notInternalKey key) := by
  unfold notInternalKey
  split
  · exact Preserves.throw _
  · exact Preserves.pure _

private theorem keepsOpen_addAnnotationMember (id : Int) {key : String} (v : Json) (hkey : "event" ≠ key) :
    KeepsOpen (modifyNode id (·.addAnnotationMember key v)) :=
  keepsOpen_modifyNode id fun n => Members.get_set_of_ne n.value v hkey

private theorem keepsOpen_annotateTraceV1 (id : Int) {key : String} (value : String) (flag : Int)
    (hkey : "event" ≠ key) : KeepsOpen (annotateTraceV1 id key value flag) := by
  refine Preserves.bind (keepsOpen_notInternalKey key) fun _ => ?_
  refine Preserves.bind (preserves_getWrapperTraceNode id flag) fun node => ?_
  exact keepsOpen_addAnnotationMember node _ hkey

private theorem keepsOpen_annotateTraceV2 (id : Int) (key value : String) (flag : Int) :
    KeepsOpen (annotateTraceV2 id key value flag) := by
  refine Preserves.bind (keepsOpen_notInternalKey key) fun _ => ?_
  refine Preserves.bind (preserves_getWrapperTraceNode id flag) fun node => ?_
  exact keepsOpen_appendAnnotationMember node _ _

private theorem keepsOpen_annotateErrorTrace (id : Int) (msg file : String) (line : Nat) :
    KeepsOpen (annotateErrorTrace id msg file line) := by
  refine Preserves.bind (preserves_getWrapperTraceNode id 1) fun root => ?_
  exact keepsOpen_addAnnotationMember root _ (by decide)

private theorem keepsOpen_annotateExceptionTrace (id : Int) (exception : String) :
    KeepsOpen (annotateExceptionTrace id exception) := by
  refine Preserves.bind (preserves_getWrapperTraceNode id 0) fun node => ?_
  refine Preserves.bind (keepsOpen_modifyNode node fun _ => rfl) fun _ => ?_
  refine Preserves.bind (preserves_getWrapperTraceNode id 1) fun root => ?_
  refine Preserves.bind (keepsOpen_modifyNode root fun _ => rfl) fun _ => ?_
  refine Preserves.bind keepsOpen_getUnixTimeMs fun _ => ?_
  refine Preserves.bind Preserves.get fun _ => ?_
  exact keepsOpen_addAnnotationMember node _ (by decide)

private theorem keepsOpen_addTraceContext (id : Int) (key value : String) :
    KeepsOpen (addTraceContext id key value) := by
  refine Preserves.bind (preserves_getWrapperTraceNode id 1) fun root => ?_
  exact keepsOpen_modifyNode root fun _ => rfl

private theorem keepsOpen_setAsyncContext (id asyncNodeId nodeSequence : Int) :
    KeepsOpen (setAsyncContext id asyncNodeId nodeSequence) := by
  refine Preserves.bind (preserves_getWrapperTraceNode id 1) fun root => ?_
  exact keepsOpen_addAnnotationMember root _ (by decide)

private theorem keepsOpen_changeTraceStatus (id status : Int) : KeepsOpen (changeTraceStatus id status) := by
  refine Preserves.bind (preserves_referNode id) fun node => ?_
  refine Preserves.bind (preserves_referNode node.rootId) fun _ => ?_
  refine Preserves.bind Preserves.get fun _ => ?_
  exact Preserves.bind (keepsOpen_modifyNode node.rootId fun _ => rfl) fun _ => Preserves.pure _

private theorem keepsOpen_encodeLoop (root : Int) (fuel : Nat) (next : Int) :
    KeepsOpen (encodeLoop root fuel next) := by
  induction fuel generalizing next with
  | zero =>
    unfold encodeLoop
    split
    · exact Preserves.pure _
    · exact Preserves.throw _
  | succ fuel ih =>
    unfold encodeLoop
    split
    · exact Preserves.pure _
    · refine Preserves.bind ?_ ih
      refine Preserves.bind (preserves_referNode next) ?_
      intro node
      refine Preserves.bind ?_ ?_
      · unfold forceEnd
        split
        · exact keepsOpen_endTraceNode next
        · exact Preserves.pure _
      · intro _
        refine Preserves.bind Preserves.get ?_
        intro _
        exact Preserves.bind (keepsOpen_appendAnnotationMember root "event" _) fun _ => Preserves.pure _

private theorem keepsOpen_encodeTraceToJsonSpan (root : Int) : KeepsOpen (encodeTraceToJsonSpan root) := by
  have hconst : KeepsOpen (getConstValue root) := fun _ h => h
  refine Preserves.bind Preserves.get ?_
  intro a
  split
  · refine Preserves.bind (keepsOpen_encodeLoop root _ _) ?_
    intro _
    refine Preserves.bind (keepsOpen_modifyNode root fun n => ?_) fun _ => hconst
    obtain ⟨skipped, hskipped⟩ := runUserOptionFunc_eq n
    rw [hskipped]
  · exact hconst

private theorem keepsOpen_trySendSpan (span : Members) (raises : Bool) : KeepsOpen (trySendSpan span raises) := by
  have hsend : KeepsOpen (modify fun a : Agent => { a with spans := a.spans ++ [span] }) := fun _ h => h
  refine Preserves.bind hsend ?_
  intro _
  split
  · exact Preserves.throw _
  · exact Preserves.pure _

private theorem keepsOpen_deliverRoot (id : Int) (raises : Bool) : KeepsOpen (deliverRoot id raises) := by
  refine Preserves.bind Preserves.get ?_
  intro a
  split
  · refine Preserves.bind (keepsOpen_endTraceNode id) ?_
    intro _
    refine Preserves.bind (preserves_referNode id) ?_
    intro _
    exact Preserves.bind (keepsOpen_encodeTraceToJsonSpan id) fun span => keepsOpen_trySendSpan span raises
  · exact Preserves.pure _

theorem eventsOpen_endedNode {a : Agent} (h : a.EventsOpen) (id : Int) : (a.endedNode id).EventsOpen :=
  finalState_of_ok (endTraceNode_eq id a) ▸ keepsOpen_endTraceNode id a h

end Keeps

section Calls

variable {a : Agent} {f : Forest}

private theorem eventsOpen_startTrace (h : Holds a.pool f []) (hopen : a.EventsOpen) (parentId : Int)
    (opts : List String) : (a.after (.startTrace parentId opts)).EventsOpen := by
  obtain ⟨id, a', hstart, hstarted⟩ | ⟨e, hstart, _⟩ := startNode_spec h parentId
  · have hopen' : a'.EventsOpen := by
      intro other hlive
      unfold EventAppendable
      obtain rfl | hold := (hstarted.live_iff other).1 hlive
      · obtain ⟨n, ⟨-, hnode⟩ | ⟨t, -, -, sequence, hnode⟩⟩ := hstarted.node
        · rw [hnode]
          exact (show "event" ≠ ":FT" by decide) |> Members.get_set_of_ne [] _ |>.symm ▸ trivial
        · rw [hnode]
          trivial
      · obtain ⟨next, extra, hnode⟩ := hstarted.kept other hold
        rw [hnode]
        exact hopen other hold
    rw [World.after_startTrace opts hstart, finalState_setNodeUserOption]
    apply eventsOpen_modifyNode hopen'
    obtain ⟨options, hoptions⟩ := setNodeUserOption_eq (a'.pool.nodeAt id)
      (if parentId = rootNode then [] else opts)
    rw [hoptions]
    exact fun happ => happ
  · rw [World.after_startTrace_of_error opts hstart]
    exact hopen

private theorem eventsOpen_endTrace (h : Holds a.pool f []) (hopen : a.EventsOpen) (id : Int) (raises : Bool) :
    (a.after (.endTrace id raises)).EventsOpen := by
  have hdeliver := keepsOpen_deliverRoot id raises a hopen
  by_cases hroot : ∃ t ∈ f, t.root = id
  · obtain ⟨t, ht, rfl⟩ := hroot
    have hspec := endTrace_root h ht raises
    split at hspec
    · obtain ⟨b, q, hb, hview, hend, hholds, -, hnodes, -⟩ := hspec
      rw [finalState_of_ok hb] at hdeliver
      rw [after, finalState_of_ok hend]
      intro other hlive
      have hnode : q.nodeAt other = b.pool.nodeAt other := by
        rw [PoolManager.nodeAt, hnodes, PoolManager.nodeAt]
      rw [EventAppendable, hnode]
      apply hdeliver other
      -- what is left of the forest was alive before
      rw [live_of_view hview, h.live_iff]
      have hmem := (hholds.live_iff other).1 hlive
      simp only [List.nil_append, Forest.mem_nodes] at hmem ⊢
      obtain ⟨u, hu, hin⟩ := hmem
      exact ⟨u, List.mem_of_mem_filter hu, hin⟩
    · obtain ⟨e, b, hb, -, hend, -⟩ := hspec
      rw [finalState_of_error hb] at hdeliver
      rwa [after, finalState_of_error hend]
  · by_cases hlive : a.pool.Live id
    · obtain ⟨t, ht, hmem⟩ := h.exists_trace hlive
      have hchild : ¬(a.pool.nodeAt id).isRootNode = true := fun hisRoot =>
        hroot ⟨t, ht, ((h.ok t ht).isRootNode_iff hmem).1 hisRoot⟩
      rw [after, finalState_of_ok (endTrace_child hlive hchild raises)]
      exact eventsOpen_endedNode hopen id
    · obtain ⟨e, he, _⟩ := referNode_of_dead hlive
      rwa [after, finalState_of_error (show endTrace id raises a = .error e a by
        rw [endTrace, bind_of_error _ he])]

theorem eventsOpen_after (h : Holds a.pool f []) (hopen : a.EventsOpen) {call : ApiCall}
    (hcall : ¬call.Collides) : (a.after call).EventsOpen := by
  cases call with
  | startTrace parentId opts => exact eventsOpen_startTrace h hopen parentId opts
  | endTrace id raises => exact eventsOpen_endTrace h hopen id raises
  | addClue id key value flag => exact keepsOpen_annotateTraceV1 id value flag (Ne.symm hcall) a hopen
  | addClues id key value flag => exact keepsOpen_annotateTraceV2 id key value flag a hopen
  | addException id exception => exact keepsOpen_annotateExceptionTrace id exception a hopen
  | catchError id msg file line => exact keepsOpen_annotateErrorTrace id msg file line a hopen
  | setContextKey id key value => exact keepsOpen_addTraceContext id key value a hopen
  | setAsyncCtx id asyncNodeId nodeSequence => exact keepsOpen_setAsyncContext id asyncNodeId nodeSequence a hopen
  | changeTraceStatus id status => exact keepsOpen_changeTraceStatus id status a hopen

theorem deliverable_iff_of_open {t : Trace} (h : Holds a.pool f []) (ht : t ∈ f) (hopen : a.EventsOpen)
    (raises : Bool) :
    a.Deliverable t raises ↔ ((a.pool.rootExtra t.root).status = tracePass → raises = false) := by
  have hevent : a.EventAppendable t.root := hopen t.root (h.live_of_mem ht List.mem_cons_self)
  unfold Deliverable
  constructor
  · rintro (hdropped | ⟨hfalse, -⟩) hpass
    · exact absurd hpass hdropped
    · exact hfalse
  · intro himp
    by_cases hpass : (a.pool.rootExtra t.root).status = tracePass
    · exact .inr ⟨himp hpass, .inr hevent⟩
    · exact .inl hpass

end Calls

end PinpointAgent.Agent
