import PinpointAgent.Agent.World
/-!
# The numbers of a span

The collector decodes a span into Go structs whose offsets and elapsed times are `int32`
(`int64` for the root's start and for exceptions). The agent computes them from readings of
the wall clock: elapsed times as signed differences, start offsets as unsigned ones, so an
offset wraps when the clock was set back between its two readings. For runs in which every
offset is taken forward, all numbers of all spans fit.
-/

namespace PinpointAgent.Agent

open Framework NodePool

section Fits

def FitsInt32 : Json → Prop
  | .int n => -2147483648 ≤ n ∧ n < 2147483648
  | .uint n => n < 2147483648
  | _ => False

def FitsInt64 : Json → Prop
  | .int n => -9223372036854775808 ≤ n ∧ n < 9223372036854775808
  | .uint n => n < 9223372036854775808
  | _ => False

instance decidableFitsInt32 : (v : Json) → Decidable (FitsInt32 v)
  | .int n => inferInstanceAs (Decidable (-2147483648 ≤ n ∧ n < 2147483648))
  | .uint n => inferInstanceAs (Decidable (n < 2147483648))
  | .null | .bool _ | .real _ | .str _ | .arr _ | .obj _ => inferInstanceAs (Decidable False)

instance decidableFitsInt64 : (v : Json) → Decidable (FitsInt64 v)
  | .int n => inferInstanceAs (Decidable (-9223372036854775808 ≤ n ∧ n < 9223372036854775808))
  | .uint n => inferInstanceAs (Decidable (n < 9223372036854775808))
  | .null | .bool _ | .real _ | .str _ | .arr _ | .obj _ => inferInstanceAs (Decidable False)

def objectMembers : Json → Members
  | .obj members => members
  | _ => []

def ExceptionFits (m : Members) : Prop :=
  ∀ v ∈ ((objectMembers (m.get "EXP_V2")).lookup ":S").toList, FitsInt64 v

def EventFits (e : Json) : Prop :=
  FitsInt32 ((objectMembers e).get ":S") ∧ FitsInt32 ((objectMembers e).get ":E") ∧
    ExceptionFits (objectMembers e)

def SpanFits (m : Members) : Prop :=
  FitsInt32 (m.get ":E") ∧ FitsInt64 (m.get ":S") ∧ ExceptionFits m ∧
    ∀ e ∈ (m.get "event").items, EventFits e

instance decidableExceptionFits (m : Members) : Decidable (ExceptionFits m) :=
  inferInstanceAs (Decidable (∀ v ∈ _, FitsInt64 v))

instance decidableEventFits (e : Json) : Decidable (EventFits e) :=
  inferInstanceAs (Decidable (_ ∧ _))

instance decidableSpanFits (m : Members) : Decidable (SpanFits m) :=
  inferInstanceAs (Decidable (_ ∧ _))

def Stamped (n : TraceNode) : Prop :=
  FitsInt32 (n.value.get ":E") ∧
    if n.isRootNode then FitsInt64 (n.value.get ":S") else FitsInt32 (n.value.get ":S")

/-- What a live node owes to the span it will be part of. -/
structure NodeFits (n : TraceNode) : Prop where
  start : n.traceStartTime < 4611686018427387904
  offset : if n.isRootNode then n.preTraceTime = 0
    else n.preTraceTime ≤ n.traceStartTime ∧ n.traceStartTime < n.preTraceTime + 2147483648
  stamped : n.expiredTime ≠ -1 → Stamped n
  exception : ExceptionFits n.value
  events : ∀ e ∈ (n.value.get "event").items, EventFits e

variable {n : TraceNode}

private theorem NodeFits.setValue {m : Members} (h : NodeFits n) (hE : m.get ":E" = n.value.get ":E")
    (hS : m.get ":S" = n.value.get ":S") (hexception : ExceptionFits m)
    (hevents : ∀ e ∈ (m.get "event").items, EventFits e) : NodeFits { n with value := m } := by
  refine ⟨h.start, h.offset, ?_, hexception, hevents⟩
  intro hended
  have hstamped := h.stamped hended
  unfold Stamped at hstamped ⊢
  rw [← hE, ← hS] at hstamped
  exact hstamped

theorem NodeFits.annotate (key : String) {v : Json} (h : NodeFits n) (hE : key ≠ ":E")
    (hS : key ≠ ":S") (hobject : key = "EXP_V2" → objectMembers v = [])
    (hitems : key = "event" → v.items = []) : NodeFits (n.addAnnotationMember key v) := by
  refine h.setValue (Members.get_set_of_ne _ _ hE.symm) (Members.get_set_of_ne _ _ hS.symm) ?_ ?_
  · by_cases hkey : key = "EXP_V2"
    · rw [hkey, ExceptionFits, Members.get_set_self, hobject hkey]
      simp
    · rw [ExceptionFits, Members.get_set_of_ne _ _ (Ne.symm hkey)]
      exact h.exception
  · by_cases hkey : key = "event"
    · rw [hkey, Members.get_set_self, hitems hkey]
      simp
    · rw [Members.get_set_of_ne _ _ (Ne.symm hkey)]
      exact h.events

def Near (a b : Nat) : Prop := a < b + 2147483648 ∧ b < a + 2147483648

instance decidableNear (a b : Nat) : Decidable (Near a b) := inferInstanceAs (Decidable (_ ∧ _))

private theorem get_endMembers_times (now : Nat) :
    (n.endMembers now).get ":E" = .int (n.elapsed now) ∧
      (n.endMembers now).get ":S" = .uint n.startOffset := by
  unfold TraceNode.endMembers
  constructor <;> split <;> split <;> simp

private theorem get_endMembers_other (now : Nat) :
    (n.endMembers now).get "EXP_V2" = n.value.get "EXP_V2" := by
  unfold TraceNode.endMembers
  split <;> split <;> simp

private theorem fits_elapsed {now : Nat} (h : NodeFits n) (hnow : now < 4611686018427387904)
    (hnear : Near now n.traceStartTime) : FitsInt32 (.int (n.elapsed now)) := by
  have helapsed : n.elapsed now = (now : Int) - n.traceStartTime := toSigned_64_wordSub hnow h.start
  obtain ⟨hlo, hhi⟩ := hnear
  rw [helapsed, FitsInt32]
  omega

private theorem fits_startOffset (h : NodeFits n) :
    if n.isRootNode then FitsInt64 (.uint n.startOffset) else FitsInt32 (.uint n.startOffset) := by
  have hstart := h.start
  have hoffset := h.offset
  have hsub : n.preTraceTime ≤ n.traceStartTime →
      n.startOffset = n.traceStartTime - n.preTraceTime := fun hle =>
    wordSub_of_le hle (by norm_num; omega)
  split
  · next hroot =>
    rw [if_pos hroot] at hoffset
    rw [hsub (by omega), FitsInt64]
    omega
  · next hroot =>
    rw [if_neg hroot] at hoffset
    rw [hsub hoffset.1, FitsInt32]
    omega

theorem NodeFits.endTrace {now : Nat} (h : NodeFits n) (hnow : now < 4611686018427387904)
    (hnear : Near now n.traceStartTime) : Stamped (n.endTrace now) ∧ NodeFits (n.endTrace now) := by
  obtain ⟨hstart, hpre, hroot, hvalue⟩ := n.endTrace_fields now
  have hstamped : Stamped (n.endTrace now) := by
    obtain ⟨hE, hS⟩ := get_endMembers_times (n := n) now
    rw [Stamped, hvalue, hroot, hE, hS]
    exact ⟨fits_elapsed h hnow hnear, fits_startOffset h⟩
  refine ⟨hstamped, ?_, ?_, fun _ => hstamped, ?_, ?_⟩
  · rw [hstart]
    exact h.start
  · rw [hroot, hpre, hstart]
    exact h.offset
  · rw [ExceptionFits, hvalue, get_endMembers_other]
    exact h.exception
  · rw [hvalue, get_endMembers_event]
    exact h.events

end Fits

def PoolFits (p : PoolManager) : Prop := ∀ id, p.Live id → NodeFits (p.nodeAt id)

private theorem PoolFits.modifyNode {p : PoolManager} {id : Int} {g : TraceNode → TraceNode} (h : PoolFits p)
    (hg : p.Live id → NodeFits (g (p.nodeAt id))) : PoolFits (p.modifyNode id g) := by
  intro other hlive
  by_cases heq : other = id
  · rw [heq, PoolManager.nodeAt_modifyNode_self]
    exact hg (heq ▸ hlive)
  · rw [PoolManager.nodeAt_modifyNode_of_ne g heq]
    exact h other hlive

/-- The nodes in use and the spans handed over have numbers in range. -/
structure Numbers (a : Agent) : Prop where
  pool : PoolFits a.pool
  spans : ∀ span ∈ a.spans, SpanFits span

section Keeps

variable {α β : Type}

/-- However `c` ends, numbers in range stay in range. -/
abbrev Keeps (c : AgentM α) : Prop := Moves (fun a b => Numbers a → Numbers b) c

private theorem keeps_modifyNode {id : Int} {g : TraceNode → TraceNode}
    (hg : ∀ n, NodeFits n → NodeFits (g n)) : Keeps (modifyNode id g) := by
  apply Moves.modify
  intro a h
  exact ⟨h.pool.modifyNode fun hlive => hg _ (h.pool id hlive), h.spans⟩

private theorem keeps_notInternalKey {key : String} {k : Unit → AgentM α}
    (hk : key.toList.head? ≠ some ':' → ∀ x, Keeps (k x)) : Keeps (notInternalKey key >>= k) := by
  by_cases hinternal : key.toList.head? = some ':'
  · intro a h
    have hthrow : notInternalKey key a = .error (.internalKey key) a := by
      rw [notInternalKey, if_pos hinternal]
      rfl
    rwa [finalState_of_error (bind_of_error k hthrow)]
  · refine Preserves.bind ?_ (hk hinternal)
    rw [notInternalKey, if_neg hinternal]
    exact Preserves.pure _

private theorem key_ne_times {key : String} (h : key.toList.head? ≠ some ':') :
    key ≠ ":E" ∧ key ≠ ":S" := by
  constructor <;> rintro rfl <;> exact h rfl

private theorem keeps_annotateTraceV1 (id : Int) (key value : String) (flag : Int) :
    Keeps (annotateTraceV1 id key value flag) := by
  apply keeps_notInternalKey
  intro hkey _
  refine Preserves.bind (preserves_getWrapperTraceNode id flag) fun _ => ?_
  apply keeps_modifyNode
  intro n hn
  exact NodeFits.annotate key hn (key_ne_times hkey).1 (key_ne_times hkey).2 (fun _ => rfl) (fun _ => rfl)

private theorem keeps_appendAnnotationMember (id : Int) (v : Json) :
    Keeps (appendAnnotationMember id "anno" v) := by
  intro a h
  by_cases happ : ((a.pool.nodeAt id).value.get "anno").Appendable
  · have hstep : appendAnnotationMember id "anno" v a = .ok () { a with
        pool := a.pool.modifyNode id fun n => { n with
          value := (a.pool.nodeAt id).value.set "anno"
            (.arr (((a.pool.nodeAt id).value.get "anno").items ++ [v])) } } := by
      simp only [appendAnnotationMember, Members.append_of_appendable _ "anno" v happ]
    rw [finalState_of_ok hstep]
    refine ⟨h.pool.modifyNode fun hlive => ?_, h.spans⟩
    exact NodeFits.annotate "anno" (h.pool id hlive) (by decide) (by decide)
      (fun hc => absurd hc (by decide)) (fun hc => absurd hc (by decide))
  · have hstep : appendAnnotationMember id "anno" v a = .error .notAppendable a := by
      simp only [appendAnnotationMember, (Members.append_eq_none_iff _ "anno" v).2 happ]
    rwa [finalState_of_error hstep]

private theorem keeps_annotateTraceV2 (id : Int) (key value : String) (flag : Int) :
    Keeps (annotateTraceV2 id key value flag) := by
  apply keeps_notInternalKey
  intro _ _
  exact Preserves.bind (preserves_getWrapperTraceNode id flag) fun _ => keeps_appendAnnotationMember _ _

private theorem keeps_annotateRoot (id : Int) {key : String} {v : Json} (hE : key ≠ ":E")
    (hS : key ≠ ":S") (hexception : key ≠ "EXP_V2") (hevent : key ≠ "event") :
    Keeps (getWrapperTraceNode id 1 >>= fun root => modifyNode root (·.addAnnotationMember key v)) := by
  refine Preserves.bind (preserves_getWrapperTraceNode id 1) fun _ => ?_
  apply keeps_modifyNode
  intro n hn
  exact NodeFits.annotate key hn hE hS (fun hc => absurd hc hexception) (fun hc => absurd hc hevent)

private theorem keeps_annotateErrorTrace (id : Int) (msg file : String) (line : Nat) :
    Keeps (annotateErrorTrace id msg file line) :=
  keeps_annotateRoot id (by decide) (by decide) (by decide) (by decide)

private theorem keeps_setAsyncContext (id asyncNodeId nodeSequence : Int) :
    Keeps (setAsyncContext id asyncNodeId nodeSequence) :=
  keeps_annotateRoot id (by decide) (by decide) (by decide) (by decide)

private theorem keeps_addTraceContext (id : Int) (key value : String) :
    Keeps (addTraceContext id key value) := by
  refine Preserves.bind (preserves_getWrapperTraceNode id 1) fun _ => ?_
  apply keeps_modifyNode
  intro n hn
  exact ⟨hn.start, hn.offset, hn.stamped, hn.exception, hn.events⟩

private theorem keeps_changeTraceStatus (id status : Int) : Keeps (changeTraceStatus id status) := by
  refine Preserves.bind (preserves_referNode id) fun _ => ?_
  refine Preserves.bind (preserves_referNode _) fun _ => ?_
  refine Preserves.bind Preserves.get fun _ => ?_
  refine Preserves.bind ?_ fun _ => Preserves.pure _
  apply keeps_modifyNode
  intro n hn
  exact ⟨hn.start, hn.offset, hn.stamped, hn.exception, hn.events⟩

end Keeps

section Exceptions

variable {a : Agent} {f : Forest} {t : Trace} {id : Int}

private theorem NodeFits.mark {n : TraceNode} (h : NodeFits n) : NodeFits (markException n) :=
  ⟨h.start, h.offset, h.stamped, h.exception, h.events⟩

private theorem NodeFits.exceptionAt {n : TraceNode} {exception : String} {now start : Nat}
    (h : NodeFits n) (hnow : now < 4611686018427387904) (hforward : start ≤ now) :
    NodeFits (n.addAnnotationMember "EXP_V2" (.obj (exceptionMembers exception now start))) := by
  refine h.setValue (Members.get_set_of_ne _ _ (by decide)) (Members.get_set_of_ne _ _ (by decide)) ?_ ?_
  · have hoffset : wordSub 64 now start = now - start := wordSub_of_le hforward (by norm_num; omega)
    have hlookup : (exceptionMembers exception now start).lookup ":S" =
        some (.uint (wordSub 64 now start)) := by
      simp [exceptionMembers, List.lookup_cons]
    rw [ExceptionFits, Members.get_set_self, objectMembers, hlookup, hoffset]
    intro v hv
    simp only [Option.toList_some, List.mem_singleton] at hv
    rw [hv, FitsInt64]
    omega
  · rw [Members.get_set_of_ne _ _ (by decide)]
    exact h.events

theorem numbers_annotateExceptionTrace (h : Holds a.pool f []) (hnum : Numbers a) (exception : String)
    (hclose : a.tick < (finalState (annotateExceptionTrace id exception) a).tick →
      a.clock a.tick < 4611686018427387904)
    (hforward : ∀ t ∈ f, id ∈ t.nodes → (a.pool.nodeAt t.root).traceStartTime ≤ a.clock a.tick) :
    Numbers (finalState (annotateExceptionTrace id exception) a) := by
  by_cases hlive : a.pool.Live id
  · obtain ⟨t, ht, hid⟩ := h.exists_trace hlive
    have hstep := annotateExceptionTrace_of_mem h ht hid exception
    rw [finalState_of_ok hstep] at hclose ⊢
    have hnow := hclose (Nat.lt_succ_self _)
    refine ⟨?_, hnum.spans⟩
    have hmark : PoolFits (a.pool.modifyNode id markException) :=
      hnum.pool.modifyNode fun hl => (hnum.pool id hl).mark
    have hmarked : PoolFits ((a.pool.modifyNode id markException).modifyNode t.root markException) :=
      hmark.modifyNode fun hl => (hmark t.root hl).mark
    exact hmarked.modifyNode fun hl => (hmarked id hl).exceptionAt hnow (hforward t ht hid)
  · obtain ⟨e, he, _⟩ := referNode_of_dead hlive
    have hstep : annotateExceptionTrace id exception a = .error e a := by
      have hwrapper : getWrapperTraceNode id 0 a = .error e a := bind_of_error _ he
      exact bind_of_error _ hwrapper
    rw [finalState_of_error hstep]
    exact hnum

end Exceptions

section Starts

variable {a a' : Agent} {f : Forest} {id parent : Int}

private theorem nodeFits_freshRoot {n : TraceNode} {now : Nat} (agentType : Int)
    (hnow : now < 4611686018427387904) :
    NodeFits (((n.reset id).upgradeToRootNode agentType).startTrace now) := by
  refine ⟨hnow, ?_, fun hended => absurd rfl hended, ?_, ?_⟩
  · have hroot : (((n.reset id).upgradeToRootNode agentType).startTrace now).isRootNode = true :=
      beq_self_eq_true id
    rw [if_pos hroot]
    rfl
  · simp [ExceptionFits, TraceNode.startTrace, TraceNode.upgradeToRootNode, TraceNode.addAnnotationMember,
      TraceNode.reset, objectMembers]
  · simp [TraceNode.startTrace, TraceNode.upgradeToRootNode, TraceNode.addAnnotationMember,
      TraceNode.reset, Json.items]

private theorem nodeFits_freshChild {n parent : TraceNode} {now pre : Nat} {root sequence : Int}
    (hne : root ≠ id) (hnow : now < 4611686018427387904) (hforward : pre ≤ now)
    (hnear : Near now pre) :
    NodeFits { ((n.reset id).startTrace now).bindParentTrace parent with
      rootId := root, preTraceTime := pre, sequence := sequence } := by
  refine ⟨hnow, ?_, fun hended => absurd rfl hended, ?_, ?_⟩
  · rw [if_neg]
    · exact ⟨hforward, hnear.1⟩
    · intro hroot
      exact hne (beq_iff_eq.1 hroot)
  · simp [ExceptionFits, TraceNode.startTrace, TraceNode.bindParentTrace, TraceNode.reset, objectMembers]
  · simp [TraceNode.startTrace, TraceNode.bindParentTrace, TraceNode.reset, Json.items]

private theorem numbers_started (h : Holds a.pool f []) (hstarted : Started a f parent id a')
    (hnum : Numbers a) (hnow : a.clock a.tick < 4611686018427387904)
    (hnear : ∀ t ∈ f, parent ∈ t.nodes → ∀ k ∈ t.nodes,
      Near (a.clock a.tick) (a.pool.nodeAt k).traceStartTime)
    (hforward : ∀ t ∈ f, parent ∈ t.nodes →
      (a.pool.nodeAt (a.pool.lastOrRoot t.root)).traceStartTime ≤ a.clock a.tick) :
    Numbers a' := by
  have hspans : a'.spans = a.spans := by rw [hstarted.rest]
  refine ⟨?_, by rw [hspans]; exact hnum.spans⟩
  intro other hlive
  obtain rfl | hold := (hstarted.live_iff other).1 hlive
  · obtain ⟨n, ⟨-, hnode⟩ | ⟨t, ht, hparent, sequence, hnode⟩⟩ := hstarted.node
    · rw [hnode]
      exact nodeFits_freshRoot _ hnow
    · rw [hnode]
      refine nodeFits_freshChild ?_ hnow (hforward t ht hparent)
        (hnear t ht hparent _ (h.ok t ht).lastOrRoot_mem)
      rintro rfl
      exact hstarted.dead (h.live_of_mem ht (List.mem_cons_self ..))
  · obtain ⟨next, extra, hnode⟩ := hstarted.kept other hold
    have hfits := hnum.pool other hold
    rw [hnode]
    exact ⟨hfits.start, hfits.offset, hfits.stamped, hfits.exception, hfits.events⟩

end Starts

section Ends

variable {a : Agent} {f : Forest} {t : Trace} {root id : Int}

private theorem isRootNode_of_view {b : Agent} (h : b.view = a.view) (id : Int) :
    (b.pool.nodeAt id).isRootNode = (a.pool.nodeAt id).isRootNode := by
  have hshape : (b.pool.nodeAt id).shape = (a.pool.nodeAt id).shape :=
    congrFun (congrArg PoolView.shape h) (id - 1)
  have hid : (b.pool.nodeAt id).id = (a.pool.nodeAt id).id := congrArg Shape.id hshape
  have hrootId : (b.pool.nodeAt id).rootId = (a.pool.nodeAt id).rootId := congrArg Shape.rootId hshape
  rw [TraceNode.isRootNode, hid, hrootId, TraceNode.isRootNode]

/-- The parts of the agent that say which readings a call takes and compares. -/
structure SameClock (a b : Agent) : Prop where
  clock : b.clock = a.clock
  tick : a.tick ≤ b.tick
  start : ∀ id, (b.pool.nodeAt id).traceStartTime = (a.pool.nodeAt id).traceStartTime

private theorem SameClock.trans {b c : Agent} (h : SameClock a b) (h' : SameClock b c) :
    SameClock a c :=
  ⟨h'.clock.trans h.clock, le_trans h.tick h'.tick, fun id => (h'.start id).trans (h.start id)⟩

private theorem start_modifyNode {p : PoolManager} {g : TraceNode → TraceNode}
    (hg : (g (p.nodeAt id)).traceStartTime = (p.nodeAt id).traceStartTime) (other : Int) :
    ((p.modifyNode id g).nodeAt other).traceStartTime = (p.nodeAt other).traceStartTime := by
  by_cases heq : other = id
  · rw [heq, PoolManager.nodeAt_modifyNode_self, hg]
  · rw [PoolManager.nodeAt_modifyNode_of_ne g heq]

private theorem sameClock_endedNode (a : Agent) (id : Int) : SameClock a (a.endedNode id) := by
  refine ⟨rfl, Nat.le_succ _, ?_⟩
  intro other
  simp only [endedNode]
  exact start_modifyNode (TraceNode.endTrace_fields _ _).1 other

private theorem sameClock_forcedEnd (a : Agent) (id : Int) : SameClock a (a.forcedEnd id) := by
  unfold forcedEnd
  split
  · exact sameClock_endedNode a id
  · exact ⟨rfl, le_refl _, fun _ => rfl⟩

private theorem sameClock_appendedEvent (a : Agent) (root id : Int) :
    SameClock a (a.appendedEvent root id) := by
  refine ⟨rfl, le_refl _, ?_⟩
  intro other
  simp only [appendedEvent]
  exact start_modifyNode rfl other

private theorem sameClock_encodedKids (root : Int) (ids : List Int) (a : Agent) :
    SameClock a (a.encodedKids root ids) := by
  induction ids generalizing a with
  | nil => exact ⟨rfl, le_refl _, fun _ => rfl⟩
  | cons id rest ih =>
    exact ((sameClock_forcedEnd a id).trans (sameClock_appendedEvent _ root id)).trans (ih _)

private theorem numbers_endedNode (hnum : Numbers a) (hlive : a.pool.Live id)
    (hnow : a.clock a.tick < 4611686018427387904)
    (hnear : Near (a.clock a.tick) (a.pool.nodeAt id).traceStartTime) :
    Numbers (a.endedNode id) ∧ Stamped ((a.endedNode id).pool.nodeAt id) := by
  refine ⟨⟨hnum.pool.modifyNode fun hl => ((hnum.pool id hl).endTrace hnow hnear).2, hnum.spans⟩, ?_⟩
  rw [endedNode, PoolManager.nodeAt_modifyNode_self]
  exact ((hnum.pool id hlive).endTrace hnow hnear).1

private theorem numbers_forcedEnd (hnum : Numbers a) (hlive : a.pool.Live id)
    (hclose : a.tick < (a.forcedEnd id).tick → a.clock a.tick < 4611686018427387904 ∧
      Near (a.clock a.tick) (a.pool.nodeAt id).traceStartTime) :
    Numbers (a.forcedEnd id) ∧ Stamped ((a.forcedEnd id).pool.nodeAt id) := by
  unfold forcedEnd at hclose ⊢
  split
  · next hrunning =>
    rw [if_pos hrunning] at hclose
    obtain ⟨hnow, hnear⟩ := hclose (Nat.lt_succ_self _)
    exact numbers_endedNode hnum hlive hnow hnear
  · next hended => exact ⟨hnum, (hnum.pool id hlive).stamped hended⟩

private theorem eventFits_of_stamped {n : TraceNode} (h : NodeFits n) (hstamped : Stamped n)
    (hkid : ¬n.isRootNode = true) : EventFits (.obj n.value) := by
  unfold Stamped at hstamped
  rw [if_neg hkid] at hstamped
  exact ⟨hstamped.2, hstamped.1, h.exception⟩

private theorem numbers_appendedEvent (hnum : Numbers a) (hroot : a.pool.Live root)
    (hevent : EventFits (.obj (a.pool.nodeAt id).value)) (hstamped : Stamped (a.pool.nodeAt root)) :
    Numbers (a.appendedEvent root id) ∧ Stamped ((a.appendedEvent root id).pool.nodeAt root) := by
  refine ⟨⟨hnum.pool.modifyNode fun hl => ?_, hnum.spans⟩, ?_⟩
  · have hfits := hnum.pool root hroot
    refine hfits.setValue (Members.get_set_of_ne _ _ (by decide))
      (Members.get_set_of_ne _ _ (by decide)) ?_ ?_
    · rw [ExceptionFits, Members.get_set_of_ne _ _ (by decide)]
      exact hfits.exception
    · rw [Members.get_set_self]
      intro e he
      obtain hold | hnew := List.mem_append.1 he
      · exact hfits.events e hold
      · rw [List.mem_singleton.1 hnew]
        exact hevent
  · rw [appendedEvent, PoolManager.nodeAt_modifyNode_self]
    unfold Stamped at hstamped ⊢
    simp only [Members.get_set_of_ne _ _ (show ":E" ≠ "event" by decide),
      Members.get_set_of_ne _ _ (show ":S" ≠ "event" by decide)]
    exact hstamped

/-- Every reading of the interval between two states of the clock is near the starts of `ids`. -/
def CloseTo (a : Agent) (stop : Nat) (ids : List Int) : Prop :=
  ∀ k, a.tick ≤ k → k < stop → a.clock k < 4611686018427387904 ∧
    ∀ id ∈ ids, Near (a.clock k) (a.pool.nodeAt id).traceStartTime

private theorem CloseTo.later {b : Agent} {stop : Nat} {ids : List Int} (h : CloseTo a stop ids)
    (hsame : SameClock a b) : CloseTo b stop ids := by
  intro k hle hlt
  rw [hsame.clock]
  obtain ⟨hnow, hnear⟩ := h k (le_trans hsame.tick hle) hlt
  refine ⟨hnow, fun id hid => ?_⟩
  rw [hsame.start]
  exact hnear id hid

private theorem CloseTo.mono {stop : Nat} {ids ids' : List Int} (h : CloseTo a stop ids)
    (hsub : ∀ id ∈ ids', id ∈ ids) : CloseTo a stop ids' :=
  fun k hle hlt => ⟨(h k hle hlt).1, fun id hid => (h k hle hlt).2 id (hsub id hid)⟩

private theorem numbers_encodedKids {ids : List Int} (hnum : Numbers a) (hroot : a.pool.Live root)
    (hstamped : Stamped (a.pool.nodeAt root))
    (hkids : ∀ id ∈ ids, a.pool.Live id ∧ id ≠ root ∧ ¬(a.pool.nodeAt id).isRootNode = true)
    (hclose : CloseTo a (a.encodedKids root ids).tick ids) :
    Numbers (a.encodedKids root ids) ∧ Stamped ((a.encodedKids root ids).pool.nodeAt root) := by
  induction ids generalizing a with
  | nil => exact ⟨hnum, hstamped⟩
  | cons id rest ih =>
    obtain ⟨hlive, hne, hkid⟩ := hkids id (List.mem_cons_self ..)
    have hforced := sameClock_forcedEnd a id
    have hview := view_forcedEnd a id
    have hsame := hforced.trans (sameClock_appendedEvent (a.forcedEnd id) root id)
    have hlater := sameClock_encodedKids root rest ((a.forcedEnd id).appendedEvent root id)
    obtain ⟨hnum₁, hstamped₁⟩ := numbers_forcedEnd hnum hlive (fun hlt => by
      obtain ⟨hnow, hnear⟩ := hclose a.tick (le_refl _) (lt_of_lt_of_le hlt hlater.tick)
      exact ⟨hnow, hnear id (List.mem_cons_self ..)⟩)
    have hevent : EventFits (.obj ((a.forcedEnd id).pool.nodeAt id).value) :=
      eventFits_of_stamped (hnum₁.pool id ((live_of_view hview).2 hlive)) hstamped₁
        (by rw [isRootNode_of_view hview]; exact hkid)
    obtain ⟨hnum₂, hstamped₂⟩ := numbers_appendedEvent hnum₁
      ((live_of_view hview).2 hroot) hevent (by rw [nodeAt_forcedEnd_of_ne a hne.symm]; exact hstamped)
    have hview₂ := (view_appendedEvent (a.forcedEnd id) root id).trans hview
    refine ih hnum₂ ((live_of_view hview₂).2 hroot) hstamped₂ ?_
      ((hclose.later hsame).mono fun _ => List.mem_cons_of_mem _)
    intro k hk
    obtain ⟨hl, hn, hr⟩ := hkids k (List.mem_cons_of_mem _ hk)
    exact ⟨(live_of_view hview₂).2 hl, hn, by rw [isRootNode_of_view hview₂]; exact hr⟩

private theorem spanFits_of_stamped {n : TraceNode} (h : NodeFits n) (hstamped : Stamped n)
    (hroot : n.isRootNode = true) : SpanFits n.value := by
  unfold Stamped at hstamped
  rw [if_pos hroot] at hstamped
  exact ⟨hstamped.1, hstamped.2, h.exception, h.events⟩

/-- A span handed over has its numbers in range when every reading taken for it is close to
the starts of its nodes. -/
private theorem numbers_handedOver (h : Holds a.pool f []) (ht : t ∈ f) (hnum : Numbers a)
    (hclose : CloseTo a (a.handedOver t).tick t.nodes) : Numbers (a.handedOver t) := by
  have hok := h.ok t ht
  obtain ⟨_, _, _, hnodup, _⟩ := h.exists_split ht
  have hroot := h.live_of_mem ht (List.mem_cons_self ..)
  have hview := view_endedNode a t.root
  have hkids := sameClock_encodedKids t.root t.kids (a.endedNode t.root)
  have hended := sameClock_endedNode a t.root
  obtain ⟨hnow, hnear⟩ := hclose a.tick (le_refl _) (lt_of_lt_of_le (Nat.lt_succ_self _) hkids.tick)
  obtain ⟨hnum₁, hstamped₁⟩ := numbers_endedNode hnum hroot hnow (hnear _ (List.mem_cons_self ..))
  obtain ⟨hnum₂, hstamped₂⟩ := numbers_encodedKids hnum₁ ((live_of_view hview).2 hroot) hstamped₁
    (fun id hid => by
      have hmem : id ∈ t.nodes := List.mem_cons_of_mem _ hid
      have hne : id ≠ t.root := fun heq => (List.nodup_cons.1 hnodup).1 (heq ▸ hid)
      refine ⟨(live_of_view hview).2 (h.live_of_mem ht hmem), hne, ?_⟩
      rw [isRootNode_of_view hview, hok.isRootNode_iff hmem]
      exact hne.symm)
    ((hclose.later hended).mono fun _ => List.mem_cons_of_mem _)
  have hview₂ := (view_encodedKids t.root t.kids (a.endedNode t.root)).trans hview
  have hisRoot : ((a.endedNode t.root).encodedKids t.root t.kids).pool.nodeAt t.root |>.isRootNode := by
    rw [isRootNode_of_view hview₂]
    exact hok.isRootNode_root
  have hspan := spanFits_of_stamped (hnum₂.pool t.root ((live_of_view hview₂).2 hroot)) hstamped₂ hisRoot
  obtain ⟨skipped, hskipped⟩ := runUserOptionFunc_eq (((a.endedNode t.root).encodedKids t.root t.kids).pool.nodeAt t.root)
  refine ⟨hnum₂.pool.modifyNode fun hl => ?_, ?_⟩
  · rw [hskipped]
    have hfits := hnum₂.pool t.root hl
    exact ⟨hfits.start, hfits.offset, hfits.stamped, hfits.exception, hfits.events⟩
  · intro span hmem
    obtain hold | hnew := List.mem_append.1 hmem
    · exact hnum₂.spans span hold
    · rw [List.mem_singleton.1 hnew, encodedRoot, PoolManager.nodeAt_modifyNode_self,
        hskipped]
      exact hspan

private theorem numbers_deliverRoot (h : Holds a.pool f []) (ht : t ∈ f) (hnum : Numbers a)
    (raises : Bool) (hclose : CloseTo a (finalState (deliverRoot t.root raises) a).tick t.nodes) :
    Numbers (finalState (deliverRoot t.root raises) a) := by
  have hdeliver := deliverRoot_eq h ht raises
  by_cases hpass : (a.pool.rootExtra t.root).status = tracePass
  swap
  · rw [if_pos hpass] at hdeliver
    rw [finalState_of_ok hdeliver]
    exact hnum
  rw [if_neg (not_not.2 hpass)] at hdeliver
  by_cases hcond : t.kids = [] ∨ a.EventAppendable t.root
  · rw [if_pos hcond] at hdeliver
    have hfinal : finalState (deliverRoot t.root raises) a = a.handedOver t := by
      cases raises with
      | false => exact finalState_of_ok hdeliver
      | true => exact finalState_of_error hdeliver
    rw [hfinal] at hclose ⊢
    exact numbers_handedOver h ht hnum hclose
  · rw [if_neg hcond] at hdeliver
    rw [finalState_of_error hdeliver] at hclose ⊢
    have hview := view_endedNode a t.root
    have hended := sameClock_endedNode a t.root
    have hforced := sameClock_forcedEnd (a.endedNode t.root) (a.pool.nodeAt t.root).next
    obtain ⟨hnow, hnear⟩ := hclose a.tick (le_refl _)
      (lt_of_lt_of_le (Nat.lt_succ_self _) hforced.tick)
    have hnum₁ := (numbers_endedNode hnum (h.live_of_mem ht (List.mem_cons_self ..)) hnow
      (hnear _ (List.mem_cons_self ..))).1
    have hmem : (a.pool.nodeAt t.root).next ∈ t.nodes := by
      obtain ⟨k, rest, hkids⟩ := List.exists_cons_of_ne_nil fun hnil => hcond (.inl hnil)
      have hchain := (h.ok t ht).chain
      rw [hkids] at hchain
      rw [hchain.1, Trace.nodes, hkids]
      exact List.mem_cons_of_mem _ (List.mem_cons_self ..)
    refine (numbers_forcedEnd hnum₁ ((live_of_view hview).2 (h.live_of_mem ht hmem)) fun hlt => ?_).1
    obtain ⟨hnow', hnear'⟩ := (hclose.later hended) _ (le_refl _) hlt
    exact ⟨hnow', hnear' _ hmem⟩

private theorem numbers_endTrace (h : Holds a.pool f []) (hnum : Numbers a) (raises : Bool)
    (hclose : ∀ t ∈ f, id ∈ t.nodes →
      CloseTo a (finalState (endTrace id raises) a).tick t.nodes) :
    Numbers (finalState (endTrace id raises) a) := by
  by_cases hlive : a.pool.Live id
  swap
  · obtain ⟨e, he, _⟩ := referNode_of_dead hlive
    have hstep : endTrace id raises a = .error e a := bind_of_error _ he
    rw [finalState_of_error hstep]
    exact hnum
  obtain ⟨t, ht, hmem⟩ := h.exists_trace hlive
  have hclose := hclose t ht hmem
  by_cases hroot : t.root = id
  · subst hroot
    have hspec := endTrace_root h ht raises
    split at hspec
    · obtain ⟨b, q, hdeliver, hview, hend, hholds, _, hnodes, _⟩ := hspec
      rw [finalState_of_ok hend] at hclose ⊢
      have hb := numbers_deliverRoot h ht hnum raises (by rwa [finalState_of_ok hdeliver])
      rw [finalState_of_ok hdeliver] at hb
      refine ⟨fun other hother => ?_, hb.spans⟩
      have hold : b.pool.Live other := by
        rw [live_of_view hview]
        exact h.live_of_finish hholds hother
      have hnode : q.nodeAt other = b.pool.nodeAt other := congrFun hnodes (other - 1)
      rw [hnode]
      exact hb.pool other hold
    · obtain ⟨e, b, hdeliver, _, hend, _⟩ := hspec
      rw [finalState_of_error hend] at hclose ⊢
      have hb := numbers_deliverRoot h ht hnum raises (by rwa [finalState_of_error hdeliver])
      rwa [finalState_of_error hdeliver] at hb
  · have hkid : ¬(a.pool.nodeAt id).isRootNode = true := fun hisRoot =>
      hroot (((h.ok t ht).isRootNode_iff hmem).1 hisRoot)
    rw [finalState_of_ok (endTrace_child hlive hkid raises)] at hclose ⊢
    obtain ⟨hnow, hnear⟩ := hclose a.tick (le_refl _) (Nat.lt_succ_self _)
    exact (numbers_endedNode hnum hlive hnow (hnear id hmem)).1

end Ends

def ApiCall.node : ApiCall → Int
  | .startTrace parentId _ => parentId
  | .endTrace id _ | .addClue id _ _ _ | .addClues id _ _ _ | .addException id _
  | .catchError id _ _ _ | .setContextKey id _ _ | .setAsyncCtx id _ _ | .changeTraceStatus id _ => id

namespace World

def readings (w : World) (call : ApiCall) : List Nat :=
  (List.range ((w.agent.after call).tick - w.agent.tick)).map fun k => w.agent.clock (w.agent.tick + k)

/-- The readings of the call are below `2 ^ 62` and less than `2 ^ 31` away from the readings
at which the nodes of its trace were started. -/
def Close (w : World) (call : ApiCall) : Prop :=
  ∀ now ∈ w.readings call, now < 4611686018427387904 ∧
    ∀ t ∈ w.forest, call.node ∈ t.nodes → ∀ id ∈ t.nodes,
      Near now (w.agent.pool.nodeAt id).traceStartTime

/-- The clock has not gone back since the reading from which the call takes an unsigned
offset: the start of the node before a new one, the root's start for an exception. -/
def Forward (w : World) : ApiCall → Prop
  | .startTrace parentId _ => ∀ t ∈ w.forest, parentId ∈ t.nodes →
    (w.agent.pool.nodeAt (w.agent.pool.lastOrRoot t.root)).traceStartTime ≤ w.agent.clock w.agent.tick
  | .addException id _ => ∀ t ∈ w.forest, id ∈ t.nodes →
    (w.agent.pool.nodeAt t.root).traceStartTime ≤ w.agent.clock w.agent.tick
  | _ => True

instance decidableClose (w : World) (call : ApiCall) : Decidable (w.Close call) :=
  inferInstanceAs (Decidable (∀ now ∈ w.readings call, _ ∧ ∀ t ∈ w.forest, _))

instance decidableForward (w : World) (call : ApiCall) : Decidable (w.Forward call) :=
  match call with
  | .startTrace _ _ => inferInstanceAs (Decidable (∀ t ∈ w.forest, _))
  | .addException _ _ => inferInstanceAs (Decidable (∀ t ∈ w.forest, _))
  | .endTrace .. | .addClue .. | .addClues .. | .catchError .. | .setContextKey .. | .setAsyncCtx ..
  | .changeTraceStatus .. => isTrue trivial

private theorem mem_readings {w : World} {call : ApiCall} {k : Nat} (hle : w.agent.tick ≤ k)
    (hlt : k < (w.agent.after call).tick) : w.agent.clock k ∈ w.readings call := by
  refine List.mem_map.2 ⟨k - w.agent.tick, List.mem_range.2 (by omega), ?_⟩
  rw [Nat.add_sub_cancel' hle]

private theorem numbers_startTrace {w : World} (h : w.Ok) (hnum : Numbers w.agent) (parentId : Int)
    (opts : List String) (hclose : w.Close (.startTrace parentId opts))
    (hforward : w.Forward (.startTrace parentId opts)) :
    Numbers (w.agent.after (.startTrace parentId opts)) := by
  obtain ⟨id, a', hstart, hstarted⟩ | ⟨e, hstart, _⟩ := startNode_spec h.holds parentId
  · have hafter := after_startTrace opts hstart
    rw [finalState_setNodeUserOption] at hafter
    have htick : w.agent.tick < (w.agent.after (.startTrace parentId opts)).tick := by
      rw [hafter, hstarted.rest]
      exact Nat.lt_succ_self _
    obtain ⟨hnow, hnear⟩ := hclose _ (mem_readings (le_refl _) htick)
    have hnum' := numbers_started h.holds hstarted hnum hnow hnear hforward
    obtain ⟨options, hoptions⟩ := setNodeUserOption_eq (a'.pool.nodeAt id)
      (if parentId = rootNode then [] else opts)
    rw [hafter, hoptions]
    refine ⟨hnum'.pool.modifyNode fun hl => ?_, hnum'.spans⟩
    have hfits := hnum'.pool id hl
    exact ⟨hfits.start, hfits.offset, hfits.stamped, hfits.exception, hfits.events⟩
  · rw [after_startTrace_of_error opts hstart]
    exact hnum

private theorem numbers_step {w : World} (h : w.Ok) (hnum : Numbers w.agent) {call : ApiCall}
    (hclose : w.Close call) (hforward : w.Forward call) : Numbers (w.step call).agent := by
  cases call with
  | startTrace parentId opts => exact numbers_startTrace h hnum parentId opts hclose hforward
  | endTrace id raises =>
    refine numbers_endTrace h.holds hnum raises fun t ht hmem k hle hlt => ?_
    obtain ⟨hnow, hnear⟩ := hclose _ (mem_readings hle hlt)
    exact ⟨hnow, hnear t ht hmem⟩
  | addException id exception =>
    refine numbers_annotateExceptionTrace h.holds hnum exception (fun hlt => ?_) hforward
    exact (hclose _ (mem_readings (le_refl _) hlt)).1
  | addClue id key value flag => exact keeps_annotateTraceV1 id key value flag w.agent hnum
  | addClues id key value flag => exact keeps_annotateTraceV2 id key value flag w.agent hnum
  | catchError id msg file line => exact keeps_annotateErrorTrace id msg file line w.agent hnum
  | setContextKey id key value => exact keeps_addTraceContext id key value w.agent hnum
  | setAsyncCtx id asyncNodeId nodeSequence =>
    exact keeps_setAsyncContext id asyncNodeId nodeSequence w.agent hnum
  | changeTraceStatus id status => exact keeps_changeTraceStatus id status w.agent hnum

private theorem numbers_run {w : World} (h : w.Ok) (hnum : Numbers w.agent) {calls : List ApiCall}
    (hclose : w.Along Close calls) (hforward : w.Along Forward calls) : Numbers (w.run calls).agent := by
  induction calls generalizing w with
  | nil => exact hnum
  | cons call calls ih =>
    exact ih (h.step call) (numbers_step h hnum hclose.1 hforward.1) hclose.2 hforward.2

end World

private theorem numbers_new (agentType : Int) (clock : Nat → Nat) : Numbers (Agent.new agentType clock) := by
  refine ⟨fun id hlive => ?_, by simp [Agent.new]⟩
  have := (Holds.new.live_iff id).1 hlive
  simp at this

/-- In every run in which no unsigned offset is taken from a reading the clock went back
behind, every span handed to `TrySendSpan` has numbers the collector's types accept. -/
theorem span_numbers_fit (agentType : Int) (clock : Nat → Nat) (calls : List ApiCall)
    (hclose : (World.new agentType clock).Along World.Close calls)
    (hforward : (World.new agentType clock).Along World.Forward calls) :
    ∀ span ∈ ((World.new agentType clock).run calls).agent.spans, SpanFits span :=
  (World.numbers_run (World.ok_new agentType clock) (numbers_new agentType clock) hclose hforward).spans

def forcedChild : List ApiCall :=
  [.startTrace 0 [], .startTrace 128 [], .endTrace 127 false, .startTrace 128 [],
    .addException 126 "e", .endTrace 128 false]

theorem span_numbers_fit_forced_child :
    let w := World.new 1500 (· + 1000)
    w.Along World.Close forcedChild ∧ w.Along World.Forward forcedChild ∧
      ∀ span ∈ (w.run forcedChild).agent.spans, SpanFits span := by
  have hclose : (World.new 1500 (· + 1000)).Along World.Close forcedChild := by decide +kernel
  have hforward : (World.new 1500 (· + 1000)).Along World.Forward forcedChild := by decide +kernel
  exact ⟨hclose, hforward, span_numbers_fit 1500 (· + 1000) forcedChild hclose hforward⟩

/-- A clock set back by a millisecond between the start of a root and of its child. -/
def steppedBack (k : Nat) : Nat := if k = 1 then 999 else 1000

/-- The child's offset wraps to `2 ^ 64 - 1`, which is no `int32`. -/
theorem stepped_back_clock_wraps :
    let w := World.new 1500 steppedBack
    let calls : List ApiCall := [.startTrace 0 [], .startTrace 128 [], .endTrace 128 false]
    w.Along World.Close calls ∧ ¬∀ span ∈ (w.run calls).agent.spans, SpanFits span := by
  decide +kernel

end PinpointAgent.Agent
