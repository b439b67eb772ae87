import PinpointAgent.Agent.Forest
import PinpointAgent.Framework.Lockstep
/-!
# Agents that hold the same trace

Two agents may have served different requests before, so the pool of each hands out other
numbers and recycles other nodes. `Alike` relates two agents that hold one trace each: the traces
have the same length, and the nodes at the same place agree in everything but their identifiers,
links and stale marks. Every call on a node of the trace keeps two such agents alike and ends the
same way in both.
-/

namespace PinpointAgent.NodePool

/-- What a call can learn from a node beside the identifiers: `skipped_` is written and never
read, and the links are those of the trace. -/
structure Content where
  depth : Int
  sequence : Int
  traceStartTime : Nat
  preTraceTime : Nat
  expiredTime : Int
  setExp : Bool
  /-- The status of a root. -/
  status : Option Int
  value : Members
  contextMap : List (String × String)
  userOptionalSetting : List UserOption

def TraceNode.content (n : TraceNode) : Content :=
  ⟨n.depth, n.sequence, n.traceStartTime, n.preTraceTime, n.expiredTime, n.setExp,
    n.rootNodeExtra.map (·.status), n.value, n.contextMap, n.userOptionalSetting⟩

namespace TraceNode

variable {m n : TraceNode}

private theorem isNone_of_content (h : m.content = n.content) :
    m.rootNodeExtra.isNone = n.rootNodeExtra.isNone := by
  have hstatus := congrArg (fun c => c.status.isNone) h
  simpa [content] using hstatus

theorem content_stamp (n : TraceNode) (expired : Int) (members : Members) :
    { n with expiredTime := expired, value := members }.content =
      { n.content with expiredTime := expired, value := members } := rfl

private theorem content_endTrace (h : m.content = n.content) (now : Nat) :
    (m.endTrace now).content = (n.endTrace now).content := by
  have hextra := isNone_of_content h
  have hfields := h
  simp only [content, Content.mk.injEq] at hfields
  obtain ⟨hdepth, hsequence, hstart, hpre, -, hexp, -, hvalue, -⟩ := hfields
  have helapsed : m.elapsed now = n.elapsed now := by
    unfold elapsed
    rw [hstart]
  have hoffset : m.startOffset = n.startOffset := by
    unfold startOffset
    rw [hstart, hpre]
  have hmembers : m.endMembers now = n.endMembers now := by
    unfold endMembers
    rw [hvalue, helapsed, hoffset, hexp, hextra, hsequence, hdepth]
  calc (m.endTrace now).content
      = { m.content with expiredTime := m.elapsed now, value := m.endMembers now } :=
        m.content_stamp (m.elapsed now) (m.endMembers now)
    _ = { n.content with expiredTime := n.elapsed now, value := n.endMembers now } := by
        rw [h, helapsed, hmembers]
    _ = (n.endTrace now).content := (n.content_stamp (n.elapsed now) (n.endMembers now)).symm

private theorem content_addAnnotationMember (h : m.content = n.content) (key : String) (v : Json) :
    (m.addAnnotationMember key v).content = (n.addAnnotationMember key v).content := by
  simp_all [content, addAnnotationMember]

private theorem content_runUserOptionFunc (n : TraceNode) : n.runUserOptionFunc.content = n.content := by
  obtain ⟨skipped, hskipped⟩ := Agent.runUserOptionFunc_eq n
  rw [hskipped]
  rfl

private theorem content_addUserOption (h : m.content = n.content) (opt : String) :
    (m.addUserOption opt).map content = (n.addUserOption opt).map content := by
  have hadd (option : UserOption) :
      { m with userOptionalSetting := m.userOptionalSetting ++ [option] }.content =
        { n with userOptionalSetting := n.userOptionalSetting ++ [option] }.content := by
    simp_all [content]
  unfold addUserOption parseUserOption
  split
  · rw [Option.map_map, Option.map_map]
    congr 1
    funext min
    exact hadd (.traceMinTimeMs min)
  · split
    · exact congrArg some (hadd .traceOnlyException)
    · exact congrArg some h

private theorem content_setNodeUserOption (h : m.content = n.content) (opts : List String) :
    (m.setNodeUserOption opts).1.content = (n.setNodeUserOption opts).1.content ∧
      (m.setNodeUserOption opts).2 = (n.setNodeUserOption opts).2 := by
  induction opts generalizing m n with
  | nil => exact ⟨h, rfl⟩
  | cons opt rest ih =>
    have hopt := content_addUserOption h opt
    unfold setNodeUserOption
    cases hm : m.addUserOption opt with
    | none =>
      have hn : n.addUserOption opt = none := by simpa [hm] using hopt.symm
      rw [hn]
      exact ⟨h, rfl⟩
    | some m' =>
      rw [hm, Option.map_some] at hopt
      obtain ⟨n', hn, hcontent⟩ := Option.map_eq_some_iff.1 hopt.symm
      rw [hn]
      exact ih hcontent.symm

end TraceNode

end PinpointAgent.NodePool

namespace PinpointAgent.Agent

open Framework NodePool

/-- Agents that read the same times from now on and have handed over the same spans since the
spans `sa` and `sb`. -/
structure Peers (sa sb : List Members) (a b : Agent) : Prop where
  agentType : a.agentType = b.agentType
  clock : ∀ k, a.clock (a.tick + k) = b.clock (b.tick + k)
  spans : ∃ new, a.spans = sa ++ new ∧ b.spans = sb ++ new

def Paired (ta tb : Trace) (i j : Int) : Prop := (i, j) ∈ ta.nodes.zip tb.nodes

structure Alike (ta tb : Trace) (sa sb : List Members) (a b : Agent) : Prop where
  left : Holds a.pool [ta] []
  right : Holds b.pool [tb] []
  length : ta.kids.length = tb.kids.length
  nodes : ∀ i j, Paired ta tb i j → (a.pool.nodeAt i).content = (b.pool.nodeAt j).content
  peers : Peers sa sb a b

section Paired

variable {ta tb : Trace} {i j i' j' : Int}

theorem paired_root : Paired ta tb ta.root tb.root := List.mem_cons_self ..

private theorem Paired.mem (h : Paired ta tb i j) : i ∈ ta.nodes ∧ j ∈ tb.nodes :=
  ⟨(List.of_mem_zip h).1, (List.of_mem_zip h).2⟩

private theorem paired_iff : Paired ta tb i j ↔ ∃ k : Nat, ta.nodes[k]? = some i ∧ tb.nodes[k]? = some j := by
  rw [Paired, List.mem_iff_getElem?]
  simp only [List.getElem?_zip_eq_some]

theorem Paired.eq_iff (hta : ta.nodes.Nodup) (htb : tb.nodes.Nodup) (h : Paired ta tb i j)
    (h' : Paired ta tb i' j') : i' = i ↔ j' = j := by
  obtain ⟨k, hi, hj⟩ := paired_iff.1 h
  obtain ⟨k', hi', hj'⟩ := paired_iff.1 h'
  constructor
  · rintro rfl
    have hk : k' = k := (List.getElem?_inj (List.getElem?_eq_some_iff.1 hi').1 hta).1 (hi'.trans hi.symm)
    rw [hk, hj] at hj'
    exact (Option.some.inj hj').symm
  · rintro rfl
    have hk : k' = k := (List.getElem?_inj (List.getElem?_eq_some_iff.1 hj').1 htb).1 (hj'.trans hj.symm)
    rw [hk, hi] at hi'
    exact (Option.some.inj hi').symm

end Paired

namespace Alike

variable {ta tb : Trace} {sa sb : List Members} {a b : Agent} {i j : Int}

theorem nodup (h : Alike ta tb sa sb a b) : ta.nodes.Nodup ∧ tb.nodes.Nodup := by
  obtain ⟨-, -, -, hta, -⟩ := h.left.exists_split (List.mem_singleton_self ta)
  obtain ⟨-, -, -, htb, -⟩ := h.right.exists_split (List.mem_singleton_self tb)
  exact ⟨hta, htb⟩

theorem referred (h : Alike ta tb sa sb a b) (hp : Paired ta tb i j) :
    (a.pool.Live i ∧ (a.pool.nodeAt i).id = i ∧ (a.pool.nodeAt i).rootId = ta.root) ∧
      b.pool.Live j ∧ (b.pool.nodeAt j).id = j ∧ (b.pool.nodeAt j).rootId = tb.root := by
  obtain ⟨hi, hj⟩ := hp.mem
  have hta := List.mem_singleton_self ta
  have htb := List.mem_singleton_self tb
  exact ⟨⟨h.left.live_of_mem hta hi, (h.left.ok ta hta).node_ids hi⟩,
    h.right.live_of_mem htb hj, (h.right.ok tb htb).node_ids hj⟩

private theorem modify (h : Alike ta tb sa sb a b) (hp : Paired ta tb i j) {f g : TraceNode → TraceNode}
    (hf : (f (a.pool.nodeAt i)).shape = (a.pool.nodeAt i).shape)
    (hg : (g (b.pool.nodeAt j)).shape = (b.pool.nodeAt j).shape)
    (hcontent : (f (a.pool.nodeAt i)).content = (g (b.pool.nodeAt j)).content) :
    Alike ta tb sa sb { a with pool := a.pool.modifyNode i f }
      { b with pool := b.pool.modifyNode j g } := by
  refine ⟨h.left.congr (PoolManager.view_modifyNode hf), h.right.congr (PoolManager.view_modifyNode hg),
    h.length, ?_, h.peers.agentType, h.peers.clock, h.peers.spans⟩
  intro i' j' hp'
  have heq := hp.eq_iff h.nodup.1 h.nodup.2 hp'
  by_cases hi : i' = i
  · have hj := heq.1 hi
    rw [hi, hj, PoolManager.nodeAt_modifyNode_self, PoolManager.nodeAt_modifyNode_self]
    exact hcontent
  · have hj : j' ≠ j := fun hj => hi (heq.2 hj)
    rw [PoolManager.nodeAt_modifyNode_of_ne _ hi, PoolManager.nodeAt_modifyNode_of_ne _ hj]
    exact h.nodes i' j' hp'

private theorem now (h : Alike ta tb sa sb a b) : a.clock a.tick = b.clock b.tick := h.peers.clock 0

private theorem read (h : Alike ta tb sa sb a b) :
    Alike ta tb sa sb { a with tick := a.tick + 1 } { b with tick := b.tick + 1 } := by
  refine ⟨h.left, h.right, h.length, h.nodes, h.peers.agentType, ?_, h.peers.spans⟩
  intro k
  rw [Nat.add_assoc, Nat.add_assoc]
  exact h.peers.clock (1 + k)

end Alike

section Lockstep

variable {ta tb : Trace} {sa sb : List Members} {i j : Int}

private theorem lockstep_getUnixTimeMs : Lockstep (Alike ta tb sa sb) Eq getUnixTimeMs getUnixTimeMs :=
  fun _ _ h => .inl ⟨_, _, _, _, rfl, rfl, h.now, h.read⟩

private theorem lockstep_referNode (hp : Paired ta tb i j) :
    Lockstep (Alike ta tb sa sb) (fun m n => m.content = n.content ∧ m.rootId = ta.root ∧
      n.rootId = tb.root) (referNode i) (referNode j) := by
  intro a b h
  obtain ⟨⟨hi, -, hir⟩, hj, -, hjr⟩ := h.referred hp
  exact .inl ⟨_, _, _, _, referNode_of_live hi, referNode_of_live hj, ⟨h.nodes i j hp, hir, hjr⟩, h⟩

private theorem lockstep_getWrapperTraceNode (hp : Paired ta tb i j) (flag : Int) :
    Lockstep (Alike ta tb sa sb) (Paired ta tb) (getWrapperTraceNode i flag)
      (getWrapperTraceNode j flag) := by
  refine (lockstep_referNode hp).bind ?_
  rintro m n ⟨-, hm, hn⟩
  rw [hm, hn]
  split
  · exact (lockstep_referNode paired_root).bind fun _ _ _ => .pure paired_root
  · exact .pure hp

private theorem lockstep_modifyNode (hp : Paired ta tb i j) {f g : TraceNode → TraceNode}
    (hf : ∀ n, (f n).shape = n.shape) (hg : ∀ n, (g n).shape = n.shape)
    (hcontent : ∀ m n, m.content = n.content → (f m).content = (g n).content) :
    Lockstep (Alike ta tb sa sb) Eq (modifyNode i f) (modifyNode j g) :=
  .modify fun _ _ h => h.modify hp (hf _) (hg _) (hcontent _ _ (h.nodes i j hp))

private theorem lockstep_notInternalKey (key : String) :
    Lockstep (Alike ta tb sa sb) Eq (notInternalKey key) (notInternalKey key) := by
  unfold notInternalKey
  split
  · exact .throw _
  · exact .pure rfl

private theorem lockstep_appendAnnotationMember (hp : Paired ta tb i j) (key : String) (v : Json) :
    Lockstep (Alike ta tb sa sb) Eq (appendAnnotationMember i key v)
      (appendAnnotationMember j key v) := by
  intro a b h
  have hcontent := h.nodes i j hp
  have hvalue : (a.pool.nodeAt i).value = (b.pool.nodeAt j).value := congrArg Content.value hcontent
  cases hval : (b.pool.nodeAt j).value.append key v with
  | none =>
    refine .inr ⟨.notAppendable, a, b, ?_, ?_, h⟩
    · simp only [appendAnnotationMember, hvalue, hval]
    · simp only [appendAnnotationMember, hval]
  | some members =>
    refine .inl ⟨(), (), _, _, ?_, ?_, rfl, h.modify hp (f := fun n => { n with value := members })
      (g := fun n => { n with value := members }) rfl rfl ?_⟩
    · simp only [appendAnnotationMember, hvalue, hval]
    · simp only [appendAnnotationMember, hval]
    · simp_all [TraceNode.content]

private theorem lockstep_endTraceNode (hp : Paired ta tb i j) :
    Lockstep (Alike ta tb sa sb) Eq (endTraceNode i) (endTraceNode j) := by
  refine lockstep_getUnixTimeMs.bind ?_
  rintro now _ rfl
  exact lockstep_modifyNode hp (fun n => n.shape_endTrace now) (fun n => n.shape_endTrace now)
    fun _ _ h => TraceNode.content_endTrace h now

private theorem lockstep_annotate (hp : Paired ta tb i j) (key : String) (v : Json) :
    Lockstep (Alike ta tb sa sb) Eq (modifyNode i (·.addAnnotationMember key v))
      (modifyNode j (·.addAnnotationMember key v)) :=
  lockstep_modifyNode hp (fun _ => rfl) (fun _ => rfl)
    fun _ _ h => TraceNode.content_addAnnotationMember h key v

theorem lockstep_annotateTraceV1 (hp : Paired ta tb i j) (key value : String) (flag : Int) :
    Lockstep (Alike ta tb sa sb) Eq (annotateTraceV1 i key value flag)
      (annotateTraceV1 j key value flag) := by
  refine (lockstep_notInternalKey key).bind fun _ _ _ => ?_
  refine (lockstep_getWrapperTraceNode hp flag).bind fun _ _ hnode => ?_
  exact lockstep_annotate hnode key _

theorem lockstep_annotateTraceV2 (hp : Paired ta tb i j) (key value : String) (flag : Int) :
    Lockstep (Alike ta tb sa sb) Eq (annotateTraceV2 i key value flag)
      (annotateTraceV2 j key value flag) := by
  refine (lockstep_notInternalKey key).bind fun _ _ _ => ?_
  refine (lockstep_getWrapperTraceNode hp flag).bind fun _ _ hnode => ?_
  exact lockstep_appendAnnotationMember hnode "anno" _

theorem lockstep_annotateErrorTrace (hp : Paired ta tb i j) (msg file : String) (line : Nat) :
    Lockstep (Alike ta tb sa sb) Eq (annotateErrorTrace i msg file line)
      (annotateErrorTrace j msg file line) := by
  refine (lockstep_getWrapperTraceNode hp 1).bind fun _ _ hnode => ?_
  exact lockstep_annotate hnode "ERR" _

theorem lockstep_setAsyncContext (hp : Paired ta tb i j) (asyncNodeId nodeSequence : Int) :
    Lockstep (Alike ta tb sa sb) Eq (setAsyncContext i asyncNodeId nodeSequence)
      (setAsyncContext j asyncNodeId nodeSequence) := by
  refine (lockstep_getWrapperTraceNode hp 1).bind fun _ _ hnode => ?_
  exact lockstep_annotate hnode "asy" _

theorem lockstep_addTraceContext (hp : Paired ta tb i j) (key value : String) :
    Lockstep (Alike ta tb sa sb) Eq (addTraceContext i key value) (addTraceContext j key value) := by
  refine (lockstep_getWrapperTraceNode hp 1).bind fun _ _ hnode => ?_
  refine lockstep_modifyNode hnode (fun _ => rfl) (fun _ => rfl) fun m n h => ?_
  simp_all [TraceNode.content]

theorem lockstep_annotateExceptionTrace (hp : Paired ta tb i j) (exception : String) :
    Lockstep (Alike ta tb sa sb) Eq (annotateExceptionTrace i exception)
      (annotateExceptionTrace j exception) := by
  have hmark {i j : Int} (hp : Paired ta tb i j) : Lockstep (Alike ta tb sa sb) Eq
      (modifyNode i ({ · with setExp := true })) (modifyNode j ({ · with setExp := true })) := by
    refine lockstep_modifyNode hp (fun _ => rfl) (fun _ => rfl) fun m n h => ?_
    simp_all [TraceNode.content]
  refine (lockstep_getWrapperTraceNode hp 0).bind fun _ _ hnode => ?_
  refine (hmark hnode).bind fun _ _ _ => ?_
  refine (lockstep_getWrapperTraceNode hp 1).bind fun _ _ hroot => ?_
  refine (hmark hroot).bind fun _ _ _ => ?_
  refine lockstep_getUnixTimeMs.bind ?_
  rintro now _ rfl
  refine Lockstep.get.bind fun a b h => ?_
  have hstart := congrArg Content.traceStartTime (h.nodes _ _ hroot)
  simp only [TraceNode.content] at hstart
  rw [hstart]
  exact lockstep_annotate hnode "EXP_V2" _

theorem lockstep_getDepth (hp : Paired ta tb i j) :
    Lockstep (Alike ta tb sa sb) Eq (getDepth i) (getDepth j) :=
  (lockstep_referNode hp).bind fun _ _ h => .pure (congrArg Content.depth h.1)

theorem lockstep_getSequenceId (hp : Paired ta tb i j) :
    Lockstep (Alike ta tb sa sb) Eq (getSequenceId i) (getSequenceId j) := by
  refine (lockstep_getWrapperTraceNode hp 0).bind fun _ _ hnode => ?_
  refine Lockstep.get.bind fun a b h => ?_
  exact .pure (congrArg Content.sequence (h.nodes _ _ hnode))

theorem lockstep_getTraceContext (hp : Paired ta tb i j) (key : String) (hasBuf : Bool)
    (bufSize : Int) : Lockstep (Alike ta tb sa sb) Eq (getTraceContext i key hasBuf bufSize)
      (getTraceContext j key hasBuf bufSize) := by
  refine (lockstep_getWrapperTraceNode hp 1).bind fun _ _ hroot => ?_
  refine Lockstep.get.bind fun a b h => ?_
  have hcontext := congrArg Content.contextMap (h.nodes _ _ hroot)
  simp only [TraceNode.content] at hcontext
  rw [hcontext]
  split
  · exact .throw _
  · dsimp only
    split
    · exact .pure rfl
    · exact .pure rfl

theorem lockstep_isRootTrace (hp : Paired ta tb i j) :
    Lockstep (Alike ta tb sa sb) Eq (isRootTrace i) (isRootTrace j) := by
  intro a b h
  obtain ⟨⟨hi, hid, hir⟩, hj, hjd, hjr⟩ := h.referred hp
  have heq := paired_root.eq_iff h.nodup.1 h.nodup.2 hp
  refine .inl ⟨_, _, _, _, bind_of_ok _ (referNode_of_live hi), bind_of_ok _ (referNode_of_live hj), ?_, h⟩
  simp only [TraceNode.isRootNode, hid, hir, hjd, hjr, Bool.beq_eq_decide_eq, decide_eq_decide]
  exact ⟨fun hroot => (heq.1 hroot.symm).symm, fun hroot => (heq.2 hroot.symm).symm⟩

theorem lockstep_changeTraceStatus (hp : Paired ta tb i j) (status : Int) :
    Lockstep (Alike ta tb sa sb) Eq (changeTraceStatus i status) (changeTraceStatus j status) := by
  intro a b h
  obtain ⟨⟨hi, -, hir⟩, hj, -, hjr⟩ := h.referred hp
  obtain ⟨⟨hra, -⟩, hrb, -⟩ := h.referred paired_root
  have hstepa := changeTraceStatus_eq hi (hir ▸ hra) status
  have hstepb := changeTraceStatus_eq hj (hjr ▸ hrb) status
  rw [hir] at hstepa
  rw [hjr] at hstepb
  obtain ⟨ea, hea, -⟩ := (h.left.ok ta (List.mem_singleton_self ta)).rootNodeExtra_eq
  obtain ⟨eb, heb, -⟩ := (h.right.ok tb (List.mem_singleton_self tb)).rootNodeExtra_eq
  have hcontent := h.nodes _ _ paired_root
  have hstatus : ea.status = eb.status := by
    have := congrArg Content.status hcontent
    simpa [TraceNode.content, hea, heb] using this
  refine .inl ⟨_, _, _, _, hstepa, hstepb, ?_, h.modify paired_root ?_ ?_ ?_⟩
  · simp [PoolManager.rootExtra, hea, heb, hstatus]
  · simp [TraceNode.shape, PoolManager.rootExtra, hea]
  · simp [TraceNode.shape, PoolManager.rootExtra, heb]
  · simp_all [TraceNode.content]

end Lockstep

section Ends

variable {ta tb : Trace} {sa sb : List Members} {a b : Agent} {i j : Int}

namespace Alike

private theorem endedNode (h : Alike ta tb sa sb a b) (hp : Paired ta tb i j) :
    Alike ta tb sa sb (a.endedNode i) (b.endedNode j) :=
  (lockstep_endTraceNode hp).finalState h

private theorem forcedEnd (h : Alike ta tb sa sb a b) (hp : Paired ta tb i j) :
    Alike ta tb sa sb (a.forcedEnd i) (b.forcedEnd j) := by
  have hexpired : (a.pool.nodeAt i).expiredTime = (b.pool.nodeAt j).expiredTime :=
    congrArg Content.expiredTime (h.nodes i j hp)
  unfold Agent.forcedEnd
  rw [hexpired]
  split
  · exact h.endedNode hp
  · exact h

private theorem appendedEvent (h : Alike ta tb sa sb a b) (hp : Paired ta tb i j) :
    Alike ta tb sa sb (a.appendedEvent ta.root i) (b.appendedEvent tb.root j) := by
  have hevent : (a.pool.nodeAt i).value = (b.pool.nodeAt j).value :=
    congrArg Content.value (h.nodes i j hp)
  have hcontent := h.nodes _ _ paired_root
  refine h.modify paired_root rfl rfl ?_
  simp_all [TraceNode.content]

private theorem paired_next (h : Alike ta tb sa sb a b) (hkids : tb.kids ≠ []) :
    Paired ta tb (a.pool.nodeAt ta.root).next (b.pool.nodeAt tb.root).next := by
  have hnexta : (a.pool.nodeAt ta.root).next = ta.kids.headD invalidNode :=
    congrArg Shape.next (h.left.ok ta (List.mem_singleton_self ta)).root
  have hnextb : (b.pool.nodeAt tb.root).next = tb.kids.headD invalidNode :=
    congrArg Shape.next (h.right.ok tb (List.mem_singleton_self tb)).root
  rw [hnexta, hnextb]
  have hlen := h.length
  obtain ⟨ra, la⟩ := ta
  obtain ⟨rb, lb⟩ := tb
  cases lb with
  | nil => exact absurd rfl hkids
  | cons j lb =>
    cases la with
    | nil => cases hlen
    | cons i la => exact List.mem_cons_of_mem _ (List.mem_cons_self ..)

private theorem encodedKids {la lb : List Int} (h : Alike ta tb sa sb a b) (hlen : la.length = lb.length)
    (hp : ∀ i j, (i, j) ∈ la.zip lb → Paired ta tb i j) :
    Alike ta tb sa sb (a.encodedKids ta.root la) (b.encodedKids tb.root lb) := by
  induction la generalizing lb a b with
  | nil =>
    cases lb with
    | nil => exact h
    | cons j lb => cases hlen
  | cons i la ih =>
    cases lb with
    | nil => cases hlen
    | cons j lb =>
      have hij := hp i j (List.mem_cons_self ..)
      rw [Agent.encodedKids, Agent.encodedKids]
      exact ih ((h.forcedEnd hij).appendedEvent hij) (Nat.succ.inj hlen)
        fun i' j' hin => hp i' j' (List.mem_cons_of_mem _ hin)

private theorem encodedRoot (h : Alike ta tb sa sb a b) :
    Alike ta tb sa sb (a.encodedRoot ta) (b.encodedRoot tb) := by
  have hkids : Alike ta tb sa sb (a.encodedKids ta.root ta.kids) (b.encodedKids tb.root tb.kids) :=
    h.encodedKids h.length fun i j hin => List.mem_cons_of_mem _ hin
  have hshape (n : TraceNode) : n.runUserOptionFunc.shape = n.shape := by
    obtain ⟨skipped, hskipped⟩ := runUserOptionFunc_eq n
    rw [hskipped]
    rfl
  refine hkids.modify paired_root (hshape _) (hshape _) ?_
  rw [TraceNode.content_runUserOptionFunc, TraceNode.content_runUserOptionFunc]
  exact hkids.nodes _ _ paired_root

private theorem handedOver (h : Alike ta tb sa sb a b) :
    Alike ta tb sa sb (a.handedOver ta) (b.handedOver tb) := by
  have hencoded := (h.endedNode paired_root).encodedRoot
  have hvalue := congrArg Content.value (hencoded.nodes _ _ paired_root)
  simp only [TraceNode.content] at hvalue
  obtain ⟨new, hsa, hsb⟩ := hencoded.peers.spans
  refine ⟨hencoded.left, hencoded.right, h.length, hencoded.nodes, hencoded.peers.agentType,
    hencoded.peers.clock, new ++ [(((a.endedNode ta.root).encodedRoot ta).pool.nodeAt ta.root).value],
    ?_, ?_⟩
  · rw [Agent.handedOver, hsa, List.append_assoc]
  · rw [Agent.handedOver, hsb, hvalue, List.append_assoc]

end Alike

private theorem lockstep_deliverRoot (raises : Bool) :
    Lockstep (Alike ta tb sa sb) Eq (deliverRoot ta.root raises) (deliverRoot tb.root raises) := by
  intro a b h
  have hcontent := h.nodes _ _ paired_root
  obtain ⟨ea, hea, -⟩ := (h.left.ok ta (List.mem_singleton_self ta)).rootNodeExtra_eq
  obtain ⟨eb, heb, -⟩ := (h.right.ok tb (List.mem_singleton_self tb)).rootNodeExtra_eq
  have hstatus : (a.pool.rootExtra ta.root).status = (b.pool.rootExtra tb.root).status := by
    have := congrArg Content.status hcontent
    simpa [TraceNode.content, PoolManager.rootExtra, hea, heb] using this
  have hevent : a.EventAppendable ta.root ↔ b.EventAppendable tb.root := by
    unfold EventAppendable
    rw [show (a.pool.nodeAt ta.root).value = (b.pool.nodeAt tb.root).value from
      congrArg Content.value hcontent]
  have hkids : ta.kids = [] ↔ tb.kids = [] := by
    rw [← List.length_eq_zero_iff, h.length, List.length_eq_zero_iff]
  rw [deliverRoot_eq h.left (List.mem_singleton_self ta), deliverRoot_eq h.right (List.mem_singleton_self tb),
    hstatus]
  by_cases hpass : (b.pool.rootExtra tb.root).status = tracePass
  swap
  · rw [if_pos hpass, if_pos hpass]
    exact .inl ⟨(), (), a, b, rfl, rfl, rfl, h⟩
  rw [if_neg (not_not.2 hpass), if_neg (not_not.2 hpass)]
  by_cases hcond : tb.kids = [] ∨ b.EventAppendable tb.root
  · rw [if_pos (hcond.imp hkids.2 hevent.2), if_pos hcond]
    cases raises with
    | false => exact .inl ⟨(), (), _, _, rfl, rfl, rfl, h.handedOver⟩
    | true => exact .inr ⟨.sendFailed, _, _, rfl, rfl, h.handedOver⟩
  · rw [if_neg (fun hc => hcond (hc.imp hkids.1 hevent.1)), if_neg hcond]
    exact .inr ⟨.notAppendable, _, _, rfl, rfl, (h.endedNode paired_root).forcedEnd
      (h.paired_next fun hnil => hcond (.inl hnil))⟩

structure Vacant (sa sb : List Members) (a b : Agent) : Prop where
  left : Holds a.pool [] []
  right : Holds b.pool [] []
  peers : Peers sa sb a b

/-- `EndTrace` of the root: both agents free the trace, or both throw and keep it. -/
theorem Alike.endTrace_root (h : Alike ta tb sa sb a b) (raises : Bool) :
    (∃ a' b', Agent.endTrace ta.root raises a = .ok rootNode a' ∧
      Agent.endTrace tb.root raises b = .ok rootNode b' ∧ Vacant sa sb a' b') ∨
    ∃ e a' b', Agent.endTrace ta.root raises a = .error e a' ∧
      Agent.endTrace tb.root raises b = .error e b' ∧ Alike ta tb sa sb a' b' := by
  have hfinish (t : Trace) : Forest.finish [t] t.root = [] := by simp [Forest.finish]
  have hspeca := Agent.endTrace_root h.left (List.mem_singleton_self ta) raises
  have hspecb := Agent.endTrace_root h.right (List.mem_singleton_self tb) raises
  obtain ⟨_, _, a', b', hda, hdb, -, halike⟩ | ⟨e, a', b', hda, hdb, halike⟩ :=
    lockstep_deliverRoot raises a b h
  · rw [hda] at hspeca
    rw [hdb] at hspecb
    split at hspeca
    · split at hspecb
      · obtain ⟨_, qa, hda', -, hend, hholds, -⟩ := hspeca
        obtain ⟨_, qb, hdb', -, hend', hholds', -⟩ := hspecb
        cases hda'
        cases hdb'
        refine .inl ⟨_, _, hend, hend', hfinish ta ▸ hholds, hfinish tb ▸ hholds', ?_⟩
        exact ⟨halike.peers.agentType, halike.peers.clock, halike.peers.spans⟩
      · obtain ⟨_, _, hd, -⟩ := hspecb
        cases hd
    · obtain ⟨_, _, hd, -⟩ := hspeca
      cases hd
  · rw [hda] at hspeca
    rw [hdb] at hspecb
    split at hspeca
    · obtain ⟨_, _, hd, -⟩ := hspeca
      cases hd
    · split at hspecb
      · obtain ⟨_, _, hd, -⟩ := hspecb
        cases hd
      · obtain ⟨_, _, hda', -, hend, -⟩ := hspeca
        obtain ⟨_, _, hdb', -, hend', -⟩ := hspecb
        cases hda'
        cases hdb'
        exact .inr ⟨e, a', b', hend, hend', halike⟩

theorem Alike.endTrace_child (h : Alike ta tb sa sb a b) (hp : Paired ta tb i j) (hroot : i ≠ ta.root)
    (raises : Bool) : Alike ta tb sa sb (finalState (Agent.endTrace i raises) a)
      (finalState (Agent.endTrace j raises) b) := by
  obtain ⟨⟨hi, hid, hir⟩, hj, hjd, hjr⟩ := h.referred hp
  have hroot' : j ≠ tb.root := by
    intro hj
    exact hroot ((paired_root.eq_iff h.nodup.1 h.nodup.2 hp).2 hj)
  have hnot : ¬(a.pool.nodeAt i).isRootNode = true := by
    simp [TraceNode.isRootNode, hid, hir, Ne.symm hroot]
  have hnot' : ¬(b.pool.nodeAt j).isRootNode = true := by
    simp [TraceNode.isRootNode, hjd, hjr, Ne.symm hroot']
  rw [finalState_of_ok (Agent.endTrace_child hi hnot raises),
    finalState_of_ok (Agent.endTrace_child hj hnot' raises)]
  exact h.endedNode hp

end Ends

section Starts

variable {ta tb : Trace} {sa sb : List Members} {a b a' b' : Agent} {i j k l : Int} {f : Forest}

theorem Started.content (h : Started a f i k a') {other : Int} (hlive : a.pool.Live other) :
    (a'.pool.nodeAt other).content = (a.pool.nodeAt other).content := by
  have hstatus := h.status other hlive
  obtain ⟨next, extra, hnode⟩ := h.kept other hlive
  rw [hnode] at hstatus ⊢
  simp only [TraceNode.content, hstatus]

private theorem Peers.started (h : Peers sa sb a b) (hsa : Started a f i k a') {g : Forest}
    (hsb : Started b g j l b') : Peers sa sb a' b' := by
  rw [hsa.rest, hsb.rest]
  refine ⟨h.agentType, ?_, h.spans⟩
  intro n
  rw [Nat.add_assoc, Nat.add_assoc]
  exact h.clock (1 + n)

private theorem started_of_ok (h : Holds a.pool f []) (hstart : startNode i a = .ok k a') :
    Started a f i k a' := by
  obtain ⟨id, a₁, heq, hstarted⟩ | ⟨e, heq, -⟩ := startNode_spec h i
  · cases hstart.symm.trans heq
    exact hstarted
  · cases hstart.symm.trans heq

/-- A root that is started on a recycled node shows nothing of the node's last use. -/
theorem Vacant.startRoot (h : Vacant sa sb a b) (hsa : startNode rootNode a = .ok k a')
    (hsb : startNode rootNode b = .ok l b') : Alike ⟨k, []⟩ ⟨l, []⟩ sa sb a' b' := by
  have hstarta := started_of_ok h.left hsa
  have hstartb := started_of_ok h.right hsb
  refine ⟨hstarta.holds, hstartb.holds, rfl, ?_, h.peers.started hstarta hstartb⟩
  intro i j hp
  obtain ⟨rfl, rfl⟩ : i = k ∧ j = l := by simpa [Paired, Trace.nodes] using hp
  obtain ⟨m, ⟨-, hm⟩ | ⟨t, ht, -⟩⟩ := hstarta.node
  · obtain ⟨n, ⟨-, hn⟩ | ⟨t, ht, -⟩⟩ := hstartb.node
    · rw [hm, hn, h.peers.agentType, show a.clock a.tick = b.clock b.tick from h.peers.clock 0]
      rfl
    · cases ht
  · cases ht

def grow (t : Trace) (new : Int) : Trace := { t with kids := t.kids ++ [new] }

private theorem start_singleton {t : Trace} {parent new : Int} (hparent : parent ∈ t.nodes)
    (hne : parent ≠ rootNode) : Forest.start [t] parent new = [grow t new] := by
  simp [Forest.start, hne, hparent, grow]

theorem paired_grow (hlen : ta.kids.length = tb.kids.length) :
    Paired (grow ta k) (grow tb l) i j ↔ Paired ta tb i j ∨ i = k ∧ j = l := by
  have hnodes : (grow ta k).nodes.zip (grow tb l).nodes = ta.nodes.zip tb.nodes ++ [(k, l)] := by
    have hlen' : ta.nodes.length = tb.nodes.length := by simp [Trace.nodes, hlen]
    exact List.zip_append hlen'
  rw [Paired, hnodes, List.mem_append]
  simp [Paired]

private theorem Alike.paired_last (h : Alike ta tb sa sb a b) :
    Paired ta tb (a.pool.lastOrRoot ta.root) (b.pool.lastOrRoot tb.root) := by
  have hta := List.mem_singleton_self ta
  have htb := List.mem_singleton_self tb
  have hlasta := (h.left.ok ta hta).rootExtra_eq.1
  have hlastb := (h.right.ok tb htb).rootExtra_eq.1
  have hlen := h.length
  unfold PoolManager.lastOrRoot
  rw [hlasta, hlastb]
  obtain hnil | ⟨xs, x, hxs⟩ := List.eq_nil_or_concat ta.kids
  · have hnil' : tb.kids = [] := by
      rw [hnil] at hlen
      exact List.length_eq_zero_iff.1 hlen.symm
    rw [hnil, hnil']
    exact paired_root
  · obtain hnil | ⟨ys, y, hys⟩ := List.eq_nil_or_concat tb.kids
    · rw [hnil, hxs] at hlen
      simp at hlen
    · have hx : x ≠ invalidNode := by
        refine (h.left.live_of_mem hta ?_).ne_invalidNode
        simp [Trace.nodes, hxs]
      have hy : y ≠ invalidNode := by
        refine (h.right.live_of_mem htb ?_).ne_invalidNode
        simp [Trace.nodes, hys]
      have hgrowa : ta = grow ⟨ta.root, xs⟩ x := by simp [grow, ← List.concat_eq_append, ← hxs]
      have hgrowb : tb = grow ⟨tb.root, ys⟩ y := by simp [grow, ← List.concat_eq_append, ← hys]
      have hpair : Paired ta tb x y := by
        rw [hgrowa, hgrowb, paired_grow (by simpa [hxs, hys] using hlen)]
        exact .inr ⟨rfl, rfl⟩
      simpa [hxs, hys, hx, hy] using hpair

theorem Started.child_content (hholds : Holds a.pool [ta] []) (hi : i ∈ ta.nodes)
    (h : Started a [ta] i k a') : (a'.pool.nodeAt k).content =
      { depth := (a.pool.nodeAt i).depth + 1
        sequence := ta.kids.length
        traceStartTime := a.clock a.tick
        preTraceTime := (a.pool.nodeAt (a.pool.lastOrRoot ta.root)).traceStartTime
        expiredTime := -1, setExp := false, status := none, value := [], contextMap := []
        userOptionalSetting := [] } := by
  have hlive := hholds.live_of_mem (List.mem_singleton_self ta) hi
  have hholds' := h.holds
  rw [start_singleton hi hlive.ne_rootNode] at hholds'
  obtain ⟨parent, -, hshape⟩ := (hholds'.ok _ (List.mem_singleton_self _)).kid ta.kids.length k
    (by simp [grow])
  have hsequence : (a'.pool.nodeAt k).sequence = ta.kids.length := congrArg Shape.sequence hshape
  obtain ⟨n, ⟨hroot, -⟩ | ⟨t, ht, -, sequence, hnode⟩⟩ := h.node
  · exact absurd hroot hlive.ne_rootNode
  · obtain rfl := List.mem_singleton.1 ht
    rw [hnode] at hsequence ⊢
    rw [← hsequence]
    rfl

theorem Alike.startChild (h : Alike ta tb sa sb a b) (hp : Paired ta tb i j)
    (hsa : startNode i a = .ok k a') (hsb : startNode j b = .ok l b') :
    Alike (grow ta k) (grow tb l) sa sb a' b' := by
  have hstarta := started_of_ok h.left hsa
  have hstartb := started_of_ok h.right hsb
  obtain ⟨⟨hi, -⟩, hj, -⟩ := h.referred hp
  have hholdsa := hstarta.holds
  have hholdsb := hstartb.holds
  rw [start_singleton hp.mem.1 hi.ne_rootNode] at hholdsa
  rw [start_singleton hp.mem.2 hj.ne_rootNode] at hholdsb
  refine ⟨hholdsa, hholdsb, by simp [grow, h.length], ?_, h.peers.started hstarta hstartb⟩
  intro i' j' hp'
  obtain hold | ⟨rfl, rfl⟩ := (paired_grow h.length).1 hp'
  · obtain ⟨⟨hi', -⟩, hj', -⟩ := h.referred hold
    rw [hstarta.content hi', hstartb.content hj']
    exact h.nodes i' j' hold
  · have hdepth := congrArg Content.depth (h.nodes i j hp)
    have hstart := congrArg Content.traceStartTime (h.nodes _ _ h.paired_last)
    simp only [TraceNode.content] at hdepth hstart
    rw [hstarta.child_content h.left hp.mem.1, hstartb.child_content h.right hp.mem.2, hdepth, hstart,
      h.length, h.now]

theorem lockstep_setNodeUserOption (hp : Paired ta tb i j) (opts : List String) :
    Lockstep (Alike ta tb sa sb) Eq (setNodeUserOption i opts) (setNodeUserOption j opts) := by
  intro a b h
  obtain ⟨hcontent, hflag⟩ := TraceNode.content_setNodeUserOption (h.nodes i j hp) opts
  have hshape (n : TraceNode) : (n.setNodeUserOption opts).1.shape = n.shape := by
    obtain ⟨options, hoptions⟩ := setNodeUserOption_eq n opts
    rw [hoptions]
    rfl
  have halike := h.modify hp (f := fun _ => ((a.pool.nodeAt i).setNodeUserOption opts).1)
    (g := fun _ => ((b.pool.nodeAt j).setNodeUserOption opts).1) (hshape _) (hshape _) hcontent
  cases hb : ((b.pool.nodeAt j).setNodeUserOption opts).2 with
  | false => refine .inl ⟨(), (), _, _, ?_, ?_, rfl, halike⟩ <;> simp [setNodeUserOption, hflag, hb]
  | true => refine .inr ⟨.badNumber, _, _, ?_, ?_, halike⟩ <;> simp [setNodeUserOption, hflag, hb]

end Starts

end PinpointAgent.Agent
