import PinpointAgent.Agent.FailedStart
import PinpointAgent.Framework.Dict
/-!
# The events of a span

`EncodeTraceToJsonSpan` walks the chain of a root and appends each node's members to the root's
`event` array. The journal below keeps what the caller knows: the nodes it was given, in order,
the roots it has ended and the clues it wrote. In a run in which no start fails on its options,
the array lists exactly the nodes the caller was given, each with its sequence number, its
depth, its times and the clues last written to it.
-/

namespace PinpointAgent.Agent

open Framework NodePool

structure Journal where
  world : World
  /-- The starts under each root that returned a node: the parent and the node. -/
  started : Int → List (Int × Int)
  /-- Whether `pinpoint_end_trace` was called on the node since its start. -/
  ended : Int → Bool
  /-- What `pinpoint_add_clue` wrote to each node since its start, the last first. An exception
  takes over the key `EXP_V2`. -/
  clues : Int → List (String × String)

/-- The start does not get as far as an option that throws. -/
def World.Readable (w : World) : ApiCall → Prop
  | .startTrace parentId opts => OptionsReadable w.agent parentId opts
  | _ => True

instance decidableOptionsReadable (a : Agent) (parentId : Int) (opts : List String) :
    Decidable (OptionsReadable a parentId opts) :=
  inferInstanceAs (Decidable (_ ∨ _ ∨ _ ∨ ∀ opt ∈ opts, _))

instance World.decidableReadable (w : World) : (call : ApiCall) → Decidable (w.Readable call)
  | .startTrace .. => inferInstanceAs (Decidable (OptionsReadable ..))
  | .endTrace .. | .addClue .. | .addClues .. | .addException .. | .catchError .. | .setContextKey ..
  | .setAsyncCtx .. | .changeTraceStatus .. => isTrue trivial

namespace Journal

def new (agentType : Int) (clock : Nat → Nat) : Journal :=
  ⟨.new agentType clock, fun _ => [], fun _ => false, fun _ => []⟩

def target (j : Journal) (id flag : Int) : Int :=
  if flag = 1 then (j.world.agent.pool.nodeAt id).rootId else id

def noteStart (j : Journal) (parent id : Int) : Journal :=
  let root := (j.world.agent.pool.nodeAt parent).rootId
  { j with
    started := if parent = rootNode then Function.update j.started id []
      else Function.update j.started root (j.started root ++ [(parent, id)])
    ended := Function.update j.ended id false
    clues := Function.update j.clues id [] }

def noteClues (j : Journal) (id : Int) (clues : List (String × String)) : Journal :=
  { j with clues := Function.update j.clues id clues }

def note (j : Journal) : ApiCall → Journal
  | .startTrace parentId opts =>
    let id := (j.world.agent.pinpointStartTraceV1 parentId opts).1
    if id = invalidNode then j else j.noteStart parentId id
  | .endTrace id _ => { j with ended := Function.update j.ended id true }
  | .addClue id key value flag =>
    if key.toList.head? = some ':' ∨ ¬j.world.agent.pool.Live id then j
    else j.noteClues (j.target id flag) ((key, value) :: j.clues (j.target id flag))
  | .addException id _ => j.noteClues id ((j.clues id).filter fun clue => clue.1 ≠ "EXP_V2")
  | _ => j

def step (j : Journal) (call : ApiCall) : Journal := { j.note call with world := j.world.step call }

def run (j : Journal) (calls : List ApiCall) : Journal := calls.foldl step j

end Journal

/-- The members that `EndTrace` writes into a node that is not a root. -/
structure Stamp (n : TraceNode) (m : Members) : Prop where
  sequence : m.get ":seq" = .int n.sequence
  depth : m.get ":depth" = .int n.depth
  elapsed : ∃ ms, m.get ":E" = .int ms
  offset : ∃ ms, m.get ":S" = .uint ms

/-- The members carry the last clue of each key; `EA` belongs to the encoder. -/
def CarriesClues (clues : List (String × String)) (m : Members) : Prop :=
  ∀ key value, key ≠ "EA" → clues.lookup key = some value → m.get key = .str value

structure Remembers (ended : Bool) (clues : List (String × String)) (n : TraceNode) : Prop where
  events : ended = false → (n.value.get "event").items = []
  named : ∀ clue ∈ clues, clue.1.toList.head? ≠ some ':'
  stamped : n.rootNodeExtra = none → n.expiredTime ≠ -1 → Stamp n n.value
  carried : n.rootNodeExtra = none → CarriesClues clues n.value

private theorem lookup_filter {key other value : String} {clues : List (String × String)}
    (h : (clues.filter fun clue => clue.1 ≠ other).lookup key = some value) :
    clues.lookup key = some value ∧ key ≠ other := by
  have hne : key ≠ other := by simpa using (List.mem_filter.1 (Dict.mem_of_lookup h)).2
  refine ⟨?_, hne⟩
  induction clues with
  | nil => exact h
  | cons clue clues ih =>
    obtain ⟨k, v⟩ := clue
    by_cases hk : k = other
    · subst hk
      rw [List.filter_cons_of_neg (by simp)] at h
      rw [List.lookup_cons, beq_false_of_ne hne]
      exact ih h
    · rw [List.filter_cons_of_pos (by simpa using hk)] at h
      rw [List.lookup_cons] at h ⊢
      split at h
      · exact h
      · exact ih h

section Remembers

variable {e : Bool} {clues : List (String × String)} {n n' : TraceNode} {key : String} {v : Json}

private theorem Remembers.congr (h : Remembers e clues n) (hvalue : n'.value = n.value)
    (hexpired : n'.expiredTime = n.expiredTime) (hsequence : n'.sequence = n.sequence)
    (hdepth : n'.depth = n.depth) (hextra : n'.rootNodeExtra = none → n.rootNodeExtra = none) :
    Remembers e clues n' := by
  refine ⟨?_, h.named, ?_, ?_⟩
  · rw [hvalue]
    exact h.events
  · intro hnone hended
    have hstamp := h.stamped (hextra hnone) (hexpired ▸ hended)
    rw [hvalue]
    exact ⟨hsequence ▸ hstamp.sequence, hdepth ▸ hstamp.depth, hstamp.elapsed, hstamp.offset⟩
  · intro hnone
    rw [hvalue]
    exact h.carried (hextra hnone)

private theorem Stamp.set {m : Members} (h : Stamp n m) (hkey : key.toList.head? ≠ some ':') :
    Stamp n (m.set key v) := by
  have hne (internal : String) (hcolon : internal.toList.head? = some ':') : internal ≠ key := by
    rintro rfl
    exact hkey hcolon
  refine ⟨?_, ?_, ?_, ?_⟩
  · rw [Members.get_set_of_ne _ _ (hne ":seq" rfl)]
    exact h.sequence
  · rw [Members.get_set_of_ne _ _ (hne ":depth" rfl)]
    exact h.depth
  · rw [Members.get_set_of_ne _ _ (hne ":E" rfl)]
    exact h.elapsed
  · rw [Members.get_set_of_ne _ _ (hne ":S" rfl)]
    exact h.offset

theorem Remembers.annotate (h : Remembers e clues n) (hkey : key.toList.head? ≠ some ':')
    (hevent : key = "event" → v.items = []) (hclue : n.rootNodeExtra = none → clues.lookup key = none) :
    Remembers e clues (n.addAnnotationMember key v) := by
  refine ⟨?_, h.named, fun hnone hended => ?_, fun hnone other value hne hvalue => ?_⟩
  · intro hnot
    by_cases heq : key = "event"
    · rw [heq, TraceNode.addAnnotationMember, Members.get_set_self]
      exact hevent heq
    · rw [TraceNode.addAnnotationMember, Members.get_set_of_ne _ _ (Ne.symm heq)]
      exact h.events hnot
  · have hstamp := (h.stamped hnone hended).set (v := v) hkey
    exact ⟨hstamp.sequence, hstamp.depth, hstamp.elapsed, hstamp.offset⟩
  · have hother : other ≠ key := by
      rintro rfl
      rw [hclue hnone] at hvalue
      cases hvalue
    rw [TraceNode.addAnnotationMember, Members.get_set_of_ne _ _ hother]
    exact h.carried hnone other value hne hvalue

private theorem Remembers.clue (h : Remembers e clues n) (hkey : key.toList.head? ≠ some ':') (value : String) :
    Remembers e ((key, value) :: clues) (n.addAnnotationMember key (.str value)) := by
  refine ⟨?_, ?_, fun hnone hended => ?_, fun hnone other value' hne hvalue => ?_⟩
  · intro hnot
    by_cases heq : key = "event"
    · rw [heq, TraceNode.addAnnotationMember, Members.get_set_self]
      rfl
    · rw [TraceNode.addAnnotationMember, Members.get_set_of_ne _ _ (Ne.symm heq)]
      exact h.events hnot
  · intro clue hclue
    obtain rfl | hclue := List.mem_cons.1 hclue
    · exact hkey
    · exact h.named clue hclue
  · have hstamp := (h.stamped hnone hended).set (v := .str value) hkey
    exact ⟨hstamp.sequence, hstamp.depth, hstamp.elapsed, hstamp.offset⟩
  · by_cases heq : other = key
    · subst heq
      simp only [List.lookup_cons, beq_self_eq_true, Option.some.injEq] at hvalue
      rw [TraceNode.addAnnotationMember, Members.get_set_self, hvalue]
    · rw [List.lookup_cons, beq_false_of_ne heq] at hvalue
      rw [TraceNode.addAnnotationMember, Members.get_set_of_ne _ _ heq]
      exact h.carried hnone other value' hne hvalue

theorem get_endMembers_clue (n : TraceNode) (now : Nat) (hkey : key.toList.head? ≠ some ':')
    (hne : key ≠ "EA") : (n.endMembers now).get key = n.value.get key := by
  have hinternal (internal : String) (hcolon : internal.toList.head? = some ':') : key ≠ internal := by
    rintro rfl
    exact hkey hcolon
  unfold TraceNode.endMembers
  split <;> split <;>
    simp [hinternal ":E" rfl, hinternal ":S" rfl, hinternal ":seq" rfl, hinternal ":depth" rfl, hne]

private theorem stamp_endMembers (n : TraceNode) (now : Nat) (hnone : n.rootNodeExtra = none) :
    Stamp n (n.endMembers now) := by
  unfold TraceNode.endMembers
  constructor <;> split <;> simp [hnone]

private theorem Remembers.stamp (h : Remembers e clues n) (expired : Int) (now : Nat) :
    Remembers e clues { n with expiredTime := expired, value := n.endMembers now } := by
  refine ⟨fun hnot => ?_, h.named, fun hnone _ => ?_, fun hnone other value hne hvalue => ?_⟩
  · rw [(n.stamp_fields _ _).2.2.2, get_endMembers_event]
    exact h.events hnot
  · have hstamp := stamp_endMembers n now hnone
    exact ⟨hstamp.sequence, hstamp.depth, hstamp.elapsed, hstamp.offset⟩
  · have hmem : (other, value) ∈ clues := Dict.mem_of_lookup hvalue
    rw [(n.stamp_fields _ _).2.2.2, get_endMembers_clue n now (h.named _ hmem) hne]
    exact h.carried hnone other value hne hvalue

private theorem Remembers.endTrace (h : Remembers e clues n) (now : Nat) : Remembers e clues (n.endTrace now) :=
  h.stamp (n.elapsed now) now

end Remembers

/-- Every live node agrees with what the caller knows about it. -/
def PoolRemembers (ended : Int → Bool) (clues : Int → List (String × String)) (p : PoolManager) : Prop :=
  ∀ id, p.Live id → Remembers (ended id) (clues id) (p.nodeAt id)

section Annotations

variable {ended : Int → Bool} {clues : Int → List (String × String)} {p : PoolManager} {id : Int}
  {a : Agent} {f : Forest} {t : Trace}

private theorem PoolRemembers.noteClues {g : TraceNode → TraceNode} (h : PoolRemembers ended clues p)
    (clues' : List (String × String))
    (hg : p.Live id → Remembers (ended id) clues' (g (p.nodeAt id))) :
    PoolRemembers ended (Function.update clues id clues') (p.modifyNode id g) := by
  intro other hlive
  by_cases heq : other = id
  · subst heq
    rw [PoolManager.nodeAt_modifyNode_self, Function.update_self]
    exact hg hlive
  · rw [PoolManager.nodeAt_modifyNode_of_ne g heq, Function.update_of_ne heq]
    exact h other hlive

private theorem PoolRemembers.modifyNode {g : TraceNode → TraceNode} (h : PoolRemembers ended clues p)
    (hg : p.Live id → Remembers (ended id) (clues id) (p.nodeAt id) →
      Remembers (ended id) (clues id) (g (p.nodeAt id))) :
    PoolRemembers ended clues (p.modifyNode id g) := by
  have hnoted := h.noteClues (clues id) fun hlive => hg hlive (h id hlive)
  rwa [Function.update_eq_self] at hnoted

private theorem root_extra (h : Holds a.pool f []) (ht : t ∈ f) :
    (a.pool.nodeAt t.root).rootNodeExtra ≠ none := by
  obtain ⟨extra, hextra, -⟩ := (h.ok t ht).rootNodeExtra_eq
  simp [hextra]

/-- A call on a node that is not alive changes nothing; any other goes on with the node, or
with the root of its trace. -/
private theorem finalState_wrapper (h : Holds a.pool f []) (id flag : Int) (k : Int → AgentM Unit) :
    (¬a.pool.Live id ∧ finalState (getWrapperTraceNode id flag >>= k) a = a) ∨
      ∃ t ∈ f, id ∈ t.nodes ∧
        finalState (getWrapperTraceNode id flag >>= k) a = finalState (k (if flag = 1 then t.root else id)) a := by
  by_cases hlive : a.pool.Live id
  · obtain ⟨t, ht, hmem⟩ := h.exists_trace hlive
    refine .inr ⟨t, ht, hmem, finalState_bind_of_ok k ?_⟩
    by_cases hflag : flag = 1
    · rw [hflag, if_pos rfl]
      exact getWrapperTraceNode_root hlive ((h.ok t ht).node_ids hmem).2
        (h.live_of_mem ht (List.mem_cons_self ..))
    · rw [if_neg hflag, getWrapperTraceNode, bind_of_ok _ (referNode_of_live hlive), if_neg hflag]
      rfl
  · obtain ⟨e, he, -⟩ := referNode_of_dead hlive
    have hwrapper : getWrapperTraceNode id flag a = .error e a := bind_of_error _ he
    exact .inl ⟨hlive, finalState_of_error (bind_of_error k hwrapper)⟩

private theorem remembers_annotateRoot {key : String} {v : Json} (h : Holds a.pool f [])
    (hr : PoolRemembers ended clues a.pool) (hkey : key.toList.head? ≠ some ':') (hevent : key ≠ "event") :
    PoolRemembers ended clues (finalState (getWrapperTraceNode id 1 >>= fun root =>
      Agent.modifyNode root (·.addAnnotationMember key v)) a).pool := by
  obtain ⟨-, hfinal⟩ | ⟨t, ht, -, hfinal⟩ := finalState_wrapper h id 1 fun root =>
    Agent.modifyNode root (·.addAnnotationMember key v)
  · rwa [hfinal]
  · rw [hfinal]
    exact hr.modifyNode fun _ hnode => hnode.annotate hkey (fun heq => absurd heq hevent)
      fun hnone => absurd hnone (root_extra h ht)

private theorem remembers_addTraceContext (h : Holds a.pool f []) (hr : PoolRemembers ended clues a.pool)
    (key value : String) : PoolRemembers ended clues (finalState (addTraceContext id key value) a).pool := by
  obtain ⟨-, hfinal⟩ | ⟨t, -, -, hfinal⟩ := finalState_wrapper h id 1 fun root =>
    Agent.modifyNode root fun n => { n with contextMap := (key, value) :: n.contextMap }
  · rwa [addTraceContext, hfinal]
  · rw [addTraceContext, hfinal]
    exact hr.modifyNode fun _ hnode => hnode.congr rfl rfl rfl rfl fun hnone => hnone

private theorem remembers_changeTraceStatus (h : Holds a.pool f [])
    (hr : PoolRemembers ended clues a.pool) (status : Int) :
    PoolRemembers ended clues (finalState (changeTraceStatus id status) a).pool := by
  by_cases hlive : a.pool.Live id
  · obtain ⟨t, ht, hmem⟩ := h.exists_trace hlive
    have hroot := h.live_of_mem ht (List.mem_cons_self ..)
    rw [← ((h.ok t ht).node_ids hmem).2] at hroot
    rw [finalState_of_ok (changeTraceStatus_eq hlive hroot status)]
    exact hr.modifyNode fun _ hnode => hnode.congr rfl rfl rfl rfl nofun
  · obtain ⟨e, he, -⟩ := referNode_of_dead hlive
    have hstep : changeTraceStatus id status a = .error e a := bind_of_error _ he
    rwa [finalState_of_error hstep]

private theorem remembers_append {key : String} {v : Json} (hr : PoolRemembers ended clues a.pool)
    (hkey : key.toList.head? ≠ some ':') (hevent : key = "event" → ended id = true) (hEA : key ≠ "EA") :
    PoolRemembers ended clues (finalState (appendAnnotationMember id key v) a).pool := by
  by_cases happ : ((a.pool.nodeAt id).value.get key).Appendable
  · have hstep : appendAnnotationMember id key v a = .ok () { a with
        pool := a.pool.modifyNode id fun n => { n with
          value := (a.pool.nodeAt id).value.set key (.arr (((a.pool.nodeAt id).value.get key).items ++ [v])) } } := by
      simp only [appendAnnotationMember, Members.append_of_appendable _ key v happ]
    rw [finalState_of_ok hstep]
    refine hr.modifyNode fun _ hnode => ?_
    have hclue (hnone : (a.pool.nodeAt id).rootNodeExtra = none) : (clues id).lookup key = none := by
      cases hlookup : (clues id).lookup key with
      | none => rfl
      | some value =>
        rw [hnode.carried hnone key value hEA hlookup] at happ
        cases happ
    refine ⟨fun hnot => ?_, hnode.named, fun hnone hended => ?_, fun hnone other value hne hvalue => ?_⟩
    · have hne : "event" ≠ key := fun heq => by simp [hevent heq.symm] at hnot
      rw [Members.get_set_of_ne _ _ hne]
      exact hnode.events hnot
    · have hstamp := (hnode.stamped hnone hended).set (v := .arr (((a.pool.nodeAt id).value.get key).items ++ [v])) hkey
      exact ⟨hstamp.sequence, hstamp.depth, hstamp.elapsed, hstamp.offset⟩
    · have hother : other ≠ key := by
        rintro rfl
        rw [hclue hnone] at hvalue
        cases hvalue
      rw [Members.get_set_of_ne _ _ hother]
      exact hnode.carried hnone other value hne hvalue
  · have hstep : appendAnnotationMember id key v a = .error .notAppendable a := by
      simp only [appendAnnotationMember, (Members.append_eq_none_iff _ key v).2 happ]
    rwa [finalState_of_error hstep]

private theorem finalState_notInternalKey (key : String) (k : Unit → AgentM Unit) (a : Agent) :
    finalState (notInternalKey key >>= k) a =
      if key.toList.head? = some ':' then a else finalState (k ()) a := by
  by_cases hkey : key.toList.head? = some ':'
  · have hthrow : notInternalKey key a = .error (.internalKey key) a := by
      rw [notInternalKey, if_pos hkey]
      rfl
    rw [if_pos hkey, finalState_of_error (bind_of_error k hthrow)]
  · have hpass : notInternalKey key a = .ok () a := by
      rw [notInternalKey, if_neg hkey]
      rfl
    rw [if_neg hkey, finalState_bind_of_ok k hpass]

private theorem remembers_annotateTraceV2 (h : Holds a.pool f []) (hr : PoolRemembers ended clues a.pool)
    (key value : String) (flag : Int) :
    PoolRemembers ended clues (finalState (annotateTraceV2 id key value flag) a).pool := by
  rw [annotateTraceV2, finalState_notInternalKey]
  split
  · exact hr
  · obtain ⟨-, hfinal⟩ | ⟨t, -, -, hfinal⟩ := finalState_wrapper h id flag fun n =>
      appendAnnotationMember n "anno" (.str (key ++ ":" ++ value))
    · rwa [hfinal]
    · rw [hfinal]
      exact remembers_append hr (by decide) (fun heq => absurd heq (by decide)) (by decide)

private theorem remembers_annotateTraceV1 (h : Holds a.pool f []) (hr : PoolRemembers ended clues a.pool)
    (id : Int) (key value : String) (flag : Int) :
    (key.toList.head? = some ':' ∨ ¬a.pool.Live id) ∧
        finalState (annotateTraceV1 id key value flag) a = a ∨
      ¬(key.toList.head? = some ':' ∨ ¬a.pool.Live id) ∧
        let n := if flag = 1 then (a.pool.nodeAt id).rootId else id
        PoolRemembers ended (Function.update clues n ((key, value) :: clues n))
          (finalState (annotateTraceV1 id key value flag) a).pool := by
  rw [annotateTraceV1, finalState_notInternalKey]
  split
  · next hkey => exact .inl ⟨.inl hkey, rfl⟩
  · next hkey =>
    obtain ⟨hdead, hfinal⟩ | ⟨t, ht, hmem, hfinal⟩ := finalState_wrapper h id flag fun n =>
      Agent.modifyNode n (·.addAnnotationMember key (.str value))
    · exact .inl ⟨.inr hdead, hfinal⟩
    · right
      have hlive := h.live_of_mem ht hmem
      rw [hfinal, ((h.ok t ht).node_ids hmem).2]
      refine ⟨by simp [hkey, hlive], ?_⟩
      exact hr.noteClues _ fun hl => (hr _ hl).clue hkey value

private theorem remembers_annotateExceptionTrace (h : Holds a.pool f [])
    (hr : PoolRemembers ended clues a.pool) (exception : String) :
    PoolRemembers ended
      (Function.update clues id ((clues id).filter fun clue => clue.1 ≠ "EXP_V2"))
      (finalState (annotateExceptionTrace id exception) a).pool := by
  have hfilter {n : TraceNode} (hn : Remembers (ended id) (clues id) n) :
      Remembers (ended id) ((clues id).filter fun clue => clue.1 ≠ "EXP_V2") n :=
    ⟨hn.events, fun clue hclue => hn.named clue (List.mem_filter.1 hclue).1, hn.stamped,
      fun hnone key value hne hvalue => hn.carried hnone key value hne (lookup_filter hvalue).1⟩
  by_cases hlive : a.pool.Live id
  · obtain ⟨t, ht, hid⟩ := h.exists_trace hlive
    rw [finalState_of_ok (annotateExceptionTrace_of_mem h ht hid exception)]
    have hmark {p : PoolManager} (other : Int) (hp : PoolRemembers ended clues p) :
        PoolRemembers ended clues (p.modifyNode other markException) :=
      hp.modifyNode fun _ hnode => hnode.congr rfl rfl rfl rfl fun hnone => hnone
    have hmarked := hmark t.root (hmark id hr)
    refine hmarked.noteClues _ fun hl => ?_
    refine (hfilter (hmarked id hl)).annotate (by decide) (fun heq => absurd heq (by decide)) fun _ => ?_
    cases hlookup : ((clues id).filter fun clue => clue.1 ≠ "EXP_V2").lookup "EXP_V2" with
    | none => rfl
    | some value => exact absurd rfl (lookup_filter hlookup).2
  · obtain ⟨e, he, -⟩ := referNode_of_dead hlive
    have hwrapper : getWrapperTraceNode id 0 a = .error e a := bind_of_error _ he
    have hstep : annotateExceptionTrace id exception a = .error e a := bind_of_error _ hwrapper
    rw [finalState_of_error hstep]
    intro other hother
    have hne : other ≠ id := fun heq => hlive (heq ▸ hother)
    rw [Function.update_of_ne hne]
    exact hr other hother

end Annotations

section Ends

variable {ended : Int → Bool} {clues : Int → List (String × String)} {a : Agent} {f : Forest} {t : Trace}
  {id root : Int}

private theorem PoolRemembers.noteEnd (h : PoolRemembers ended clues a.pool) (id : Int) :
    PoolRemembers (Function.update ended id true) clues a.pool := by
  intro other hlive
  have hnode := h other hlive
  by_cases heq : other = id
  · rw [heq, Function.update_self]
    exact ⟨nofun, heq ▸ hnode.named, heq ▸ hnode.stamped, heq ▸ hnode.carried⟩
  · rw [Function.update_of_ne heq]
    exact hnode

private theorem PoolRemembers.endedNode (h : PoolRemembers ended clues a.pool) (id : Int) :
    PoolRemembers ended clues (a.endedNode id).pool :=
  h.modifyNode fun _ hnode => hnode.endTrace _

private theorem PoolRemembers.forcedEnd (h : PoolRemembers ended clues a.pool) (id : Int) :
    PoolRemembers ended clues (a.forcedEnd id).pool := by
  unfold Agent.forcedEnd
  split
  · exact h.endedNode id
  · exact h

theorem PoolRemembers.appendedEvent (h : PoolRemembers ended clues a.pool) (hended : ended root = true)
    (hroot : (a.pool.nodeAt root).rootNodeExtra ≠ none) (id : Int) :
    PoolRemembers ended clues (a.appendedEvent root id).pool := by
  refine h.modifyNode fun _ hnode => ⟨fun hnot => ?_, hnode.named, fun hnone => ?_, fun hnone => ?_⟩
  · rw [hended] at hnot
    cases hnot
  · exact absurd hnone hroot
  · exact absurd hnone hroot

private theorem extra_of_view {b : Agent} (h : b.view = a.view) (id : Int) :
    (b.pool.nodeAt id).rootNodeExtra = none ↔ (a.pool.nodeAt id).rootNodeExtra = none := by
  have hextra : (b.pool.nodeAt id).rootNodeExtra.map (fun e => (e.last, e.sequence)) =
      (a.pool.nodeAt id).rootNodeExtra.map (fun e => (e.last, e.sequence)) :=
    congrArg Shape.extra (congrFun (congrArg PoolView.shape h) (id - 1))
  rw [← Option.map_eq_none_iff, hextra, Option.map_eq_none_iff]

private theorem PoolRemembers.encodedKids (h : PoolRemembers ended clues a.pool) (hended : ended root = true)
    (hroot : (a.pool.nodeAt root).rootNodeExtra ≠ none) (ids : List Int) :
    PoolRemembers ended clues (a.encodedKids root ids).pool := by
  induction ids generalizing a with
  | nil => exact h
  | cons id ids ih =>
    have hforced := view_forcedEnd a id
    have hview := (view_appendedEvent (a.forcedEnd id) root id).trans hforced
    apply ih
    · exact (h.forcedEnd id).appendedEvent hended (mt (extra_of_view hforced root).1 hroot) id
    · exact mt (extra_of_view hview root).1 hroot

private theorem remembers_runUserOptionFunc {e : Bool} {m : List (String × String)} {n : TraceNode}
    (h : Remembers e m n) : Remembers e m n.runUserOptionFunc := by
  obtain ⟨skipped, hskipped⟩ := runUserOptionFunc_eq n
  rw [hskipped]
  exact h.congr rfl rfl rfl rfl fun hnone => hnone

private theorem PoolRemembers.handedOver (h : PoolRemembers ended clues a.pool) (hended : ended t.root = true)
    (hroot : (a.pool.nodeAt t.root).rootNodeExtra ≠ none) :
    PoolRemembers ended clues (a.handedOver t).pool := by
  have hkids := (h.endedNode t.root).encodedKids hended
    (mt (extra_of_view (view_endedNode a t.root) t.root).1 hroot) t.kids
  exact hkids.modifyNode fun _ hnode => remembers_runUserOptionFunc hnode

private theorem remembers_deliverRoot (h : Holds a.pool f []) (ht : t ∈ f)
    (hr : PoolRemembers ended clues a.pool) (hended : ended t.root = true) (raises : Bool) :
    PoolRemembers ended clues (finalState (deliverRoot t.root raises) a).pool := by
  have hdeliver := deliverRoot_eq h ht raises
  split at hdeliver
  · rwa [finalState_of_ok hdeliver]
  · split at hdeliver
    · have hhanded := hr.handedOver hended (root_extra h ht)
      split at hdeliver
      · rwa [finalState_of_error hdeliver]
      · rwa [finalState_of_ok hdeliver]
    · rw [finalState_of_error hdeliver]
      exact (hr.endedNode t.root).forcedEnd _

private theorem remembers_endTrace (h : Holds a.pool f []) (hr : PoolRemembers ended clues a.pool)
    (hended : ended id = true) (raises : Bool) :
    PoolRemembers ended clues (finalState (endTrace id raises) a).pool := by
  by_cases hlive : a.pool.Live id
  swap
  · obtain ⟨e, he, -⟩ := referNode_of_dead hlive
    have hstep : endTrace id raises a = .error e a := bind_of_error _ he
    rwa [finalState_of_error hstep]
  obtain ⟨t, ht, hmem⟩ := h.exists_trace hlive
  by_cases hroot : t.root = id
  · subst hroot
    have hb := remembers_deliverRoot h ht hr hended raises
    have hspec := endTrace_root h ht raises
    split at hspec
    · obtain ⟨b, q, hdeliver, hview, hend, hholds, -, hnodes, -⟩ := hspec
      rw [finalState_of_ok hdeliver] at hb
      rw [finalState_of_ok hend]
      intro other hother
      -- what is left in use was in use before and is untouched by the release
      have hold : b.pool.Live other := by
        rw [live_of_view hview]
        exact h.live_of_finish hholds hother
      have hnode : q.nodeAt other = b.pool.nodeAt other := congrFun hnodes (other - 1)
      rw [hnode]
      exact hb other hold
    · obtain ⟨e, b, hdeliver, -, hend, -⟩ := hspec
      rw [finalState_of_error hdeliver] at hb
      rwa [finalState_of_error hend]
  · have hkid : ¬(a.pool.nodeAt id).isRootNode = true := fun hisRoot =>
      hroot (((h.ok t ht).isRootNode_iff hmem).1 hisRoot)
    rw [finalState_of_ok (endTrace_child hlive hkid raises)]
    exact hr.endedNode id

end Ends

section Starts

variable {ended : Int → Bool} {clues : Int → List (String × String)} {a a' : Agent} {f : Forest}
  {parent id : Int}

private theorem remembers_fresh {n : TraceNode} (hexpired : n.expiredTime = -1)
    (hevent : n.value.get "event" = .null) : Remembers false [] n :=
  ⟨fun _ => by rw [hevent]; rfl, nofun, fun _ hended => absurd hexpired hended, fun _ _ _ _ => nofun⟩

private theorem remembers_started (hstarted : Started a f parent id a')
    (hr : PoolRemembers ended clues a.pool) :
    PoolRemembers (Function.update ended id false) (Function.update clues id []) a'.pool := by
  intro other hlive
  obtain rfl | hold := (hstarted.live_iff other).1 hlive
  · rw [Function.update_self, Function.update_self]
    obtain ⟨n, ⟨-, hnode⟩ | ⟨t, -, -, sequence, hnode⟩⟩ := hstarted.node
    · rw [hnode]
      exact remembers_fresh rfl rfl
    · rw [hnode]
      exact remembers_fresh rfl rfl
  · have hne : other ≠ id := fun heq => hstarted.dead (heq ▸ hold)
    rw [Function.update_of_ne hne, Function.update_of_ne hne]
    obtain ⟨next, extra, hnode⟩ := hstarted.kept other hold
    have hstatus := hstarted.status other hold
    rw [hnode] at hstatus ⊢
    refine (hr other hold).congr rfl rfl rfl rfl fun hnone => ?_
    have hextra : extra = none := hnone
    rw [hextra] at hstatus
    exact Option.map_eq_none_iff.1 hstatus.symm

end Starts

def Traced (started : Int → List (Int × Int)) (p : PoolManager) (f : Forest) : Prop :=
  ∀ t ∈ f, (started t.root).map Prod.snd = t.kids ∧
    ∀ entry ∈ started t.root, (p.nodeAt entry.2).parentId = entry.1

section Traced

variable {started : Int → List (Int × Int)} {a a' : Agent} {f : Forest} {parent id : Int}

private theorem Traced.congr {p q : PoolManager} (h : Traced started p f)
    (hparent : ∀ id, (q.nodeAt id).parentId = (p.nodeAt id).parentId) : Traced started q f :=
  fun t ht => ⟨(h t ht).1, fun entry hentry => (hparent _).trans ((h t ht).2 entry hentry)⟩

private theorem parentId_of_view {b : Agent} (h : b.view = a.view) (id : Int) :
    (b.pool.nodeAt id).parentId = (a.pool.nodeAt id).parentId :=
  congrArg Shape.parentId (congrFun (congrArg PoolView.shape h) (id - 1))

private theorem traced_endTrace (h : Holds a.pool f []) (htraced : Traced started a.pool f) (id : Int)
    (raises : Bool) :
    match endTrace id raises a with
    | .ok _ a' => Traced started a'.pool (f.finish id)
    | .error _ a' => Traced started a'.pool f := by
  by_cases hroot : ∃ t ∈ f, t.root = id
  · obtain ⟨t, ht, rfl⟩ := hroot
    have hspec := endTrace_root h ht raises
    split at hspec
    · obtain ⟨b, q, -, hview, hend, -, -, hnodes, -⟩ := hspec
      simp only [hend]
      intro u hu
      have hnode (other : Int) : q.nodeAt other = b.pool.nodeAt other := congrFun hnodes (other - 1)
      refine htraced.congr (fun other => ?_) u (List.mem_filter.1 hu).1
      rw [hnode]
      exact parentId_of_view hview other
    · obtain ⟨e, b, -, hview, hend, -⟩ := hspec
      simp only [hend]
      exact htraced.congr (parentId_of_view hview)
  · have hne : ∀ t ∈ f, t.root ≠ id := fun t ht heq => hroot ⟨t, ht, heq⟩
    have hview := endTrace_other h hne raises
    cases hend : endTrace id raises a with
    | ok _ a' =>
      rw [finalState_of_ok hend] at hview
      exact fun u hu => htraced.congr (parentId_of_view hview) u (List.mem_filter.1 hu).1
    | error _ a' =>
      rw [finalState_of_error hend] at hview
      exact htraced.congr (parentId_of_view hview)

private theorem traced_kept (h : Holds a.pool f []) (hstarted : Started a f parent id a')
    (htraced : Traced started a.pool f) {t : Trace} (ht : t ∈ f) :
    ∀ entry ∈ started t.root, (a'.pool.nodeAt entry.2).parentId = entry.1 := by
  intro entry hentry
  have hkid : entry.2 ∈ t.kids := (htraced t ht).1 ▸ List.mem_map_of_mem hentry
  obtain ⟨next, extra, hnode⟩ := hstarted.kept entry.2 (h.live_of_mem ht (List.mem_cons_of_mem _ hkid))
  rw [hnode]
  exact (htraced t ht).2 entry hentry

private theorem traced_startRoot (h : Holds a.pool f []) (hstarted : Started a f rootNode id a')
    (htraced : Traced started a.pool f) :
    Traced (Function.update started id []) a'.pool (f.start rootNode id) := by
  intro t ht
  rw [Forest.start, if_pos rfl, List.mem_append, List.mem_singleton] at ht
  obtain ht | rfl := ht
  · have hne : t.root ≠ id := fun heq =>
      hstarted.dead (heq ▸ h.live_of_mem ht (List.mem_cons_self ..))
    rw [Function.update_of_ne hne]
    exact ⟨(htraced t ht).1, traced_kept h hstarted htraced ht⟩
  · simp

private theorem traced_startChild (h : Holds a.pool f []) (hstarted : Started a f parent id a')
    (hne : parent ≠ rootNode) (htraced : Traced started a.pool f) :
    let root := (a.pool.nodeAt parent).rootId
    Traced (Function.update started root (started root ++ [(parent, id)])) a'.pool (f.start parent id) := by
  intro root u hu
  rw [Forest.start, if_neg hne] at hu
  obtain ⟨t, ht, rfl⟩ := List.mem_map.1 hu
  have hkept := traced_kept h hstarted htraced ht
  by_cases hmem : parent ∈ t.nodes
  · have hroot : t.root = root := ((h.ok t ht).node_ids hmem).2.symm
    have hself := ((h.ok t ht).node_ids hmem).1
    have hparent : (a'.pool.nodeAt id).parentId = parent := by
      obtain ⟨n, ⟨hzero, -⟩ | ⟨_, -, -, sequence, hnode⟩⟩ := hstarted.node
      · exact absurd hzero hne
      · rw [hnode]
        exact hself
    rw [if_pos hmem, hroot, Function.update_self]
    constructor
    · simp [← hroot, (htraced t ht).1]
    · intro entry hentry
      obtain hold | hnew := List.mem_append.1 hentry
      · exact hkept entry (hroot ▸ hold)
      · rw [List.mem_singleton.1 hnew]
        exact hparent
  · have hroot : t.root ≠ root := by
      intro heq
      obtain ⟨u, hu, hin⟩ := h.exists_trace (hstarted.parent.resolve_left hne)
      have hsame : u.root = t.root := ((h.ok u hu).node_ids hin).2.symm.trans heq.symm
      -- two traces with one root are one trace
      obtain ⟨l₁, l₂, hf, -, hdisjoint⟩ := h.exists_split ht
      have hapart := hdisjoint t.root (List.mem_cons_self ..)
      rw [hf, List.mem_append, List.mem_cons] at hu
      obtain hu | rfl | hu := hu
      · exact hapart.1 (Forest.mem_nodes_of_mem hu (hsame ▸ List.mem_cons_self ..))
      · exact hmem hin
      · exact hapart.2 (Forest.mem_nodes_of_mem hu (hsame ▸ List.mem_cons_self ..))
    rw [if_neg hmem, Function.update_of_ne hroot]
    exact ⟨(htraced t ht).1, hkept⟩

end Traced

namespace Journal

/-- The agent's traces and nodes are as the caller knows them. -/
structure Faithful (j : Journal) : Prop where
  world : j.world.Ok
  traced : Traced j.started j.world.agent.pool j.world.forest
  nodes : PoolRemembers j.ended j.clues j.world.agent.pool

variable {j : Journal}

private theorem faithful_new (agentType : Int) (clock : Nat → Nat) : (new agentType clock).Faithful := by
  refine ⟨World.ok_new agentType clock, nofun, fun id hlive => ?_⟩
  have hmem := (Holds.new.live_iff id).1 hlive
  simp at hmem

private theorem Faithful.startTrace (h : j.Faithful) {parentId : Int} {opts : List String}
    (hreadable : OptionsReadable j.world.agent parentId opts) :
    (j.step (.startTrace parentId opts)).Faithful := by
  suffices hknown : Traced (j.step (.startTrace parentId opts)).started
        (j.world.agent.after (.startTrace parentId opts)).pool
        (j.world.nextForest (.startTrace parentId opts)) ∧
      PoolRemembers (j.step (.startTrace parentId opts)).ended (j.step (.startTrace parentId opts)).clues
        (j.world.agent.after (.startTrace parentId opts)).pool from
    ⟨h.world.step _, hknown.1, hknown.2⟩
  obtain ⟨id, a', hstart, hstarted⟩ | ⟨e, hstart, -⟩ := startNode_spec h.world.holds parentId
  · have hreads : parentId = rootNode ∨ ∀ opt ∈ opts, ¬OptionThrows opt := by
      obtain hroot | hdead | hexhausted | hopts := hreadable
      · exact .inl hroot
      · exact .inl (hstarted.parent.resolve_right hdead)
      · exact absurd hexhausted hstarted.ready
      · exact .inr hopts
    have hid := startTraceV1_of_ok hstart hreads
    have hne : id ≠ invalidNode := ((hstarted.live_iff id).2 (.inl rfl)).ne_invalidNode
    have hagent := World.after_startTrace opts hstart
    rw [finalState_setNodeUserOption] at hagent
    obtain ⟨options, hoptions⟩ := setNodeUserOption_eq (a'.pool.nodeAt id)
      (if parentId = rootNode then [] else opts)
    rw [hoptions] at hagent
    simp only [step, note, hid, if_neg hne, World.nextForest_startTrace opts hstart, noteStart]
    constructor
    · apply Traced.congr _ (parentId_of_view (World.view_after_startTrace opts hstart))
      split
      · next hroot =>
        subst hroot
        exact traced_startRoot h.world.holds hstarted h.traced
      · next hroot => exact traced_startChild h.world.holds hstarted hroot h.traced
    · rw [hagent]
      exact (remembers_started hstarted h.nodes).modifyNode fun _ hnode =>
        hnode.congr rfl rfl rfl rfl fun hnone => hnone
  · simp only [step, note, startTraceV1_of_error hstart, if_pos, World.nextForest_startTrace_of_error opts hstart,
      World.after_startTrace_of_error opts hstart]
    exact ⟨h.traced, h.nodes⟩

private theorem Faithful.of_view (h : j.Faithful) {a : Agent} {clues : Int → List (String × String)}
    (hok : World.Ok ⟨a, j.world.forest⟩) (hview : a.view = j.world.agent.view)
    (hnodes : PoolRemembers j.ended clues a.pool) :
    Faithful { j with world := ⟨a, j.world.forest⟩, clues := clues } :=
  ⟨hok, h.traced.congr (parentId_of_view hview), hnodes⟩

private theorem Faithful.step (h : j.Faithful) {call : ApiCall} (hreadable : j.world.Readable call) :
    (j.step call).Faithful := by
  have hholds := h.world.holds
  have hok := h.world.step call
  cases call with
  | startTrace parentId opts => exact h.startTrace hreadable
  | endTrace id raises =>
    refine ⟨hok, ?_, remembers_endTrace hholds (h.nodes.noteEnd id) (Function.update_self ..) raises⟩
    have htraced := traced_endTrace hholds h.traced id raises
    cases hend : Agent.endTrace id raises j.world.agent with
    | ok parent a' =>
      simp only [hend] at htraced
      have hagent : j.world.agent.after (.endTrace id raises) = a' := finalState_of_ok hend
      simpa only [Journal.step, note, World.step, World.nextForest, hend, hagent] using htraced
    | error e a' =>
      simp only [hend] at htraced
      have hagent : j.world.agent.after (.endTrace id raises) = a' := finalState_of_error hend
      simpa only [Journal.step, note, World.step, World.nextForest, hend, hagent] using htraced
  | addClue id key value flag =>
    have hview : (j.world.agent.after (.addClue id key value flag)).view = j.world.agent.view :=
      frames_annotateTraceV1 id key value flag j.world.agent
    obtain ⟨hcond, hfinal⟩ | ⟨hcond, hnodes⟩ := remembers_annotateTraceV1 hholds h.nodes id key value flag
    · simp only [Journal.step, note, if_pos hcond]
      refine h.of_view hok hview ?_
      rw [Agent.after, hfinal]
      exact h.nodes
    · simp only [Journal.step, note, if_neg hcond]
      exact h.of_view hok hview hnodes
  | addClues id key value flag =>
    exact h.of_view hok (frames_annotateTraceV2 id key value flag j.world.agent)
      (remembers_annotateTraceV2 hholds h.nodes key value flag)
  | addException id exception =>
    exact h.of_view hok (frames_annotateExceptionTrace id exception j.world.agent)
      (remembers_annotateExceptionTrace hholds h.nodes exception)
  | catchError id msg file line =>
    exact h.of_view hok (frames_annotateErrorTrace id msg file line j.world.agent)
      (remembers_annotateRoot hholds h.nodes (by decide) (by decide))
  | setContextKey id key value =>
    exact h.of_view hok (frames_addTraceContext id key value j.world.agent)
      (remembers_addTraceContext hholds h.nodes key value)
  | setAsyncCtx id asyncNodeId nodeSequence =>
    exact h.of_view hok (frames_setAsyncContext id asyncNodeId nodeSequence j.world.agent)
      (remembers_annotateRoot hholds h.nodes (by decide) (by decide))
  | changeTraceStatus id status =>
    exact h.of_view hok (changeTraceStatus_view hholds id status)
      (remembers_changeTraceStatus hholds h.nodes status)

private theorem Faithful.run (h : j.Faithful) {calls : List ApiCall}
    (hreadable : j.world.Along World.Readable calls) : (j.run calls).Faithful := by
  induction calls generalizing j with
  | nil => exact h
  | cons call calls ih => exact ih (h.step hreadable.1) hreadable.2

end Journal

section Encode

variable {ended : Int → Bool} {clues : Int → List (String × String)} {a : Agent} {f : Forest} {t : Trace}
  {root id : Int}

private theorem stamp_forcedEnd (hr : PoolRemembers ended clues a.pool) (hlive : a.pool.Live id)
    (hnone : (a.pool.nodeAt id).rootNodeExtra = none) :
    Stamp (a.pool.nodeAt id) ((a.forcedEnd id).pool.nodeAt id).value := by
  unfold Agent.forcedEnd
  split
  · rw [Agent.endedNode, PoolManager.nodeAt_modifyNode_self, (TraceNode.endTrace_fields _ _).2.2.2]
    exact stamp_endMembers _ _ hnone
  · next hended => exact (hr id hlive).stamped hnone hended

private theorem get_appendedEvent (a : Agent) (root id : Int) :
    (((a.appendedEvent root id).pool.nodeAt root).value.get "event").items =
      ((a.pool.nodeAt root).value.get "event").items ++ [.obj (a.pool.nodeAt id).value] := by
  rw [Agent.appendedEvent, PoolManager.nodeAt_modifyNode_self, Members.get_set_self]
  rfl

private theorem events_encodedKids {ids : List Int} (hr : PoolRemembers ended clues a.pool)
    (hended : ended root = true) (hroot : (a.pool.nodeAt root).rootNodeExtra ≠ none)
    (hnodup : (root :: ids).Nodup)
    (hkids : ∀ id ∈ ids, a.pool.Live id ∧ (a.pool.nodeAt id).rootNodeExtra = none) :
    ∃ events : List Members,
      (((a.encodedKids root ids).pool.nodeAt root).value.get "event").items =
        ((a.pool.nodeAt root).value.get "event").items ++ events.map .obj ∧
      List.Forall₂ (fun id m => Stamp (a.pool.nodeAt id) m ∧ CarriesClues (clues id) m) ids events := by
  induction ids generalizing a with
  | nil => exact ⟨[], by simp [Agent.encodedKids], .nil⟩
  | cons id ids ih =>
    simp only [List.nodup_cons, List.mem_cons, not_or] at hnodup
    obtain ⟨⟨hne, hnotin⟩, hid, hnodup⟩ := hnodup
    obtain ⟨hlive, hnone⟩ := hkids id (List.mem_cons_self ..)
    have hforced := view_forcedEnd a id
    have hview := (view_appendedEvent (a.forcedEnd id) root id).trans hforced
    have hsame : ∀ k ∈ ids, ((a.forcedEnd id).appendedEvent root id).pool.nodeAt k = a.pool.nodeAt k := by
      intro k hk
      have hkroot : k ≠ root := fun heq => hnotin (heq ▸ hk)
      have hkid : k ≠ id := fun heq => hid (heq ▸ hk)
      rw [Agent.appendedEvent, PoolManager.nodeAt_modifyNode_of_ne _ hkroot, nodeAt_forcedEnd_of_ne a hkid]
    have hr₁ := hr.forcedEnd id
    obtain ⟨events, hitems, hevents⟩ := ih
      (hr₁.appendedEvent hended (mt (extra_of_view hforced root).1 hroot) id)
      (mt (extra_of_view hview root).1 hroot) (List.nodup_cons.2 ⟨hnotin, hnodup⟩) (fun k hk => by
        rw [live_of_view hview, extra_of_view hview]
        exact hkids k (List.mem_cons_of_mem _ hk))
    refine ⟨((a.forcedEnd id).pool.nodeAt id).value :: events, ?_, .cons ⟨?_, ?_⟩ ?_⟩
    · rw [Agent.encodedKids, hitems, get_appendedEvent, nodeAt_forcedEnd_of_ne a hne]
      simp
    · exact stamp_forcedEnd hr hlive hnone
    · exact (hr₁ id ((live_of_view hforced).2 hlive)).carried ((extra_of_view hforced id).2 hnone)
    · have hrel := hevents
      rw [List.forall₂_iff_get] at hrel ⊢
      refine ⟨hrel.1, fun i hi hj => ?_⟩
      rw [← hsame _ (List.get_mem ids ⟨i, hi⟩)]
      exact hrel.2 i hi hj

private theorem span_of_endTrace (h : Holds a.pool f []) (ht : t ∈ f) {raises : Bool} {span : Members}
    (hpass : (a.pool.rootExtra t.root).status = tracePass)
    (hspan : (pinpointEndTrace a t.root raises).2.spans = a.spans ++ [span]) :
    span = ((a.handedOver t).pool.nodeAt t.root).value := by
  have hhanded : (a.handedOver t).spans = a.spans ++ [((a.handedOver t).pool.nodeAt t.root).value] := by
    rw [Agent.handedOver]
    dsimp only [Agent.encodedRoot]
    rw [spans_encodedKids]
    rfl
  have hdeliver := deliverRoot_eq h ht raises
  rw [if_neg (not_not.2 hpass)] at hdeliver
  have hspans : (pinpointEndTrace a t.root raises).2.spans = (finalState (deliverRoot t.root raises) a).spans := by
    have hspec := endTrace_root h ht raises
    split at hspec
    · obtain ⟨b, q, hb, -, hend, -⟩ := hspec
      simp only [pinpointEndTrace, hend, finalState_of_ok hb]
    · obtain ⟨e, b, hb, -, hend, -⟩ := hspec
      simp only [pinpointEndTrace, hend, finalState_of_error hb]
  rw [hspans] at hspan
  split at hdeliver
  · have hfinal : finalState (deliverRoot t.root raises) a = a.handedOver t := by
      cases raises with
      | false => exact finalState_of_ok hdeliver
      | true => exact finalState_of_error hdeliver
    rw [hfinal, hhanded] at hspan
    simpa using hspan.symm
  · -- nothing was handed over
    rw [finalState_of_error hdeliver] at hspan
    have hsame : ((a.endedNode t.root).forcedEnd (a.pool.nodeAt t.root).next).spans = a.spans := by
      unfold Agent.forcedEnd
      split <;> rfl
    rw [hsame] at hspan
    simp at hspan

private theorem event_endedNode (a : Agent) (id : Int) :
    ((a.endedNode id).pool.nodeAt id).value.get "event" = (a.pool.nodeAt id).value.get "event" := by
  rw [Agent.endedNode, PoolManager.nodeAt_modifyNode_self, (TraceNode.endTrace_fields _ _).2.2.2,
    get_endMembers_event]

private theorem kid_extra (h : Holds a.pool f []) (ht : t ∈ f) (hid : id ∈ t.kids) :
    (a.pool.nodeAt id).rootNodeExtra = none := by
  obtain ⟨i, hi⟩ := List.mem_iff_getElem?.1 hid
  obtain ⟨_, _, hshape⟩ := (h.ok t ht).kid i id hi
  exact Option.map_eq_none_iff.1 (congrArg Shape.extra hshape)

private theorem events_handedOver (h : Holds a.pool f []) (ht : t ∈ f)
    (hr : PoolRemembers ended clues a.pool) (hfirst : ended t.root = false) :
    ∃ events : List Members,
      (((a.handedOver t).pool.nodeAt t.root).value.get "event").items = events.map .obj ∧
      List.Forall₂ (fun id m => Stamp (a.pool.nodeAt id) m ∧ CarriesClues (clues id) m) t.kids events := by
  obtain ⟨_, _, _, hnodup, _⟩ := h.exists_split ht
  have hview := view_endedNode a t.root
  have hnone : ((a.pool.nodeAt t.root).value.get "event").items = [] :=
    (hr t.root (h.live_of_mem ht (List.mem_cons_self ..))).events hfirst
  obtain ⟨events, hitems, hevents⟩ := events_encodedKids ((hr.noteEnd t.root).endedNode t.root)
    (Function.update_self ..) (mt (extra_of_view hview t.root).1 (root_extra h ht)) hnodup (fun k hk => by
      rw [live_of_view hview, extra_of_view hview]
      exact ⟨h.live_of_mem ht (List.mem_cons_of_mem _ hk), kid_extra h ht hk⟩)
  refine ⟨events, ?_, ?_⟩
  · obtain ⟨skipped, hskipped⟩ := runUserOptionFunc_eq (((a.endedNode t.root).encodedKids t.root t.kids).pool.nodeAt t.root)
    rw [event_endedNode, hnone, List.nil_append] at hitems
    rw [← hitems, Agent.handedOver]
    dsimp only [Agent.encodedRoot]
    rw [PoolManager.nodeAt_modifyNode_self, hskipped]
  · rw [List.forall₂_iff_get] at hevents ⊢
    refine ⟨hevents.1, fun i hi hj => ?_⟩
    have hne : t.kids.get ⟨i, hi⟩ ≠ t.root := fun heq =>
      (List.nodup_cons.1 hnodup).1 (heq ▸ List.get_mem t.kids ⟨i, hi⟩)
    have hsame : (a.endedNode t.root).pool.nodeAt (t.kids.get ⟨i, hi⟩) =
        a.pool.nodeAt (t.kids.get ⟨i, hi⟩) := by
      rw [Agent.endedNode, PoolManager.nodeAt_modifyNode_of_ne _ hne]
    have hevent := hevents.2 i hi hj
    rwa [hsame] at hevent

end Encode

/-- What the event of the `i`-th node started under a root, with parent `parent`, carries. -/
structure EventOf (j : Journal) (i : Nat) (parent id : Int) (m : Members) : Prop where
  sequence : m.get ":seq" = .int i
  depth : m.get ":depth" = .int ((j.world.agent.pool.nodeAt parent).depth + 1)
  elapsed : ∃ ms, m.get ":E" = .int ms
  offset : ∃ ms, m.get ":S" = .uint ms
  clues : CarriesClues (j.clues id) m

/-- In every run in which no start fails on its options, the span handed over at the first end
of a root has one event for each start under that root that returned a node, in order. -/
theorem span_lists_started_nodes (agentType : Int) (clock : Nat → Nat) (calls : List ApiCall) (r : Int)
    (raises : Bool) (span : Members) (j : Journal) (hj : j = (Journal.new agentType clock).run calls)
    (hreadable : (World.new agentType clock).Along World.Readable calls)
    (hlive : j.world.agent.pool.Live r) (hroot : IsRoot j.world.agent.pool r)
    (hpass : (j.world.agent.pool.rootExtra r).status = tracePass) (hfirst : j.ended r = false)
    (hspan : (pinpointEndTrace j.world.agent r raises).2.spans = j.world.agent.spans ++ [span]) :
    ∃ events : List Members, (span.get "event").items = events.map .obj ∧
      events.length = (j.started r).length ∧
      ∀ i parent id, (j.started r)[i]? = some (parent, id) →
        ∃ m, events[i]? = some m ∧ EventOf j i parent id m := by
  have hfaithful : j.Faithful := by
    rw [hj]
    exact (Journal.faithful_new agentType clock).run hreadable
  have h := hfaithful.world.holds
  obtain ⟨t, ht, rfl⟩ := exists_trace_of_root h hlive hroot.2.1
  obtain ⟨events, hitems, hevents⟩ := events_handedOver h ht hfaithful.nodes hfirst
  obtain ⟨hkids, hparents⟩ := hfaithful.traced t ht
  have hlength : t.kids.length = (j.started t.root).length := by rw [← hkids, List.length_map]
  rw [← span_of_endTrace h ht hpass hspan] at hitems
  refine ⟨events, hitems, hevents.length_eq.symm.trans hlength, ?_⟩
  intro i parent id hentry
  have hkid : t.kids[i]? = some id := by rw [← hkids, List.getElem?_map, hentry]; rfl
  obtain ⟨hi, hget⟩ := List.getElem?_eq_some_iff.1 hkid
  obtain ⟨m, hm⟩ : ∃ m, events[i]? = some m :=
    ⟨_, List.getElem?_eq_getElem (hevents.length_eq ▸ hi)⟩
  have hparent := hparents _ (List.mem_of_getElem? hentry)
  obtain ⟨p, -, hshape⟩ := (h.ok t ht).kid i id hkid
  have hsequence : (j.world.agent.pool.nodeAt id).sequence = i := congrArg Shape.sequence hshape
  have hdepth : (j.world.agent.pool.nodeAt id).depth = (j.world.agent.pool.nodeAt p).depth + 1 :=
    congrArg Shape.depth hshape
  have hp : p = parent := (congrArg Shape.parentId hshape).symm.trans hparent
  obtain ⟨hmi, hmget⟩ := List.getElem?_eq_some_iff.1 hm
  obtain ⟨hstamp, hclues⟩ := (List.forall₂_iff_get.1 hevents).2 i hi hmi
  simp only [List.get_eq_getElem, hget, hmget] at hstamp hclues
  exact ⟨m, hm, hsequence ▸ hstamp.sequence, hp ▸ hdepth ▸ hstamp.depth, hstamp.elapsed, hstamp.offset,
    hclues⟩

/-- A root, a child with a clue that is ended, and a node under it that is not. -/
def clueAndForcedEnd : List ApiCall :=
  [.startTrace 0 [], .startTrace 128 [], .addClue 127 "k" "v" 0, .startTrace 127 [], .endTrace 127 false]

theorem span_lists_started_nodes_clue :
    let j := (Journal.new 1500 id).run clueAndForcedEnd
    j.started 128 = [(128, 127), (127, 126)] ∧ ∃ span,
      (pinpointEndTrace j.world.agent 128 false).2.spans = j.world.agent.spans ++ [span] ∧
      ∃ events : List Members, (span.get "event").items = events.map .obj ∧
        events.length = (j.started 128).length ∧
        ∀ i parent id, (j.started 128)[i]? = some (parent, id) →
          ∃ m, events[i]? = some m ∧ EventOf j i parent id m := by
  intro j
  have hnone : j.world.agent.spans = [] := List.eq_nil_of_length_eq_zero (by decide +kernel)
  obtain ⟨span, hone⟩ := List.length_eq_one_iff.1
    (by decide +kernel : (pinpointEndTrace j.world.agent 128 false).2.spans.length = 1)
  have hspan : (pinpointEndTrace j.world.agent 128 false).2.spans = j.world.agent.spans ++ [span] := by
    rw [hone, hnone]
    rfl
  exact ⟨by decide +kernel, span, hspan, span_lists_started_nodes 1500 id clueAndForcedEnd 128 false span j
    rfl (by decide +kernel) (by decide +kernel) (by decide +kernel) (by decide +kernel) (by decide +kernel)
    hspan⟩

/-- A start that fails on its option is answered with no node and is in the span all the same. -/
theorem failed_start_in_span :
    let j := (Journal.new 1500 id).run [.startTrace 0 [], .startTrace 128 ["TraceMinTimeMs:x"]]
    j.started 128 = [] ∧ j.ended 128 = false ∧
      (j.world.agent.pool.rootExtra 128).status = tracePass ∧ j.world.agent.spans.length = 0 ∧
      (pinpointEndTrace j.world.agent 128 false).2.spans.map
        (fun span => (span.get "event").items.length) = [1] := by
  decide +kernel

end PinpointAgent.Agent
