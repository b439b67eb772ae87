import PinpointAgent.Python.CallTree

/-!
# Nested traced calls

Each wrapper starts a node under the node that the trace context names, puts the new one there, and at
the end puts back what `end_trace` returns. So the context is carried through a tree of calls by the
parent links of the agent, which no call changes while the node is live.

Two things break the chain. The result of `start_trace` goes into the context also when it is `-1`, and
`end_trace(-1)` ends nothing and returns `-1`, so that the rest of the request is not traced. And
`onBefore` runs in front of the `try`, so that what it raises after it started the node leaves the node
open and in the context.
-/

namespace PinpointAgent.Python

open Framework NodePool Agent

variable {ε ν α : Type} {root : Int}

/-! ## What a call leaves -/

/-- The context is what it was, and each node started during the call was ended once. -/
def CallRecord.Restored (r : CallRecord) : Prop :=
  r.after = r.before ∧ ∀ id, .started id ∈ r.events → r.events.count (.ended id) = 1

def Faulty (events : List Event) : Prop := .startFailed ∈ events ∨ .hookRaised ∈ events

instance decidableFaulty (events : List Event) : Decidable (Faulty events) := inferInstanceAs (Decidable (_ ∨ _))

/-- The nodes that turned `t` into `t'` were started and ended once. -/
structure Paired (t t' : NodePool.Trace) (events : List Event) : Prop where
  fresh : ∀ id, .started id ∈ events → id ∈ t'.nodes ∧ id ∉ t.nodes
  once : ∀ id, events.count (.started id) ≤ 1
  ended : ∀ id, events.count (.ended id) = events.count (.started id)

section Paired

variable {t t' t'' : NodePool.Trace} {events events' : List Event} {id : Int}

private theorem faulty_append : Faulty (events ++ events') ↔ Faulty events ∨ Faulty events' := by
  simp only [Faulty, List.mem_append]
  exact or_or_or_comm

private theorem Paired.nil (t : NodePool.Trace) : Paired t t [] :=
  ⟨fun _ h => absurd h List.not_mem_nil, fun _ => Nat.zero_le 1, fun _ => rfl⟩

private theorem Paired.append (h : Paired t t' events) (h' : Paired t' t'' events') (hsub : t.nodes ⊆ t'.nodes)
    (hsub' : t'.nodes ⊆ t''.nodes) : Paired t t'' (events ++ events') := by
  refine ⟨fun id hid => ?_, fun id => ?_, fun id => ?_⟩
  · obtain hid | hid := List.mem_append.1 hid
    · exact ⟨hsub' (h.fresh id hid).1, (h.fresh id hid).2⟩
    · exact ⟨(h'.fresh id hid).1, fun hold => (h'.fresh id hid).2 (hsub hold)⟩
  · rw [List.count_append]
    by_cases hid : .started id ∈ events
    · have hnot : .started id ∉ events' := fun hid' => (h'.fresh id hid').2 (h.fresh id hid).1
      rw [List.count_eq_zero_of_not_mem hnot]
      exact h.once id
    · rw [List.count_eq_zero_of_not_mem hid, Nat.zero_add]
      exact h'.once id
  · rw [List.count_append, List.count_append, h.ended, h'.ended]

private theorem Paired.around (h : Paired (grown t id) t' events) (hnew : id ∉ t.nodes) (hsub : (grown t id).nodes ⊆ t'.nodes) :
    Paired t t' (.started id :: events ++ [.ended id]) := by
  have hnone : events.count (.started id) = 0 :=
    List.count_eq_zero_of_not_mem fun hid => (h.fresh id hid).2 (mem_grown.2 (.inr rfl))
  refine ⟨fun other hother => ?_, fun other => ?_, fun other => ?_⟩
  · simp only [List.cons_append, List.mem_cons, List.mem_append, Event.started.injEq, reduceCtorEq,
      List.not_mem_nil, or_false] at hother
    obtain rfl | hother := hother
    · exact ⟨hsub (mem_grown.2 (.inr rfl)), hnew⟩
    · exact ⟨(h.fresh other hother).1, fun hold => (h.fresh other hother).2 (mem_grown.2 (.inl hold))⟩
  · by_cases heq : other = id
    · subst heq
      simp [hnone]
    · have := h.once other
      simpa [List.count_cons, Ne.symm heq] using this
  · by_cases heq : other = id
    · subst heq
      simp [h.ended, hnone]
    · simp [h.ended, Ne.symm heq]

private theorem Paired.ended_once (h : Paired t t' events) (hid : .started id ∈ events) : events.count (.ended id) = 1 := by
  have hpos := List.count_pos_iff.2 hid
  have honce := h.once id
  rw [h.ended]
  omega

end Paired

/-- After a stretch without a fault the context is as before, and the trace has grown by ended nodes. -/
structure Kept (t : NodePool.Trace) (s s' : PyState) (events : List Event) : Prop where
  context : s'.parentId = s.parentId
  parents : SameParents t s s'
  inside : ∃ f' t', Inside f' t' s' ∧ t'.root = t.root ∧ t.nodes ⊆ t'.nodes ∧ Paired t t' events

/-- A stretch of a run in the transaction of `root`: with a fault in it some call was not restored, or
the stretch itself shows it by `Lost`; without one every call was restored. -/
def Stretch (root : Int) (Lost : PyState → PyState → Prop) (x y : PyState × CallLog) : Prop :=
  ∃ events records, y.2 = ⟨x.2.events ++ events, x.2.records ++ records⟩ ∧
    ∀ f t, t.root = root → Inside f t x.1 →
      Faulty events ∧ ((∃ r ∈ records, ¬r.Restored) ∨ Lost x.1 y.1) ∨
      ¬Faulty events ∧ (∀ r ∈ records, r.Restored) ∧ Kept t x.1 y.1 events

abbrev Whole (root : Int) : PyState × CallLog → PyState × CallLog → Prop := Stretch root fun _ _ => False

section Stretch

variable {t : NodePool.Trace} {x y z : PyState × CallLog} {Lost : PyState → PyState → Prop}

private theorem Kept.trans {s s' s'' : PyState} {events events' : List Event} (h : Kept t s s' events)
    (hnext : ∀ f' t', t'.root = t.root → Inside f' t' s' → Kept t' s' s'' events') :
    Kept t s s'' (events ++ events') := by
  obtain ⟨f', t', hinside', hroot, hsub, hpaired⟩ := h.inside
  have h' := hnext f' t' hroot hinside'
  obtain ⟨f'', t'', hinside'', hroot', hsub', hpaired'⟩ := h'.inside
  refine ⟨h'.context.trans h.context, fun id hid => (h'.parents id (hsub hid)).trans (h.parents id hid), f'', t'',
    hinside'', hroot'.trans hroot, List.Subset.trans hsub hsub', hpaired.append hpaired' hsub hsub'⟩

private theorem Whole.trans (x y z : PyState × CallLog) (h : Whole root x y) (h' : Whole root y z) : Whole root x z := by
  obtain ⟨events, records, hy, hspec⟩ := h
  obtain ⟨events', records', hz, hspec'⟩ := h'
  refine ⟨events ++ events', records ++ records', ?_, fun f t ht hinside => ?_⟩
  · rw [hz, hy, List.append_assoc, List.append_assoc]
  rw [faulty_append]
  obtain ⟨hfaulty, ⟨r, hr, hbad⟩ | hfalse⟩ | ⟨hclean, hgood, hkept⟩ := hspec f t ht hinside
  · exact .inl ⟨.inl hfaulty, .inl ⟨r, List.mem_append_left _ hr, hbad⟩⟩
  · exact hfalse.elim
  -- the second stretch is entered inside the transaction
  obtain ⟨f', t', hinside', hroot, -⟩ := hkept.inside
  obtain ⟨hfaulty, ⟨r, hr, hbad⟩ | hfalse⟩ | ⟨hclean', hgood', -⟩ := hspec' f' t' (hroot.trans ht) hinside'
  · exact .inl ⟨.inr hfaulty, .inl ⟨r, List.mem_append_right _ hr, hbad⟩⟩
  · exact hfalse.elim
  refine .inr ⟨not_or.2 ⟨hclean, hclean'⟩, fun r hr => (List.mem_append.1 hr).elim (hgood r) (hgood' r), ?_⟩
  refine hkept.trans fun f' t' hroot hinside' => ?_
  obtain ⟨hfaulty, -⟩ | ⟨-, -, hkept'⟩ := hspec' f' t' (hroot.trans ht) hinside'
  · exact absurd hfaulty hclean'
  · exact hkept'

private theorem Whole.weaken (h : Whole root x y) : Stretch root Lost x y := by
  obtain ⟨events, records, hy, hspec⟩ := h
  refine ⟨events, records, hy, fun f t ht hinside => ?_⟩
  exact (hspec f t ht hinside).imp_left fun hbad => ⟨hbad.1, .inl (hbad.2.resolve_right id)⟩

private theorem Stretch.of_quiet {s s' : PyState} (h : Quiet root s s') (log : CallLog) :
    Stretch root Lost (s, log) (s', log) := by
  refine ⟨[], [], by rw [List.append_nil, List.append_nil], fun f t ht hinside => ?_⟩
  obtain ⟨⟨f', hinside'⟩, hcontext, hsame⟩ := hinside.quiet (ht ▸ h)
  refine .inr ⟨by decide, fun r hr => absurd hr List.not_mem_nil, hcontext, hsame, f', t, hinside', rfl,
    List.Subset.refl _, .nil t⟩

end Stretch

/-! ## One wrapped call -/

/-- The thread and the trace context once `end_trace` was called. -/
def PyState.finished (s : PyState) (sendRaises : Bool) (traceId : Int) : PyState :=
  ⟨(pyEndTrace s.thread traceId sendRaises).2, (pyEndTrace s.thread traceId sendRaises).1⟩

section Wrapped

variable {f : Forest} {t : NodePool.Trace} {s s₁ s₃ s₆ : PyState} {id : Int} {env : Env ε ν α} {p : Plugin root ε ν α}

private theorem Inside.finish (h : Inside f t s) (hid : id ∈ t.nodes) (hne : id ≠ t.root) (sendRaises : Bool) :
    Inside f t (s.finished sendRaises id) ∧ (s.finished sendRaises id).parentId = s.thread.agent.parentOf id ∧
      SameParents t s (s.finished sendRaises id) ∧ endEvents sendRaises id s = [.ended id] := by
  have hlive := h.live hid
  have hresolve : s.resolve id = id := resolve_of_live hlive s
  obtain ⟨hend, hparent⟩ := pinpointEndTrace_child h.ok.holds h.mem hid hne sendRaises
  have hview := view_endedNode s.thread.agent id
  have hfinished : s.finished sendRaises id =
      ⟨⟨s.thread.agent.endedNode id, s.thread.perThreadId⟩, s.thread.agent.parentOf id⟩ := by
    have hminus : id ≠ -1 := by
      have := hlive.pos
      omega
    rw [PyState.finished, pyEndTrace, if_neg hminus, hend]
  have hevents : Agent.endTrace id sendRaises s.thread.agent = _ :=
    endTrace_child hlive (not_isRootNode h.ok.holds h.mem hid hne) sendRaises
  rw [hfinished]
  refine ⟨⟨⟨h.ok.holds.congr hview, ?_⟩, h.mem, .inr hparent, h.perThread⟩, rfl,
    fun other _ => congrFun (parentOf_of_view hview) other, ?_⟩
  · exact (PoolManager.sameAllocation_of_view hview).log.trans h.ok.log
  · rw [endEvents, hresolve, hevents]

private theorem Inside.finish_invalid (h : Inside f t s) (sendRaises : Bool) :
    (s.finished sendRaises invalidNode).parentId = invalidNode := by
  have hdead : ¬s.thread.agent.pool.Live s.thread.perThreadId := fun hlive =>
    absurd h.perThread (not_le.2 hlive.pos)
  rw [PyState.finished, pyEndTrace, if_pos rfl, PyThread.endThreadLocalTrace, pinpointEndTrace_dead hdead]

private theorem startEvent_of_pos (h : 0 < id) : startEvent id = .started id :=
  if_neg (show id ≠ -1 by omega)

private theorem Kept.around {s₂ s₄ : PyState} {events : List Event} (hkept : Kept (grown t s₂.parentId) s₃ s₄ events)
    (hnew : s₂.parentId ∉ t.nodes) (hparent : s₂.thread.agent.parentOf s₂.parentId = s.parentId)
    (hsame : SameParents t s s₂) (hsame₃ : SameParents (grown t s₂.parentId) s₂ s₃) (hending : Quiet t.root s₄ s₆)
    (sendRaises : Bool) :
    endEvents sendRaises s₂.parentId s₆ = [.ended s₂.parentId] ∧
      Kept t s (s₆.finished sendRaises s₂.parentId) (.started s₂.parentId :: events ++ [.ended s₂.parentId]) := by
  obtain ⟨f₄, t', h₄, hroot, hsub, hpaired⟩ := hkept.inside
  obtain ⟨⟨f₆, h₆⟩, -, hsame₆⟩ := h₄.quiet (hroot ▸ hending)
  have hself : s₂.parentId ∈ (grown t s₂.parentId).nodes := mem_grown.2 (.inr rfl)
  have hold {other : Int} (hother : other ∈ t.nodes) : other ∈ (grown t s₂.parentId).nodes := mem_grown.2 (.inl hother)
  have hne : s₂.parentId ≠ t'.root := fun heq => hnew (heq.trans hroot ▸ List.mem_cons_self)
  obtain ⟨h₇, hcontext, hsame₇, hevents⟩ := h₆.finish (hsub hself) hne sendRaises
  -- nothing has moved the node or the ones that were there before it
  have hmoved (other : Int) (hother : other ∈ (grown t s₂.parentId).nodes) :
      s₆.thread.agent.parentOf other = s₂.thread.agent.parentOf other :=
    (hsame₆ other (hsub hother)).trans ((hkept.parents other hother).trans (hsame₃ other hother))
  refine ⟨hevents, ?_, ?_, f₆, t', h₇, hroot, fun other hother => hsub (hold hother), hpaired.around hnew hsub⟩
  · exact hcontext.trans ((hmoved _ hself).trans hparent)
  · intro other hother
    exact (hsame₇ other (hsub (hold hother))).trans ((hmoved other (hold hother)).trans (hsame other hother))

private theorem Kept.finish_invalid {s₄ : PyState} {events : List Event} (hkept : Kept t s₃ s₄ events)
    (hending : Quiet t.root s₄ s₆) (sendRaises : Bool) :
    (s₆.finished sendRaises invalidNode).parentId = invalidNode := by
  obtain ⟨f₄, t', h₄, hroot, -⟩ := hkept.inside
  obtain ⟨⟨f₆, h₆⟩, -, -⟩ := h₄.quiet (hroot ▸ hending)
  exact h₆.finish_invalid sendRaises

private theorem stretch_wrapped {log : CallLog} {y : PyState × CallLog} (hpos : 0 < s.parentId) (hbefore : Quiet root s s₁)
    (hid : (s₁.started s.parentId).parentId = id) (hafter : Quiet root (s₁.started s.parentId) s₃)
    (hbody : Whole root (s₃, log.add [startEvent id]) y) (hending : Quiet root y.1 s₆) (sendRaises : Bool) :
    Stretch root (fun s s' => s'.parentId ≠ s.parentId) (s, log)
      (s₆.finished sendRaises id, y.2.add (endEvents sendRaises id s₆)) := by
  obtain ⟨events, records, hlog, hspec⟩ := hbody
  refine ⟨startEvent id :: events ++ endEvents sendRaises id s₆, records, by rw [hlog]; simp [CallLog.add], ?_⟩
  rintro f t rfl hinside
  obtain ⟨⟨f₁, h₁⟩, hcontext, hsame₁⟩ := hinside.quiet hbefore
  rw [← hcontext] at hpos hafter hid
  obtain ⟨⟨f₂, h₂⟩, hnew, hidpos, hparent, hsame₂⟩ | hfailed := h₁.start hpos
  · rw [hid] at h₂ hnew hidpos hparent
    rw [startEvent_of_pos hidpos]
    obtain ⟨⟨f₃, h₃⟩, -, hsame₃⟩ := h₂.quiet hafter
    obtain ⟨hfaulty, hbad⟩ | ⟨hclean, hgood, hkept⟩ := hspec f₃ (grown t id) rfl h₃
    · refine .inl ⟨?_, .inl (hbad.resolve_right False.elim)⟩
      exact faulty_append.2 (.inl (hfaulty.imp (List.mem_cons_of_mem _) (List.mem_cons_of_mem _)))
    · subst hid
      obtain ⟨hevents, hkept⟩ := hkept.around hnew (hparent.trans hcontext)
        (fun other hother => (hsame₂ other hother).trans (hsame₁ other hother)) hsame₃ hending sendRaises
      rw [hevents]
      refine .inr ⟨?_, hgood, hkept⟩
      simpa [Faulty] using hclean
  · -- the context is `-1` from here on, and so is what `end_trace` returns
    rw [hfailed] at hid hafter
    subst hid
    have h₂ : Inside f₁ t ⟨s₁.thread, invalidNode⟩ := ⟨h₁.ok, h₁.mem, .inl (show invalidNode ≤ 0 by decide), h₁.perThread⟩
    obtain ⟨⟨f₃, h₃⟩, -, -⟩ := h₂.quiet hafter
    have hfaulty : Faulty (startEvent invalidNode :: events ++ endEvents sendRaises invalidNode s₆) :=
      .inl List.mem_cons_self
    obtain ⟨-, hbad⟩ | ⟨-, -, hkept⟩ := hspec f₃ t rfl h₃
    · exact .inl ⟨hfaulty, .inl (hbad.resolve_right False.elim)⟩
    · refine .inl ⟨hfaulty, .inr fun heq => ?_⟩
      rw [hkept.finish_invalid hending, ← hcontext] at heq
      rw [← heq] at hpos
      exact absurd hpos (by decide)

private theorem stretch_hookRaised (hpos : 0 < s.parentId) (hbefore : Quiet root s s₁)
    (hafter : Quiet root (s₁.started s.parentId) s₃) (log : CallLog) :
    Stretch root (fun s s' => s'.parentId ≠ s.parentId) (s, log)
      (s₃, (log.add [startEvent (s₁.started s.parentId).parentId]).add [.hookRaised]) := by
  refine ⟨[startEvent (s₁.started s.parentId).parentId, .hookRaised], [], by simp [CallLog.add], ?_⟩
  rintro f t rfl hinside
  obtain ⟨⟨f₁, h₁⟩, hcontext, -⟩ := hinside.quiet hbefore
  have hleft : s₃.parentId = (s₁.started s.parentId).parentId := by
    obtain ⟨calls, rfl, -⟩ := hafter
    rfl
  refine .inl ⟨.inr (by simp), .inr fun heq => ?_⟩
  rw [hleft] at heq
  rw [← hcontext] at heq hpos
  have hold : s₁.parentId ∈ t.nodes := h₁.context.resolve_left (by omega)
  obtain ⟨-, hnew, -⟩ | hfailed := h₁.start hpos
  · rw [heq] at hnew
    exact hnew hold
  · rw [hfailed] at heq
    exact not_live_invalidNode _ (heq ▸ h₁.live hold)

private theorem loggedOnBefore_cases (hctx : env.contextSet = true) (parentId : Int) (args : Args ν) (x : PyState × CallLog) :
    (∃ e s₁, p.loggedOnBefore env parentId args x = .error e (s₁, x.2) ∧ Quiet root x.1 s₁) ∨
    ∃ s₁ s₃, Quiet root x.1 s₁ ∧ Quiet root (s₁.started parentId) s₃ ∧
      ((∃ e, p.loggedOnBefore env parentId args x =
        .error e (s₃, (x.2.add [startEvent (s₁.started parentId).parentId]).add [.hookRaised])) ∨
      ∃ args', p.loggedOnBefore env parentId args x =
        .ok ((s₁.started parentId).parentId, args') (s₃, x.2.add [startEvent (s₁.started parentId).parentId])) := by
  have hquiet := p.before_quiet parentId args x.1
  cases hbefore : p.before parentId args x.1 with
  | error e s₁ =>
    rw [finalState_of_error hbefore] at hquiet
    exact .inl ⟨e, s₁, bind_of_error _ (unlogged_of_error hbefore), hquiet⟩
  | ok args₁ s₁ =>
    rw [finalState_of_ok hbefore] at hquiet
    have hstart : baseOnBefore env parentId args₁ (s₁, x.2) = .ok ((s₁.started parentId).parentId, args₁)
        (s₁.started parentId, x.2.add [startEvent (s₁.started parentId).parentId]) := by
      rw [baseOnBefore, hctx]
      rfl
    have hquiet' := p.after_quiet (s₁.started parentId).parentId args₁ (s₁.started parentId)
    refine .inr ⟨s₁, _, hquiet, hquiet', ?_⟩
    rw [Plugin.loggedOnBefore, bind_of_ok _ (unlogged_of_ok hbefore)]
    simp only [bind_of_ok _ hstart]
    cases hafter : p.after (s₁.started parentId).parentId args₁ (s₁.started parentId) with
    | error e s₃ =>
      rw [finalState_of_error hafter]
      exact .inl ⟨e, bind_of_error _ (noteError_of_error _ hafter)⟩
    | ok args₂ s₃ =>
      rw [finalState_of_ok hafter]
      exact .inr ⟨args₂, bind_of_ok _ (noteError_of_ok _ hafter)⟩

private theorem finalState_loggedOnEnd (hctx : env.contextSet = true) (traceId : Int) (ret : α) (x : PyState × CallLog) :
    ∃ s₆, Quiet root x.1 s₆ ∧ finalState (p.loggedOnEnd env traceId ret) x =
      (s₆.finished env.sendRaises traceId, x.2.add (endEvents env.sendRaises traceId s₆)) := by
  have hquiet := p.ending_quiet traceId ret x.1
  obtain ⟨u, s₆, hending, -⟩ := p.ending_returns traceId ret x.1
  rw [finalState_of_ok hending] at hquiet
  refine ⟨s₆, hquiet, ?_⟩
  rw [Plugin.loggedOnEnd, finalState_bind_of_ok _ (unlogged_of_ok hending), baseOnEnd, hctx]
  rfl

private theorem stretch_tryFinally (hctx : env.contextSet = true) {body : LogM ε α} {log : CallLog} (hpos : 0 < s.parentId)
    (hbefore : Quiet root s s₁) (hid : (s₁.started s.parentId).parentId = id)
    (hafter : Quiet root (s₁.started s.parentId) s₃) (hbody : Moves (Whole root) body) :
    Stretch root (fun s s' => s'.parentId ≠ s.parentId) (s, log)
      (finalState (tryFinally body fun ret => p.loggedOnEnd env id (ret.getD env.pyNone))
        (s₃, log.add [startEvent id])) := by
  obtain ⟨ret, hfinally⟩ := finalState_tryFinally body (fun ret => p.loggedOnEnd env id (ret.getD env.pyNone))
    (s₃, log.add [startEvent id])
  obtain ⟨s₆, hending, hend⟩ := finalState_loggedOnEnd (p := p) hctx id (ret.getD env.pyNone)
    (finalState body (s₃, log.add [startEvent id]))
  rw [hfinally, hend]
  exact stretch_wrapped hpos hbefore hid hafter (hbody _) hending _

end Wrapped

/-! ## All calls -/

section Calls

variable {env : Env ε ν α} {p : Plugin root ε ν α}

private theorem unlogged_isSample (hctx : env.contextSet = true) (args : Args ν) (x : PyState × CallLog) :
    (unlogged ((basePinTrace env).isSample args) : LogM ε (Bool × Int × Args ν)) x =
      .ok (if 0 < x.1.parentId then (true, x.1.parentId, args) else (false, -1, args)) x := by
  simp only [unlogged, base_isSample hctx]

/-- What a call was wrapped around is a stretch of whole calls; the call is one that leaves another
context behind when it meets a fault. -/
theorem stretch_loggedCall (hctx : env.contextSet = true) {func : Args ν → LogM ε α}
    (hfunc : ∀ args, Moves (Whole root) (func args)) (args : Args ν) (x : PyState × CallLog) :
    Stretch root (fun s s' => s'.parentId ≠ s.parentId) x (finalState (p.loggedCall env func args) x) := by
  rw [Plugin.loggedCall, finalState_bind_of_ok _ (unlogged_isSample hctx args x)]
  by_cases hpos : 0 < x.1.parentId
  swap
  · simp only [if_neg hpos, Bool.not_false, if_true]
    exact (hfunc args x).weaken
  simp only [if_pos hpos, Bool.not_true, Bool.false_eq_true, if_false]
  obtain ⟨e, s₁, hrun, hquiet⟩ | ⟨s₁, s₃, hquiet, hquiet', ⟨e, hrun⟩ | ⟨args', hrun⟩⟩ :=
    loggedOnBefore_cases (p := p) hctx x.1.parentId args x
  · rw [finalState_of_error (bind_of_error _ hrun)]
    exact .of_quiet hquiet x.2
  · rw [finalState_of_error (bind_of_error _ hrun)]
    exact stretch_hookRaised hpos hquiet hquiet' x.2
  · rw [finalState_bind_of_ok _ hrun]
    refine stretch_tryFinally hctx hpos hquiet rfl hquiet' (Moves.tryExcept Whole.trans (hfunc args') ?_)
    intro e y
    rw [finalState_bind_throw, finalState_unlogged]
    exact .of_quiet (p.onException_quiet _ e y.1) y.2

private theorem whole_recorded {call : LogM ε α}
    (h : ∀ x, Stretch root (fun s s' => s'.parentId ≠ s.parentId) x (finalState call x)) :
    Moves (Whole root) (recorded call) := by
  intro x
  obtain ⟨events, records, hlog, hspec⟩ := h (x.1, ⟨[], x.2.records⟩)
  rw [recorded, finalState_within]
  generalize finalState call (x.1, ⟨[], x.2.records⟩) = y at *
  refine ⟨events, records ++ [⟨x.1.parentId, y.1.parentId, events⟩], ?_, fun f t ht hinside => ?_⟩
  · simp only [hlog, List.nil_append, List.append_assoc]
  obtain ⟨hfaulty, ⟨r, hr, hbad⟩ | hlost⟩ | ⟨hclean, hgood, hkept⟩ := hspec f t ht hinside
  · exact .inl ⟨hfaulty, .inl ⟨r, List.mem_append_left _ hr, hbad⟩⟩
  · exact .inl ⟨hfaulty, .inl ⟨_, List.mem_append_right _ List.mem_cons_self, fun hrestored => hlost hrestored.1⟩⟩
  · refine .inr ⟨hclean, fun r hr => ?_, hkept⟩
    obtain hr | hr := List.mem_append.1 hr
    · exact hgood r hr
    · obtain ⟨f', t', -, -, -, hpaired⟩ := hkept.inside
      rw [List.mem_singleton.1 hr]
      exact ⟨hkept.context, fun id hid => hpaired.ended_once hid⟩

private theorem Func.whole (hctx : env.contextSet = true) (g : Func root ε ν α) : Moves (Whole root) (g.logged env) := by
  induction g with
  | done outcome =>
    intro x
    have hstay : finalState (ofOutcome outcome : LogM ε α) x = x := by cases outcome <;> rfl
    rw [Func.logged, hstay]
    exact .of_quiet (Quiet.refl root x.1) x.2
  | work code quiet rest ih =>
    refine Moves.bind Whole.trans (fun x => ?_) ih
    rw [finalState_attempt, finalState_unlogged]
    exact .of_quiet (quiet x.1) x.2
  | call plugin args func rest ihfunc ihrest =>
    refine Moves.bind Whole.trans (fun x => ?_) ihrest
    rw [finalState_attempt]
    exact whole_recorded (stretch_loggedCall hctx ihfunc args) x

/-- The log of the calls of a function that runs in the state `s`. -/
def Func.log (g : Func root ε ν α) (env : Env ε ν α) (s : PyState) : CallLog :=
  (finalState (g.logged env) (s, ⟨[], []⟩)).2

/-- In a transaction, every wrapped call of a tree of calls leaves the context as it found it and has each of
its nodes ended once, if and only if no start fails and no `onBefore` raises after its start. -/
theorem nested_calls_restore_iff {f : Forest} {t : NodePool.Trace} {s : PyState} (hctx : env.contextSet = true)
    (hinside : Inside f t s) (g : Func t.root ε ν α) :
    forget (g.logged env (s, ⟨[], []⟩)) = g.run env s ∧
      ((∀ r ∈ (g.log env s).records, r.Restored) ↔
        .startFailed ∉ (g.log env s).events ∧ .hookRaised ∉ (g.log env s).events) := by
  refine ⟨g.erases (s, ⟨[], []⟩), ?_⟩
  obtain ⟨events, records, hlog, hspec⟩ := g.whole hctx (s, ⟨[], []⟩)
  have hlog' : g.log env s = ⟨events, records⟩ := hlog
  rw [hlog', ← not_or]
  obtain ⟨hfaulty, hbad⟩ | ⟨hclean, hgood, -⟩ := hspec f t rfl hinside
  · obtain ⟨r, hr, hbad⟩ := hbad.resolve_right id
    exact iff_of_false (fun hall => hbad (hall r hr)) (not_not.2 hfaulty)
  · exact iff_of_true hgood hclean

end Calls

/-! ## Two runs -/

private theorem inside_inTrace : Inside tracedLog.world.forest ⟨128, []⟩ inTrace := by
  have hlog : tracedLog.Ok := (KeyLog.ok_new 1700 fun _ => 7).run tracedCalls
  exact .of_world hlog.world agent_inTrace mem_tracedLog List.mem_cons_self (le_refl _)

/-- A wrapped function that calls a wrapped function, which raises, and then returns. -/
def raisingInside : Func 128 Unit PyVal Unit :=
  .call (commonPlugin 128 taskEnv) ⟨[], []⟩
    (fun args => .call (commonPlugin 128 taskEnv) args (fun _ => .done (.error (.app ()))) fun _ => .done (.ok ()))
    .done

theorem nested_calls_restore_iff_raising :
    (raisingInside.log taskEnv inTrace).records.length = 2 ∧
      ∀ r ∈ (raisingInside.log taskEnv inTrace).records, r.Restored := by
  refine ⟨by decide +kernel, ?_⟩
  exact (nested_calls_restore_iff rfl inside_inTrace raisingInside).2.2 (by decide +kernel)

def nulEnv : Env Unit PyVal Unit := { taskEnv with name := [97, 0, 98] }

/-- `PinpointCommonPlugin` raises on the name, after its start: the node stays in the context, and open. -/
theorem raising_hook_keeps_context :
    ((Func.call (commonPlugin 128 nulEnv) ⟨[], []⟩ (fun _ => .done (.ok ())) .done).log nulEnv inTrace).records =
      [⟨128, 127, [.started 127, .hookRaised]⟩] ∧
    ¬(⟨128, 127, [.started 127, .hookRaised]⟩ : CallRecord).Restored := by
  refine ⟨by decide +kernel, fun hrestored => ?_⟩
  exact absurd hrestored.1 (by decide)

end PinpointAgent.Python
