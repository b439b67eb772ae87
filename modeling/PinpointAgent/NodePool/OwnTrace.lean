import PinpointAgent.Framework.RefCount
import PinpointAgent.NodePool.TraceLinks
/-!
# Every call keeps to its own trace

Two races let a call reach a trace that is not its own. `EndTrace(r)` drops its reference before
it returns `r`; a second thread that ends the same root can return it in between, and a third can
be handed its number for a new root. `FreeNodeTree` returns the root of a trace before the other
nodes, so a `StartTrace` below one of these can look up a root that is already another. Both come
from the reuse of a number that a call in progress or a live node still uses. When no number is
handed out before it is retired (`ThreadPool.Careful`), every call keeps to its own trace.
-/

namespace PinpointAgent.NodePool

open Framework

namespace PoolManager

variable {p q : PoolManager} {traceOf : Int → Nat} {id : Int}

private theorem links_eq_some_iff {l : Link} : p.links traceOf id = some l ↔ p.Live id ∧
    (⟨(p.nodeAt id).id, (p.nodeAt id).rootId, (p.nodeAt id).next, (p.rootExtra id).last,
      traceOf id⟩ : Link) = l := by
  unfold links
  split <;> simp_all

private theorem links_eq_none_iff : p.links traceOf id = none ↔ ¬p.Live id := by
  unfold links
  split <;> simp_all

private theorem counts_eq_none_iff : p.counts id = none ↔ ¬p.Live id := by
  unfold counts
  split <;> simp_all

private theorem counts_of_live (h : p.Live id) : p.counts id = some (p.nodeAt id).referenceCount := if_pos h

private theorem recount (h : p.Live id) (traceOf : Int → Nat) (count : Int) :
    (p.modifyNode id fun n => { n with referenceCount := count }).links traceOf = p.links traceOf ∧
    (p.modifyNode id fun n => { n with referenceCount := count }).counts =
      Function.update p.counts id (some count) := by
  constructor
  · funext n
    by_cases heq : n = id
    · subst heq
      simp only [links, live_modifyNode, nodeAt_modifyNode_self, rootExtra]
    · simp only [links, live_modifyNode, nodeAt_modifyNode_of_ne _ heq, rootExtra]
  · funext n
    by_cases heq : n = id
    · subst heq
      simp only [counts, live_modifyNode, nodeAt_modifyNode_self, Function.update_self, if_pos h]
    · simp only [counts, live_modifyNode, nodeAt_modifyNode_of_ne _ heq, Function.update_of_ne heq]

private theorem release_links : (p.release id).links traceOf = Function.update (p.links traceOf) id none := by
  funext n
  by_cases heq : n = id
  · rw [heq, Function.update_self, links_eq_none_iff, live_release]
    simp
  · rw [Function.update_of_ne heq]
    simp only [links, live_release, heq, ne_eq, not_false_eq_true, and_true]
    rfl

private theorem release_counts : (p.release id).counts = Function.update p.counts id none := by
  funext n
  by_cases heq : n = id
  · rw [heq, Function.update_self, counts_eq_none_iff, live_release]
    simp
  · rw [Function.update_of_ne heq]
    simp only [counts, live_release, heq, ne_eq, not_false_eq_true, and_true]
    rfl

private theorem Allocated.links (h : Allocated p id q) (f : TraceNode → TraceNode) (trace : Nat) :
    (q.modifyNode id f).links (Function.update traceOf id trace) =
      Function.update (p.links traceOf) id
        (some ⟨(f (q.nodeAt id)).id, (f (q.nodeAt id)).rootId, (f (q.nodeAt id)).next,
          ((f (q.nodeAt id)).rootNodeExtra.getD {}).last, trace⟩) := by
  funext n
  by_cases heq : n = id
  · subst heq
    rw [Function.update_self, links_eq_some_iff, live_modifyNode, h.live_iff]
    simp only [true_or, nodeAt_modifyNode_self, rootExtra, Function.update_self, and_self]
  · have hlive : q.Live n ↔ p.Live n := by
      rw [h.live_iff]
      simp [heq]
    rw [Function.update_of_ne heq]
    simp only [PoolManager.links, live_modifyNode, hlive, nodeAt_modifyNode_of_ne _ heq, rootExtra,
      Function.update_of_ne heq]
    split
    · next hold => rw [h.kept n hold]
    · rfl

private theorem Allocated.counts (h : Allocated p id q) {f : TraceNode → TraceNode}
    (hf : ∀ n, (f n).referenceCount = n.referenceCount) :
    (q.modifyNode id f).counts = Function.update p.counts id (some 0) := by
  funext n
  by_cases heq : n = id
  · subst heq
    obtain ⟨m, hm⟩ := h.node
    rw [Function.update_self, counts_of_live ((live_modifyNode f).2 ((h.live_iff n).2 (.inl rfl))),
      nodeAt_modifyNode_self, hf, hm]
    rfl
  · have hlive : q.Live n ↔ p.Live n := by
      rw [h.live_iff]
      simp [heq]
    rw [Function.update_of_ne heq]
    simp only [PoolManager.counts, live_modifyNode, hlive, nodeAt_modifyNode_of_ne _ heq]
    split
    · next hold => rw [h.kept n hold]
    · rfl

private theorem appendToRootTrace_links {traces : Nat} {root new : Int} {lr ln : Link}
    (hlinked : Linked (p.links traceOf) traces) (hh : Hangs (p.links traceOf) root new lr ln) :
    ∃ q, p.appendToRootTrace root new = (.ok (), q) ∧ SameAllocation p q ∧
      q.links traceOf = hang (p.links traceOf) root new lr ∧ q.counts = p.counts := by
  obtain ⟨hrootLive, rfl⟩ := links_eq_some_iff.1 hh.rootLive
  obtain ⟨hnewLive, rfl⟩ := links_eq_some_iff.1 hh.newLive
  have hne : root ≠ new := (hh.apart hlinked hh.rootLive).2.2.1 hh.self
  have hrootId : (p.nodeAt root).id = root := (hlinked.ident root _ hh.rootLive).1
  have hnewId : (p.nodeAt new).id = new := (hlinked.ident new _ hh.newLive).1
  have hlastNew : (p.rootExtra root).last ≠ new := (hh.apart hlinked hh.rootLive).2.2.2 hh.self
  obtain ⟨q, heq, halloc, hnode, hroot, hother⟩ := appendToRootTrace_spec hh.loose hne.symm (by
    intro hlast
    obtain ⟨-, m, hm, -, -, -, hlastRoot⟩ := hlinked.last root _ hh.rootLive hh.self hlast
    exact ⟨(links_eq_some_iff.1 hm).1, hlastRoot, hlastNew⟩)
  have hfields (n : Int) (hlive : p.Live n) :
      (q.nodeAt n).referenceCount = (p.nodeAt n).referenceCount ∧ q.links traceOf n = some
        ⟨(p.nodeAt n).id, if n = new then root else (p.nodeAt n).rootId,
          if n = (p.rootExtra root).last ∨ n = root ∧ (p.nodeAt root).next = invalidNode then new
            else (p.nodeAt n).next,
          if n = root then new else (p.rootExtra n).last, traceOf n⟩ := by
    rw [links_eq_some_iff, halloc.live]
    by_cases hn : n = new
    · subst hn
      have hextra : q.rootExtra n = p.rootExtra n := by simp only [rootExtra, hnode]
      simp [hextra, hnode, hrootId, hne.symm, hlive, hlastNew.symm]
    · by_cases hr : n = root
      · subst hr
        have hextra : (q.rootExtra n).last = new := by
          rw [rootExtra, hroot]
          exact hnewId
        have hself : n ≠ (p.rootExtra n).last := by
          intro heq
          obtain ⟨-, m, -, -, -, -, hlast⟩ := hlinked.last n _ hh.rootLive hh.self
            (heq ▸ hlive.ne_invalidNode)
          exact hlast heq.symm
        simp [hextra, hroot, hnewId, hn, hlive, hself]
      · have hextra : (q.nodeAt n).rootNodeExtra = (p.nodeAt n).rootNodeExtra := by
          rw [hother n hlive hn hr]
          split <;> rfl
        rw [rootExtra, hextra, hother n hlive hn hr]
        simp only [hn, hr, if_false, false_and, or_false]
        split <;> simp [hlive, hnewId, rootExtra]
  refine ⟨q, heq, halloc, ?_, ?_⟩
  · funext n
    by_cases hlive : p.Live n
    · rw [(hfields n hlive).2, hang, links_eq_some_iff.2 ⟨hlive, rfl⟩]
      rfl
    · rw [hang, links_eq_none_iff.2 hlive, links_eq_none_iff.2 (halloc.live.not.2 hlive)]
      rfl
  · funext n
    by_cases hlive : p.Live n
    · rw [counts_of_live hlive, counts_of_live (halloc.live.2 hlive), (hfields n hlive).1]
    · rw [counts_eq_none_iff.2 hlive, counts_eq_none_iff.2 (halloc.live.not.2 hlive)]

end PoolManager

namespace CallState

variable {v : Int → Option Link} {traces : Nat}

@[simp] theorem held_walkOn (next : Int) (trace : Nat) : (walkOn next trace).held = [] := by
  unfold walkOn
  split <;> rfl

@[simp] theorem made_walkOn (next : Int) (trace : Nat) : (walkOn next trace).made = none := by
  unfold walkOn
  split <;> rfl

private theorem sound_walkOn {next : Int} {trace : Nat} (h : next ≠ invalidNode → Walking v traces next trace) :
    (walkOn next trace).Sound v traces := by
  unfold walkOn
  split
  · trivial
  · next hne => exact h hne

@[simp] theorem held_leave (refs : List Int) (tree : Option (Int × Nat)) :
    (leave refs tree).held = refs := by
  unfold leave
  split
  · rfl
  · split
    · rfl
    · simp
  · rfl

@[simp] theorem made_leave (refs : List Int) (tree : Option (Int × Nat)) :
    (leave refs tree).made = none := by
  unfold leave
  split
  · rfl
  · split
    · rfl
    · simp
  · rfl

private theorem sound_leave {refs : List Int} {tree : Option (Int × Nat)} (hrefs : refs ≠ [])
    (h : ∀ r trace, tree = some (r, trace) → refs = [r] ∧ Roots v r trace) :
    (leave refs tree).Sound v traces := by
  unfold leave
  split
  · exact absurd rfl hrefs
  · exact absurd rfl hrefs
  · exact h

theorem Sound.drop (hlinked : Linked v traces) {id : Int} {refs : List Int}
    {tree : Option (Int × Nat)} (h : (leaving (id :: refs) tree).Sound v traces) :
    (leave refs tree).Sound v traces := by
  cases refs with
  | nil =>
    cases tree with
    | none => trivial
    | some rt =>
      obtain ⟨r, trace⟩ := rt
      obtain ⟨-, hroot⟩ := h r trace rfl
      simp only [leave]
      split
      · trivial
      · exact sound_walkOn fun _ => hlinked.walking_root hroot
  | cons next rest =>
    refine sound_leave (by simp) ?_
    intro r trace htree
    obtain ⟨hrefs, -⟩ := h r trace htree
    cases hrefs

end CallState

namespace ThreadPool

variable {ι : Type} [DecidableEq ι] {s t : ThreadPool ι} {i : ι} {c : CallState}

def links (s : ThreadPool ι) : Int → Option Link := s.pool.links s.traceOf

structure Inv (s : ThreadPool ι) : Prop where
  alloc : s.pool.AllocOk
  linked : Linked s.links s.traces
  sound : ∀ i, (s.call i).Sound s.links s.traces
  distinct : ∀ i j n, (s.call i).made = some n → (s.call j).made = some n → i = j
  counted : Counted s.pool.counts fun i => (s.call i).held
  attached : ∀ e ∈ s.attached, e.1 = e.2
  freed : ∀ e ∈ s.freed, e.1 = e.2

/-- A section of thread `i`, which goes on in `c`: the new links and counts, and what has to be
shown of them. -/
theorem Inv.move (h : Inv s) {v : Int → Option Link} {counts : Int → Option Int}
    (hcall : t.call = Function.update s.call i c) (hlinks : t.links = v) (hcounts : t.pool.counts = counts)
    (halloc : t.pool.AllocOk) (hlinked : Linked v t.traces)
    (hothers : ∀ j, j ≠ i → (s.call j).Sound v t.traces) (hsound : c.Sound v t.traces)
    (hmade : ∀ n, c.made = some n → ∀ j, (s.call j).made ≠ some n)
    (hcounted : Counted counts (Function.update (fun j => (s.call j).held) i c.held))
    (hattached : ∀ e ∈ t.attached, e.1 = e.2) (hfreed : ∀ e ∈ t.freed, e.1 = e.2) : Inv t := by
  have hself : t.call i = c := by rw [hcall, Function.update_self]
  have hother (j : ι) (hj : j ≠ i) : t.call j = s.call j := by rw [hcall, Function.update_of_ne hj]
  have hheld : (fun j => (t.call j).held) = Function.update (fun j => (s.call j).held) i c.held := by
    funext j
    by_cases hj : j = i
    · rw [hj, Function.update_self, hself]
    · rw [Function.update_of_ne hj, hother j hj]
  refine ⟨halloc, hlinks ▸ hlinked, ?_, ?_, hcounts ▸ hheld ▸ hcounted, hattached, hfreed⟩
  · intro j
    rw [hlinks]
    by_cases hj : j = i
    · rw [hj, hself]
      exact hsound
    · rw [hother j hj]
      exact hothers j hj
  · intro j k n hjn hkn
    by_cases hj : j = i <;> by_cases hk : k = i
    · rw [hj, hk]
    · rw [hj, hself] at hjn
      rw [hother k hk] at hkn
      exact absurd hkn (hmade n hjn k)
    · rw [hk, hself] at hkn
      rw [hother j hj] at hjn
      exact absurd hjn (hmade n hkn j)
    · rw [hother j hj] at hjn
      rw [hother k hk] at hkn
      exact h.distinct j k n hjn hkn

private theorem Inv.setCall (h : Inv s) (hheld : c.held = (s.call i).held) (hmade : c.made = none)
    (hsound : c.Sound s.links s.traces) : Inv (s.setCall i c) := by
  refine h.move rfl rfl rfl h.alloc h.linked (fun j _ => h.sound j) hsound (by simp [hmade]) ?_
    h.attached h.freed
  rw [hheld, Function.update_eq_self]
  exact h.counted

private theorem Inv.addReference (h : Inv s) {id : Int} (hlive : s.pool.Live id)
    (hheld : c.held = id :: (s.call i).held) (hmade : c.made = none)
    (hsound : c.Sound s.links s.traces) :
    Inv ({ s with pool := s.pool.addReference id }.setCall i c) := by
  obtain ⟨hlinks, hcounts⟩ := PoolManager.recount hlive s.traceOf
    ((s.pool.nodeAt id).referenceCount + 1)
  have halloc : (s.pool.addReference id).AllocOk :=
    (PoolManager.sameAllocation_modifyNode _).allocOk h.alloc
  exact h.move rfl hlinks hcounts halloc h.linked (fun j _ => h.sound j) hsound (by simp [hmade])
    (h.counted.acquire (PoolManager.counts_of_live hlive) hheld) h.attached h.freed

private theorem Inv.held_live (h : Inv s) {n : Int} (hn : n ∈ (s.call i).held) :
    s.pool.Live n ∧ (s.pool.nodeAt n).referenceCount ≠ 0 := by
  obtain ⟨k, hk, hne⟩ := h.counted.of_mem hn
  unfold PoolManager.counts at hk
  split at hk
  · next hlive =>
    cases hk
    exact ⟨hlive, hne⟩
  · cases hk

private theorem Inv.decReference (h : Inv s) {id : Int} (hheld : (s.call i).held = id :: c.held)
    (hmade : c.made = none) (hsound : c.Sound s.links s.traces) :
    Inv ({ s with pool := s.pool.decReference id }.setCall i c) := by
  have hlive := (h.held_live (i := i) (n := id) (by simp [hheld])).1
  obtain ⟨hlinks, hcounts⟩ := PoolManager.recount hlive s.traceOf
    ((s.pool.nodeAt id).referenceCount - 1)
  have halloc : (s.pool.decReference id).AllocOk :=
    (PoolManager.sameAllocation_modifyNode _).allocOk h.alloc
  exact h.move rfl hlinks hcounts halloc h.linked (fun j _ => h.sound j) hsound (by simp [hmade])
    (h.counted.drop (PoolManager.counts_of_live hlive) hheld) h.attached h.freed

omit [DecidableEq ι] in
private theorem links_of_live {id : Int} (hlive : s.pool.Live id) : s.links id = some
    ⟨(s.pool.nodeAt id).id, (s.pool.nodeAt id).rootId, (s.pool.nodeAt id).next,
      (s.pool.rootExtra id).last, s.traceOf id⟩ :=
  PoolManager.links_eq_some_iff.2 ⟨hlive, rfl⟩

private theorem Inv.refer (h : Inv s) {id : Int} {found : TraceNode → CallState} {lost : CallState}
    (hlost : lost.held = (s.call i).held ∧ lost.made = none ∧ lost.Sound s.links s.traces)
    (hfound : s.pool.Live id → (found (s.pool.nodeAt id)).held = id :: (s.call i).held ∧
      (found (s.pool.nodeAt id)).made = none ∧ (found (s.pool.nodeAt id)).Sound s.links s.traces) :
    Inv (s.refer i id found lost) := by
  unfold ThreadPool.refer
  split
  · exact h.setCall hlost.1 hlost.2.1 hlost.2.2
  · next n hget =>
    obtain ⟨hlive, rfl⟩ := PoolManager.getUsedNode_eq_ok hget
    obtain ⟨hheld, hmade, hsound⟩ := hfound hlive
    exact h.addReference hlive hheld hmade hsound

omit [DecidableEq ι] in
private theorem getReadyNode_nextId {id : Int} {q : PoolManager} (hget : s.pool.getReadyNode = .ok (id, q)) :
    id = s.nextId := by
  cases hfree : s.pool.freeNodeList with
  | cons index rest =>
    simp only [PoolManager.getReadyNode, hfree] at hget
    cases hget
    simp only [nextId, hfree]
  | nil =>
    simp only [PoolManager.getReadyNode, hfree] at hget
    split at hget
    · cases hget
    · cases hget
      simp only [nextId, hfree, cellSize]
      omega

/-- A retired number that is handed out is new to every node and every call. -/
structure HandedOut (s : ThreadPool ι) (id : Int) (q : PoolManager) : Prop where
  allocated : s.pool.Allocated id q
  valid : id ≠ invalidNode
  dead : s.links id = none
  unnamed : ∀ n l, s.links n = some l → l.rootId ≠ id
  unreturned : ∀ j, (s.call j).toReturn ≠ some id
  unmade : ∀ j, (s.call j).made ≠ some id

private theorem Inv.handedOut (h : Inv s) {id : Int} {q : PoolManager} (hretired : s.Retired s.nextId)
    (hget : s.pool.getReadyNode = .ok (id, q)) : HandedOut s id q := by
  have halloc := PoolManager.getReadyNode_spec h.alloc hget
  have hdead : s.links id = none := PoolManager.links_eq_none_iff.2 halloc.dead
  rw [← getReadyNode_nextId hget] at hretired
  refine ⟨halloc, ((halloc.live_iff id).2 (.inl rfl)).ne_invalidNode, hdead, ?_, hretired.2, ?_⟩
  · intro n l hn
    obtain ⟨hlive, rfl⟩ := PoolManager.links_eq_some_iff.1 hn
    exact hretired.1 n hlive
  · -- a node that was made and not appended is alive
    intro j hj
    have hsound := h.sound j
    cases hc : s.call j <;> rw [hc] at hj hsound <;> cases hj
    obtain ⟨-, -, l, hl, -⟩ := hsound
    rw [hdead] at hl
    cases hl

omit [DecidableEq ι] in
private theorem HandedOut.links {id : Int} {q : PoolManager} (hout : HandedOut s id q)
    (f : TraceNode → TraceNode) (trace : Nat) : ∃ n : TraceNode,
      (s.adopt id trace (q.modifyNode id f)).links = Function.update s.links id
        (some ⟨(f (n.reset id)).id, (f (n.reset id)).rootId, (f (n.reset id)).next,
          ((f (n.reset id)).rootNodeExtra.getD {}).last, trace⟩) := by
  obtain ⟨n, hn⟩ := hout.allocated.node
  refine ⟨n, ?_⟩
  rw [← hn]
  exact hout.allocated.links f trace

omit [DecidableEq ι] in
private theorem HandedOut.alloc {id : Int} {q : PoolManager} (hout : HandedOut s id q)
    (f : TraceNode → TraceNode) : (q.modifyNode id f).AllocOk :=
  (PoolManager.sameAllocation_modifyNode f).allocOk hout.allocated.alloc

private theorem Inv.startRoot (h : Inv s) (hretired : s.Retired s.nextId) : Inv s.startRoot := by
  unfold ThreadPool.startRoot
  split
  · exact h
  · next id q hget =>
    have hout := h.handedOut hretired hget
    obtain ⟨n, hlinks⟩ := hout.links (·.upgradeToRootNode s.agentType) s.traces
    refine ⟨hout.alloc (·.upgradeToRootNode s.agentType), hlinks ▸ h.linked.add hout.dead hout.valid hout.unnamed ⟨rfl, rfl, rfl⟩
      (.inr ⟨rfl, ?_⟩) (Nat.le_succ _) (Nat.lt_succ_self _), ?_, h.distinct, ?_, h.attached, h.freed⟩
    · intro m l hm
      exact (h.linked.fresh m l hm).ne
    · intro j
      exact hlinks ▸ (h.sound j).add h.linked hout.dead hout.valid (hout.unreturned j) rfl
        (.inr (le_refl _)) (Nat.le_succ _)
    · have hcounts := hout.allocated.counts (f := (·.upgradeToRootNode s.agentType)) (fun _ => rfl)
      exact hcounts ▸ h.counted.add (PoolManager.counts_eq_none_iff.2 hout.allocated.dead)

private theorem Inv.getNode (h : Inv s) {p root : Int} {trace : Nat} (hretired : s.Retired s.nextId)
    (hi : s.call i = .rootHeld p root trace) : Inv (s.getNode i p root trace) := by
  have hsound := h.sound i
  rw [hi] at hsound
  obtain ⟨hp, hroot⟩ := hsound
  unfold ThreadPool.getNode
  split
  · exact h.setCall (by rw [CallState.held_leave, hi]; rfl) (CallState.made_leave _ _)
      (CallState.sound_leave (by simp) (by simp))
  · next id q hget =>
    have hout := h.handedOut hretired hget
    obtain ⟨n, hlinks⟩ := hout.links (·.bindParentTrace (q.nodeAt p)) trace
    have hcounts := hout.allocated.counts (f := (·.bindParentTrace (q.nodeAt p))) (fun _ => rfl)
    obtain ⟨lp, hlp, hptrace⟩ := hp
    obtain ⟨lr, hlr, hrtrace⟩ := hroot
    have htrace : trace < s.traces := hptrace ▸ h.linked.fresh p lp hlp
    refine h.move rfl hlinks hcounts (hout.alloc (·.bindParentTrace (q.nodeAt p)))
      (h.linked.add hout.dead hout.valid hout.unnamed ⟨rfl, rfl, rfl⟩ (.inl rfl) (le_refl _) htrace)
      ?_ ?_ ?_ ?_ h.attached h.freed
    · intro j _
      exact (h.sound j).add h.linked hout.dead hout.valid (hout.unreturned j) rfl (.inl rfl) (le_refl _)
    · exact ⟨⟨lp, added_keep hout.dead hlp, hptrace⟩, ⟨lr, added_keep hout.dead hlr, hrtrace⟩,
        ⟨_, Function.update_self .., rfl, rfl, rfl⟩⟩
    · intro m hm j
      cases hm
      exact hout.unmade j
    · have hheld : (CallState.nodeMade p root id trace).held = (s.call i).held := by rw [hi]; rfl
      rw [hheld, Function.update_eq_self]
      exact h.counted.add (PoolManager.counts_eq_none_iff.2 hout.allocated.dead)

private theorem Inv.append (h : Inv s) {p root new : Int} {trace : Nat}
    (hi : s.call i = .nodeMade p root new trace) : Inv (s.append i p root new trace) := by
  have hsound := h.sound i
  rw [hi] at hsound
  obtain ⟨-, ⟨lr, hlr, hrtrace, hself⟩, ln, hln, hntrace, hloose, hfree⟩ := hsound
  have hh : Hangs s.links root new lr ln :=
    ⟨hlr, hself, hln, hntrace.trans hrtrace.symm, hloose, hfree⟩
  obtain ⟨q, heq, halloc, hlinks, hcounts⟩ := PoolManager.appendToRootTrace_links h.linked hh
  have hheld : (CallState.leave [root, p] none).held = (s.call i).held := by
    rw [CallState.held_leave, hi]
    rfl
  unfold ThreadPool.append
  rw [heq]
  refine h.move rfl hlinks hcounts (halloc.allocOk h.alloc) (h.linked.hang hh) ?_ ?_ ?_ ?_ ?_ h.freed
  · intro j hj
    refine (h.sound j).hang h.linked hh fun hmade => ?_
    exact hj (h.distinct j i new hmade (by rw [hi]; rfl))
  · exact CallState.sound_leave (by simp) (by simp)
  · simp
  · rw [hheld, Function.update_eq_self]
    exact h.counted
  · -- the chain that the node was appended to is the one of the root it looked up
    intro e he
    obtain rfl | he := List.mem_cons.1 he
    · obtain ⟨-, rfl⟩ := PoolManager.links_eq_some_iff.1 hlr
      exact hrtrace.symm
    · exact h.attached e he

theorem returnNode_cases {id : Int} {tries : Nat} (i : ι) (trace : Nat)
    (hcare : tries = 0 → s.pool.Live id → (s.pool.nodeAt id).referenceCount = 0) :
    (¬s.pool.Live id ∧ s.returnNode i id tries trace =
      { s with pool := { s.pool with notAliveLog := s.pool.notAliveLog ++ [id] } }.setCall i .resting) ∨
    (s.pool.Live id ∧ s.returnNode i id tries trace =
      s.setCall i (.returning id (tries - 1) trace)) ∨
    (s.pool.Live id ∧ (s.pool.nodeAt id).referenceCount = 0 ∧ s.returnNode i id tries trace =
      { s with pool := s.pool.release id, freed := (trace, s.traceOf id) :: s.freed }.setCall i
        (.walkOn (s.pool.nodeAt id).next trace)) := by
  by_cases hlive : s.pool.Live id
  · have hused : s.pool.indexInUsedVec (id - 1) = true := hlive
    by_cases hcount : (s.pool.nodeAt id).referenceCount = 0
    · refine .inr (.inr ⟨hlive, hcount, ?_⟩)
      rw [ThreadPool.returnNode, PoolManager.returnNode_of_live hlive hcount]
      simp [hlive]
    · have hforce : (tries == 0) = false := by
        rw [beq_eq_false_iff_ne]
        exact fun htries => hcount (hcare htries hlive)
      refine .inr (.inl ⟨hlive, ?_⟩)
      simp [ThreadPool.returnNode, PoolManager.returnNode, hused, hcount, hforce]
  · have hused : s.pool.indexInUsedVec (id - 1) = false := by
      simpa [PoolManager.Live] using hlive
    refine .inl ⟨hlive, ?_⟩
    simp [ThreadPool.returnNode, PoolManager.returnNode, hused, hlive, CallState.walkOn]

private theorem Inv.release (h : Inv s) {id : Int} {tries trace : Nat}
    (hi : s.call i = .returning id tries trace) (hlive : s.pool.Live id)
    (hcount : (s.pool.nodeAt id).referenceCount = 0) :
    Inv ({ s with pool := s.pool.release id, freed := (trace, s.traceOf id) :: s.freed }.setCall i
      (.walkOn (s.pool.nodeAt id).next trace)) := by
  have hwalk := h.sound i
  rw [hi] at hwalk
  have hlink := links_of_live hlive
  obtain ⟨htrace, hroot⟩ := hwalk.own _ hlink
  refine h.move rfl PoolManager.release_links PoolManager.release_counts (h.alloc.release hlive)
    (h.linked.free hwalk hlink) ?_ ?_ ?_ ?_ h.attached ?_
  · intro j _
    refine (h.sound j).free hlink hroot fun hheld => ?_
    exact (h.held_live hheld).2 hcount
  · exact CallState.sound_walkOn fun hnext => h.linked.walking_next hwalk hlink hnext
  · simp
  · have hheld : (CallState.walkOn (s.pool.nodeAt id).next trace).held = (s.call i).held := by
      rw [CallState.held_walkOn, hi]
      rfl
    rw [hheld, Function.update_eq_self]
    exact h.counted.free (hcount ▸ PoolManager.counts_of_live hlive)
  · intro e he
    obtain rfl | he := List.mem_cons.1 he
    · exact htrace.symm
    · exact h.freed e he

private theorem Inv.returnNode (h : Inv s) {id : Int} {tries trace : Nat}
    (hi : s.call i = .returning id tries trace)
    (hcare : tries = 0 → s.pool.Live id → (s.pool.nodeAt id).referenceCount = 0) :
    Inv (s.returnNode i id tries trace) := by
  obtain ⟨-, heq⟩ | ⟨-, heq⟩ | ⟨hlive, hcount, heq⟩ := returnNode_cases i trace hcare
  · rw [heq]
    have hlogged : Inv { s with pool := { s.pool with notAliveLog := s.pool.notAliveLog ++ [id] } } :=
      ⟨⟨h.alloc.nonneg, h.alloc.nodup, h.alloc.mem_free⟩, h.linked, h.sound, h.distinct, h.counted,
        h.attached, h.freed⟩
    exact hlogged.setCall (by rw [hi]; rfl) rfl trivial
  · rw [heq]
    have hsound := h.sound i
    rw [hi] at hsound
    exact h.setCall (by rw [hi]; rfl) rfl hsound
  · rw [heq]
    exact h.release hi hlive hcount

private theorem inv_step {e : ThreadEvent ι} (h : Inv s) (hcare : s.Careful e) (hstep : s.step e = some t) :
    Inv t := by
  cases e with
  | startRoot i =>
    simp only [step] at hstep
    split at hstep
    · cases hstep
      exact h.startRoot hcare
    · cases hstep
  | referParent i p =>
    simp only [step] at hstep
    split at hstep
    · next hi =>
      cases hstep
      refine h.refer ⟨by rw [hi], rfl, trivial⟩ fun hlive => ⟨by rw [hi]; rfl, rfl, ?_⟩
      exact ⟨_, links_of_live hlive, rfl⟩
    · cases hstep
  | referRoot i =>
    simp only [step] at hstep
    split at hstep
    · next p trace hi =>
      cases hstep
      have hsound := h.sound i
      rw [hi] at hsound
      refine h.refer ⟨by rw [hi, CallState.held_leave]; rfl, CallState.made_leave _ _,
        CallState.sound_leave (by simp) (by simp)⟩ fun hlive => ⟨by rw [hi]; rfl, rfl, hsound, ?_⟩
      -- the parent is alive, so its root has not been handed out again
      obtain ⟨l, hl, rfl⟩ := hsound
      obtain ⟨-, rfl⟩ := PoolManager.links_eq_some_iff.1 hl
      obtain ⟨htrace, hself⟩ := h.linked.root p _ _ hl (links_of_live hlive)
      exact ⟨_, links_of_live hlive, htrace, hself⟩
    · cases hstep
  | getNode i =>
    simp only [step] at hstep
    split at hstep
    · next hi =>
      cases hstep
      exact h.getNode hcare hi
    · cases hstep
  | append i =>
    simp only [step] at hstep
    split at hstep
    · next hi =>
      cases hstep
      exact h.append hi
    · cases hstep
  | referEnd i r =>
    simp only [step] at hstep
    split at hstep
    · next hi =>
      cases hstep
      refine h.refer ⟨by rw [hi], rfl, trivial⟩ fun hlive => ?_
      split
      · next hroot =>
        have hid : (s.pool.nodeAt r).id = r := (h.linked.ident r _ (links_of_live hlive)).1
        refine ⟨by rw [hi]; rfl, rfl, _, links_of_live hlive, rfl, ?_⟩
        exact (eq_of_beq hroot).trans hid
      · exact ⟨by rw [hi, CallState.held_leave]; rfl, CallState.made_leave _ _,
          CallState.sound_leave (by simp) (by simp)⟩
    · cases hstep
  | encode i ok =>
    simp only [step] at hstep
    split at hstep
    · next r trace hi =>
      cases hstep
      have hsound := h.sound i
      rw [hi] at hsound
      refine h.setCall (by rw [hi, CallState.held_leave]; rfl) (CallState.made_leave _ _)
        (CallState.sound_leave (by simp) ?_)
      intro r' trace' htree
      cases ok <;> cases htree
      exact ⟨rfl, hsound⟩
    · cases hstep
  | drop i =>
    simp only [step] at hstep
    split at hstep
    · next id refs tree hi =>
      cases hstep
      have hsound := h.sound i
      rw [hi] at hsound
      exact h.decReference (by rw [hi, CallState.held_leave]; rfl) (CallState.made_leave _ _)
        (hsound.drop h.linked)
    · cases hstep
  | returnNode i =>
    simp only [step] at hstep
    split at hstep
    · next id tries trace hi =>
      cases hstep
      refine h.returnNode hi ?_
      rintro rfl
      simpa [Careful, hi] using hcare
    · cases hstep

private theorem inv_new (agentType : Int) : Inv (new agentType : ThreadPool ι) := by
  have hdead (n : Int) : ¬PoolManager.new.Live n := by
    simp [PoolManager.live_iff, PoolManager.new, PoolManager.expandOnce]
  refine ⟨PoolManager.allocOk_new, linked_of_empty fun n => PoolManager.links_eq_none_iff.2 (hdead n),
    fun _ => trivial, ?_, ?_, ?_, ?_⟩
  · intro i j n hi
    cases hi
  · exact counted_of_empty (fun n => PoolManager.counts_eq_none_iff.2 (hdead n)) (fun _ => rfl)
  · intro e he
    cases he
  · intro e he
    cases he

private theorem inv_exec {agentType : Int} {es : List (ThreadEvent ι)}
    (hcare : Along step Careful (new agentType) es) (hrun : exec step (new agentType) es = some t) :
    Inv t :=
  hcare.invariant (fun _ _ _ h hc hstep => inv_step h hc hstep) (inv_new agentType) hrun

/-- However the sections of any threads are interleaved, `EndTrace(r)` frees nodes of the trace
that `r` stood for when it was referred to, and of no other. -/
theorem end_frees_own_trace {agentType : Int} {es : List (ThreadEvent ι)} {t : ThreadPool ι}
    (hcare : Along step Careful (new agentType) es) (hrun : exec step (new agentType) es = some t) :
    ∀ e ∈ t.freed, e.1 = e.2 :=
  (inv_exec hcare hrun).freed

/-- Two threads end one root with a child, and then its number is used again. -/
theorem end_frees_own_trace_two_ends : ∃ t : ThreadPool Bool,
    exec step (new 1700 : ThreadPool Bool)
      [.startRoot true, .referParent true 128, .referRoot true, .getNode true, .append true,
        .drop true, .drop true, .referEnd false 128, .referEnd true 128, .encode false true,
        .encode true true, .drop false, .drop true, .returnNode false, .returnNode true,
        .returnNode false, .startRoot true] = some t ∧
      t.freed = [(0, 0), (0, 0)] ∧ ∀ e ∈ t.freed, e.1 = e.2 := by
  obtain ⟨t, hrun, hfreed⟩ := Option.map_eq_some_iff.1
    (by decide +kernel : (exec step (new 1700 : ThreadPool Bool)
      [.startRoot true, .referParent true 128, .referRoot true, .getNode true, .append true,
        .drop true, .drop true, .referEnd false 128, .referEnd true 128, .encode false true,
        .encode true true, .drop false, .drop true, .returnNode false, .returnNode true,
        .returnNode false, .startRoot true]).map freed = some [(0, 0), (0, 0)])
  exact ⟨t, hrun, hfreed, end_frees_own_trace (by decide +kernel) hrun⟩

/-- Threads 0 and 1 end the root 128. When 0 has returned it, thread 2 is handed the number for a
new root, and 1 frees that one. -/
theorem second_end_frees_new_root :
    (exec step (new 1700 : ThreadPool Nat)
      [.startRoot 2, .referEnd 0 128, .encode 0 true, .drop 0, .referEnd 1 128, .encode 1 true,
        .drop 1, .returnNode 0, .startRoot 2, .returnNode 1]).map freed = some [(0, 1), (0, 0)] := by
  decide +kernel

/-- However the sections of any threads are interleaved, `StartTrace(p)` appends its node to the
chain of the trace that `p` belonged to when it was referred to. -/
theorem start_joins_own_trace {agentType : Int} {es : List (ThreadEvent ι)} {t : ThreadPool ι}
    (hcare : Along step Careful (new agentType) es) (hrun : exec step (new agentType) es = some t) :
    ∀ e ∈ t.attached, e.1 = e.2 :=
  (inv_exec hcare hrun).attached

/-- A child is started while another thread ends the root and waits for its reference. -/
theorem start_joins_own_trace_waiting_end : ∃ t : ThreadPool Bool,
    exec step (new 1700 : ThreadPool Bool)
      [.startRoot true, .referParent true 128, .referRoot true, .referEnd false 128,
        .encode false true, .drop false, .returnNode false, .getNode true, .append true,
        .drop true, .drop true, .returnNode false, .returnNode false, .startRoot true] = some t ∧
      t.attached = [(0, 0)] ∧ ∀ e ∈ t.attached, e.1 = e.2 := by
  obtain ⟨t, hrun, hattached⟩ := Option.map_eq_some_iff.1
    (by decide +kernel : (exec step (new 1700 : ThreadPool Bool)
      [.startRoot true, .referParent true 128, .referRoot true, .referEnd false 128,
        .encode false true, .drop false, .returnNode false, .getNode true, .append true,
        .drop true, .drop true, .returnNode false, .returnNode false, .startRoot true]).map
          attached = some [(0, 0)])
  exact ⟨t, hrun, hattached, start_joins_own_trace (by decide +kernel) hrun⟩

/-- Thread 0 has referred to the child 127 when thread 1 returns its root and thread 2 is handed
the root's number; the node that 0 starts joins the trace of thread 2. -/
theorem start_joins_recycled_root :
    (exec step (new 1700 : ThreadPool Nat)
      [.startRoot 0, .referParent 0 128, .referRoot 0, .getNode 0, .append 0, .drop 0, .drop 0,
        .referParent 0 127, .referEnd 1 128, .encode 1 true, .drop 1, .returnNode 1, .startRoot 2,
        .referRoot 0, .getNode 0, .append 0]).map attached = some [(0, 1), (0, 0)] := by
  decide +kernel

end ThreadPool

end PinpointAgent.NodePool
