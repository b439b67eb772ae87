import Mathlib.Data.List.Perm.Basic
import Mathlib.Data.Int.Interval
import PinpointAgent.NodePool.PoolManager
/-!
# The pool as a forest of traces

What the pool is for: it holds traces, each a root and the nodes started under it in the
order of their starts. `Holds p f loose` says that the pool's live nodes are the nodes of
the forest `f` and the nodes `loose`, which a call has taken and not yet placed (or has
detached and not yet returned), and that the links of every trace of `f` are the ones its
list prescribes. Each operation of the pool keeps `Holds` for the forest it should produce.
-/

namespace PinpointAgent.NodePool

/-- A trace: its root and the nodes started under it, oldest first. -/
structure Trace where
  root : Int
  kids : List Int

abbrev Forest := List Trace

def Trace.nodes (t : Trace) : List Int := t.root :: t.kids

namespace Forest

def nodes (f : Forest) : List Int := f.flatMap Trace.nodes

def start (f : Forest) (parent new : Int) : Forest :=
  if parent = rootNode then f ++ [⟨new, []⟩]
  else f.map fun t => if parent ∈ t.nodes then { t with kids := t.kids ++ [new] } else t

def finish (f : Forest) (root : Int) : Forest := f.filter (·.root ≠ root)

@[simp] theorem nodes_append (f g : Forest) : nodes (f ++ g) = nodes f ++ nodes g := by
  simp [nodes]

@[simp] theorem nodes_cons (t : Trace) (f : Forest) : nodes (t :: f) = t.nodes ++ nodes f := by
  simp [nodes]

@[simp] theorem nodes_nil : nodes [] = [] := rfl

theorem mem_nodes {f : Forest} {id : Int} : id ∈ f.nodes ↔ ∃ t ∈ f, id ∈ t.nodes := by
  simp [nodes]

theorem mem_nodes_of_mem {f : Forest} {t : Trace} {id : Int} (ht : t ∈ f) (h : id ∈ t.nodes) :
    id ∈ f.nodes := mem_nodes.2 ⟨t, ht, h⟩

theorem start_of_split {l₁ l₂ : Forest} {t : Trace} {parent new : Int} (hne : parent ≠ rootNode)
    (ht : parent ∈ t.nodes) (h₁ : parent ∉ l₁.nodes) (h₂ : parent ∉ l₂.nodes) :
    start (l₁ ++ t :: l₂) parent new = l₁ ++ { t with kids := t.kids ++ [new] } :: l₂ := by
  have hkeep (l : Forest) (h : parent ∉ l.nodes) :
      (l.map fun t => if parent ∈ t.nodes then { t with kids := t.kids ++ [new] } else t) = l := by
    refine (List.map_congr_left fun u hu => ?_).trans (List.map_id l)
    exact if_neg fun hin => h (mem_nodes_of_mem hu hin)
  rw [start, if_neg hne, List.map_append, List.map_cons, hkeep l₁ h₁, hkeep l₂ h₂, if_pos ht]

private theorem finish_of_split {l₁ l₂ : Forest} {t : Trace} (h₁ : t.root ∉ l₁.nodes)
    (h₂ : t.root ∉ l₂.nodes) : finish (l₁ ++ t :: l₂) t.root = l₁ ++ l₂ := by
  have hkeep (l : Forest) (h : t.root ∉ l.nodes) :
      l.filter (fun u => decide (u.root ≠ t.root)) = l := by
    refine List.filter_eq_self.2 fun u hu => decide_eq_true fun heq => h ?_
    exact mem_nodes_of_mem hu (heq ▸ List.mem_cons_self ..)
  rw [finish, List.filter_append, List.filter_cons_of_neg (by simp), hkeep l₁ h₁, hkeep l₂ h₂]

end Forest

/-- The links of a node and its reference count, without its times and annotations. -/
structure Shape where
  id : Int
  rootId : Int
  parentId : Int
  next : Int
  depth : Int
  sequence : Int
  referenceCount : Int
  /-- The last node and the sequence counter of a root. -/
  extra : Option (Int × Int)

def TraceNode.shape (n : TraceNode) : Shape :=
  ⟨n.id, n.rootId, n.parentId, n.next, n.depth, n.sequence, n.referenceCount,
    n.rootNodeExtra.map fun e => (e.last, e.sequence)⟩

private theorem TraceNode.shape_update (n : TraceNode) (expired : Int) (members : Members) :
    { n with expiredTime := expired, value := members }.shape = n.shape := rfl

theorem TraceNode.shape_endTrace (n : TraceNode) (now : Nat) : (n.endTrace now).shape = n.shape :=
  n.shape_update (n.elapsed now) (n.endMembers now)

structure PoolView where
  used : Int → Bool
  maxId : Int
  free : List Int
  log : List Int
  shape : Int → Shape

def PoolManager.view (p : PoolManager) : PoolView :=
  ⟨p.usedNodeSet, p.maxId, p.freeNodeList, p.notAliveLog, fun i => (p.nodeIndexVec i).shape⟩

namespace PoolManager

variable {p q : PoolManager} {f : Forest} {loose : List Int} {id : Int}

def shapeAt (p : PoolManager) (id : Int) : Shape := (p.nodeAt id).shape

private theorem shapeAt_eq_view (p : PoolManager) (id : Int) : p.shapeAt id = p.view.shape (id - 1) := rfl

theorem view_modifyNode {g : TraceNode → TraceNode} (h : (g (p.nodeAt id)).shape = p.shapeAt id) :
    (p.modifyNode id g).view = p.view := by
  have hshape : (fun i => ((p.modifyNode id g).nodeIndexVec i).shape) =
      fun i => (p.nodeIndexVec i).shape := by
    funext i
    by_cases hi : i = id - 1
    · rw [hi]
      simp only [modifyNode, Function.update_self]
      exact h
    · simp only [modifyNode, Function.update_of_ne hi]
  rw [view, hshape]
  rfl

theorem sameAllocation_of_view (heq : q.view = p.view) : SameAllocation p q :=
  ⟨congrArg PoolView.used heq, congrArg PoolView.maxId heq, congrArg PoolView.free heq,
    congrArg PoolView.log heq⟩

end PoolManager

def Trace.rootShape (t : Trace) : Shape :=
  ⟨t.root, t.root, t.root, t.kids.headD invalidNode, 0, 0, 0,
    some (t.kids.getLastD invalidNode, t.kids.length)⟩

/-- The links of the `i`-th node `k` started under the root. -/
def Trace.kidShape (t : Trace) (i : Nat) (k parent depth : Int) : Shape :=
  ⟨k, t.root, parent, (t.kids[i + 1]?).getD invalidNode, depth, i, 0, none⟩

/-- The pool links the nodes of `t` as `t` lists them. -/
structure TraceOk (p : PoolManager) (t : Trace) : Prop where
  root : p.shapeAt t.root = t.rootShape
  kid : ∀ i k, t.kids[i]? = some k →
    ∃ parent ∈ t.nodes, p.shapeAt k = t.kidShape i k parent ((p.shapeAt parent).depth + 1)

private theorem TraceOk.congr {p q : PoolManager} {t : Trace} (h : TraceOk p t)
    (heq : ∀ id ∈ t.nodes, q.shapeAt id = p.shapeAt id) : TraceOk q t := by
  refine ⟨?_, ?_⟩
  · rw [heq t.root (List.mem_cons_self ..), h.root]
  · intro i k hk
    obtain ⟨parent, hparent, hshape⟩ := h.kid i k hk
    refine ⟨parent, hparent, ?_⟩
    rw [heq k (List.mem_cons_of_mem _ (List.mem_of_getElem? hk)), heq parent hparent, hshape]

/-- The pool holds the forest `f` and the live nodes `loose` beside it. -/
structure Holds (p : PoolManager) (f : Forest) (loose : List Int) : Prop where
  alloc : PoolManager.AllocOk p
  nodup : (loose ++ f.nodes).Nodup
  live_iff : ∀ id, p.Live id ↔ id ∈ loose ++ f.nodes
  ok : ∀ t ∈ f, TraceOk p t

namespace Holds

variable {p q : PoolManager} {f : Forest} {loose : List Int} {id : Int}

theorem congr (h : Holds p f loose) (heq : q.view = p.view) : Holds q f loose := by
  have hsame := PoolManager.sameAllocation_of_view heq
  refine ⟨hsame.allocOk h.alloc, h.nodup, ?_, ?_⟩
  · intro id
    rw [hsame.live, h.live_iff]
  · intro t ht
    apply (h.ok t ht).congr
    intro id _
    rw [PoolManager.shapeAt_eq_view, PoolManager.shapeAt_eq_view, heq]

theorem live_of_mem (h : Holds p f loose) {t : Trace} (ht : t ∈ f) (hid : id ∈ t.nodes) :
    p.Live id :=
  (h.live_iff id).2 (List.mem_append_right _ (Forest.mem_nodes_of_mem ht hid))

theorem exists_trace (h : Holds p f []) (hid : p.Live id) : ∃ t ∈ f, id ∈ t.nodes := by
  apply Forest.mem_nodes.1
  simpa using (h.live_iff id).1 hid

theorem live_of_finish {root : Int} (h : Holds p f []) (hq : Holds q (f.finish root) []) (hid : q.Live id) :
    p.Live id := by
  rw [h.live_iff]
  obtain ⟨u, hu, hin⟩ := hq.exists_trace hid
  exact Forest.mem_nodes_of_mem (List.mem_filter.1 hu).1 hin

theorem exists_split {t : Trace} (h : Holds p f loose) (ht : t ∈ f) :
    ∃ l₁ l₂ : Forest, f = l₁ ++ t :: l₂ ∧ t.nodes.Nodup ∧
      ∀ id ∈ t.nodes, id ∉ l₁.nodes ∧ id ∉ l₂.nodes := by
  obtain ⟨l₁, l₂, rfl⟩ := List.append_of_mem ht
  have hnodup := (List.nodup_append.1 h.nodup).2.1
  rw [Forest.nodes_append, Forest.nodes_cons] at hnodup
  have hright := (List.nodup_append.1 hnodup).2.1
  refine ⟨l₁, l₂, rfl, (List.nodup_append.1 hright).1, ?_⟩
  intro id hid
  constructor
  · intro hin
    exact (List.disjoint_of_nodup_append hnodup) hin (List.mem_append_left _ hid)
  · intro hin
    exact (List.disjoint_of_nodup_append hright) hid hin

/-- The nodes of a pool that only relinks nodes may be grouped anew. -/
theorem regroup {g : Forest} {loose' : List Int} (h : Holds p f loose)
    (hsame : PoolManager.SameAllocation p q) (hperm : (loose' ++ g.nodes).Perm (loose ++ f.nodes))
    (hok : ∀ t ∈ g, TraceOk q t) : Holds q g loose' := by
  refine ⟨hsame.allocOk h.alloc, hperm.nodup_iff.2 h.nodup, ?_, hok⟩
  intro id
  rw [hsame.live, h.live_iff, hperm.mem_iff]

theorem allocate (h : Holds p f []) (halloc : PoolManager.Allocated p id q) : Holds q f [id] := by
  have hdead : id ∉ f.nodes := by
    intro hin
    exact halloc.dead ((h.live_iff id).2 (by simpa using hin))
  refine ⟨halloc.alloc, ?_, ?_, ?_⟩
  · exact List.nodup_cons.2 ⟨hdead, by simpa using h.nodup⟩
  · intro other
    rw [halloc.live_iff, h.live_iff]
    simp
  · intro t ht
    apply (h.ok t ht).congr
    intro other hother
    rw [PoolManager.shapeAt, halloc.kept other (h.live_of_mem ht hother), PoolManager.shapeAt]

theorem modifyLoose (h : Holds p f [id]) (g : TraceNode → TraceNode) :
    Holds (p.modifyNode id g) f [id] := by
  refine h.regroup (PoolManager.sameAllocation_modifyNode g) (List.Perm.refl _) ?_
  intro t ht
  apply (h.ok t ht).congr
  intro other hother
  have hne : other ≠ id := by
    rintro rfl
    exact (List.nodup_cons.1 h.nodup).1 (Forest.mem_nodes_of_mem ht hother)
  rw [PoolManager.shapeAt, PoolManager.nodeAt_modifyNode_of_ne g hne, PoolManager.shapeAt]

theorem placeRoot (h : Holds p f [id]) (hsame : PoolManager.SameAllocation p q)
    (hroot : q.shapeAt id = Trace.rootShape ⟨id, []⟩)
    (hkept : ∀ other, p.Live other → other ≠ id → q.shapeAt other = p.shapeAt other) :
    Holds q (f ++ [⟨id, []⟩]) [] := by
  apply h.regroup hsame
  · simp [Trace.nodes]
  · intro t ht
    obtain hold | hnew := List.mem_append.1 ht
    · apply (h.ok t hold).congr
      intro other hother
      refine hkept other (h.live_of_mem hold hother) ?_
      rintro rfl
      exact (List.nodup_cons.1 h.nodup).1 (Forest.mem_nodes_of_mem hold hother)
    · rw [List.mem_singleton.1 hnew]
      exact ⟨hroot, by simp⟩

end Holds

private theorem headD_concat {l : List Int} {a d : Int} (hne : ∀ b ∈ l, b ≠ d) :
    (if l.headD d = d then a else l.headD d) = (l ++ [a]).headD d := by
  cases l with
  | nil => simp
  | cons b l => simp [hne b (List.mem_cons_self ..)]

private theorem getLastD_mem {l : List Int} {d : Int} (h : l.getLastD d ≠ d) : l.getLastD d ∈ l := by
  cases l with
  | nil => exact absurd rfl h
  | cons a l => exact List.getLast_mem (List.cons_ne_nil a l)

private theorem eq_getLastD_iff {l : List Int} {i : Nat} {k d : Int} (hnodup : l.Nodup)
    (hk : l[i]? = some k) : k = l.getLastD d ↔ i + 1 = l.length := by
  obtain ⟨hi, hget⟩ := List.getElem?_eq_some_iff.1 hk
  have hlast : l.getLastD d = l[l.length - 1] := by
    rw [List.getLastD_eq_getLast?, List.getLast?_eq_getElem?, List.getElem?_eq_getElem, Option.getD_some]
  rw [hlast, ← hget, hnodup.getElem_inj_iff]
  omega

theorem TraceOk.append {p q : PoolManager} {t : Trace} {new parent : Int} (h : TraceOk p t)
    (hnodup : (new :: t.nodes).Nodup) (hvalid : ∀ id ∈ t.nodes, id ≠ invalidNode)
    (hparent : parent ∈ t.nodes)
    (hnew : q.shapeAt new =
      ⟨new, t.root, parent, invalidNode, (p.shapeAt parent).depth + 1, t.kids.length, 0, none⟩)
    (hroot : q.shapeAt t.root = { p.shapeAt t.root with
      next := if (p.shapeAt t.root).next = invalidNode then new else (p.shapeAt t.root).next
      extra := some (new, t.kids.length + 1) })
    (hkid : ∀ k ∈ t.kids, q.shapeAt k =
      if k = t.kids.getLastD invalidNode then { p.shapeAt k with next := new } else p.shapeAt k) :
    TraceOk q { t with kids := t.kids ++ [new] } := by
  have hkids : t.kids.Nodup := (List.nodup_cons.1 (List.nodup_cons.1 hnodup).2).2
  have hdepth : ∀ id ∈ t.nodes, (q.shapeAt id).depth = (p.shapeAt id).depth := by
    intro id hid
    obtain rfl | hid := List.mem_cons.1 hid
    · rw [hroot]
    · rw [hkid id hid]
      split <;> rfl
  refine ⟨?_, ?_⟩
  · have hhead := headD_concat (a := new) fun b hb => hvalid b (List.mem_cons_of_mem t.root hb)
    have hlast : (t.kids ++ [new]).getLastD invalidNode = new := by
      simp [List.getLastD_eq_getLast?]
    rw [hroot, h.root, Trace.rootShape, Trace.rootShape, ← hhead, hlast, List.length_append]
    rfl
  · intro i k hk
    by_cases hi : i < t.kids.length
    · have hk' : t.kids[i]? = some k := by rwa [List.getElem?_append_left hi] at hk
      obtain ⟨parent', hparent', hshape⟩ := h.kid i k hk'
      refine ⟨parent', ?_, ?_⟩
      · exact List.mem_cons.2 ((List.mem_cons.1 hparent').imp_right (List.mem_append_left _))
      · rw [hkid k (List.mem_of_getElem? hk'), hdepth parent' hparent', hshape]
        by_cases hlast : i + 1 = t.kids.length
        · rw [if_pos ((eq_getLastD_iff hkids hk').2 hlast)]
          simp [Trace.kidShape, hlast]
        · rw [if_neg (fun heq => hlast ((eq_getLastD_iff hkids hk').1 heq))]
          simp only [Trace.kidShape, List.getElem?_append_left (show i + 1 < t.kids.length by omega)]
    · have hi' : i = t.kids.length := by
        have := (List.getElem?_eq_some_iff.1 hk).1
        simp only [List.length_append, List.length_singleton] at this
        omega
      have hk' : k = new := by
        rw [hi', List.getElem?_append_right (le_refl _)] at hk
        simpa using hk.symm
      refine ⟨parent, ?_, ?_⟩
      · exact List.mem_cons.2 ((List.mem_cons.1 hparent).imp_right (List.mem_append_left _))
      · rw [hk', hnew, hdepth parent hparent, hi']
        simp [Trace.kidShape]

/-- What `AppendToRootTrace` writes beside the links: nothing but the new node's root, the
start of the node before it, and its number. -/
structure Appended (p : PoolManager) (root new : Int) (q : PoolManager) : Prop where
  node : q.nodeAt new = { p.nodeAt new with
    rootId := root
    preTraceTime := (p.nodeAt (p.lastOrRoot root)).traceStartTime
    sequence := (p.rootExtra root).sequence }
  kept : ∀ other, p.Live other → other ≠ new → ∃ next extra,
    q.nodeAt other = { p.nodeAt other with next := next, rootNodeExtra := extra }
  status : ∀ other, p.Live other → other ≠ new →
    (q.nodeAt other).rootNodeExtra.map (·.status) = (p.nodeAt other).rootNodeExtra.map (·.status)

namespace TraceOk

variable {p : PoolManager} {t : Trace}

theorem rootNodeExtra_eq (h : TraceOk p t) : ∃ e, (p.nodeAt t.root).rootNodeExtra = some e ∧
    e.last = t.kids.getLastD invalidNode ∧ e.sequence = t.kids.length := by
  have hextra : (p.nodeAt t.root).rootNodeExtra.map (fun e => (e.last, e.sequence)) =
      some (t.kids.getLastD invalidNode, (t.kids.length : Int)) := congrArg Shape.extra h.root
  obtain ⟨e, he, hpair⟩ := Option.map_eq_some_iff.1 hextra
  exact ⟨e, he, congrArg Prod.fst hpair, congrArg Prod.snd hpair⟩

theorem rootExtra_eq (h : TraceOk p t) : (p.rootExtra t.root).last = t.kids.getLastD invalidNode ∧
    (p.rootExtra t.root).sequence = t.kids.length := by
  obtain ⟨e, he, hrest⟩ := h.rootNodeExtra_eq
  rw [PoolManager.rootExtra, he]
  exact hrest

theorem root_id (h : TraceOk p t) : (p.nodeAt t.root).id = t.root := congrArg Shape.id h.root

theorem lastOrRoot_mem (h : TraceOk p t) : p.lastOrRoot t.root ∈ t.nodes := by
  rw [PoolManager.lastOrRoot, h.rootExtra_eq.1]
  split
  · exact List.mem_cons_self ..
  · next hlast => exact List.mem_cons_of_mem _ (getLastD_mem hlast)

theorem node_ids {id : Int} (h : TraceOk p t) (hid : id ∈ t.nodes) :
    (p.nodeAt id).id = id ∧ (p.nodeAt id).rootId = t.root := by
  obtain rfl | hid := List.mem_cons.1 hid
  · exact ⟨h.root_id, congrArg Shape.rootId h.root⟩
  · obtain ⟨i, hi⟩ := List.mem_iff_getElem?.1 hid
    obtain ⟨_, _, hshape⟩ := h.kid i id hi
    exact ⟨congrArg Shape.id hshape, congrArg Shape.rootId hshape⟩

theorem isRootNode_iff {id : Int} (h : TraceOk p t) (hid : id ∈ t.nodes) :
    (p.nodeAt id).isRootNode = true ↔ t.root = id := by
  obtain ⟨hself, hrootId⟩ := h.node_ids hid
  rw [TraceNode.isRootNode, hself, hrootId, beq_iff_eq]

theorem isRootNode_root (h : TraceOk p t) : (p.nodeAt t.root).isRootNode = true :=
  (h.isRootNode_iff (List.mem_cons_self ..)).2 rfl

end TraceOk

namespace Holds

variable {p : PoolManager} {f : Forest} {new parent : Int} {t : Trace}

theorem appendToRootTrace (sequence : Int) (h : Holds p f [new]) (ht : t ∈ f)
    (hparent : parent ∈ t.nodes)
    (hnew : p.shapeAt new = ⟨new, invalidNode, parent, invalidNode,
      (p.shapeAt parent).depth + 1, sequence, 0, none⟩) :
    ∃ q, p.appendToRootTrace t.root new = (.ok (), q) ∧ PoolManager.SameAllocation p q ∧
      Holds q (f.start parent new) [] ∧ Appended p t.root new q := by
  have hok := h.ok t ht
  obtain ⟨l₁, l₂, rfl, htnodup, hdisjoint⟩ := h.exists_split ht
  have hnotin : new ∉ Forest.nodes (l₁ ++ t :: l₂) := (List.nodup_cons.1 h.nodup).1
  have hnewt : new ∉ t.nodes := fun hin => hnotin (Forest.mem_nodes_of_mem ht hin)
  have hlive : ∀ id ∈ t.nodes, p.Live id := fun id hid => h.live_of_mem ht hid
  obtain ⟨hlast, hseq⟩ := hok.rootExtra_eq
  have hroot : new ≠ t.root := fun heq => hnewt (heq ▸ List.mem_cons_self ..)
  obtain ⟨q, heq, hsame, hqnew, hqroot, hqother⟩ :=
    PoolManager.appendToRootTrace_spec (congrArg Shape.rootId hnew) hroot (by
      rw [hlast]
      intro hne
      have hin : t.kids.getLastD invalidNode ∈ t.kids := getLastD_mem hne
      refine ⟨hlive _ (List.mem_cons_of_mem _ hin), ?_, ?_⟩
      · intro heq
        exact (List.nodup_cons.1 htnodup).1 (heq ▸ hin)
      · intro heq
        exact hnewt (heq ▸ List.mem_cons_of_mem _ hin))
  refine ⟨q, heq, hsame, ?_, ?_⟩
  swap
  · refine ⟨?_, ?_, ?_⟩
    · rw [hqnew, hok.root_id]
    · intro other hother hne
      by_cases hisRoot : other = t.root
      · rw [hisRoot, hqroot]
        exact ⟨_, _, rfl⟩
      · rw [hqother other hother hne hisRoot]
        split
        · exact ⟨_, _, rfl⟩
        · exact ⟨_, _, rfl⟩
    · intro other hother hne
      by_cases hisRoot : other = t.root
      · obtain ⟨e, he, -⟩ := hok.rootNodeExtra_eq
        rw [hisRoot, hqroot, PoolManager.rootExtra, he]
        rfl
      · rw [hqother other hother hne hisRoot]
        split <;> rfl
  rw [Forest.start_of_split (hlive parent hparent).ne_rootNode hparent (hdisjoint parent hparent).1
    (hdisjoint parent hparent).2]
  have hshape : ∀ id, p.Live id → id ≠ new → id ≠ t.root → q.shapeAt id =
      if id = t.kids.getLastD invalidNode then { p.shapeAt id with next := new } else p.shapeAt id := by
    intro id hid hne hne'
    have hid' : (p.nodeAt new).id = new := congrArg Shape.id hnew
    rw [PoolManager.shapeAt, hqother id hid hne hne', hlast, hid']
    split <;> rfl
  have hother (u : Trace) (hu : u ∈ l₁ ++ l₂) : TraceOk q u := by
    have hu' : u ∈ l₁ ++ t :: l₂ := by
      rw [List.mem_append, List.mem_cons]
      exact (List.mem_append.1 hu).imp_right .inr
    apply (h.ok u hu').congr
    intro id hid
    have hidt : id ∉ t.nodes := by
      intro hin
      obtain hu | hu := List.mem_append.1 hu
      · exact (hdisjoint id hin).1 (Forest.mem_nodes_of_mem hu hid)
      · exact (hdisjoint id hin).2 (Forest.mem_nodes_of_mem hu hid)
    have hidlive := h.live_of_mem hu' hid
    rw [hshape id hidlive (fun heq => hnotin (heq ▸ Forest.mem_nodes_of_mem hu' hid))
      (fun heq => hidt (heq ▸ List.mem_cons_self ..)), if_neg]
    intro heq
    by_cases hnone : t.kids.getLastD invalidNode = invalidNode
    · exact hidlive.ne_invalidNode (heq.trans hnone)
    · exact hidt (heq ▸ List.mem_cons_of_mem _ (getLastD_mem hnone))
  apply h.regroup hsame
  · rw [List.perm_iff_count]
    intro a
    simp only [Forest.nodes_append, Forest.nodes_cons, Trace.nodes, List.count_append,
      List.count_cons, List.count_nil]
    omega
  · intro u hu
    rw [List.mem_append, List.mem_cons] at hu
    obtain hu | rfl | hu := hu
    · exact hother u (List.mem_append_left _ hu)
    · apply hok.append (List.nodup_cons.2 ⟨hnewt, htnodup⟩)
        (fun id hid => (hlive id hid).ne_invalidNode) hparent
      · have hparts : (p.nodeAt new).shape = _ := hnew
        rw [PoolManager.shapeAt, hqnew, hok.root_id, hseq]
        simp only [TraceNode.shape, Shape.mk.injEq] at hparts ⊢
        exact ⟨hparts.1, trivial, hparts.2.2.1, hparts.2.2.2.1, hparts.2.2.2.2.1, trivial,
          hparts.2.2.2.2.2.2.1, hparts.2.2.2.2.2.2.2⟩
      · have hid : (p.nodeAt new).id = new := congrArg Shape.id hnew
        rw [PoolManager.shapeAt, hqroot, hseq, hid]
        rfl
      · intro k hk
        refine hshape k (hlive k (List.mem_cons_of_mem _ hk)) ?_ ?_
        · rintro rfl
          exact hnewt (List.mem_cons_of_mem _ hk)
        · rintro rfl
          exact (List.nodup_cons.1 htnodup).1 hk
    · exact hother u (List.mem_append_right _ hu)

end Holds

/-- Following `next_` from `next` visits `ids` and ends in `E_INVALID_NODE`. -/
def Chain (p : PoolManager) : Int → List Int → Prop
  | next, [] => next = invalidNode
  | next, k :: rest => next = k ∧ Chain p (p.nodeAt k).next rest

theorem Chain.congr {p q : PoolManager} {next : Int} {ids : List Int} (h : Chain p next ids)
    (hnodes : ∀ k, (q.nodeAt k).next = (p.nodeAt k).next) : Chain q next ids := by
  induction ids generalizing next with
  | nil => exact h
  | cons k rest ih =>
    refine ⟨h.1, ?_⟩
    rw [hnodes k]
    exact ih h.2

private theorem chain_of_next {p : PoolManager} {ids : List Int}
    (h : ∀ i k, ids[i]? = some k → (p.nodeAt k).next = (ids[i + 1]?).getD invalidNode) :
    Chain p (ids.headD invalidNode) ids := by
  induction ids with
  | nil => rfl
  | cons k rest ih =>
    refine ⟨rfl, ?_⟩
    have hnext : (p.nodeAt k).next = rest.headD invalidNode := by
      rw [h 0 k rfl]
      cases rest <;> rfl
    rw [hnext]
    exact ih fun i => h (i + 1)

theorem TraceOk.chain {p : PoolManager} {t : Trace} (h : TraceOk p t) :
    Chain p (p.nodeAt t.root).next t.kids := by
  have hroot : (p.nodeAt t.root).next = t.kids.headD invalidNode := congrArg Shape.next h.root
  rw [hroot]
  apply chain_of_next
  intro i k hk
  obtain ⟨_, _, hshape⟩ := h.kid i k hk
  exact congrArg Shape.next hshape

private theorem TraceOk.referenceCount {p : PoolManager} {t : Trace} {id : Int} (h : TraceOk p t)
    (hid : id ∈ t.nodes) : (p.nodeAt id).referenceCount = 0 := by
  obtain rfl | hid := List.mem_cons.1 hid
  · exact congrArg Shape.referenceCount h.root
  · obtain ⟨i, hi⟩ := List.mem_iff_getElem?.1 hid
    obtain ⟨_, _, hshape⟩ := h.kid i id hi
    exact congrArg Shape.referenceCount hshape

namespace Holds

variable {p : PoolManager} {f : Forest} {loose : List Int} {id : Int} {t : Trace}

theorem length_le (h : Holds p f loose) : (loose ++ f.nodes).length ≤ p.maxId.toNat := by
  have hsub : (loose ++ f.nodes).toFinset ⊆ Finset.Icc 1 p.maxId := by
    intro id hid
    have hlive := PoolManager.live_iff.1 ((h.live_iff id).2 (List.mem_toFinset.1 hid))
    rw [Finset.mem_Icc]
    omega
  have hcard := Finset.card_le_card hsub
  rw [List.toFinset_card_of_nodup h.nodup, Int.card_Icc] at hcard
  omega

theorem detach (h : Holds p f []) (ht : t ∈ f) : Holds p (f.finish t.root) t.nodes := by
  obtain ⟨l₁, l₂, rfl, _, hdisjoint⟩ := h.exists_split ht
  have hroot := hdisjoint t.root (List.mem_cons_self ..)
  rw [Forest.finish_of_split hroot.1 hroot.2]
  apply h.regroup ⟨rfl, rfl, rfl, rfl⟩
  · rw [List.perm_iff_count]
    intro a
    simp only [Forest.nodes_append, Forest.nodes_cons, List.count_append, List.count_nil]
    omega
  · intro u hu
    apply h.ok u
    rw [List.mem_append, List.mem_cons]
    exact (List.mem_append.1 hu).imp_right .inr

private theorem release (h : Holds p f (id :: loose)) : Holds (p.release id) f loose := by
  have hlive : p.Live id := (h.live_iff id).2 (List.mem_cons_self ..)
  have hsplit := h.nodup
  rw [List.cons_append, List.nodup_cons] at hsplit
  obtain ⟨hnotin, hnodup⟩ := hsplit
  refine ⟨h.alloc.release hlive, hnodup, ?_, ?_⟩
  · intro other
    rw [PoolManager.live_release, h.live_iff, List.cons_append, List.mem_cons]
    constructor
    · rintro ⟨heq | hin, hne⟩
      · exact absurd heq hne
      · exact hin
    · intro hin
      exact ⟨.inr hin, fun heq => hnotin (heq ▸ hin)⟩
  · intro u hu
    exact (h.ok u hu).congr fun _ _ => rfl

theorem freeLoop {fuel : Nat} {next : Int} (h : Holds p f loose) (hchain : Chain p next loose)
    (href : ∀ id ∈ loose, (p.nodeAt id).referenceCount = 0) (hfuel : loose.length ≤ fuel) :
    ∃ q, p.freeLoop next fuel = some q ∧ Holds q f [] ∧ q.maxId = p.maxId ∧
      q.nodeIndexVec = p.nodeIndexVec ∧ q.notAliveLog = p.notAliveLog := by
  induction loose generalizing p fuel next with
  | nil =>
    refine ⟨p, ?_, h, rfl, rfl, rfl⟩
    have hnext : next = invalidNode := hchain
    cases fuel <;> rw [PoolManager.freeLoop, if_pos hnext]
  | cons k rest ih =>
    obtain ⟨fuel, rfl⟩ : ∃ n, fuel = n + 1 := ⟨fuel - 1, by simp at hfuel; omega⟩
    obtain ⟨rfl, hrest⟩ := hchain
    have hlive : p.Live next := (h.live_iff next).2 (List.mem_cons_self ..)
    rw [PoolManager.freeLoop, if_neg hlive.ne_invalidNode]
    simp only [PoolManager.returnNodeRetrying_of_live hlive (href next (List.mem_cons_self ..))]
    obtain ⟨q, hq, hholds, hmax, hnodes, hlog⟩ := ih h.release (hrest.congr (q := p.release next) fun _ => rfl)
      (fun id hid => href id (List.mem_cons_of_mem _ hid)) (Nat.le_of_succ_le_succ hfuel)
    exact ⟨q, hq, hholds, hmax, hnodes, hlog⟩

theorem freeNodeTree (h : Holds p f []) (ht : t ∈ f) :
    ∃ q, p.freeNodeTree t.root = some q ∧ Holds q (f.finish t.root) [] ∧ q.maxId = p.maxId ∧
      q.nodeIndexVec = p.nodeIndexVec ∧ q.notAliveLog = p.notAliveLog := by
  have hok := h.ok t ht
  have hlive := h.live_of_mem ht (List.mem_cons_self ..)
  have hloose := h.detach ht
  have hlen := hloose.length_le
  rw [List.length_append] at hlen
  rw [PoolManager.freeNodeTree, if_neg (not_or.2 ⟨hlive.ne_invalidNode, hlive.ne_rootNode⟩)]
  simp only [PoolManager.returnNodeRetrying_of_live hlive
    (hok.referenceCount (List.mem_cons_self ..))]
  refine hloose.release.freeLoop (hok.chain.congr (q := p.release t.root) fun _ => rfl) ?_ ?_
  · intro id hid
    exact hok.referenceCount (List.mem_cons_of_mem _ hid)
  · simp only [Trace.nodes, List.length_cons] at hlen
    omega

theorem new : Holds PoolManager.new [] [] := by
  refine ⟨PoolManager.allocOk_new, List.nodup_nil, ?_, by simp⟩
  intro id
  simp [PoolManager.live_iff, PoolManager.new, PoolManager.expandOnce]

end Holds

end PinpointAgent.NodePool
