import PinpointAgent.NodePool.ThreadPool
/-!
# The links of the traces in a pool

A pool that several threads use is looked at as a partial map from identifiers to links: the
live nodes, each with the trace it belongs to. `Linked` is what the chains of the traces look
like, and `CallState.Sound` what a call in progress relies on. A node that is handed out, appended
or returned in its turn keeps both.
-/

namespace PinpointAgent.NodePool

open Framework

structure Link where
  id : Int
  rootId : Int
  next : Int
  last : Int
  trace : Nat

namespace PoolManager

def links (p : PoolManager) (traceOf : Int → Nat) (n : Int) : Option Link :=
  if p.Live n then
    some ⟨(p.nodeAt n).id, (p.nodeAt n).rootId, (p.nodeAt n).next, (p.rootExtra n).last, traceOf n⟩
  else none

def counts (p : PoolManager) (n : Int) : Option Int :=
  if p.Live n then some (p.nodeAt n).referenceCount else none

end PoolManager

/-- The links of the live nodes: the nodes of a trace hang on its root by `next`, one behind the
other, up to the root's last one. -/
structure Linked (v : Int → Option Link) (traces : Nat) : Prop where
  ident : ∀ n l, v n = some l → l.id = n ∧ n ≠ invalidNode
  next : ∀ n l, v n = some l → l.next ≠ invalidNode →
    ∃ m, v l.next = some m ∧ m.trace = l.trace ∧ m.rootId ≠ l.next ∧ m.rootId ≠ invalidNode
  single : ∀ n l n' l', v n = some l → v n' = some l' → l.next = l'.next → l.next ≠ invalidNode →
    n = n'
  root : ∀ n l r, v n = some l → v l.rootId = some r → r.trace = l.trace ∧ r.rootId = l.rootId
  last : ∀ r l, v r = some l → l.rootId = r → l.last ≠ invalidNode → l.next ≠ invalidNode ∧
    ∃ m, v l.last = some m ∧ m.trace = l.trace ∧ m.next = invalidNode ∧ m.rootId = r ∧ l.last ≠ r
  oneRoot : ∀ r l r' l', v r = some l → v r' = some l' → l.rootId = r → l'.rootId = r' →
    l.trace = l'.trace → r = r'
  fresh : ∀ n l, v n = some l → l.trace < traces

/-- `n` is alive as a node of `trace`. -/
def Belongs (v : Int → Option Link) (n : Int) (trace : Nat) : Prop :=
  ∃ l, v n = some l ∧ l.trace = trace

/-- `r` is alive as the root of `trace`. -/
def Roots (v : Int → Option Link) (r : Int) (trace : Nat) : Prop :=
  ∃ l, v r = some l ∧ l.trace = trace ∧ l.rootId = r

/-- `n` was handed out for `trace` and is not in its chain yet. -/
def Made (v : Int → Option Link) (n : Int) (trace : Nat) : Prop :=
  ∃ l, v n = some l ∧ l.trace = trace ∧ l.rootId = invalidNode ∧ l.next = invalidNode

/-- What `FreeNodeTree` may rely on before it returns `id`: the node is dead, or it is a node of
its own trace that no live node leads to; and no other root of the trace is left. -/
structure Walking (v : Int → Option Link) (traces : Nat) (id : Int) (trace : Nat) : Prop where
  own : ∀ l, v id = some l → l.trace = trace ∧ l.rootId ≠ invalidNode
  first : ∀ n l, v n = some l → v id ≠ none → l.next ≠ id
  last : ∀ r l, v r = some l → l.rootId = r → l.trace = trace → r = id
  started : trace < traces

def CallState.Sound (v : Int → Option Link) (traces : Nat) : CallState → Prop
  | .resting => True
  | .parentHeld p trace => Belongs v p trace
  | .rootHeld p root trace => Belongs v p trace ∧ Roots v root trace
  | .nodeMade p root new trace => Belongs v p trace ∧ Roots v root trace ∧ Made v new trace
  | .ending r trace => Roots v r trace
  | .leaving refs tree => ∀ r trace, tree = some (r, trace) → refs = [r] ∧ Roots v r trace
  | .returning id _ trace => Walking v traces id trace

section Links

variable {v v' : Int → Option Link} {traces traces' trace : Nat} {id : Int}

theorem linked_of_empty (h : ∀ n, v n = none) : Linked v traces := by
  constructor <;> intros <;> simp_all

private theorem Linked.of_some (h : Linked v traces) {n : Int} {l : Link} (hn : v n = some l) :
    n ≠ invalidNode := (h.ident n l hn).2

theorem Linked.walking_root (h : Linked v traces) (hroot : Roots v id trace) :
    Walking v traces id trace := by
  obtain ⟨l, hl, rfl, hid⟩ := hroot
  refine ⟨?_, ?_, ?_, h.fresh id l hl⟩
  · intro l' hl'
    cases hl.symm.trans hl'
    exact ⟨rfl, hid.trans_ne (h.of_some hl)⟩
  · -- what a live node leads to is not a root
    rintro n m hn - rfl
    obtain ⟨l', hl', -, hne, -⟩ := h.next n m hn (h.of_some hl)
    cases hl.symm.trans hl'
    exact hne hid
  · intro r m hr hrr htrace
    exact h.oneRoot r m id l hr hl hrr hid htrace

private theorem added_cases {l₀ l : Link} {n : Int} (hn : Function.update v id (some l₀) n = some l) :
    n = id ∧ l = l₀ ∨ v n = some l := by
  by_cases heq : n = id
  · rw [heq, Function.update_self] at hn
    exact .inl ⟨heq, (Option.some.inj hn).symm⟩
  · rw [Function.update_of_ne heq] at hn
    exact .inr hn

theorem added_keep {l₀ : Option Link} {l : Link} {n : Int} (hdead : v id = none)
    (hn : v n = some l) : Function.update v id l₀ n = some l := by
  rw [Function.update_of_ne, hn]
  rintro rfl
  simp [hdead] at hn

theorem Linked.add {l₀ : Link} (h : Linked v traces) (hdead : v id = none) (hid : id ≠ invalidNode)
    (hretired : ∀ n l, v n = some l → l.rootId ≠ id)
    (hl₀ : l₀.id = id ∧ l₀.next = invalidNode ∧ l₀.last = invalidNode)
    (hroot : l₀.rootId = invalidNode ∨ l₀.rootId = id ∧ ∀ n l, v n = some l → l.trace ≠ l₀.trace)
    (htraces : traces ≤ traces') (htrace : l₀.trace < traces') :
    Linked (Function.update v id (some l₀)) traces' := by
  obtain ⟨hl₀id, hl₀next, hl₀last⟩ := hl₀
  have hcases (n : Int) (l : Link) (hn : Function.update v id (some l₀) n = some l) :
      n = id ∧ l = l₀ ∨ v n = some l := added_cases hn
  refine ⟨?_, ?_, ?_, ?_, ?_, ?_, ?_⟩
  · intro n l hn
    obtain ⟨rfl, rfl⟩ | hn := hcases n l hn
    · exact ⟨hl₀id, hid⟩
    · exact h.ident n l hn
  · intro n l hn hnext
    obtain ⟨rfl, rfl⟩ | hn := hcases n l hn
    · exact absurd hl₀next hnext
    · obtain ⟨m, hm, hrest⟩ := h.next n l hn hnext
      exact ⟨m, added_keep hdead hm, hrest⟩
  · intro n l n' l' hn hn' heq hnext
    obtain ⟨rfl, rfl⟩ | hn := hcases n l hn
    · exact absurd hl₀next hnext
    · obtain ⟨rfl, rfl⟩ | hn' := hcases n' l' hn'
      · exact absurd (heq.trans hl₀next) hnext
      · exact h.single n l n' l' hn hn' heq hnext
  · intro n l r hn hr
    obtain ⟨rfl, rfl⟩ | hn := hcases n l hn
    · obtain ⟨heq, rfl⟩ | hr := hcases _ r hr
      · exact ⟨rfl, rfl⟩
      · obtain hinvalid | ⟨hself, -⟩ := hroot
        · exact absurd hinvalid (h.of_some hr)
        · rw [hself, hdead] at hr
          cases hr
    · obtain ⟨heq, -⟩ | hr := hcases _ r hr
      · exact absurd heq (hretired n l hn)
      · exact h.root n l r hn hr
  · intro r l hr hrr hlast
    obtain ⟨rfl, rfl⟩ | hr := hcases r l hr
    · exact absurd hl₀last hlast
    · obtain ⟨hnext, m, hm, hrest⟩ := h.last r l hr hrr hlast
      exact ⟨hnext, m, added_keep hdead hm, hrest⟩
  · intro r l r' l' hr hr' hrr hrr' heq
    have hfresh (n : Int) (m : Link) (hn : v n = some m) (hself : l₀.rootId = id) :
        m.trace ≠ l₀.trace := by
      obtain hinvalid | ⟨-, hnew⟩ := hroot
      · exact absurd (hself.symm.trans hinvalid) hid
      · exact hnew n m hn
    obtain ⟨rfl, rfl⟩ | hold := hcases r l hr
    · obtain ⟨rfl, -⟩ | hold' := hcases r' l' hr'
      · rfl
      · exact absurd heq.symm (hfresh r' l' hold' hrr)
    · obtain ⟨rfl, rfl⟩ | hold' := hcases r' l' hr'
      · exact absurd heq (hfresh r l hold hrr')
      · exact h.oneRoot r l r' l' hold hold' hrr hrr' heq
  · intro n l hn
    obtain ⟨rfl, rfl⟩ | hn := hcases n l hn
    · exact htrace
    · exact (h.fresh n l hn).trans_le htraces

private theorem freed_some {n : Int} {l : Link} :
    Function.update v id none n = some l ↔ n ≠ id ∧ v n = some l := by
  by_cases heq : n = id
  · simp [heq]
  · simp [heq]

theorem Linked.free (h : Linked v traces) (hwalk : Walking v traces id trace) {l₀ : Link}
    (hid : v id = some l₀) : Linked (Function.update v id none) traces := by
  have hlive : v id ≠ none := by simp [hid]
  refine ⟨?_, ?_, ?_, ?_, ?_, ?_, ?_⟩
  · intro n l hn
    exact h.ident n l (freed_some.1 hn).2
  · intro n l hn hnext
    obtain ⟨m, hm, hrest⟩ := h.next n l (freed_some.1 hn).2 hnext
    have hne := hwalk.first n l (freed_some.1 hn).2 hlive
    exact ⟨m, freed_some.2 ⟨hne, hm⟩, hrest⟩
  · intro n l n' l' hn hn' heq hnext
    exact h.single n l n' l' (freed_some.1 hn).2 (freed_some.1 hn').2 heq hnext
  · intro n l r hn hr
    exact h.root n l r (freed_some.1 hn).2 (freed_some.1 hr).2
  · intro r l hr hrr hlast
    obtain ⟨hne, hold⟩ := freed_some.1 hr
    obtain ⟨hnext, m, hm, htrace, hrest⟩ := h.last r l hold hrr hlast
    refine ⟨hnext, m, freed_some.2 ⟨?_, hm⟩, htrace, hrest⟩
    -- the walk is past the root of the trace, so that root is not alive
    intro heq
    rw [heq] at hm
    have hown := (hwalk.own m hm).1
    exact hne (hwalk.last r l hold hrr (htrace.symm.trans hown))
  · intro r l r' l' hr hr' hrr hrr' heq
    exact h.oneRoot r l r' l' (freed_some.1 hr).2 (freed_some.1 hr').2 hrr hrr' heq
  · intro n l hn
    exact h.fresh n l (freed_some.1 hn).2

theorem Linked.walking_next (h : Linked v traces) (hwalk : Walking v traces id trace) {l₀ : Link}
    (hid : v id = some l₀) (hnext : l₀.next ≠ invalidNode) :
    Walking (Function.update v id none) traces l₀.next trace := by
  obtain ⟨m, hm, htrace, -, hroot⟩ := h.next id l₀ hid hnext
  refine ⟨?_, ?_, ?_, hwalk.started⟩
  · intro l hl
    cases hm.symm.trans (freed_some.1 hl).2
    exact ⟨htrace.trans (hwalk.own l₀ hid).1, hroot⟩
  · intro n l hn _ heq
    obtain ⟨hne, hn⟩ := freed_some.1 hn
    exact hne (h.single n l id l₀ hn hid heq (heq.trans_ne hnext))
  · intro r l hr hrr heq
    obtain ⟨hne, hr⟩ := freed_some.1 hr
    exact absurd (hwalk.last r l hr hrr heq) hne

section Hang

variable {root new : Int} {lr ln : Link}

/-- The links after `new` was appended to the chain of `root`, whose links are `lr`. -/
def hang (v : Int → Option Link) (root new : Int) (lr : Link) (n : Int) : Option Link :=
  (v n).map fun l =>
    { l with
      rootId := if n = new then root else l.rootId
      last := if n = root then new else l.last
      next := if n = lr.last ∨ n = root ∧ lr.next = invalidNode then new else l.next }

/-- `new` is a fresh node of the trace that `root` roots. -/
structure Hangs (v : Int → Option Link) (root new : Int) (lr ln : Link) : Prop where
  rootLive : v root = some lr
  self : lr.rootId = root
  newLive : v new = some ln
  trace : ln.trace = lr.trace
  loose : ln.rootId = invalidNode
  free : ln.next = invalidNode

theorem Hangs.apart (hh : Hangs v root new lr ln) (h : Linked v traces) {n : Int} {l : Link}
    (hn : v n = some l) : l.next ≠ new ∧ l.rootId ≠ new ∧ (l.rootId = n → n ≠ new) ∧
      (l.rootId = n → l.last ≠ new) := by
  have hnew := h.of_some hh.newLive
  refine ⟨?_, ?_, ?_, ?_⟩
  · rintro rfl
    obtain ⟨m, hm, -, -, hroot⟩ := h.next n l hn hnew
    cases hh.newLive.symm.trans hm
    exact hroot hh.loose
  · rintro rfl
    have hself := (h.root n l ln hn hh.newLive).2
    exact hnew (hself.symm.trans hh.loose)
  · rintro hself rfl
    cases hh.newLive.symm.trans hn
    exact hnew (hself.symm.trans hh.loose)
  · rintro hself rfl
    obtain ⟨-, m, hm, -, -, hroot, -⟩ := h.last n l hn hself hnew
    cases hh.newLive.symm.trans hm
    exact h.of_some hn (hroot.symm.trans hh.loose)

private theorem Hangs.tail (hh : Hangs v root new lr ln) (h : Linked v traces) {n : Int} {l : Link}
    (hn : v n = some l) (htail : n = lr.last ∨ n = root ∧ lr.next = invalidNode) :
    l.trace = lr.trace ∧ l.next = invalidNode ∧ l.rootId = root ∧
      (n = lr.last ↔ lr.next ≠ invalidNode) := by
  obtain rfl | ⟨rfl, hnext⟩ := htail
  · obtain ⟨hnext, m, hm, htrace, hfree, hroot, -⟩ := h.last root lr hh.rootLive hh.self (h.of_some hn)
    cases hn.symm.trans hm
    exact ⟨htrace, hfree, hroot, by simp [hnext]⟩
  · cases hn.symm.trans hh.rootLive
    refine ⟨rfl, hnext, hh.self, ?_⟩
    simp only [hnext, ne_eq, not_true_eq_false, iff_false]
    intro heq
    exact (h.last n lr hn hh.self (heq ▸ h.of_some hn)).1 hnext

private theorem hang_next (h : Linked v traces) (hh : Hangs v root new lr ln) {n : Int} {l : Link}
    (hl : hang v root new lr n = some l) (hnext : l.next ≠ invalidNode) :
    ∃ m, hang v root new lr l.next = some m ∧ m.trace = l.trace ∧ m.rootId ≠ l.next ∧
      m.rootId ≠ invalidNode := by
  have hne : root ≠ new := (hh.apart h hh.rootLive).2.2.1 hh.self
  obtain ⟨l, hold, rfl⟩ := Option.map_eq_some_iff.1 hl
  by_cases htail : n = lr.last ∨ n = root ∧ lr.next = invalidNode
  · simp only [if_pos htail]
    refine ⟨_, Option.map_eq_some_iff.2 ⟨ln, hh.newLive, rfl⟩, ?_, ?_, ?_⟩
    · exact hh.trace.trans (hh.tail h hold htail).1.symm
    · simpa using hne
    · simpa using h.of_some hh.rootLive
  · simp only [if_neg htail] at hnext ⊢
    obtain ⟨m, hm, htrace, hroot, hvalid⟩ := h.next n l hold hnext
    have hapart := (hh.apart h hold).1
    refine ⟨_, Option.map_eq_some_iff.2 ⟨m, hm, rfl⟩, htrace, ?_, ?_⟩
    · simpa [hapart] using hroot
    · simpa [hapart] using hvalid

private theorem hang_single (h : Linked v traces) (hh : Hangs v root new lr ln) {n n' : Int}
    {l l' : Link} (hl : hang v root new lr n = some l) (hl' : hang v root new lr n' = some l')
    (heq : l.next = l'.next) (hnext : l.next ≠ invalidNode) : n = n' := by
  obtain ⟨l, hold, rfl⟩ := Option.map_eq_some_iff.1 hl
  obtain ⟨l', hold', rfl⟩ := Option.map_eq_some_iff.1 hl'
  by_cases htail : n = lr.last ∨ n = root ∧ lr.next = invalidNode
  · by_cases htail' : n' = lr.last ∨ n' = root ∧ lr.next = invalidNode
    · have hpos := (hh.tail h hold htail).2.2.2
      have hpos' := (hh.tail h hold' htail').2.2.2
      grind
    · simp only [if_pos htail, if_neg htail'] at heq
      exact absurd heq.symm (hh.apart h hold').1
  · simp only [if_neg htail] at heq hnext
    by_cases htail' : n' = lr.last ∨ n' = root ∧ lr.next = invalidNode
    · simp only [if_pos htail'] at heq
      exact absurd heq (hh.apart h hold).1
    · simp only [if_neg htail'] at heq
      exact h.single n l n' l' hold hold' heq hnext

private theorem hang_root (h : Linked v traces) (hh : Hangs v root new lr ln) {r : Int} {l : Link}
    (hl : hang v root new lr r = some l) (hself : l.rootId = r) :
    ∃ l', v r = some l' ∧ l'.rootId = r ∧ l'.trace = l.trace ∧ r ≠ new := by
  obtain ⟨l', hold, rfl⟩ := Option.map_eq_some_iff.1 hl
  have hne : r ≠ new := by
    rintro rfl
    simp only [if_true] at hself
    exact (hh.apart h hh.rootLive).2.2.1 hh.self hself
  simp only [if_neg hne] at hself
  exact ⟨l', hold, hself, rfl, hne⟩

private theorem hang_last (h : Linked v traces) (hh : Hangs v root new lr ln) {r : Int} {l : Link}
    (hl : hang v root new lr r = some l) (hself : l.rootId = r) (hlast : l.last ≠ invalidNode) :
    l.next ≠ invalidNode ∧ ∃ m, hang v root new lr l.last = some m ∧ m.trace = l.trace ∧
      m.next = invalidNode ∧ m.rootId = r ∧ l.last ≠ r := by
  have hnew := h.of_some hh.newLive
  obtain ⟨-, -, -, -, hrnew⟩ := hang_root h hh hl hself
  obtain ⟨l, hold, rfl⟩ := Option.map_eq_some_iff.1 hl
  simp only [if_neg hrnew] at hself
  by_cases hroot : r = root
  · subst hroot
    cases hold.symm.trans hh.rootLive
    have hnot : ¬(new = lr.last ∨ new = r ∧ lr.next = invalidNode) := by
      rintro (hlast' | ⟨hroot', -⟩)
      · exact (hh.apart h hold).2.2.2 hself hlast'.symm
      · exact hrnew hroot'.symm
    simp only [if_true]
    refine ⟨by grind, _, Option.map_eq_some_iff.2 ⟨ln, hh.newLive, rfl⟩, hh.trace, ?_, ?_, hrnew.symm⟩
    · simp only [if_neg hnot, hh.free]
    · simp only [if_true]
  · simp only [if_neg hroot] at hlast ⊢
    obtain ⟨hnext, m, hm, htrace, hfree, hmroot, hmne⟩ := h.last r l hold hself hlast
    -- the last node of another trace is not the one that `new` is hung behind
    have hnot : ¬(l.last = lr.last ∨ l.last = root ∧ lr.next = invalidNode) := by
      intro htail
      exact hroot (hmroot.symm.trans (hh.tail h hm htail).2.2.1)
    refine ⟨by grind, _, Option.map_eq_some_iff.2 ⟨m, hm, rfl⟩, htrace, ?_, ?_, hmne⟩
    · simp only [if_neg hnot, hfree]
    · simp only [if_neg ((hh.apart h hold).2.2.2 hself), hmroot]

theorem Linked.hang (h : Linked v traces) (hh : Hangs v root new lr ln) :
    Linked (hang v root new lr) traces := by
  have hne : root ≠ new := (hh.apart h hh.rootLive).2.2.1 hh.self
  refine ⟨?_, fun n l => hang_next h hh, fun n l n' l' => hang_single h hh, ?_,
    fun r l => hang_last h hh, ?_, ?_⟩
  · intro n l' hn
    obtain ⟨l, hl, rfl⟩ := Option.map_eq_some_iff.1 hn
    exact h.ident n l hl
  · intro n l₁ r₁ hn hr
    obtain ⟨l, hl, rfl⟩ := Option.map_eq_some_iff.1 hn
    obtain ⟨r, hlr, rfl⟩ := Option.map_eq_some_iff.1 hr
    by_cases heq : n = new
    · subst heq
      simp only [if_true] at hlr ⊢
      cases hlr.symm.trans hh.rootLive
      cases hl.symm.trans hh.newLive
      exact ⟨hh.trace.symm, by simp [hne, hh.self]⟩
    · simp only [if_neg heq] at hlr ⊢
      simpa [(hh.apart h hl).2.1] using h.root n l r hl hlr
  · intro r l r' l' hr hr' hrr hrr' heq
    obtain ⟨m, hm, hself, htrace, -⟩ := hang_root h hh hr hrr
    obtain ⟨m', hm', hself', htrace', -⟩ := hang_root h hh hr' hrr'
    exact h.oneRoot r m r' m' hm hm' hself hself' (htrace.trans (heq.trans htrace'.symm))
  · intro n l₁ hn
    obtain ⟨l, hl, rfl⟩ := Option.map_eq_some_iff.1 hn
    exact h.fresh n l hl

end Hang

private theorem CallState.Sound.transfer {c : CallState} (h : c.Sound v traces)
    (hheld : ∀ n ∈ c.held, ∀ l, v n = some l →
      ∃ l', v' n = some l' ∧ l'.trace = l.trace ∧ (l.rootId = n → l'.rootId = n))
    (hmade : ∀ n, c.made = some n → ∀ k, Made v n k → Made v' n k)
    (hwalk : ∀ id, c.toReturn = some id → ∀ k, Walking v traces id k → Walking v' traces' id k) :
    c.Sound v' traces' := by
  have belongs (n : Int) (hn : n ∈ c.held) (k : Nat) (hb : Belongs v n k) : Belongs v' n k := by
    obtain ⟨l, hl, rfl⟩ := hb
    obtain ⟨l', hl', htrace, -⟩ := hheld n hn l hl
    exact ⟨l', hl', htrace⟩
  have roots (n : Int) (hn : n ∈ c.held) (k : Nat) (hr : Roots v n k) : Roots v' n k := by
    obtain ⟨l, hl, rfl, hself⟩ := hr
    obtain ⟨l', hl', htrace, hroot⟩ := hheld n hn l hl
    exact ⟨l', hl', htrace, hroot hself⟩
  cases c with
  | resting => trivial
  | parentHeld p trace => exact belongs p (by simp [CallState.held]) trace h
  | rootHeld p root trace =>
    exact ⟨belongs p (by simp [CallState.held]) trace h.1, roots root (by simp [CallState.held]) trace h.2⟩
  | nodeMade p root new trace =>
    exact ⟨belongs p (by simp [CallState.held]) trace h.1,
      roots root (by simp [CallState.held]) trace h.2.1, hmade new rfl trace h.2.2⟩
  | ending r trace => exact roots r (by simp [CallState.held]) trace h
  | leaving refs tree =>
    intro r trace htree
    obtain ⟨hrefs, hroot⟩ := h r trace htree
    exact ⟨hrefs, roots r (by simp [CallState.held, hrefs]) trace hroot⟩
  | returning id tries trace => exact hwalk id rfl trace h

theorem CallState.Sound.add {c : CallState} {l₀ : Link} (h : c.Sound v traces)
    (hlinked : Linked v traces) (hdead : v id = none) (hid : id ≠ invalidNode)
    (hreturn : c.toReturn ≠ some id) (hnext : l₀.next = invalidNode)
    (hroot : l₀.rootId = invalidNode ∨ traces ≤ l₀.trace) (htraces : traces ≤ traces') :
    c.Sound (Function.update v id (some l₀)) traces' := by
  refine h.transfer ?_ ?_ ?_
  · intro n _ l hn
    exact ⟨l, added_keep hdead hn, rfl, fun hself => hself⟩
  · rintro n - k ⟨l, hl, hrest⟩
    exact ⟨l, added_keep hdead hl, hrest⟩
  · intro n hn k hwalk
    have hne : n ≠ id := by
      rintro rfl
      exact hreturn hn
    refine ⟨?_, ?_, ?_, hwalk.started.trans_le htraces⟩
    · intro l hl
      rw [Function.update_of_ne hne] at hl
      exact hwalk.own l hl
    · intro m l hm hlive
      rw [Function.update_of_ne hne] at hlive
      obtain ⟨rfl, rfl⟩ | hold := added_cases hm
      · obtain ⟨l', hl'⟩ := Option.ne_none_iff_exists'.1 hlive
        exact hnext.trans_ne (hlinked.of_some hl').symm
      · exact hwalk.first m l hold hlive
    · intro r l hr hself htrace
      obtain ⟨rfl, rfl⟩ | hold := added_cases hr
      · obtain hinvalid | hnew := hroot
        · exact absurd (hself.symm.trans hinvalid) hid
        · have := hwalk.started
          omega
      · exact hwalk.last r l hold hself htrace

theorem CallState.Sound.free {c : CallState} (h : c.Sound v traces) {l₀ : Link} (hid : v id = some l₀)
    (hroot : l₀.rootId ≠ invalidNode) (hheld : id ∉ c.held) :
    c.Sound (Function.update v id none) traces := by
  refine h.transfer ?_ ?_ ?_
  · intro n hn l hl
    refine ⟨l, freed_some.2 ⟨?_, hl⟩, rfl, fun hself => hself⟩
    rintro rfl
    exact hheld hn
  · rintro n - k ⟨l, hl, htrace, hloose, hrest⟩
    refine ⟨l, freed_some.2 ⟨?_, hl⟩, htrace, hloose, hrest⟩
    rintro rfl
    cases hid.symm.trans hl
    exact hroot hloose
  · intro n _ k hwalk
    refine ⟨?_, ?_, ?_, hwalk.started⟩
    · intro l hl
      exact hwalk.own l (freed_some.1 hl).2
    · intro m l hm hlive
      obtain ⟨l', hl'⟩ := Option.ne_none_iff_exists'.1 hlive
      exact hwalk.first m l (freed_some.1 hm).2 (by simp [(freed_some.1 hl').2])
    · intro r l hr hself htrace
      exact hwalk.last r l (freed_some.1 hr).2 hself htrace

theorem CallState.Sound.hang {c : CallState} {root new : Int} {lr ln : Link} (h : c.Sound v traces)
    (hlinked : Linked v traces) (hh : Hangs v root new lr ln) (hmade : c.made ≠ some new) :
    c.Sound (hang v root new lr) traces := by
  refine h.transfer ?_ ?_ ?_
  · intro n _ l hl
    refine ⟨_, Option.map_eq_some_iff.2 ⟨l, hl, rfl⟩, rfl, ?_⟩
    intro hself
    simp only [if_neg ((hh.apart hlinked hl).2.2.1 hself), hself]
  · rintro n hn k ⟨l, hl, htrace, hloose, hfree⟩
    have hne : n ≠ new := by
      rintro rfl
      exact hmade hn
    have hnot : ¬(n = lr.last ∨ n = root ∧ lr.next = invalidNode) := by
      intro htail
      exact hlinked.of_some hh.rootLive ((hh.tail hlinked hl htail).2.2.1.symm.trans hloose)
    refine ⟨_, Option.map_eq_some_iff.2 ⟨l, hl, rfl⟩, htrace, ?_, ?_⟩
    · simp only [if_neg hne, hloose]
    · simp only [if_neg hnot, hfree]
  · intro n _ k hwalk
    -- the walk is not at `new`, which no chain has
    have hne (l : Link) (hl : v n = some l) : n ≠ new := by
      rintro rfl
      cases hh.newLive.symm.trans hl
      exact (hwalk.own ln hl).2 hh.loose
    refine ⟨?_, ?_, ?_, hwalk.started⟩
    · intro l' hl'
      obtain ⟨l, hl, rfl⟩ := Option.map_eq_some_iff.1 hl'
      simpa [hne l hl] using hwalk.own l hl
    · intro m l' hm hlive
      obtain ⟨l, hl, rfl⟩ := Option.map_eq_some_iff.1 hm
      obtain ⟨ln', hln'⟩ := Option.ne_none_iff_exists'.1 hlive
      obtain ⟨lw, hlw, -⟩ := Option.map_eq_some_iff.1 hln'
      simp only
      split
      · exact (hne lw hlw).symm
      · exact hwalk.first m l hl (by simp [hlw])
    · intro r l hr hself htrace
      obtain ⟨m, hm, hmself, hmtrace, -⟩ := hang_root hlinked hh hr hself
      exact hwalk.last r m hm hmself (hmtrace.trans htrace)

end Links

end PinpointAgent.NodePool
