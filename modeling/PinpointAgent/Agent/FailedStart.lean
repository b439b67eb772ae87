import PinpointAgent.Agent.World
/-!
# Starts that fail

`StartTrace` links the new node into its trace before it reads the options, and an option that
`std::stoll` cannot read throws. The caller is then told `E_INVALID_NODE`, but the node, which
it cannot refer to, stays in the trace and takes a sequence number. Every other failure, of a
parent that is not alive or of a pool that is exhausted, comes before anything is written.
-/

namespace PinpointAgent.Agent

open Framework NodePool

def OptionThrows (opt : String) : Prop :=
  opt.toList.takeWhile (· ≠ ':') = "TraceMinTimeMs".toList ∧
    stoll ((opt.toList.dropWhile (· ≠ ':')).drop 1) = none

instance decidableOptionThrows (opt : String) : Decidable (OptionThrows opt) :=
  inferInstanceAs (Decidable (_ ∧ _))

private theorem addUserOption_eq_none_iff (n : TraceNode) (opt : String) :
    n.addUserOption opt = none ↔ OptionThrows opt := by
  unfold TraceNode.addUserOption TraceNode.parseUserOption OptionThrows
  split
  · simp_all
  · split <;> simp_all

private theorem setNodeUserOption_throws_iff (n : TraceNode) (opts : List String) :
    (n.setNodeUserOption opts).2 = true ↔ ∃ opt ∈ opts, OptionThrows opt := by
  induction opts generalizing n with
  | nil => simp [TraceNode.setNodeUserOption]
  | cons opt opts ih =>
    cases hopt : n.addUserOption opt with
    | none =>
      have hthrows := (addUserOption_eq_none_iff n opt).1 hopt
      simp [TraceNode.setNodeUserOption, hopt, hthrows]
    | some n' =>
      have hreads : ¬OptionThrows opt := by simp [← addUserOption_eq_none_iff n, hopt]
      simp [TraceNode.setNodeUserOption, hopt, hreads, ih]

/-- The live nodes and, for every root, its chain, its last node and its counter are the same. -/
structure SameTraces (p q : PoolManager) : Prop where
  live : ∀ id, q.Live id ↔ p.Live id
  chain : ∀ r, p.Live r → IsRoot p r → ∀ kids, RootChain q r kids ↔ RootChain p r kids
  last : ∀ r, p.Live r → IsRoot p r → (q.rootExtra r).last = (p.rootExtra r).last
  sequence : ∀ r, p.Live r → IsRoot p r → (q.rootExtra r).sequence = (p.rootExtra r).sequence

private theorem sameTraces_refl (p : PoolManager) : SameTraces p p :=
  ⟨fun _ => Iff.rfl, fun _ _ _ _ => Iff.rfl, fun _ _ _ => rfl, fun _ _ _ => rfl⟩

def OptionsReadable (a : Agent) (parentId : Int) (opts : List String) : Prop :=
  parentId = rootNode ∨ ¬a.pool.Live parentId ∨ a.pool.Exhausted ∨ ∀ opt ∈ opts, ¬OptionThrows opt

variable {a : Agent} {f : Forest} {parentId : Int} {opts : List String}

theorem startTraceV1_of_error {e : AgentError} (hstart : startNode parentId a = .error e a) :
    a.pinpointStartTraceV1 parentId opts = (invalidNode, a) := by
  simp only [pinpointStartTraceV1, Agent.startTrace, bind_of_error _ hstart]

theorem startTraceV1_of_ok {id : Int} {a' : Agent} (hstart : startNode parentId a = .ok id a')
    (hreads : parentId = rootNode ∨ ∀ opt ∈ opts, ¬OptionThrows opt) :
    (a.pinpointStartTraceV1 parentId opts).1 = id := by
  have hflag : ((a'.pool.nodeAt id).setNodeUserOption (if parentId = rootNode then [] else opts)).2 =
      false := by
    rw [← Bool.not_eq_true, setNodeUserOption_throws_iff]
    rintro ⟨opt, hmem, hthrows⟩
    split at hmem
    · cases hmem
    · next hne => exact hreads.resolve_left hne opt hmem hthrows
  simp [pinpointStartTraceV1, Agent.startTrace, bind, EStateM.bind, hstart, setNodeUserOption, hflag,
    pure, EStateM.pure]

private theorem startTraceV1_of_throws {id : Int} {a' : Agent} (hstart : startNode parentId a = .ok id a')
    (hne : parentId ≠ rootNode) (hthrows : ∃ opt ∈ opts, OptionThrows opt) :
    ∃ g : TraceNode → TraceNode, a.pinpointStartTraceV1 parentId opts =
      (invalidNode, { a' with pool := a'.pool.modifyNode id g }) := by
  have hflag := (setNodeUserOption_throws_iff (a'.pool.nodeAt id) opts).2 hthrows
  refine ⟨fun _ => ((a'.pool.nodeAt id).setNodeUserOption opts).1, ?_⟩
  simp [pinpointStartTraceV1, Agent.startTrace, bind, EStateM.bind, hstart, setNodeUserOption, hflag,
    hne]

private theorem failedStart_iff (h : Holds a.pool f []) :
    ((a.pinpointStartTraceV1 parentId opts).1 = invalidNode →
        SameTraces a.pool (a.pinpointStartTraceV1 parentId opts).2.pool) ↔
      OptionsReadable a parentId opts := by
  obtain ⟨id, a', hstart, hstarted⟩ | ⟨e, hstart, hcause⟩ := startNode_spec h parentId
  · have hlive : a'.pool.Live id := (hstarted.live_iff id).2 (.inl rfl)
    by_cases hreads : parentId = rootNode ∨ ∀ opt ∈ opts, ¬OptionThrows opt
    · -- the start succeeds
      apply iff_of_true
      · rw [startTraceV1_of_ok hstart hreads]
        exact fun hinvalid => absurd hinvalid hlive.ne_invalidNode
      · exact hreads.imp_right fun hopts => .inr (.inr hopts)
    · push Not at hreads
      obtain ⟨hne, hthrows⟩ := hreads
      obtain ⟨g, hout⟩ := startTraceV1_of_throws hstart hne hthrows
      apply iff_of_false
      · rw [hout]
        intro hsame
        exact hstarted.dead (((hsame rfl).live id).1 hlive)
      · rintro (hroot | hdead | hexhausted | hopts)
        · exact hne hroot
        · exact hdead (hstarted.parent.resolve_left hne)
        · exact hstarted.ready hexhausted
        · obtain ⟨opt, hmem, hopt⟩ := hthrows
          exact hopts opt hmem hopt
  · apply iff_of_true
    · rw [startTraceV1_of_error hstart]
      exact fun _ => sameTraces_refl _
    · obtain ⟨-, hexhausted⟩ | ⟨-, hdead⟩ := hcause
      · exact .inr (.inr (.inl hexhausted))
      · exact .inr (.inl hdead)

/-- A call of `pinpoint_start_traceV1` that answers `E_INVALID_NODE` leaves the traces as they
were if and only if it does not get as far as an option that throws. -/
theorem failed_start_keeps_traces_iff (agentType : Int) (clock : Nat → Nat) (calls : List ApiCall)
    (parentId : Int) (opts : List String) :
    let a := ((World.new agentType clock).run calls).agent
    let started := a.pinpointStartTraceV1 parentId opts
    (started.1 = invalidNode → SameTraces a.pool started.2.pool) ↔ OptionsReadable a parentId opts :=
  failedStart_iff ((World.ok_new agentType clock).run calls).holds

/-- Under a root, `TraceMinTimeMs:x` is answered with `E_INVALID_NODE`; node 127 is in use after
it, the last of the chain, and has taken the sequence number. -/
theorem unreadable_option_leaves_node :
    let a := ((World.new 1500 id).run [.startTrace 0 []]).agent
    let started := a.pinpointStartTraceV1 128 ["TraceMinTimeMs:x"]
    started.1 = invalidNode ∧ ¬a.pool.Live 127 ∧ started.2.pool.Live 127 ∧
      (a.pool.rootExtra 128).last = invalidNode ∧ (started.2.pool.rootExtra 128).last = 127 ∧
      (a.pool.rootExtra 128).sequence = 0 ∧ (started.2.pool.rootExtra 128).sequence = 1 := by
  decide +kernel

end PinpointAgent.Agent
