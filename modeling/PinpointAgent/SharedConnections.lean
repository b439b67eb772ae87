import PinpointAgent.Agent.Delivery
import PinpointAgent.ConnectionPool.EventLoop
import PinpointAgent.EndToEnd
import PinpointAgent.Framework.Interleaving
import PinpointAgent.Framework.Lease

/-!
# Threads on one connection pool

Every thread that ends a trace takes a connection out of the `SpanConnectionPool`, copies its span, serves the
events of the connection and puts it back; `get` and `free` hold the lock, everything between them is done
without it. An exception, of a message handler or of `connect_remote`, destroys the connection on its way out of
`TrySendSpan`.

Between `get` and `free` no other thread has the connection, so whatever the threads do, each connection is used
like one that belongs to a single thread: its sockets carry whole frames, one behind the other.
-/

namespace PinpointAgent

open Framework ConnectionPool Server

/-! ## The events of a connection as steps of a link -/

namespace ConnectionPool.EventLayer

variable {ε σ : Type} (coHost : String) (routes : Int → Option (ThrowingHandler ε σ)) (io : PollIo)

def errSteps (e : EventLayer ε σ) : List LinkStep := [.reset, .connect (e.connectResult coHost io.reconnect)]

def writeSteps (wfds : Bool) (e : EventLayer ε σ) : List LinkStep :=
  if e.layer.state.writing && wfds then [.write io.send (e.connectResult coHost io.reconnect)] else []

def readSteps (rfds wfds : Bool) (e : EventLayer ε σ) : List LinkStep :=
  if e.layer.state.reading && rfds then
    match e.recvByteStream routes io.recv with
    | (.error _, _) => []
    | (.ok ret, e) => if ret = -1 then e.errSteps coHost io else e.writeSteps coHost io wfds
  else e.writeSteps coHost io wfds

def pollSteps (e : EventLayer ε σ) : List LinkStep :=
  if fdSetSize ≤ e.cFd then [.reset]
  else
    match io.select with
    | .error | .timeout => []
    | .events efds rfds wfds =>
      if e.layer.state.error && efds then e.errSteps coHost io else e.readSteps coHost routes io rfds wfds

def eventSteps (e : EventLayer ε σ) : List LinkStep :=
  if e.layer.connected then e.pollSteps coHost routes io
  else .connect (e.connectResult coHost io.connect) ::
    match e.connectRemote coHost io.connect with
    | (.error _, _) => []
    | (.ok (), e) => if e.layer.connected then e.pollSteps coHost routes io else []

end ConnectionPool.EventLayer

/-- The link went through the steps and has the layer of the connection then. -/
def Link.Runs {ε σ : Type} (l : Link) (steps : List LinkStep) (e : EventLayer ε σ) : Prop :=
  ∃ l', l.run steps = some l' ∧ l'.layer = e.layer ∧ l'.accepted = l.accepted

section Events

variable {ε σ : Type} {coHost : String} {routes : Int → Option (ThrowingHandler ε σ)} {io : PollIo}
  {e e' : EventLayer ε σ} {l : Link} {r : Except (EventError ε) Int}

private theorem accepted_connect (result : ConnectResult) : (l.connect result).accepted = l.accepted := by
  unfold Link.connect
  split
  · rfl
  · cases result <;> rfl

private theorem layer_connect_of_closed (hopen : l.layer.connected = false) (result : ConnectResult) :
    (l.connect result).layer = l.layer.connectRemote result := by
  unfold Link.connect
  rw [if_neg (Bool.eq_false_iff.1 hopen)]
  cases result <;> rfl

private theorem runs_nil (hlayer : l.layer = e.layer) : l.Runs [] e := ⟨l, rfl, hlayer, rfl⟩

private theorem runs_connect {steps : List LinkStep} (hlayer : l.layer = e.layer) (hopen : e.layer.connected = false)
    {a : ConnectAttempt}
    (hrest : ∀ l' : Link, l'.layer = (e.connectRemote coHost a).2.layer → l'.Runs steps e') :
    l.Runs (.connect (e.connectResult coHost a) :: steps) e' := by
  have hconnect : (l.connect (e.connectResult coHost a)).layer = (e.connectRemote coHost a).2.layer := by
    rw [layer_connect_of_closed (hlayer ▸ hopen), (EventLayer.connectRemote_spec coHost a e).1, hlayer]
  obtain ⟨l', hrun, hlayer', haccepted⟩ := hrest _ hconnect
  exact ⟨l', hrun, hlayer', haccepted.trans (accepted_connect _)⟩

private theorem layer_reset_connect (hlayer : l.layer = e.layer) :
    (l.reset.connect (e.connectResult coHost io.reconnect)).layer = (e.errNetwork coHost io).2.layer := by
  have herr : (e.errNetwork coHost io).2 = (e.resetRemote.connectRemote coHost io.reconnect).2 := by
    rw [EventLayer.errNetwork]
    rcases e.resetRemote.connectRemote coHost io.reconnect with ⟨x | ⟨⟩, e'⟩ <;> rfl
  rw [layer_connect_of_closed rfl, herr, (EventLayer.connectRemote_spec coHost io.reconnect e.resetRemote).1]
  show l.layer.resetRemote.connectRemote _ = e.layer.resetRemote.connectRemote _
  rw [hlayer]
  rfl

private theorem runs_errSteps (hlayer : l.layer = e.layer) : l.Runs (e.errSteps coHost io) (e.errNetwork coHost io).2 :=
  ⟨_, rfl, layer_reset_connect hlayer, accepted_connect _⟩

private theorem runs_writeSteps {wfds : Bool} (hlayer : l.layer = e.layer) (hconn : e.layer.connected = true)
    (h : e.writeEvent coHost io wfds = some (r, e')) : l.Runs (e.writeSteps coHost io wfds) e' := by
  unfold EventLayer.writeEvent at h
  unfold EventLayer.writeSteps
  split at h
  · next hready =>
    rw [if_pos hready]
    have hwriting : (l.layer.connected && l.layer.state.writing) = true := by
      rw [hlayer, hconn, (Bool.and_eq_true_iff.1 hready).1]
      rfl
    split at h
    · cases h
    · next ret sent layer hsend =>
      have hwrite : l.write io.send (e.connectResult coHost io.reconnect) =
          if ret = -1 then some (((l.wrote layer sent).reset).connect (e.connectResult coHost io.reconnect))
          else some (l.wrote layer sent) := by
        rw [Link.write, if_pos hwriting, hlayer, hsend]
      have hwrote : (l.wrote layer sent).layer = ({ e with layer } : EventLayer ε σ).layer := rfl
      split at h
      · next hret =>
        obtain rfl := congrArg Prod.snd (Option.some.inj h)
        rw [if_pos hret] at hwrite
        refine ⟨_, ?_, layer_reset_connect hwrote, accepted_connect _⟩
        rw [Link.run, List.foldlM_cons, Link.step, hwrite]
        rfl
      · next hret =>
        cases h
        rw [if_neg hret] at hwrite
        refine ⟨_, ?_, hwrote, rfl⟩
        rw [Link.run, List.foldlM_cons, Link.step, hwrite]
        rfl
  · next hnot =>
    cases h
    rw [if_neg hnot]
    exact runs_nil hlayer

private theorem runs_readSteps {rfds wfds : Bool} (hlayer : l.layer = e.layer) (hconn : e.layer.connected = true)
    (h : e.readEvent coHost routes io rfds wfds = some (r, e')) :
    l.Runs (e.readSteps coHost routes io rfds wfds) e' := by
  unfold EventLayer.readEvent at h
  unfold EventLayer.readSteps
  split at h
  · next hready =>
    rw [if_pos hready]
    -- reading changes the receive buffer and the handlers' state only
    have hsame : (e.recvByteStream routes io.recv).2.layer = e.layer := rfl
    generalize e.recvByteStream routes io.recv = read at h hsame
    obtain ⟨x | ret, e₁⟩ := read
    · cases h
      exact runs_nil (hlayer.trans hsame.symm)
    · by_cases hret : ret = -1
      · simp only [if_pos hret] at h ⊢
        obtain rfl := congrArg Prod.snd (Option.some.inj h)
        exact runs_errSteps (hlayer.trans hsame.symm)
      · simp only [if_neg hret] at h ⊢
        exact runs_writeSteps (hlayer.trans hsame.symm) (hsame ▸ hconn) h
  · next hnot =>
    rw [if_neg hnot]
    exact runs_writeSteps hlayer hconn h

private theorem runs_pollSteps (hlayer : l.layer = e.layer) (hconn : e.layer.connected = true)
    (h : e.pollConnected coHost routes io = some (r, e')) : l.Runs (e.pollSteps coHost routes io) e' := by
  unfold EventLayer.pollConnected at h
  unfold EventLayer.pollSteps
  split at h
  · next hfd =>
    cases h
    rw [if_pos hfd]
    exact ⟨l.reset, rfl, congrArg TransLayer.resetRemote hlayer, rfl⟩
  · next hfd =>
    rw [if_neg hfd]
    cases hselect : io.select with
    | error =>
      rw [hselect] at h
      cases h
      exact runs_nil hlayer
    | timeout =>
      rw [hselect] at h
      cases h
      exact runs_nil hlayer
    | events efds rfds wfds =>
      rw [hselect] at h
      by_cases herror : (e.layer.state.error && efds) = true
      · simp only [if_pos herror] at h ⊢
        obtain rfl := congrArg Prod.snd (Option.some.inj h)
        exact runs_errSteps hlayer
      · simp only [if_neg herror] at h ⊢
        exact runs_readSteps hlayer hconn h

private theorem runs_eventSteps (hlayer : l.layer = e.layer) (h : e.poolEventOnce coHost routes io = some (r, e')) :
    l.Runs (e.eventSteps coHost routes io) e' := by
  unfold EventLayer.poolEventOnce at h
  unfold EventLayer.eventSteps
  split at h
  · next hconn =>
    rw [if_pos hconn]
    exact runs_pollSteps hlayer hconn h
  · next hnot =>
    rw [if_neg hnot]
    refine runs_connect hlayer (Bool.eq_false_iff.2 hnot) fun l' hlayer' => ?_
    generalize e.connectRemote coHost io.connect = attempt at h hlayer'
    obtain ⟨x | ⟨⟩, e₁⟩ := attempt
    · cases h
      exact runs_nil hlayer'
    · dsimp only at h hlayer' ⊢
      split at h
      · next hconn =>
        rw [if_pos hconn]
        exact runs_pollSteps hlayer' hconn h
      · next hrefused =>
        cases h
        rw [if_neg hrefused]
        exact runs_nil hlayer'

end Events

/-! ## Threads -/

/-- Where a thread is between `get` and `free`. -/
inductive Phase where
  | got
  /-- the span is copied; so many calls of `PoolEventOnce` are left -/
  | serving (turns : Nat)
deriving DecidableEq

/-- The pool of connections, those that are not made yet included, and the threads. Beside each connection stands
its link, and `log` has the spans that the threads queued: the thread, the connection and the span. -/
structure Shared (ι ε σ : Type) where
  lease : Lease ι
  conn : Nat → EventLayer ε σ
  link : Nat → Link
  phase : ι → Phase
  log : List (ι × Nat × Span)

inductive Act (ι σ : Type) where
  | get (i : ι)
  | copyIntoSendBuffer (i : ι) (span : Span)
  /-- one `PoolEventOnce`; the handlers find the state of the process as it is then -/
  | poolEventOnce (i : ι) (io : PollIo) (st : σ)
  | free (i : ι)

namespace Shared

variable {ι ε σ : Type} [DecidableEq ι] (coHost : String) (routes : Int → Option (ThrowingHandler ε σ))
  (spanTimeout : Int)

def init (st : σ) : Shared ι ε σ where
  lease := .init 1 [0]
  conn _ := .new freshLayer st
  link _ := .new freshLayer
  phase _ := .got
  log := []

/-- The calls of `PoolEventOnce` that `TrySendSpan` may make for one span. -/
def turnsOf : Nat :=
  if 0 < spanTimeout then EventLayer.maxRetryItems else if spanTimeout < 0 then 0 else 1

/-- `SyncSendAll` looks at `S_WRITING` before each of its turns. -/
def goesOn (e : EventLayer ε σ) (turns : Nat) : Bool :=
  turns != 0 && (decide (spanTimeout ≤ 0) || e.layer.state.writing)

def queued (s : Shared ι ε σ) (k : Nat) : List Span :=
  (s.log.filter fun entry => entry.2.1 = k).map fun entry => entry.2.2

def copy (s : Shared ι ε σ) (i : ι) (k : Nat) (span : Span) : Option (Shared ι ε σ) :=
  ((s.conn k).layer.copySpan true true span.bytes).map fun r =>
    { s with
      conn := Function.update s.conn k { s.conn k with layer := r.2 }
      link := Function.update s.link k ((s.link k).copy span)
      phase := Function.update s.phase i (.serving (turnsOf spanTimeout))
      log := if r.1 then s.log ++ [(i, k, span)] else s.log }

/-- An exception destroys the connection. -/
def turn (s : Shared ι ε σ) (i : ι) (k turns : Nat) (e : EventLayer ε σ) (io : PollIo) : Option (Shared ι ε σ) :=
  match e.poolEventOnce coHost routes io, (s.link k).run (e.eventSteps coHost routes io) with
  | some (r, e'), some l' =>
      some
        { s with
          lease := match r with
            | .ok _ => s.lease
            | .error _ => s.lease.lose i k
          conn := Function.update s.conn k e'
          link := Function.update s.link k l'
          phase := Function.update s.phase i (.serving turns) }
  | _, _ => none

/-- `none` if the thread is not at this place of `TrySendSpan`. -/
def step (s : Shared ι ε σ) : Act ι σ → Option (Shared ι ε σ)
  | .get i =>
      match s.lease.held i with
      | some _ => none
      | none => some { s with lease := (s.lease.take i).2, phase := Function.update s.phase i .got }
  | .copyIntoSendBuffer i span =>
      match s.lease.held i, s.phase i with
      | some k, .got => s.copy spanTimeout i k span
      | _, _ => none
  | .poolEventOnce i io st =>
      match s.lease.held i, s.phase i with
      | some k, .serving (turns + 1) =>
          if goesOn spanTimeout (s.conn k) (turns + 1) then
            s.turn coHost routes i k turns { s.conn k with receiver := { (s.conn k).receiver with st := (none, st) } } io
          else none
      | _, _ => none
  | .free i =>
      match s.lease.held i, s.phase i with
      | some k, .serving turns =>
          if goesOn spanTimeout (s.conn k) turns then none else some { s with lease := s.lease.put i k }
      | _, _ => none

end Shared

/-- A connection with its link, after it was given these spans. -/
structure Carries {ε σ : Type} (spans : List Span) (e : EventLayer ε σ) (l : Link) : Prop where
  sound : l.Sound
  layer : l.layer = e.layer
  attentive : e.layer.Attentive
  accepted : l.accepted = spans

section Carry

variable {ε σ : Type} {coHost : String} {routes : Int → Option (ThrowingHandler ε σ)} {io : PollIo}
  {spans : List Span} {e : EventLayer ε σ} {l : Link}

private theorem Carries.copy (h : Carries spans e l) (span : Span) :
    ∃ r, e.layer.copySpan true true span.bytes = some r ∧
      Carries (if r.1 then spans ++ [span] else spans) { e with layer := r.2 } (l.copy span) := by
  have hcopy : e.layer.copySpan true true span.bytes = some (e.layer.copyIntoSendBuffer span.bytes) :=
    TransLayer.copySpan_of_short h.attentive.sound span.length_le
  have hattentive := h.attentive.copySpan hcopy
  refine ⟨_, hcopy, h.sound.copy span, ?_, hattentive, ?_⟩
  · rw [Link.copy, h.layer]
    rcases e.layer.copyIntoSendBuffer span.bytes with ⟨_ | _, t⟩ <;> rfl
  · rw [Link.copy, h.layer, ← h.accepted]
    rcases e.layer.copyIntoSendBuffer span.bytes with ⟨_ | _, t⟩ <;> rfl

private theorem Carries.poolEventOnce (h : Carries spans e l) (coHost : String) (routes : Int → Option (ThrowingHandler ε σ))
    (io : PollIo) :
    ∃ r e' l', e.poolEventOnce coHost routes io = some (r, e') ∧ l.run (e.eventSteps coHost routes io) = some l' ∧
      Carries spans e' l' := by
  obtain ⟨⟨r, e'⟩, hpoll, hattentive⟩ : ∃ out, e.poolEventOnce coHost routes io = some out ∧ out.2.layer.Attentive :=
    EventLayer.poolEventOnce_attentive h.attentive io
  obtain ⟨l', hrun, hlayer, haccepted⟩ := runs_eventSteps h.layer hpoll
  obtain ⟨l'', hrun', hsound⟩ := h.sound.run (e.eventSteps coHost routes io)
  cases hrun.symm.trans hrun'
  exact ⟨r, e', l', hpoll, hrun, hsound, hlayer, hattentive, haccepted.trans h.accepted⟩

end Carry

namespace Shared

variable {ι ε σ : Type} {coHost : String} {routes : Int → Option (ThrowingHandler ε σ)} {spanTimeout : Int}
  {s t : Shared ι ε σ}

/-- Every connection is in one place, and is used as if there were no other thread. -/
structure Ready (s : Shared ι ε σ) : Prop where
  exclusive : s.lease.Exclusive
  carries : ∀ k, Carries (s.queued k) (s.conn k) (s.link k)

private theorem queued_append (i : ι) (k j : Nat) (span : Span) :
    queued { s with log := s.log ++ [(i, k, span)] } j = if j = k then s.queued j ++ [span] else s.queued j := by
  unfold queued
  by_cases hj : j = k
  · simp [hj]
  · simp [hj, Ne.symm hj]

private theorem carries_update (spans : Nat → List Span) {k : Nat} {e : EventLayer ε σ} {l : Link} (h : s.Ready)
    (hspans : ∀ j, j ≠ k → spans j = s.queued j) (hk : Carries (spans k) e l) (j : Nat) :
    Carries (spans j) (Function.update s.conn k e j) (Function.update s.link k l j) := by
  by_cases hj : j = k
  · subst hj
    rw [Function.update_self, Function.update_self]
    exact hk
  · rw [Function.update_of_ne hj, Function.update_of_ne hj, hspans j hj]
    exact h.carries j

variable [DecidableEq ι]

private theorem Ready.copy (h : s.Ready) (spanTimeout : Int) (i : ι) (k : Nat) (span : Span) :
    ∃ t, s.copy spanTimeout i k span = some t ∧ t.Ready ∧ t.lease = s.lease ∧
      t.phase = Function.update s.phase i (.serving (turnsOf spanTimeout)) := by
  obtain ⟨⟨room, layer⟩, hcopy, hcarries⟩ := (h.carries k).copy span
  rw [Shared.copy, hcopy]
  refine ⟨_, rfl, ⟨h.exclusive, ?_⟩, rfl, rfl⟩
  cases room with
  | false => exact carries_update s.queued h (fun _ _ => rfl) hcarries
  | true =>
    intro j
    refine carries_update (queued { s with log := s.log ++ [(i, k, span)] }) h (fun j hj => ?_) ?_ j
    · rw [queued_append, if_neg hj]
    · rw [queued_append, if_pos rfl]
      exact hcarries

private theorem Ready.turn (h : s.Ready) (coHost : String) (routes : Int → Option (ThrowingHandler ε σ)) {i : ι} {k : Nat}
    (hheld : s.lease.held i = some k) (turns : Nat) (io : PollIo) (st : σ) :
    ∃ t, s.turn coHost routes i k turns { s.conn k with receiver := { (s.conn k).receiver with st := (none, st) } } io =
      some t ∧ t.Ready ∧ (t.lease = s.lease ∨ t.lease = s.lease.lose i k) ∧
        t.phase = Function.update s.phase i (.serving turns) := by
  obtain ⟨hsound, hlayer, hattentive, haccepted⟩ := h.carries k
  have hnow : Carries (s.queued k)
      ({ s.conn k with receiver := { (s.conn k).receiver with st := (none, st) } } : EventLayer ε σ) (s.link k) :=
    ⟨hsound, hlayer, hattentive, haccepted⟩
  obtain ⟨r, e', l', hpoll, hrun, hcarries⟩ := hnow.poolEventOnce coHost routes io
  rw [Shared.turn, hpoll, hrun]
  refine ⟨_, rfl, ⟨?_, carries_update s.queued h (fun _ _ => rfl) hcarries⟩, ?_, rfl⟩
  · cases r with
    | ok ret => exact h.exclusive
    | error x => exact h.exclusive.lose hheld
  · cases r with
    | ok ret => exact .inl rfl
    | error x => exact .inr rfl

/-- What a step asks of its thread, and what it does with the lease and the phases. -/
inductive Moves (spanTimeout : Int) (s t : Shared ι ε σ) : Act ι σ → Prop
  | get {i : ι} (hheld : s.lease.held i = none) (hlease : t.lease = (s.lease.take i).2)
      (hphase : t.phase = Function.update s.phase i .got) : Moves spanTimeout s t (.get i)
  | copied {i : ι} {k : Nat} {span : Span} (hheld : s.lease.held i = some k) (hgot : s.phase i = .got)
      (hlease : t.lease = s.lease) (hphase : t.phase = Function.update s.phase i (.serving (turnsOf spanTimeout))) :
      Moves spanTimeout s t (.copyIntoSendBuffer i span)
  | served {i : ι} {k turns : Nat} {io : PollIo} {st : σ} (hheld : s.lease.held i = some k)
      (hserving : s.phase i = .serving (turns + 1)) (hlease : t.lease = s.lease ∨ t.lease = s.lease.lose i k)
      (hphase : t.phase = Function.update s.phase i (.serving turns)) : Moves spanTimeout s t (.poolEventOnce i io st)
  | freed {i : ι} {k turns : Nat} (hheld : s.lease.held i = some k) (hserving : s.phase i = .serving turns)
      (hlease : t.lease = s.lease.put i k) (hphase : t.phase = s.phase) : Moves spanTimeout s t (.free i)

private theorem Ready.step (h : s.Ready) {act : Act ι σ} (hstep : s.step coHost routes spanTimeout act = some t) :
    t.Ready ∧ Moves spanTimeout s t act := by
  cases act with
  | get i =>
    dsimp only [Shared.step] at hstep
    split at hstep
    · cases hstep
    · next hheld =>
      cases hstep
      exact ⟨⟨(h.exclusive.take hheld).1, h.carries⟩, .get hheld rfl rfl⟩
  | copyIntoSendBuffer i span =>
    dsimp only [Shared.step] at hstep
    split at hstep
    · next k hheld hgot =>
      obtain ⟨t', hcopy, ht, hlease, hphase⟩ := h.copy spanTimeout i k span
      cases hcopy.symm.trans hstep
      exact ⟨ht, .copied hheld hgot hlease hphase⟩
    · cases hstep
  | poolEventOnce i io st =>
    dsimp only [Shared.step] at hstep
    split at hstep
    · next k turns hheld hserving =>
      split at hstep
      · obtain ⟨t', hturn, ht, hlease, hphase⟩ := h.turn coHost routes hheld turns io st
        cases hturn.symm.trans hstep
        exact ⟨ht, .served hheld hserving hlease hphase⟩
      · cases hstep
    · cases hstep
  | free i =>
    dsimp only [Shared.step] at hstep
    split at hstep
    · next k turns hheld hserving =>
      split at hstep
      · cases hstep
      · cases hstep
        exact ⟨⟨h.exclusive.put hheld, h.carries⟩, .freed hheld hserving rfl rfl⟩
    · cases hstep

private theorem Ready.run (h : s.Ready) {acts : List (Act ι σ)}
    (hrun : exec (Shared.step coHost routes spanTimeout) s acts = some t) : t.Ready :=
  exec_invariant (P := Ready) (fun _ _ _ hs hstep => (hs.step hstep).1) h hrun

theorem Ready.enabled (h : s.Ready) (i : ι) :
    (∃ t, s.step coHost routes spanTimeout (.get i) = some t) ∨
    (∀ span, ∃ t, s.step coHost routes spanTimeout (.copyIntoSendBuffer i span) = some t) ∨
    (∀ io st, ∃ t, s.step coHost routes spanTimeout (.poolEventOnce i io st) = some t) ∨
    ∃ t, s.step coHost routes spanTimeout (.free i) = some t := by
  cases hheld : s.lease.held i with
  | none =>
    left
    dsimp only [Shared.step]
    rw [hheld]
    exact ⟨_, rfl⟩
  | some k =>
    cases hphase : s.phase i with
    | got =>
      refine .inr (.inl fun span => ?_)
      obtain ⟨t, hcopy, -⟩ := h.copy spanTimeout i k span
      refine ⟨t, ?_⟩
      dsimp only [Shared.step]
      rw [hheld, hphase, ← hcopy]
    | serving turns =>
      cases hgo : goesOn spanTimeout (s.conn k) turns with
      | false =>
        right; right; right
        dsimp only [Shared.step]
        rw [hheld, hphase]
        exact ⟨_, if_neg (Bool.eq_false_iff.1 hgo)⟩
      | true =>
        cases turns with
        | zero => cases hgo
        | succ turns =>
          refine .inr (.inr (.inl fun io st => ?_))
          obtain ⟨t, hturn, -⟩ := h.turn coHost routes hheld turns io st
          refine ⟨t, ?_⟩
          dsimp only [Shared.step]
          rw [hheld, hphase]
          exact (if_pos hgo).trans hturn

end Shared

def Act.thread {ι σ : Type} : Act ι σ → ι
  | .get i | .copyIntoSendBuffer i _ | .poolEventOnce i _ _ | .free i => i

namespace Shared

variable {ι ε σ : Type} {coHost : String} {routes : Int → Option (ThrowingHandler ε σ)} {spanTimeout : Int}
  {s t : Shared ι ε σ}

/-- How many steps of its own a thread needs at most to come out of `TrySendSpan`. -/
def rank (spanTimeout : Int) (s : Shared ι ε σ) (i : ι) : Nat :=
  match s.lease.held i, s.phase i with
  | none, _ => 0
  | some _, .got => turnsOf spanTimeout + 2
  | some _, .serving turns => turns + 1

private theorem rank_of_not_held {i : ι} (hheld : s.lease.held i = none) : s.rank spanTimeout i = 0 := by
  rw [rank, hheld]

private theorem rank_of_serving {i : ι} {turns : Nat} (hserving : s.phase i = .serving turns) :
    s.rank spanTimeout i ≤ turns + 1 := by
  unfold rank
  rw [hserving]
  cases s.lease.held i
  · exact Nat.zero_le _
  · exact le_rfl

def Bounded (spanTimeout : Int) (s : Shared ι ε σ) : Prop :=
  ∀ i turns, s.phase i = .serving turns → turns ≤ turnsOf spanTimeout

private theorem Bounded.rank_le (h : s.Bounded spanTimeout) (i : ι) : s.rank spanTimeout i ≤ turnsOf spanTimeout + 2 := by
  unfold rank
  cases s.lease.held i with
  | none => exact Nat.zero_le _
  | some k =>
    cases hphase : s.phase i with
    | got => exact le_rfl
    | serving turns => exact Nat.succ_le_succ ((h i turns hphase).trans (Nat.le_succ _))

variable [DecidableEq ι]

private theorem Moves.rank_lt {act : Act ι σ} (h : Moves spanTimeout s t act) (hact : act ≠ .get act.thread) :
    t.rank spanTimeout act.thread < s.rank spanTimeout act.thread := by
  cases h with
  | get => exact absurd rfl hact
  | @copied i k span hheld hgot hlease hphase =>
    have hrank : s.rank spanTimeout i = turnsOf spanTimeout + 2 := by rw [rank, hheld, hgot]
    have hnext : t.phase i = .serving (turnsOf spanTimeout) := by rw [hphase, Function.update_self]
    show t.rank spanTimeout i < s.rank spanTimeout i
    rw [hrank]
    exact Nat.lt_succ_of_le (rank_of_serving hnext)
  | @served i k turns io st hheld hserving hlease hphase =>
    have hrank : s.rank spanTimeout i = turns + 2 := by rw [rank, hheld, hserving]
    have hnext : t.phase i = .serving turns := by rw [hphase, Function.update_self]
    show t.rank spanTimeout i < s.rank spanTimeout i
    rw [hrank]
    exact Nat.lt_succ_of_le (rank_of_serving hnext)
  | @freed i k turns hheld hserving hlease hphase =>
    have hrank : s.rank spanTimeout i = turns + 1 := by rw [rank, hheld, hserving]
    have hnext : t.lease.held i = none := by
      rw [hlease]
      exact Function.update_self ..
    show t.rank spanTimeout i < s.rank spanTimeout i
    rw [hrank, rank_of_not_held hnext]
    exact Nat.succ_pos _

private theorem Bounded.update {phase : Phase} {i : ι} (h : s.Bounded spanTimeout)
    (hphase : t.phase = Function.update s.phase i phase)
    (hnew : ∀ turns, phase = .serving turns → turns ≤ turnsOf spanTimeout) : t.Bounded spanTimeout := by
  intro j turns hj
  rw [hphase] at hj
  by_cases hji : j = i
  · subst hji
    rw [Function.update_self] at hj
    exact hnew turns hj
  · rw [Function.update_of_ne hji] at hj
    exact h j turns hj

private theorem Moves.bounded {act : Act ι σ} (hmoves : Moves spanTimeout s t act) (h : s.Bounded spanTimeout) :
    t.Bounded spanTimeout := by
  cases hmoves with
  | get hheld hlease hphase => exact h.update hphase fun turns hturns => by cases hturns
  | copied hheld hgot hlease hphase =>
    refine h.update hphase fun turns hturns => ?_
    cases hturns
    exact le_rfl
  | @served i k turns io st hheld hserving hlease hphase =>
    refine h.update hphase fun turns hturns => ?_
    cases hturns
    exact (Nat.le_succ _).trans (h i _ hserving)
  | freed hheld hserving hlease hphase =>
    intro j turns hj
    rw [hphase] at hj
    exact h j turns hj

variable (coHost routes spanTimeout)

end Shared

end PinpointAgent
