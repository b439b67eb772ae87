import PinpointAgent.Filters.FilterChain

/-!
# From the dispatcher to the streams

The goroutines of the connections put the spans they decoded into `tSpanBufCh` and wait there while it is full; one
goroutine, `handleTSpanFromBuf`, takes them out and runs the filters, the last of which offers a message to the
goroutines of `sendTask`; each of these sends what it takes on a stream of its own. `Stop` cancels the context of the
agent, upon which the goroutines of the agent end at their next `select` that picks it. Nothing ends a goroutine of a
connection that waits for room in `tSpanBufCh`.

Beside the modelled state there are four logs: the spans in the order in which `SendSpan` was called with them, the
spans that were handled, the messages that each goroutine has taken, and what became of each of them.
-/

namespace PinpointAgent.Filters

open Framework Metadata

/-! ## Who waits for a message -/

namespace SendTask

def inHand : SendTask → List PSpanMessage
  | .sending message => [message]
  | .offline | .waiting => []

end SendTask

namespace SpanSender

variable {ι : Type}

/-- The channel knows exactly the goroutines that wait. -/
structure Queues (s : SpanSender ι) : Prop where
  nodup : s.spanMessageBufferCh.recvq.Nodup
  waiting : ∀ t, t ∈ s.spanMessageBufferCh.recvq ↔ s.tasks t = .waiting

variable {s s' : SpanSender ι} {t : ι} {task : SendTask}

/-- What is new in `taken`, with the goroutine that took it. -/
def newlyTaken (receiver : Option ι) (s s' : SpanSender ι) : List (ι × PSpanMessage) :=
  match receiver with
  | some t => (s'.taken.drop s.taken.length).map (t, ·)
  | none => []

private theorem newlyTaken_of_same (receiver : Option ι) (htaken : s'.taken = s.taken) : newlyTaken receiver s s' = [] := by
  cases receiver with
  | none => rfl
  | some t => rw [newlyTaken, htaken, List.drop_length, List.map_nil]

private theorem newlyTaken_of_append {message : PSpanMessage} (htaken : s'.taken = s.taken ++ [message]) :
    newlyTaken (some t) s s' = [(t, message)] := by
  rw [newlyTaken, htaken, List.drop_left]
  rfl

variable [DecidableEq ι]

private theorem Queues.leave (h : s.Queues) (hqueue : s'.spanMessageBufferCh.recvq = s.spanMessageBufferCh.recvq.erase t)
    (htasks : s'.tasks = Function.update s.tasks t task) (hnot : task ≠ .waiting) : s'.Queues := by
  refine ⟨hqueue ▸ h.nodup.erase t, fun u => ?_⟩
  rw [hqueue, htasks, h.nodup.mem_erase_iff, h.waiting u]
  by_cases hu : u = t
  · subst hu
    rw [Function.update_self]
    exact ⟨fun hmem => absurd rfl hmem.1, fun heq => absurd heq hnot⟩
  · rw [Function.update_of_ne hu]
    exact ⟨And.right, fun heq => ⟨hu, heq⟩⟩

private theorem Queues.join (h : s.Queues) (hidle : s.tasks t ≠ .waiting)
    (hqueue : s'.spanMessageBufferCh.recvq = s.spanMessageBufferCh.recvq ++ [t])
    (htasks : s'.tasks = Function.update s.tasks t .waiting) : s'.Queues := by
  have hnot : t ∉ s.spanMessageBufferCh.recvq := fun hmem => hidle ((h.waiting t).1 hmem)
  refine ⟨?_, fun u => ?_⟩
  · rw [hqueue, List.nodup_append]
    refine ⟨h.nodup, List.nodup_singleton t, fun a ha b hb hab => ?_⟩
    rw [List.mem_singleton.1 hb] at hab
    exact hnot (hab ▸ ha)
  · rw [hqueue, htasks, List.mem_append, List.mem_singleton, h.waiting u]
    by_cases hu : u = t
    · subst hu
      rw [Function.update_self]
      exact ⟨fun _ => rfl, fun _ => .inr rfl⟩
    · rw [Function.update_of_ne hu]
      exact ⟨fun hmem => hmem.resolve_right hu, .inl⟩

structure Gets (s s' : SpanSender ι) (t : ι) (message : PSpanMessage) : Prop where
  tasks : s'.tasks = Function.update s.tasks t (.sending message)
  queue : s'.spanMessageBufferCh.recvq = s.spanMessageBufferCh.recvq.erase t
  taken : s'.taken = s.taken ++ [message]

structure Rests (s s' : SpanSender ι) : Prop where
  tasks : s'.tasks = s.tasks
  queue : s'.spanMessageBufferCh.recvq = s.spanMessageBufferCh.recvq
  taken : s'.taken = s.taken

private theorem gets_receive (s : SpanSender ι) (t : ι) :
    (∃ message, Gets s (s.receive t) t message) ∨
      (s.receive t).tasks = Function.update s.tasks t .waiting ∧
      (s.receive t).spanMessageBufferCh.recvq = s.spanMessageBufferCh.recvq ++ [t] ∧
      (s.receive t).taken = s.taken := by
  have hqueue := s.spanMessageBufferCh.recvq_receive t
  unfold receive
  cases hreceive : s.spanMessageBufferCh.receive t with
  | mk got ch =>
    rw [hreceive] at hqueue
    cases got with
    | none => exact .inr ⟨rfl, hqueue, rfl⟩
    | some message =>
      refine .inl ⟨message, rfl, hqueue.1.trans ?_, rfl⟩
      rw [hqueue.2]
      rfl

theorem gets_offer (s : SpanSender ι) (message : PSpanMessage) (outcome : SelectCase) :
    (∃ t, s.spanMessageBufferCh.recvq.head? = some t ∧ Gets s (s.offer message outcome) t message) ∨
      Rests s (s.offer message outcome) := by
  cases outcome with
  | send =>
    dsimp only [offer]
    cases hsend : s.spanMessageBufferCh.offer message with
    | none => exact .inr ⟨rfl, rfl, rfl⟩
    | some sent =>
      obtain ⟨receiver, ch⟩ := sent
      obtain ⟨-, -, hreceiver, htail, -⟩ := Channel.offer_cases hsend
      cases hqueue : s.spanMessageBufferCh.recvq with
      | nil =>
        rw [hqueue] at hreceiver htail
        subst hreceiver
        exact .inr ⟨rfl, htail.trans hqueue.symm, rfl⟩
      | cons t rest =>
        rw [hqueue] at hreceiver htail
        subst hreceiver
        refine .inl ⟨t, rfl, rfl, htail.trans ?_, rfl⟩
        rw [hqueue, List.erase_cons_head]
        rfl
  | streamOffline =>
    dsimp only [offer]
    split
    · exact .inr ⟨rfl, rfl, rfl⟩
    · exact .inr ⟨rfl, rfl, rfl⟩
  | dropped => exact .inr ⟨rfl, rfl, rfl⟩

private theorem gets_interceptor {hash : String → List UInt8} {env : Nat → Int32 × Outcome} {pick : Nat} {span : TSpan}
    {passed : Bool} (h : interceptor hash env pick span s = .ok passed s') :
    (∃ t message, s.spanMessageBufferCh.recvq.head? = some t ∧ Gets s s' t message) ∨ Rests s s' := by
  unfold interceptor at h
  split at h
  · cases h
  · next message lookups hmake =>
    cases h
    obtain ⟨t, hhead, htasks, hqueue, htaken⟩ | ⟨htasks, hqueue, htaken⟩ :=
      gets_offer { s with lookups, offers := s.offers ++ [⟨span, message, s.selected pick⟩] } message (s.selected pick)
    · exact .inl ⟨t, message, hhead, htasks, hqueue, htaken⟩
    · exact .inr ⟨htasks, hqueue, htaken⟩

end SpanSender

/-! ## The goroutines' logs -/

section Logs

variable {ι β : Type} [DecidableEq ι]

def byTask (t : ι) (log : List (ι × β)) : List β := (log.filter fun entry => entry.1 = t).map Prod.snd

private theorem byTask_append (t : ι) (log log' : List (ι × β)) : byTask t (log ++ log') = byTask t log ++ byTask t log' := by
  rw [byTask, List.filter_append, List.map_append]
  rfl

private theorem byTask_single_self (t : ι) (b : β) : byTask t [(t, b)] = [b] := by simp [byTask]

private theorem byTask_single_of_ne {t u : ι} (h : u ≠ t) (b : β) : byTask t [(u, b)] = [] := by simp [byTask, h]

/-- Every goroutine has sent, or failed to send, what it took, in this order, but for the message in its hand. -/
def Ledger (takenBy : List (ι × PSpanMessage)) (results : List (ι × PSpanMessage × Bool)) (tasks : ι → SendTask) : Prop :=
  ∀ t, byTask t takenBy = (byTask t results).map Prod.fst ++ (tasks t).inHand

variable {takenBy : List (ι × PSpanMessage)} {results : List (ι × PSpanMessage × Bool)} {tasks : ι → SendTask} {t : ι}
  {message : PSpanMessage}

private theorem Ledger.take (h : Ledger takenBy results tasks) (hfree : (tasks t).inHand = []) :
    Ledger (takenBy ++ [(t, message)]) results (Function.update tasks t (.sending message)) := by
  intro u
  have hu := h u
  rw [byTask_append, hu]
  by_cases heq : u = t
  · subst heq
    rw [byTask_single_self, hfree, Function.update_self, List.append_nil]
    rfl
  · rw [byTask_single_of_ne (Ne.symm heq), Function.update_of_ne heq, List.append_nil]

private theorem Ledger.finish (h : Ledger takenBy results tasks) (hsending : tasks t = .sending message) (sent : Bool)
    {task : SendTask} (hfree : task.inHand = []) :
    Ledger takenBy (results ++ [(t, message, sent)]) (Function.update tasks t task) := by
  intro u
  have hu := h u
  rw [byTask_append, List.map_append, hu]
  by_cases heq : u = t
  · subst heq
    rw [byTask_single_self, Function.update_self, hfree, List.append_nil, hsending]
    rfl
  · rw [byTask_single_of_ne (Ne.symm heq), Function.update_of_ne heq, List.map_nil, List.append_nil]

private theorem Ledger.rest (h : Ledger takenBy results tasks) (hfree : (tasks t).inHand = []) {task : SendTask}
    (hfree' : task.inHand = []) : Ledger takenBy results (Function.update tasks t task) := by
  intro u
  by_cases heq : u = t
  · subst heq
    rw [Function.update_self, hfree', ← hfree]
    exact h u
  · rw [Function.update_of_ne heq]
    exact h u

end Logs

/-! ## The agent -/

/-- An agent with its queue of decoded spans. `κ` are the goroutines of the connections, `ι` those of `sendTask`. -/
structure Pipeline (κ ι : Type) where
  tSpanBufCh : Channel κ Empty TSpan
  filtering : Filtering ι
  cancelled : Bool
  /-- whether `handleTSpanFromBuf` is still there -/
  consuming : Bool
  dispatched : List TSpan
  handled : List TSpan
  takenBy : List (ι × PSpanMessage)
  results : List (ι × PSpanMessage × Bool)

namespace Pipeline

variable {κ ι : Type}

inductive Event (κ ι : Type) where
  | sendSpan (k : κ) (span : TSpan)
  /-- a round of `handleTSpanFromBuf` -/
  | handleTSpan (moment : Moment)
  | connected (t : ι)
  /-- the `Send` of the goroutine has returned, without an error or with one -/
  | returned (t : ι) (sent : Bool)
  | moveUtReport (order : List (String × Nat)) (clock : String → Int)
  /-- `Stop` cancels the context -/
  | cancel
  | consumerDone
  | senderDone (t : ι)

def create (setup : Setup) (now : Int) : Pipeline κ ι where
  tSpanBufCh := .new setup.agentChannelSize
  filtering := .create setup now
  cancelled := false
  consuming := true
  dispatched := []
  handled := []
  takenBy := []
  results := []

variable [DecidableEq ι]

/-- The state after a step of the sender in which `receiver` may have got a message. -/
def withSender (p : Pipeline κ ι) (receiver : Option ι) (spanSender : SpanSender ι) : Pipeline κ ι :=
  { p with
    filtering := { p.filtering with spanSender }
    takenBy := p.takenBy ++ SpanSender.newlyTaken receiver p.filtering.spanSender spanSender }

/-- `none` if the goroutine is not at this place. -/
def step [DecidableEq κ] (setup : Setup) (p : Pipeline κ ι) : Event κ ι → Option (Pipeline κ ι)
  | .sendSpan k span =>
    if k ∈ p.tSpanBufCh.waiting then none
    else some { p with tSpanBufCh := (p.tSpanBufCh.send k span).2, dispatched := p.dispatched ++ [span] }
  | .handleTSpan moment =>
    if p.consuming then
      p.tSpanBufCh.poll.map fun r =>
        { p with
          tSpanBufCh := r.2
          filtering := Filters.handleTSpan setup moment r.1 p.filtering
          handled := p.handled ++ [r.1]
          takenBy := p.takenBy ++
            SpanSender.newlyTaken p.filtering.spanSender.spanMessageBufferCh.recvq.head? p.filtering.spanSender
              (Filters.handleTSpan setup moment r.1 p.filtering).spanSender }
    else none
  | .connected t =>
    (p.filtering.spanSender.step setup.hash (.connected t)).map (p.withSender (some t))
  | .returned t sent =>
    match p.filtering.spanSender.tasks t with
    | .sending message =>
      (p.filtering.spanSender.step setup.hash (if sent then .sent t else .sendFailed t)).map fun spanSender =>
        { p.withSender (some t) spanSender with results := p.results ++ [(t, message, sent)] }
    | _ => none
  | .moveUtReport order clock =>
    (Filtering.step setup p.filtering (.moveUtReport order clock)).map fun filtering => { p with filtering }
  | .cancel => some { p with cancelled := true }
  | .consumerDone => if p.cancelled && p.consuming then some { p with consuming := false } else none
  | .senderDone t =>
    if p.cancelled = true ∧ p.filtering.spanSender.tasks t = .waiting then
      (p.filtering.spanSender.step setup.hash (.contextDone t)).map (p.withSender none)
    else none

def panics (span : TSpan) : Bool := span.errorMarked = 1 && span.follows.contains none

/-- Every span that was dispatched is in one place, and in its order: it waits in the queue of the agent; the search for
exceptions has panicked on it; its message was dropped at the sender's queue, or waits there; or a goroutine has taken
it, and has sent it, failed to send it, or is sending it. -/
structure Accounted (setup : Setup) (p : Pipeline κ ι) : Prop where
  dispatched : p.dispatched = p.handled ++ p.tSpanBufCh.contents
  offered : p.filtering.spanSender.offers.map Offer.span = p.handled.filter fun span => !panics span
  converted : ∀ offer ∈ p.filtering.spanSender.offers, offer.Made setup.hash
  received : (p.filtering.spanSender.offers.filter fun offer => offer.outcome = .send).map Offer.message =
    p.takenBy.map Prod.snd ++ p.filtering.spanSender.spanMessageBufferCh.buffer
  ledger : Ledger p.takenBy p.results p.filtering.spanSender.tasks

structure Balanced (s : SpanSender ι) (takenBy : List (ι × PSpanMessage)) (results : List (ι × PSpanMessage × Bool)) :
    Prop where
  queues : s.Queues
  taken : takenBy.map Prod.snd = s.taken
  ledger : Ledger takenBy results s.tasks

variable {s s' : SpanSender ι} {t : ι} {message : PSpanMessage} {takenBy : List (ι × PSpanMessage)}
  {results : List (ι × PSpanMessage × Bool)}

private theorem balanced_gets (hqueues : s.Queues) (htaken : takenBy.map Prod.snd = s.taken)
    (hledger : Ledger takenBy results (Function.update s.tasks t .offline)) (h : s.Gets s' t message) :
    Balanced s' (takenBy ++ SpanSender.newlyTaken (some t) s s') results := by
  have hnew : SpanSender.newlyTaken (some t) s s' = [(t, message)] := SpanSender.newlyTaken_of_append h.taken
  rw [hnew]
  refine ⟨hqueues.leave h.queue h.tasks (fun hw => by cases hw), ?_, ?_⟩
  · rw [List.map_append, htaken, h.taken]
    rfl
  · rw [h.tasks, ← Function.update_idem SendTask.offline]
    exact hledger.take (by rw [Function.update_self]; rfl)

theorem balanced_receive (hqueues : s.Queues) (htaken : takenBy.map Prod.snd = s.taken) (hidle : s.tasks t ≠ .waiting)
    (hledger : Ledger takenBy results (Function.update s.tasks t .offline)) :
    Balanced (s.receive t) (takenBy ++ SpanSender.newlyTaken (some t) s (s.receive t)) results := by
  obtain ⟨message, hgets⟩ | ⟨htasks, hqueue, hsame⟩ := s.gets_receive t
  · exact balanced_gets hqueues htaken hledger hgets
  · rw [SpanSender.newlyTaken_of_same _ hsame, List.append_nil]
    refine ⟨hqueues.join hidle hqueue htasks, htaken.trans hsame.symm, ?_⟩
    rw [htasks, ← Function.update_idem SendTask.offline]
    exact hledger.rest (by rw [Function.update_self]; rfl) rfl

theorem Balanced.offline (h : Balanced s takenBy results) {results' : List (ι × PSpanMessage × Bool)}
    (htasks : s'.tasks = Function.update s.tasks t .offline)
    (hqueue : s'.spanMessageBufferCh.recvq = s.spanMessageBufferCh.recvq.erase t) (hsame : s'.taken = s.taken)
    (hledger : Ledger takenBy results' (Function.update s.tasks t .offline)) :
    Balanced s' takenBy results' := by
  refine ⟨h.queues.leave hqueue htasks (fun hw => by cases hw), h.taken.trans hsame.symm, ?_⟩
  rw [htasks]
  exact hledger

private theorem Balanced.connected (h : Balanced s takenBy results) {hash : String → List UInt8}
    (hstep : s.step hash (.connected t) = some s') :
    Balanced s' (takenBy ++ SpanSender.newlyTaken (some t) s s') results := by
  dsimp only [SpanSender.step] at hstep
  split at hstep
  · next hoffline =>
    cases hstep
    have hledger := h.ledger
    rw [← Function.update_eq_self t s.tasks, hoffline] at hledger
    exact balanced_receive h.queues h.taken (by rw [hoffline]; exact fun hw => by cases hw) hledger
  · cases hstep

private theorem Balanced.sent (h : Balanced s takenBy results) {hash : String → List UInt8}
    (hsending : s.tasks t = .sending message) (hstep : s.step hash (.sent t) = some s') :
    Balanced s' (takenBy ++ SpanSender.newlyTaken (some t) s s') (results ++ [(t, message, true)]) := by
  simp only [SpanSender.step, hsending] at hstep
  cases hstep
  exact balanced_receive h.queues h.taken (by rw [hsending]; exact fun hw => by cases hw)
    (h.ledger.finish hsending true rfl)

private theorem Balanced.sendFailed (h : Balanced s takenBy results) {hash : String → List UInt8}
    (hsending : s.tasks t = .sending message) (hstep : s.step hash (.sendFailed t) = some s') :
    Balanced s' (takenBy ++ SpanSender.newlyTaken (some t) s s') (results ++ [(t, message, false)]) := by
  have hnot : t ∉ s.spanMessageBufferCh.recvq := by
    intro hmem
    rw [h.queues.waiting t, hsending] at hmem
    cases hmem
  simp only [SpanSender.step, hsending] at hstep
  obtain ⟨htasks, hqueue, hsame⟩ : s'.tasks = Function.update s.tasks t .offline ∧
      s'.spanMessageBufferCh.recvq = s.spanMessageBufferCh.recvq ∧ s'.taken = s.taken := by
    cases hstep
    unfold SpanSender.sendFailed
    dsimp only
    split <;> exact ⟨rfl, rfl, rfl⟩
  rw [SpanSender.newlyTaken_of_same _ hsame, List.append_nil]
  refine h.offline htasks (hqueue.trans (List.erase_of_not_mem hnot).symm) hsame ?_
  exact h.ledger.finish hsending false rfl

private theorem Balanced.contextDone (h : Balanced s takenBy results) {hash : String → List UInt8}
    (hwaiting : s.tasks t = .waiting) (hstep : s.step hash (.contextDone t) = some s') :
    Balanced s' (takenBy ++ SpanSender.newlyTaken none s s') results := by
  dsimp only [SpanSender.step] at hstep
  split at hstep
  · cases hstep
    rw [SpanSender.newlyTaken, List.append_nil]
    exact h.offline rfl rfl rfl (h.ledger.rest (by rw [hwaiting]; rfl) rfl)
  · cases hstep

private theorem Balanced.interceptor (h : Balanced s takenBy results) {hash : String → List UInt8}
    {env : Nat → Int32 × Outcome} {pick : Nat} {span : TSpan} {passed : Bool}
    (hrun : SpanSender.interceptor hash env pick span s = .ok passed s') :
    Balanced s' (takenBy ++ SpanSender.newlyTaken s.spanMessageBufferCh.recvq.head? s s') results := by
  obtain ⟨t, message, hhead, hgets⟩ | ⟨htasks, hqueue, hsame⟩ := SpanSender.gets_interceptor hrun
  · have hwaiting : s.tasks t = .waiting := (h.queues.waiting t).1 (List.mem_of_head? hhead)
    rw [hhead]
    exact balanced_gets h.queues h.taken (h.ledger.rest (by rw [hwaiting]; rfl) rfl) hgets
  · rw [SpanSender.newlyTaken_of_same _ hsame, List.append_nil]
    refine ⟨⟨hqueue ▸ h.queues.nodup, fun t => ?_⟩, h.taken.trans hsame.symm, htasks ▸ h.ledger⟩
    rw [hqueue, htasks]
    exact h.queues.waiting t

section Round

variable {setup : Setup} {moment : Moment} {span : TSpan} {f f' : Filtering ι}

theorem interceptor_of_runFilters (h : runFilters setup moment span registerFilter f = .ok () f') :
    ∃ passed, SpanSender.interceptor setup.hash moment.lookups moment.pick span f.spanSender =
      .ok passed f'.spanSender := by
  rw [runFilters_eq_counted, runFilters] at h
  obtain ⟨passed, f₃, hsearch, hrest⟩ := bind_eq_ok h
  have hsame : passed = true ∧ f₃.spanSender = f.spanSender := by
    simp only [Filter.interceptor, onField] at hsearch
    split at hsearch
    · next found e hrun =>
      cases hsearch
      exact ⟨ErrorAnalysisFilter.interceptor_true hrun, rfl⟩
    · cases hsearch
  rw [hsame.1, if_pos rfl, runFilters] at hrest
  obtain ⟨passed', f₄, hsend, hlast⟩ := bind_eq_ok hrest
  have hend : f' = f₄ := by
    cases passed' <;> cases hlast <;> rfl
  simp only [Filter.interceptor, onField, hsame.2] at hsend
  split at hsend
  · next a s' hrun =>
    cases hsend
    subst hend
    exact ⟨_, hrun⟩
  · cases hsend

private theorem handleTSpan_cases (setup : Setup) (moment : Moment) (span : TSpan) (htyped : f.spanSender.lookups.Typed) :
    (panics span = true ∧ (handleTSpan setup moment span f).spanSender = f.spanSender) ∨
      panics span = false ∧
      Offered setup moment span f.spanSender (handleTSpan setup moment span f).spanSender ∧
      ∃ passed, SpanSender.interceptor setup.hash moment.lookups moment.pick span f.spanSender =
        .ok passed (handleTSpan setup moment span f).spanSender := by
  have hpanics : panics span = true ↔ span.errorMarked = 1 ∧ none ∈ span.follows := by
    simp [panics]
  rcases runFilters_registerFilter setup moment span htyped with ⟨hfine, f', hrun, hoffered⟩ | ⟨hfails, f', hrun, hsame⟩
  · right
    rw [handleTSpan, finalState_of_ok hrun]
    exact ⟨Bool.eq_false_iff.2 (mt hpanics.1 hfine), hoffered, interceptor_of_runFilters hrun⟩
  · left
    rw [handleTSpan, finalState_of_error hrun]
    exact ⟨hpanics.2 hfails, hsame⟩

end Round

structure Kept (setup : Setup) (p : Pipeline κ ι) : Prop where
  dispatched : p.dispatched = p.handled ++ p.tSpanBufCh.contents
  offered : p.filtering.spanSender.offers.map Offer.span = p.handled.filter fun span => !panics span
  converted : ∀ offer ∈ p.filtering.spanSender.offers, offer.Made setup.hash
  received : (p.filtering.spanSender.offers.filter fun offer => offer.outcome = .send).map Offer.message =
    p.filtering.spanSender.received
  typed : p.filtering.spanSender.lookups.Typed
  balanced : Balanced p.filtering.spanSender p.takenBy p.results

variable {p q : Pipeline κ ι} {setup : Setup}

private theorem Kept.ofSender (h : p.Kept setup) {e : SpanSender.Event ι} (hspan : e.span? = none)
    (hstep : p.filtering.spanSender.step setup.hash e = some s')
    (hbalanced : Balanced s' takenBy results) :
    Kept setup { p with filtering := { p.filtering with spanSender := s' }, takenBy, results } := by
  obtain ⟨offers, hnoted, hcalled, -, hreceived⟩ := SpanSender.queued_step h.typed hstep
  rw [hspan] at hcalled
  obtain rfl : offers = [] := List.map_eq_nil_iff.1 hcalled
  rw [List.append_nil] at hnoted
  rw [List.filter_nil, List.map_nil, List.append_nil] at hreceived
  refine ⟨h.dispatched, ?_, ?_, ?_, SpanSender.typed_step h.typed hstep, hbalanced⟩
  · rw [hnoted]
    exact h.offered
  · rw [hnoted]
    exact h.converted
  · rw [hnoted, hreceived]
    exact h.received

private theorem Kept.handleTSpan (h : p.Kept setup) (moment : Moment) {span : TSpan} {tSpanBufCh : Channel κ Empty TSpan}
    (hreceive : p.tSpanBufCh.poll = some (span, tSpanBufCh)) :
    Kept setup { p with
      tSpanBufCh
      filtering := Filters.handleTSpan setup moment span p.filtering
      handled := p.handled ++ [span]
      takenBy := p.takenBy ++
        SpanSender.newlyTaken p.filtering.spanSender.spanMessageBufferCh.recvq.head? p.filtering.spanSender
          (Filters.handleTSpan setup moment span p.filtering).spanSender } := by
  have hdispatched : p.dispatched = (p.handled ++ [span]) ++ tSpanBufCh.contents := by
    rw [h.dispatched, (Channel.contents_poll hreceive).1, List.append_assoc]
    rfl
  rcases handleTSpan_cases setup moment span h.typed with ⟨hpanics, hsame⟩ | ⟨hpanics, hoffered, passed, hrun⟩
  · refine ⟨hdispatched, ?_, ?_, ?_, ?_, ?_⟩
    · rw [hsame, List.filter_append, h.offered]
      simp [hpanics]
    · rw [hsame]
      exact h.converted
    · rw [hsame]
      exact h.received
    · rw [hsame]
      exact h.typed
    · rw [hsame, SpanSender.newlyTaken_of_same _ rfl, List.append_nil]
      exact h.balanced
  · obtain ⟨message, lookups, hmake, hmessage, hoffers, htyped⟩ := hoffered
    obtain ⟨s', hrun', -, -, hreceived⟩ := SpanSender.interceptor_of_ok hmake moment.pick
    obtain ⟨-, rfl⟩ : true = passed ∧ s' = (Filters.handleTSpan setup moment span p.filtering).spanSender := by
      rw [hrun'] at hrun
      cases hrun
      exact ⟨rfl, rfl⟩
    refine ⟨hdispatched, ?_, ?_, ?_, htyped, h.balanced.interceptor hrun⟩
    · rw [hoffers, List.map_append, List.filter_append, h.offered]
      simp [hpanics]
    · intro offer hoffer
      rw [hoffers] at hoffer
      rcases List.mem_append.1 hoffer with hold | hnew
      · exact h.converted offer hold
      · rw [List.mem_singleton.1 hnew]
        exact ⟨_, _, _, hmake, hmessage⟩
    · rw [hoffers, hreceived, List.filter_append, List.map_append, h.received]
      by_cases hsend : p.filtering.spanSender.selected moment.pick = .send
      · simp [hsend]
      · simp [hsend]

private theorem Kept.accounted (h : p.Kept setup) : p.Accounted setup := by
  refine ⟨h.dispatched, h.offered, h.converted, ?_, h.balanced.ledger⟩
  rw [h.received, h.balanced.taken]
  rfl

variable [DecidableEq κ]

private theorem Kept.step (h : p.Kept setup) {e : Event κ ι} (hstep : p.step setup e = some q) : q.Kept setup := by
  cases e with
  | sendSpan k span =>
    dsimp only [Pipeline.step] at hstep
    split at hstep
    · cases hstep
    · cases hstep
      refine ⟨?_, h.offered, h.converted, h.received, h.typed, h.balanced⟩
      rw [Channel.contents_send, ← List.append_assoc, h.dispatched]
  | handleTSpan moment =>
    dsimp only [Pipeline.step] at hstep
    split at hstep
    · obtain ⟨⟨span, tSpanBufCh⟩, hreceive, rfl⟩ := Option.map_eq_some_iff.1 hstep
      exact h.handleTSpan moment hreceive
    · cases hstep
  | connected t =>
    obtain ⟨s', hsender, rfl⟩ := Option.map_eq_some_iff.1 hstep
    exact h.ofSender rfl hsender (h.balanced.connected hsender)
  | returned t sent =>
    dsimp only [Pipeline.step] at hstep
    split at hstep
    · next message hsending =>
      obtain ⟨s', hsender, rfl⟩ := Option.map_eq_some_iff.1 hstep
      cases sent with
      | true => exact h.ofSender rfl hsender (h.balanced.sent hsending hsender)
      | false => exact h.ofSender rfl hsender (h.balanced.sendFailed hsending hsender)
    · cases hstep
  | moveUtReport order clock =>
    obtain ⟨f', hmove, rfl⟩ := Option.map_eq_some_iff.1 hstep
    have hsame : f'.spanSender = p.filtering.spanSender := by
      dsimp only [Filtering.step] at hmove
      split at hmove
      · cases hmove
        rfl
      · cases hmove
    refine ⟨h.dispatched, ?_, ?_, ?_, ?_, ?_⟩
    · exact hsame ▸ h.offered
    · exact hsame ▸ h.converted
    · exact hsame ▸ h.received
    · exact hsame ▸ h.typed
    · exact hsame ▸ h.balanced
  | cancel =>
    cases hstep
    exact ⟨h.dispatched, h.offered, h.converted, h.received, h.typed, h.balanced⟩
  | consumerDone =>
    dsimp only [Pipeline.step] at hstep
    split at hstep
    · cases hstep
      exact ⟨h.dispatched, h.offered, h.converted, h.received, h.typed, h.balanced⟩
    · cases hstep
  | senderDone t =>
    dsimp only [Pipeline.step] at hstep
    split at hstep
    · next hdone =>
      obtain ⟨s', hsender, rfl⟩ := Option.map_eq_some_iff.1 hstep
      exact h.ofSender rfl hsender (h.balanced.contextDone hdone.2 hsender)
    · cases hstep

/-- The rounds of `handleTSpanFromBuf` among some events. -/
def rounds (events : List (Event κ ι)) : Nat :=
  events.countP fun
    | .handleTSpan _ => true
    | _ => false

end Pipeline

end PinpointAgent.Filters
