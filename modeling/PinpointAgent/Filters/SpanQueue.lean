import PinpointAgent.Framework.Channel
import PinpointAgent.Framework.Interleaving
import PinpointAgent.Filters.SpanMessage

/-!
# The queue of the span sender

`SpanSender.Interceptor` converts a span and offers the message to the goroutines that send to the
backend, in one `select` with three cases: the message goes into `spanMessageBufferCh`, or a
notification of a broken stream comes out of `sendStreamRespCh`, or, when neither is possible, the
message is dropped. When both of the first two are possible, Go takes any one of them: a
notification that is picked costs the span.

Each goroutine of `sendTask` takes messages from the queue, one after the other, and sends them on its
stream. When a send fails, it leaves a notification, if there is room for it, and starts again
with a new stream after a while.
-/

namespace PinpointAgent.Filters

open Framework Metadata

inductive SelectCase where
  | send
  | streamOffline
  | dropped
deriving DecidableEq

/-- Where a goroutine of `sendTask` is: between two streams, waiting for a message in `sendSpan`,
or sending one. -/
inductive SendTask where
  | offline
  | waiting
  | sending (message : PSpanMessage)
deriving DecidableEq

/-- A span that `Interceptor` was called with, its message, and what became of it. -/
structure Offer where
  span : TSpan
  message : PSpanMessage
  outcome : SelectCase
deriving DecidableEq

/-- The message is what `makeSpanOrSpanChunk` made of the span. -/
def Offer.Made (hash : String → List UInt8) (offer : Offer) : Prop :=
  ∃ env lookups lookups', makeSpanOrSpanChunk hash env offer.span lookups = .ok offer.message lookups' ∧
    MessageOf offer.span offer.message lookups'.ids.idMap

/-- The sender. `taken` has the messages that the goroutines have received, and `offers` the calls of
`Interceptor`, the first one first. -/
structure SpanSender (ι : Type) where
  lookups : IdLookups
  /-- No sender waits: the `select` has a `default`. -/
  spanMessageBufferCh : Channel Empty ι PSpanMessage
  sendStreamRespCh : Channel Empty Empty Int
  tasks : ι → SendTask
  taken : List PSpanMessage
  offers : List Offer

namespace SpanSender

variable {ι : Type}

def create (agentChannelSize spanStreamParallelismSize : Nat) : SpanSender ι where
  lookups := ⟨.new, 0⟩
  spanMessageBufferCh := .new agentChannelSize
  sendStreamRespCh := .new spanStreamParallelismSize
  tasks := fun _ => .offline
  taken := []
  offers := []

def received (s : SpanSender ι) : List PSpanMessage := s.taken ++ s.spanMessageBufferCh.buffer

/-- The cases of the `select` that can be taken; `default` if there is no other one. -/
def readyCases (s : SpanSender ι) : List SelectCase :=
  match (if s.spanMessageBufferCh.HasRoom then [.send] else []) ++
      if s.sendStreamRespCh.buffer ≠ [] then [.streamOffline] else [] with
  | [] => [.dropped]
  | ready => ready

/-- `pick` stands for the choice of the runtime among the cases that are ready. -/
def selected (s : SpanSender ι) (pick : Nat) : SelectCase :=
  s.readyCases.getD (pick % s.readyCases.length) .dropped

private theorem hasRoom_of_selected {s : SpanSender ι} {pick : Nat} (h : s.selected pick = .send) : s.spanMessageBufferCh.HasRoom := by
  by_contra hfull
  have hnone : SelectCase.send ∉ s.readyCases := by
    unfold readyCases
    rw [if_neg hfull]
    split <;> simp_all
  rw [selected] at h
  rcases hget : s.readyCases[pick % s.readyCases.length]? with _ | chosen
  · rw [List.getD_eq_getElem?_getD, hget] at h
    cases h
  · rw [List.getD_eq_getElem?_getD, hget] at h
    cases h
    exact hnone (List.mem_of_getElem? hget)

theorem selected_send_iff {s : SpanSender ι} (hroom : s.spanMessageBufferCh.HasRoom) :
    (∀ pick, s.selected pick = .send) ↔ s.sendStreamRespCh.buffer = [] := by
  by_cases hquiet : s.sendStreamRespCh.buffer = []
  · have hready : s.readyCases = [.send] := by simp [readyCases, hroom, hquiet]
    refine ⟨fun _ => hquiet, fun _ pick => ?_⟩
    simp [selected, hready, Nat.mod_one]
  · have hready : s.readyCases = [.send, .streamOffline] := by simp [readyCases, hroom, hquiet]
    refine ⟨fun h => ?_, fun h => absurd h hquiet⟩
    have hsecond := h 1
    simp [selected, hready] at hsecond

def cleanAllMetaData (s : SpanSender ι) : SpanSender ι :=
  { s with lookups := { s.lookups with ids := s.lookups.ids.cleanAllMetaData } }

section Queued

variable {hash : String → List UInt8} {s s' : SpanSender ι}

/-- What happened between two states: the calls of `Interceptor`, in order, are noted with the messages
that were made of the spans and what became of them, and the queue has received exactly the messages of
those that were not dropped. -/
structure Queued (hash : String → List UInt8) (s s' : SpanSender ι) (spans : List TSpan) (offers : List Offer) :
    Prop where
  noted : s'.offers = s.offers ++ offers
  called : offers.map Offer.span = spans
  made : ∀ offer ∈ offers, offer.Made hash
  received : s'.received = s.received ++ (offers.filter (·.outcome = .send)).map Offer.message

private theorem Queued.refl (s : SpanSender ι) : Queued hash s s [] [] := ⟨by simp, rfl, by simp, by simp⟩

private theorem Queued.trans {t : SpanSender ι} {spans spans' : List TSpan} {offers offers' : List Offer}
    (h : Queued hash s t spans offers) (h' : Queued hash t s' spans' offers') :
    Queued hash s s' (spans ++ spans') (offers ++ offers') := by
  refine ⟨?_, ?_, ?_, ?_⟩
  · rw [h'.noted, h.noted, List.append_assoc]
  · rw [List.map_append, h.called, h'.called]
  · intro offer hoffer
    exact (List.mem_append.1 hoffer).elim (h.made offer) (h'.made offer)
  · rw [h'.received, h.received, List.filter_append, List.map_append, List.append_assoc]

theorem Queued.of_eq (hoffers : s'.offers = s.offers) (hreceived : s'.received = s.received) :
    Queued hash s s' [] [] := by
  rw [← List.append_nil s.offers] at hoffers
  rw [← List.append_nil s.received] at hreceived
  exact ⟨hoffers, rfl, fun _ hnone => absurd hnone List.not_mem_nil, hreceived⟩

end Queued

variable [DecidableEq ι]

def handOver (s : SpanSender ι) (t : ι) (message : PSpanMessage) : SpanSender ι :=
  { s with tasks := Function.update s.tasks t (.sending message), taken := s.taken ++ [message] }

def offer (s : SpanSender ι) (message : PSpanMessage) : SelectCase → SpanSender ι
  | .send =>
    match s.spanMessageBufferCh.offer message with
    | some (some t, ch) => { s with spanMessageBufferCh := ch }.handOver t message
    | some (none, ch) => { s with spanMessageBufferCh := ch }
    | none => s
  | .streamOffline =>
    match s.sendStreamRespCh.poll with
    | some (_, ch) => { s with sendStreamRespCh := ch }.cleanAllMetaData
    | none => s
  | .dropped => s

def interceptor (hash : String → List UInt8) (env : Nat → Int32 × Outcome) (pick : Nat) (span : TSpan) :
    EStateM Panic (SpanSender ι) Bool := fun s =>
  match makeSpanOrSpanChunk hash env span s.lookups with
  | .error failed lookups => .error failed { s with lookups }
  | .ok message lookups =>
    let outcome := s.selected pick
    let noted : SpanSender ι := { s with lookups, offers := s.offers ++ [⟨span, message, outcome⟩] }
    .ok true (noted.offer message outcome)

def receive (s : SpanSender ι) (t : ι) : SpanSender ι :=
  match s.spanMessageBufferCh.receive t with
  | (some message, ch) => { s with spanMessageBufferCh := ch }.handOver t message
  | (none, ch) => { s with spanMessageBufferCh := ch, tasks := Function.update s.tasks t .waiting }

def sendFailed (s : SpanSender ι) (t : ι) : SpanSender ι :=
  let s := { s with tasks := Function.update s.tasks t .offline }
  match s.sendStreamRespCh.offer 500 with
  | some (_, ch) => { s with sendStreamRespCh := ch }
  | none => s

/-- What happens to a sender. A goroutine has a new stream, or its send has succeeded or failed, or
it ends with its agent. -/
inductive Event (ι : Type) where
  | interceptor (env : Nat → Int32 × Outcome) (pick : Nat) (span : TSpan)
  | connected (t : ι)
  | sent (t : ι)
  | sendFailed (t : ι)
  | contextDone (t : ι)

/-- `none` when the event cannot happen, or when it panics. -/
def step (hash : String → List UInt8) (s : SpanSender ι) : Event ι → Option (SpanSender ι)
  | .interceptor env pick span =>
    match interceptor hash env pick span s with
    | .ok _ s' => some s'
    | .error .. => none
  | .connected t => if s.tasks t = .offline then some (s.receive t) else none
  | .sent t =>
    match s.tasks t with
    | .sending _ => some (s.receive t)
    | _ => none
  | .sendFailed t =>
    match s.tasks t with
    | .sending _ => some (s.sendFailed t)
    | _ => none
  | .contextDone t =>
    if s.tasks t ≠ .offline then
      some { s with
        spanMessageBufferCh := s.spanMessageBufferCh.leave t
        tasks := Function.update s.tasks t .offline }
    else none

def Event.span? : Event ι → Option TSpan
  | .interceptor _ _ span => some span
  | _ => none

/-! ## One call -/

section Call

variable {s : SpanSender ι} {message : PSpanMessage}

private theorem received_handOver (t : ι) (ch : Channel Empty ι PSpanMessage) :
    ({ s with spanMessageBufferCh := ch }.handOver t message).received =
      s.taken ++ ([message] ++ ch.buffer) := by
  simp [received, handOver]

private theorem received_offer {outcome : SelectCase} (hready : outcome = .send → s.spanMessageBufferCh.HasRoom) :
    (s.offer message outcome).received = s.received ++ if outcome = .send then [message] else [] := by
  cases outcome with
  | send =>
    obtain ⟨⟨i, ch⟩, hsend⟩ :=
      Option.ne_none_iff_exists'.1 (mt (s.spanMessageBufferCh.offer_eq_none_iff message).1 (not_not.2 (hready rfl)))
    have hall : s.received ++ [message] =
        s.taken ++ ((if i.isSome then [message] else []) ++ ch.buffer) := by
      rw [← ch.contents_eq_buffer, Channel.offer_conserves hsend, Channel.contents_eq_buffer, received,
        List.append_assoc]
    rw [if_pos rfl, hall]
    simp only [offer, hsend]
    cases i with
    | some t => exact received_handOver t ch
    | none => rfl
  | streamOffline =>
    rw [if_neg nofun, List.append_nil, offer]
    split <;> rfl
  | dropped =>
    rw [if_neg nofun, List.append_nil]
    rfl

private theorem offers_offer (outcome : SelectCase) : (s.offer message outcome).offers = s.offers := by
  cases outcome with
  | send =>
    rw [offer]
    split <;> rfl
  | streamOffline =>
    rw [offer]
    split <;> rfl
  | dropped => rfl

private theorem typed_offer (h : s.lookups.Typed) (outcome : SelectCase) : (s.offer message outcome).lookups.Typed := by
  cases outcome with
  | send =>
    rw [offer]
    split <;> exact h
  | streamOffline =>
    rw [offer]
    split
    · exact fun _ _ hid => absurd hid nofun
    · exact h
  | dropped => exact h

theorem interceptor_of_ok {hash : String → List UInt8} {env : Nat → Int32 × Outcome} {span : TSpan}
    {lookups : IdLookups} (hmake : makeSpanOrSpanChunk hash env span s.lookups = .ok message lookups)
    (pick : Nat) :
    ∃ s', interceptor hash env pick span s = .ok true s' ∧
      (lookups.Typed → s'.lookups.Typed) ∧ s'.offers = s.offers ++ [⟨span, message, s.selected pick⟩] ∧
      s'.received = s.received ++ if s.selected pick = .send then [message] else [] := by
  refine ⟨_, by rw [interceptor, hmake], fun htyped => typed_offer htyped _, offers_offer _, ?_⟩
  exact received_offer hasRoom_of_selected

private theorem received_receive (t : ι) : (s.receive t).received = s.received := by
  have hkept := s.spanMessageBufferCh.receive_conserves t
  rw [Channel.contents_eq_buffer, Channel.contents_eq_buffer] at hkept
  unfold receive
  rcases hreceive : s.spanMessageBufferCh.receive t with ⟨_ | message, ch⟩
  · rw [hreceive] at hkept
    change s.taken ++ ch.buffer = s.received
    rw [received, ← hkept]
    rfl
  · rw [hreceive] at hkept
    change ({ s with spanMessageBufferCh := ch }.handOver t message).received = _
    rw [received_handOver, received, ← hkept]
    rfl

end Call

/-! ## Runs -/

section Run

variable {hash : String → List UInt8} {s s' : SpanSender ι}

theorem step_cases {e : Event ι} (h : step hash s e = some s') :
    (∃ env pick span message lookups, e = .interceptor env pick span ∧
      makeSpanOrSpanChunk hash env span s.lookups = .ok message lookups ∧
      interceptor hash env pick span s = .ok true s') ∨
    (e.span? = none ∧ s'.lookups = s.lookups ∧ s'.offers = s.offers ∧ s'.received = s.received) := by
  have hreceive : ∀ t, (s.receive t).lookups = s.lookups ∧ (s.receive t).offers = s.offers ∧
      (s.receive t).received = s.received := by
    intro t
    refine ⟨?_, ?_, received_receive t⟩
    · unfold receive
      split <;> rfl
    · unfold receive
      split <;> rfl
  cases e with
  | interceptor env pick span =>
    simp only [step] at h
    cases hmake : makeSpanOrSpanChunk hash env span s.lookups with
    | error failed lookups =>
      rw [interceptor, hmake] at h
      cases h
    | ok message lookups =>
      obtain ⟨s₁, hrun, -⟩ := interceptor_of_ok hmake pick
      rw [hrun] at h
      obtain rfl := Option.some.inj h
      exact .inl ⟨env, pick, span, message, lookups, rfl, hmake, hrun⟩
  | connected t =>
    simp only [step] at h
    split at h
    · obtain rfl := Option.some.inj h
      exact .inr ⟨rfl, hreceive t⟩
    · cases h
  | sent t =>
    simp only [step] at h
    split at h
    · obtain rfl := Option.some.inj h
      exact .inr ⟨rfl, hreceive t⟩
    · cases h
  | sendFailed t =>
    simp only [step] at h
    split at h
    · obtain rfl := Option.some.inj h
      simp only [sendFailed]
      split <;> exact .inr ⟨rfl, rfl, rfl, rfl⟩
    · cases h
  | contextDone t =>
    simp only [step] at h
    split at h
    · obtain rfl := Option.some.inj h
      exact .inr ⟨rfl, rfl, rfl, rfl⟩
    · cases h

theorem queued_step (htyped : s.lookups.Typed) {e : Event ι} (h : step hash s e = some s') :
    ∃ offers, Queued hash s s' e.span?.toList offers := by
  obtain ⟨env, pick, span, message, lookups, rfl, hmake, hcall⟩ | ⟨hspan, -, hoffers, hreceived⟩ :=
    step_cases h
  · obtain ⟨s₁, hrun, -, hoffers, hreceived⟩ := interceptor_of_ok hmake pick
    rw [hrun] at hcall
    cases hcall
    refine ⟨_, hoffers, rfl, fun offer hoffer => ?_, ?_⟩
    · obtain rfl := List.mem_singleton.1 hoffer
      obtain ⟨_, _, hmade, -, -, hmessage⟩ := makeSpanOrSpanChunk_builds hash env span s.lookups htyped
      rw [hmake] at hmade
      cases hmade
      exact ⟨env, s.lookups, lookups, hmake, hmessage⟩
    · rw [hreceived]
      by_cases hsend : s.selected pick = .send
      · simp [hsend]
      · simp [hsend]
  · rw [hspan]
    exact ⟨[], .of_eq hoffers hreceived⟩

theorem typed_step (htyped : s.lookups.Typed) {e : Event ι} (h : step hash s e = some s') :
    s'.lookups.Typed := by
  obtain ⟨env, pick, span, message, lookups, rfl, hmake, hcall⟩ | ⟨-, hlookups, -, -⟩ := step_cases h
  · obtain ⟨_, _, hmade, hnew, -⟩ := makeSpanOrSpanChunk_builds hash env span s.lookups htyped
    obtain ⟨s₁, hrun, hkept, -, -⟩ := interceptor_of_ok hmake pick
    rw [hmake] at hmade
    cases hmade
    rw [hrun] at hcall
    cases hcall
    exact hkept hnew
  · rw [hlookups]
    exact htyped

private theorem queued_exec (htyped : s.lookups.Typed) {events : List (Event ι)} (h : exec (step hash) s events = some s') :
    ∃ offers, Queued hash s s' (events.filterMap Event.span?) offers := by
  induction events generalizing s with
  | nil =>
    obtain rfl := Option.some.inj h
    exact ⟨[], Queued.refl s⟩
  | cons e events ih =>
    obtain ⟨t, hstep, hrest⟩ := Option.bind_eq_some_iff.1 h
    obtain ⟨offers, hqueued⟩ := queued_step htyped hstep
    obtain ⟨offers', hqueued'⟩ := ih (typed_step htyped hstep) hrest
    refine ⟨offers ++ offers', ?_⟩
    have hspans : (e :: events).filterMap Event.span? =
        e.span?.toList ++ events.filterMap Event.span? := by
      rw [List.filterMap_cons]
      cases e.span? <;> rfl
    rw [hspans]
    exact hqueued.trans hqueued'

end Run

/-- A span with room in the queue is enqueued, whatever the runtime picks, if and only if there is no
notification in `sendStreamRespCh`; and over every run the queue receives exactly the messages of the
spans that were not dropped, each once and in order. -/
theorem span_enqueued_iff (hash : String → List UInt8) {s : SpanSender ι} (htyped : s.lookups.Typed) :
    (∀ (env : Nat → Int32 × Outcome) (span : TSpan), ∃ message lookups,
      makeSpanOrSpanChunk hash env span s.lookups = .ok message lookups ∧
      MessageOf span message lookups.ids.idMap ∧
      (s.spanMessageBufferCh.HasRoom →
        ((∀ pick, ∃ s', interceptor hash env pick span s = .ok true s' ∧
            s'.received = s.received ++ [message]) ↔ s.sendStreamRespCh.buffer = []))) ∧
    ∀ (events : List (Event ι)) (s' : SpanSender ι), exec (step hash) s events = some s' →
      ∃ offers, Queued hash s s' (events.filterMap Event.span?) offers := by
  refine ⟨fun env span => ?_, fun events s' hrun => queued_exec htyped hrun⟩
  obtain ⟨message, lookups, hmake, -, -, hmessage⟩ := makeSpanOrSpanChunk_builds hash env span s.lookups htyped
  refine ⟨message, lookups, hmake, hmessage, fun hroom => ?_⟩
  rw [← selected_send_iff hroom]
  refine forall_congr' fun pick => ?_
  obtain ⟨s', hrun, -, -, hreceived⟩ := interceptor_of_ok hmake pick
  constructor
  · rintro ⟨s₁, hrun₁, henqueued⟩
    rw [hrun] at hrun₁
    cases hrun₁
    by_contra hother
    rw [if_neg hother, List.append_nil] at hreceived
    rw [hreceived] at henqueued
    exact absurd (congrArg List.length henqueued) (by simp)
  · intro hsend
    rw [if_pos hsend] at hreceived
    exact ⟨s', hrun, hreceived⟩

/-- The two spans of these events are sent when there is room for each. Between them, the goroutine
fails to send the first one. -/
def lostNotification : List (Event Unit) :=
  [.interceptor (fun _ => (1, .succeeded)) 0 {}, .connected (), .sendFailed ()]

theorem span_enqueued_iff_new :
    ∃ message lookups s', makeSpanOrSpanChunk (fun _ => []) (fun _ => (1, .succeeded)) {} ⟨.new, 0⟩ =
        .ok message lookups ∧
      interceptor (fun _ => []) (fun _ => (1, .succeeded)) 7 {} (create 1 1 : SpanSender Unit) = .ok true s' ∧
      s'.received = [message] := by
  have hroom : (create 1 1 : SpanSender Unit).spanMessageBufferCh.HasRoom := by decide
  obtain ⟨hcall, -⟩ := span_enqueued_iff (fun _ => []) (s := (create 1 1 : SpanSender Unit)) IdLookups.typed_new
  obtain ⟨message, lookups, hmake, -, hiff⟩ := hcall (fun _ => (1, .succeeded)) {}
  obtain ⟨s', hrun, hreceived⟩ := (hiff hroom).mpr rfl 7
  exact ⟨message, lookups, s', hmake, hrun, hreceived⟩

theorem notification_costs_span :
    ∃ s s' : SpanSender Unit, exec (step fun _ => []) (create 1 1) lostNotification = some s ∧
      s.spanMessageBufferCh.HasRoom ∧ s.spanMessageBufferCh.buffer = [] ∧
      interceptor (fun _ => []) (fun _ => (1, .succeeded)) 1 {} s = .ok true s' ∧
      s'.received = s.received ∧ s'.offers.map Offer.outcome = [.send, .streamOffline] := by
  refine ⟨_, _, rfl, by decide +kernel, by decide +kernel, rfl, by decide +kernel, by decide +kernel⟩

end SpanSender

end PinpointAgent.Filters
