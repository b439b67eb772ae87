import PinpointAgent.Framework.Channel
import PinpointAgent.Framework.Interleaving
import Mathlib.Data.List.Basic

/-!
# The statistics of an agent

`sendStat` opens one stream and starts three goroutines. Two of them collect messages, `handleRequestStat` and
`handleUrlReportStat`, and put them into `statCh`; the third one takes them out and sends them, since a stream
must not be used by two senders at once. When a send fails, or the agent stops, the sender ends and cancels
`sendCtx`, on which the other two give up. `sendStat` waits for all three before it closes the connection, and
`uploadStatInfo` then calls it again.

A `select` may pick any case that is possible, so a collector may still put messages into `statCh` after
`sendCtx` is cancelled, as long as there is room.
-/

namespace PinpointAgent.Router

open Framework

inductive Collector where
  | requestStat
  | urlReportStat
deriving DecidableEq

inductive CollectorState (μ : Type) where
  | collecting
  /-- at the `select` with a message -/
  | offering (msg : μ)
  /-- in `WaitEventsWithTime` -/
  | waiting
  | done

inductive SenderState (μ : Type) where
  /-- at its `select` -/
  | idle
  | sending (msg : μ)
  | done

def SenderState.inHand {μ : Type} : SenderState μ → List μ
  | .sending msg => [msg]
  | .idle | .done => []

/-- `accepted` has the messages that were put into `statCh`, `sent` those that were sent, and `lost` the one whose
send has failed. -/
structure StatStream (μ : Type) where
  /-- Who waits at one of the `select`s is seen from `sender` and `collectors`. -/
  statCh : Channel Empty Empty μ
  sender : SenderState μ
  collectors : Collector → CollectorState μ
  /-- the context of the agent is cancelled -/
  stopped : Bool
  /-- `sendCancel` was called -/
  sendCancelled : Bool
  /-- `sendStat` has returned -/
  returned : Bool
  accepted : List μ
  sent : List μ
  lost : List μ

namespace StatStream

variable {μ : Type}

def start (capacity : Nat) : StatStream μ :=
  ⟨.new capacity, .idle, fun _ => .collecting, false, false, false, [], [], []⟩

/-- `sendCtx` is derived from the context of the agent. -/
def sendCtxDone (s : StatStream μ) : Bool := s.stopped || s.sendCancelled

inductive Event (μ : Type) where
  | collected (c : Collector) (msg : μ)
  | put (c : Collector)
  /-- the sender waits at its `select` and gets the message at once -/
  | handOver (c : Collector)
  | offerDone (c : Collector)
  | timer (c : Collector)
  | waitDone (c : Collector)
  | receive
  | sent
  | sendFailed
  | senderDone
  | stop
  | returned

def setCollector (s : StatStream μ) (c : Collector) (state : CollectorState μ) : StatStream μ :=
  { s with collectors := Function.update s.collectors c state }

/-- `defer sendCancel()` -/
def endSender (s : StatStream μ) : StatStream μ := { s with sender := .done, sendCancelled := true }

/-- `none` if the goroutine is not at this place, or cannot go on there. -/
def step (s : StatStream μ) : Event μ → Option (StatStream μ)
  | .collected c msg =>
    match s.collectors c with
    | .collecting => some (s.setCollector c (.offering msg))
    | _ => none
  | .put c =>
    match s.collectors c with
    | .offering msg =>
      (s.statCh.offer msg).map fun r =>
        { s.setCollector c .waiting with statCh := r.2, accepted := s.accepted ++ [msg] }
    | _ => none
  | .handOver c =>
    match s.collectors c, s.sender, s.statCh.buffer with
    | .offering msg, .idle, [] =>
      some { s.setCollector c .waiting with sender := .sending msg, accepted := s.accepted ++ [msg] }
    | _, _, _ => none
  | .offerDone c =>
    match s.collectors c with
    | .offering _ => if s.sendCtxDone then some (s.setCollector c .done) else none
    | _ => none
  | .timer c =>
    match s.collectors c with
    | .waiting => some (s.setCollector c .collecting)
    | _ => none
  | .waitDone c =>
    match s.collectors c with
    | .waiting => if s.sendCtxDone then some (s.setCollector c .done) else none
    | _ => none
  | .receive =>
    match s.sender with
    | .idle => s.statCh.poll.map fun r => { s with sender := .sending r.1, statCh := r.2 }
    | _ => none
  | .sent =>
    match s.sender with
    | .sending msg => some { s with sender := .idle, sent := s.sent ++ [msg] }
    | _ => none
  | .sendFailed =>
    match s.sender with
    | .sending msg => some { s.endSender with lost := s.lost ++ [msg] }
    | _ => none
  | .senderDone =>
    match s.sender with
    | .idle => if s.sendCtxDone then some s.endSender else none
    | _ => none
  | .stop => some { s with stopped := true }
  | .returned =>
    match s.sender, s.collectors .requestStat, s.collectors .urlReportStat, s.returned with
    | .done, .done, .done, false => some { s with returned := true }
    | _, _, _, _ => none

/-! ## What a step can do -/

inductive Moves (s : StatStream μ) : Event μ → StatStream μ → Prop
  | collected {c : Collector} {msg : μ} (hat : s.collectors c = .collecting) :
      Moves s (.collected c msg) (s.setCollector c (.offering msg))
  | put {c : Collector} {msg : μ} {r : Option Empty × Channel Empty Empty μ} (hat : s.collectors c = .offering msg)
      (hput : s.statCh.offer msg = some r) :
      Moves s (.put c) { s.setCollector c .waiting with statCh := r.2, accepted := s.accepted ++ [msg] }
  | handOver {c : Collector} {msg : μ} (hat : s.collectors c = .offering msg) (hsender : s.sender = .idle)
      (hempty : s.statCh.buffer = []) :
      Moves s (.handOver c)
        { s.setCollector c .waiting with sender := .sending msg, accepted := s.accepted ++ [msg] }
  | offerDone {c : Collector} {msg : μ} (hat : s.collectors c = .offering msg) (hdone : s.sendCtxDone = true) :
      Moves s (.offerDone c) (s.setCollector c .done)
  | timer {c : Collector} (hat : s.collectors c = .waiting) : Moves s (.timer c) (s.setCollector c .collecting)
  | waitDone {c : Collector} (hat : s.collectors c = .waiting) (hdone : s.sendCtxDone = true) :
      Moves s (.waitDone c) (s.setCollector c .done)
  | receive {r : μ × Channel Empty Empty μ} (hsender : s.sender = .idle) (hpoll : s.statCh.poll = some r) :
      Moves s .receive { s with sender := .sending r.1, statCh := r.2 }
  | sent {msg : μ} (hsender : s.sender = .sending msg) :
      Moves s .sent { s with sender := .idle, sent := s.sent ++ [msg] }
  | sendFailed {msg : μ} (hsender : s.sender = .sending msg) :
      Moves s .sendFailed { s.endSender with lost := s.lost ++ [msg] }
  | senderDone (hsender : s.sender = .idle) (hdone : s.sendCtxDone = true) : Moves s .senderDone s.endSender
  | stop : Moves s .stop { s with stopped := true }
  | returned (hsender : s.sender = .done) (hcollectors : ∀ c, s.collectors c = .done) (hnot : s.returned = false) :
      Moves s .returned { s with returned := true }

variable {s t : StatStream μ} {e : Event μ}

private theorem moves_of_step (h : s.step e = some t) : Moves s e t := by
  cases e with
  | collected c msg =>
    dsimp only [step] at h
    split at h
    · next hat => cases h; exact .collected hat
    · cases h
  | put c =>
    dsimp only [step] at h
    split at h
    · next msg hat =>
      obtain ⟨r, hput, rfl⟩ := Option.map_eq_some_iff.1 h
      exact .put hat hput
    · cases h
  | handOver c =>
    dsimp only [step] at h
    split at h
    · next msg hat hsender hempty => cases h; exact .handOver hat hsender hempty
    · cases h
  | offerDone c =>
    dsimp only [step] at h
    split at h
    · next msg hat =>
      split at h
      · next hdone => cases h; exact .offerDone hat hdone
      · cases h
    · cases h
  | timer c =>
    dsimp only [step] at h
    split at h
    · next hat => cases h; exact .timer hat
    · cases h
  | waitDone c =>
    dsimp only [step] at h
    split at h
    · next hat =>
      split at h
      · next hdone => cases h; exact .waitDone hat hdone
      · cases h
    · cases h
  | receive =>
    dsimp only [step] at h
    split at h
    · next hsender =>
      obtain ⟨r, hpoll, rfl⟩ := Option.map_eq_some_iff.1 h
      exact .receive hsender hpoll
    · cases h
  | sent =>
    dsimp only [step] at h
    split at h
    · next msg hsender => cases h; exact .sent hsender
    · cases h
  | sendFailed =>
    dsimp only [step] at h
    split at h
    · next msg hsender => cases h; exact .sendFailed hsender
    · cases h
  | senderDone =>
    dsimp only [step] at h
    split at h
    · next hsender =>
      split at h
      · next hdone => cases h; exact .senderDone hsender hdone
      · cases h
    · cases h
  | stop =>
    cases h
    exact .stop
  | returned =>
    dsimp only [step] at h
    split at h
    · next hsender hrequest hurl hnot =>
      cases h
      refine .returned hsender (fun c => ?_) hnot
      cases c
      · exact hrequest
      · exact hurl
    · cases h

private theorem Moves.step_eq (h : Moves s e t) : s.step e = some t := by
  cases h with
  | collected hat => simp only [step, hat]
  | put hat hput => simp only [step, hat, hput, Option.map_some]
  | handOver hat hsender hempty => simp only [step, hat, hsender, hempty]
  | offerDone hat hdone => simp only [step, hat, if_pos hdone]
  | timer hat => simp only [step, hat]
  | waitDone hat hdone => simp only [step, hat, if_pos hdone]
  | receive hsender hpoll => simp only [step, hsender, hpoll, Option.map_some]
  | sent hsender => simp only [step, hsender]
  | sendFailed hsender => simp only [step, hsender]
  | senderDone hsender hdone => simp only [step, hsender, if_pos hdone]
  | stop => rfl
  | returned hsender hcollectors hnot => simp only [step, hsender, hcollectors, hnot]

/-! ## Order -/

structure Ordered (s : StatStream μ) : Prop where
  conserved : s.accepted = s.sent ++ s.sender.inHand ++ s.lost ++ s.statCh.buffer
  /-- `sendCancel` is what the sender does last, and nobody else calls it before -/
  cancelled : s.sendCancelled = true ↔ s.sender = .done
  lost : s.lost ≠ [] → s.sender = .done
  cause : s.sender = .done → s.stopped = true ∨ s.lost ≠ []
  given_up : ∀ c, s.collectors c = .done → s.sendCtxDone = true
  returned : s.returned = true → s.sender = .done ∧ ∀ c, s.collectors c = .done

private theorem ordered_start (capacity : Nat) : (start capacity : StatStream μ).Ordered where
  conserved := rfl
  cancelled := ⟨fun h => (by cases h), fun h => (by cases h)⟩
  lost h := absurd rfl h
  cause h := by cases h
  given_up c h := by cases h
  returned h := by cases h

theorem Ordered.working (h : s.Ordered) (hsender : s.sender ≠ .done) :
    s.lost = [] ∧ s.sendCancelled = false ∧ s.returned = false := by
  refine ⟨?_, ?_, ?_⟩
  · by_contra hne
    exact hsender (h.lost hne)
  · exact Bool.eq_false_iff.2 fun hcancelled => hsender (h.cancelled.1 hcancelled)
  · exact Bool.eq_false_iff.2 fun hreturned => hsender (h.returned hreturned).1

private theorem Ordered.setCollector (h : s.Ordered) {c : Collector} {state : CollectorState μ} (hc : s.collectors c ≠ .done)
    (hdone : state = .done → s.sendCtxDone = true) : (s.setCollector c state).Ordered where
  conserved := h.conserved
  cancelled := h.cancelled
  lost := h.lost
  cause := h.cause
  given_up d hd := by
    change Function.update s.collectors c state d = .done at hd
    by_cases hdc : d = c
    · subst hdc
      rw [Function.update_self] at hd
      exact hdone hd
    · rw [Function.update_of_ne hdc] at hd
      exact h.given_up d hd
  returned hreturned := absurd ((h.returned hreturned).2 c) hc

private theorem Ordered.withSender (h : s.Ordered) (hsender : s.sender ≠ .done) {sender : SenderState μ} (hnot : sender ≠ .done)
    {statCh : Channel Empty Empty μ} {accepted sent : List μ}
    (hconserved : accepted = sent ++ sender.inHand ++ statCh.buffer) :
    Ordered { s with sender, statCh, accepted, sent } := by
  obtain ⟨hlost, hopen, hrunning⟩ := h.working hsender
  refine ⟨?_, ?_, fun hne => absurd hlost hne, fun hd => absurd hd hnot, h.given_up, ?_⟩
  · show accepted = sent ++ sender.inHand ++ s.lost ++ statCh.buffer
    rw [hlost, List.append_nil, hconserved]
  · exact ⟨fun hc => absurd (hopen.symm.trans hc) Bool.false_ne_true, fun hd => absurd hd hnot⟩
  · exact fun hreturned => absurd (hrunning.symm.trans hreturned) Bool.false_ne_true

theorem Ordered.endSender (h : s.Ordered) (hsender : s.sender ≠ .done)
    (hcause : s.stopped = true ∨ s.sender.inHand ≠ []) :
    Ordered { s.endSender with lost := s.lost ++ s.sender.inHand } := by
  obtain ⟨hlost, -, -⟩ := h.working hsender
  refine ⟨?_, ⟨fun _ => rfl, fun _ => rfl⟩, fun _ => rfl, fun _ => ?_, fun c _ => Bool.or_true _,
    fun hreturned => ⟨rfl, (h.returned hreturned).2⟩⟩
  · show s.accepted = s.sent ++ [] ++ (s.lost ++ s.sender.inHand) ++ s.statCh.buffer
    rw [h.conserved, hlost]
    simp
  · show s.stopped = true ∨ s.lost ++ s.sender.inHand ≠ []
    rw [hlost]
    exact hcause

private theorem Moves.ordered (hmoves : Moves s e t) (h : s.Ordered) : t.Ordered := by
  cases hmoves with
  | collected hat => exact h.setCollector (by rw [hat]; exact fun hd => by cases hd) (fun hd => by cases hd)
  | @put c msg r hat hput =>
    have hset : (s.setCollector c .waiting).Ordered :=
      h.setCollector (by rw [hat]; exact fun hd => by cases hd) (fun hd => by cases hd)
    refine ⟨?_, hset.cancelled, hset.lost, hset.cause, hset.given_up, hset.returned⟩
    show s.accepted ++ [msg] = s.sent ++ s.sender.inHand ++ s.lost ++ r.2.buffer
    rw [Channel.buffer_offer hput, h.conserved, List.append_assoc]
  | @handOver c msg hat hsender hempty =>
    have hset : (s.setCollector c .waiting).Ordered :=
      h.setCollector (by rw [hat]; exact fun hd => by cases hd) (fun hd => by cases hd)
    have hworking : s.sender ≠ .done := by rw [hsender]; exact fun hd => by cases hd
    refine hset.withSender hworking (fun hd => by cases hd) ?_
    show s.accepted ++ [msg] = s.sent ++ [msg] ++ s.statCh.buffer
    rw [h.conserved, hsender, (h.working hworking).1, hempty]
    simp [SenderState.inHand]
  | offerDone hat hdone => exact h.setCollector (by rw [hat]; exact fun hd => by cases hd) (fun _ => hdone)
  | timer hat => exact h.setCollector (by rw [hat]; exact fun hd => by cases hd) (fun hd => by cases hd)
  | waitDone hat hdone => exact h.setCollector (by rw [hat]; exact fun hd => by cases hd) (fun _ => hdone)
  | @receive r hsender hpoll =>
    have hworking : s.sender ≠ .done := by rw [hsender]; exact fun hd => by cases hd
    refine h.withSender hworking (fun hd => by cases hd) ?_
    show s.accepted = s.sent ++ [r.1] ++ r.2.buffer
    rw [h.conserved, hsender, (h.working hworking).1, Channel.buffer_poll hpoll]
    simp [SenderState.inHand]
  | @sent msg hsender =>
    have hworking : s.sender ≠ .done := by rw [hsender]; exact fun hd => by cases hd
    refine h.withSender hworking (fun hd => by cases hd) ?_
    show s.accepted = s.sent ++ [msg] ++ [] ++ s.statCh.buffer
    rw [h.conserved, hsender, (h.working hworking).1]
    rfl
  | @sendFailed msg hsender =>
    have hend := h.endSender (by rw [hsender]; exact fun hd => by cases hd)
      (.inr (by rw [hsender]; exact List.cons_ne_nil _ _))
    rw [hsender] at hend
    exact hend
  | senderDone hsender hdone =>
    have hworking : s.sender ≠ .done := by rw [hsender]; exact fun hd => by cases hd
    rw [sendCtxDone, (h.working hworking).2.1, Bool.or_false] at hdone
    have hend := h.endSender hworking (.inl hdone)
    rw [hsender, SenderState.inHand, List.append_nil] at hend
    exact hend
  | stop =>
    exact ⟨h.conserved, h.cancelled, h.lost, fun _ => .inl rfl, fun _ _ => Bool.true_or _, h.returned⟩
  | returned hsender hcollectors hnot =>
    exact ⟨h.conserved, h.cancelled, h.lost, h.cause, h.given_up, fun _ => ⟨hsender, hcollectors⟩⟩

/-! ## The end -/

/-- A message that is put into `statCh` when nobody takes it out costs room. -/
def weight : CollectorState μ → Nat
  | .done => 0
  | .offering _ => 1
  | .collecting => 2
  | .waiting => 3

/-- A bound on the steps that are left once the sender has ended. -/
def rank (s : StatStream μ) : Nat :=
  3 * (s.statCh.capacity - s.statCh.buffer.length) +
    (weight (s.collectors .requestStat) + weight (s.collectors .urlReportStat)) + if s.returned then 0 else 1

private theorem rank_setCollector (s : StatStream μ) (c : Collector) (state : CollectorState μ) :
    (s.setCollector c state).rank + weight (s.collectors c) = s.rank + weight state := by
  have hsum : weight (Function.update s.collectors c state .requestStat) +
      weight (Function.update s.collectors c state .urlReportStat) + weight (s.collectors c) =
      weight (s.collectors .requestStat) + weight (s.collectors .urlReportStat) + weight state := by
    cases c with
    | requestStat =>
      rw [Function.update_self, Function.update_of_ne (fun h => by cases h)]
      omega
    | urlReportStat =>
      rw [Function.update_self, Function.update_of_ne (fun h => by cases h)]
      omega
  have hset : (s.setCollector c state).rank = 3 * (s.statCh.capacity - s.statCh.buffer.length) +
      (weight (Function.update s.collectors c state .requestStat) +
        weight (Function.update s.collectors c state .urlReportStat)) + if s.returned then 0 else 1 := rfl
  rw [hset, rank]
  omega

/-- Once the sender has ended, every step but the stop of the agent brings the end closer. -/
theorem Moves.rank_lt (hmoves : Moves s e t) (hsender : s.sender = .done) (he : e ≠ .stop) :
    t.sender = .done ∧ t.rank < s.rank := by
  cases hmoves with
  | @collected c msg hat =>
    have hrank := rank_setCollector s c (.offering msg)
    rw [hat, weight, weight] at hrank
    exact ⟨hsender, by omega⟩
  | @put c msg r hat hput =>
    have hrank := rank_setCollector s c .waiting
    rw [hat, weight, weight] at hrank
    have hroom := (s.statCh.hasRoom_iff).1 (Channel.hasRoom_of_offer hput)
    have hless : rank { s.setCollector c .waiting with statCh := r.2, accepted := s.accepted ++ [msg] } + 3 =
        (s.setCollector c .waiting).rank := by
      simp only [rank, StatStream.setCollector, Channel.buffer_offer hput, Channel.capacity_offer hput,
        List.length_append, List.length_singleton]
      omega
    exact ⟨hsender, by omega⟩
  | handOver hat hidle =>
    rw [hsender] at hidle
    cases hidle
  | @offerDone c msg hat hdone =>
    have hrank := rank_setCollector s c .done
    rw [hat, weight, weight] at hrank
    exact ⟨hsender, by omega⟩
  | @timer c hat =>
    have hrank := rank_setCollector s c .collecting
    rw [hat, weight, weight] at hrank
    exact ⟨hsender, by omega⟩
  | @waitDone c hat hdone =>
    have hrank := rank_setCollector s c .done
    rw [hat, weight, weight] at hrank
    exact ⟨hsender, by omega⟩
  | receive hidle =>
    rw [hsender] at hidle
    cases hidle
  | sent hsending =>
    rw [hsender] at hsending
    cases hsending
  | sendFailed hsending =>
    rw [hsender] at hsending
    cases hsending
  | senderDone hidle =>
    rw [hsender] at hidle
    cases hidle
  | stop => exact absurd rfl he
  | returned _ hcollectors hnot =>
    refine ⟨hsender, ?_⟩
    simp only [rank, hnot, if_true, if_false, Bool.false_eq_true]
    omega

private theorem rank_le (s : StatStream μ) : s.rank ≤ 3 * s.statCh.capacity + 7 := by
  have hweight (state : CollectorState μ) : weight state ≤ 3 := by
    cases state <;> simp [weight]
  have hrequest := hweight (s.collectors .requestStat)
  have hurl := hweight (s.collectors .urlReportStat)
  unfold rank
  split
  · omega
  · omega

theorem Ordered.enabled [Inhabited μ] (h : s.Ordered) (hnot : s.returned = false) : ∃ e t, e ≠ .stop ∧ s.step e = some t := by
  by_cases hall : ∀ c, s.collectors c = .done
  · -- the collectors have given up, so the sender may end or has ended
    have hdone : s.sendCtxDone = true := h.given_up .requestStat (hall .requestStat)
    cases hsender : s.sender with
    | idle => exact ⟨_, _, fun he => (by cases he), (Moves.senderDone hsender hdone).step_eq⟩
    | sending msg => exact ⟨_, _, fun he => (by cases he), (Moves.sent hsender).step_eq⟩
    | done => exact ⟨_, _, fun he => (by cases he), (Moves.returned hsender hall hnot).step_eq⟩
  · obtain ⟨c, hc⟩ := not_forall.1 hall
    cases hat : s.collectors c with
    | collecting => exact ⟨.collected c default, _, fun he => (by cases he), (Moves.collected hat).step_eq⟩
    | offering msg =>
      -- a collector waits only for room, and then the sender has something to do or has ended
      cases hput : s.statCh.offer msg with
      | some r => exact ⟨_, _, fun he => (by cases he), (Moves.put hat hput).step_eq⟩
      | none =>
        cases hsender : s.sender with
        | idle =>
          cases hpoll : s.statCh.poll with
          | none =>
            have hempty := (s.statCh.poll_eq_none_iff.1 hpoll).1
            exact ⟨_, _, fun he => (by cases he), (Moves.handOver hat hsender hempty).step_eq⟩
          | some r => exact ⟨_, _, fun he => (by cases he), (Moves.receive hsender hpoll).step_eq⟩
        | sending msg => exact ⟨_, _, fun he => (by cases he), (Moves.sent hsender).step_eq⟩
        | done =>
          have hdone : s.sendCtxDone = true := by rw [sendCtxDone, h.cancelled.2 hsender, Bool.or_true]
          exact ⟨_, _, fun he => (by cases he), (Moves.offerDone hat hdone).step_eq⟩
    | waiting => exact ⟨_, _, fun he => (by cases he), (Moves.timer hat).step_eq⟩
    | done => exact absurd hat hc

private theorem Ordered.run (h : s.Ordered) {events : List (Event μ)} (hrun : exec step s events = some t) : t.Ordered :=
  exec_invariant (P := Ordered) (fun _ _ _ hs hstep => (moves_of_step hstep).ordered hs) h hrun

private theorem capacity_run {events : List (Event μ)} (hrun : exec step s events = some t) :
    t.statCh.capacity = s.statCh.capacity := by
  refine exec_invariant (P := fun u => u.statCh.capacity = s.statCh.capacity) (fun u e v hu hstep => ?_) rfl hrun
  cases moves_of_step hstep with
  | put hat hput => exact (Channel.capacity_offer hput).trans hu
  | receive hsender hpoll => exact (Channel.contents_poll hpoll).2.2.2.trans hu
  | _ => exact hu

/-- In every state that `sendStat` reaches: the messages that were sent are the first of those put into `statCh`, and all
of these are sent, lost in a failed send, in the hand of the sender or in `statCh`; some goroutine can go on until
`sendStat` has returned; it returns only when all goroutines have ended, which takes the stop of the agent or a failed
send; and once the sender has ended, it returns after `3 * capacity + 7` steps at the latest, whatever the goroutines
choose to do. -/
theorem send_stat_returns [Inhabited μ] (capacity : Nat) {events : List (Event μ)}
    (hrun : exec step (start capacity) events = some s) :
    s.accepted = s.sent ++ s.sender.inHand ++ s.lost ++ s.statCh.buffer ∧
    (s.returned = false → ∃ e t, e ≠ .stop ∧ s.step e = some t) ∧
    (s.returned = true → s.sender = .done ∧ (∀ c, s.collectors c = .done) ∧ (s.stopped = true ∨ s.lost ≠ [])) ∧
    (s.sender = .done → ∀ later t, exec step s later = some t → .stop ∉ later →
      later.length ≤ 3 * capacity + 7) := by
  have hordered : s.Ordered := (ordered_start capacity).run hrun
  refine ⟨hordered.conserved, hordered.enabled, fun hreturned => ?_, fun hsender later t hlater hnot => ?_⟩
  · obtain ⟨hsender, hcollectors⟩ := hordered.returned hreturned
    exact ⟨hsender, hcollectors, hordered.cause hsender⟩
  · have hcount : later.countP (fun _ => true) + t.rank ≤ s.rank := by
      refine countP_le_rank (P := fun u => u.sender = .done) (fun e => e ≠ .stop) rank
        (fun u e v hu he hstep => ?_) hsender (fun e he heq => hnot (heq ▸ he)) hlater
      exact (moves_of_step hstep).rank_lt hu he
    rw [List.countP_true] at hcount
    have hbound := s.rank_le
    rw [show s.statCh.capacity = capacity from capacity_run hrun] at hbound
    omega

/-- A send fails while both collectors have a message; one of them still finds room. -/
theorem send_stat_returns_failed :
    let events : List (Event Nat) :=
      [.collected .requestStat 1, .put .requestStat, .receive, .collected .urlReportStat 2, .sendFailed,
        .put .urlReportStat, .waitDone .requestStat, .waitDone .urlReportStat, .returned]
    ∃ s, exec step (start 1) events = some s ∧ s.returned = true ∧ s.lost ≠ [] := by
  intro events
  have hsome : (exec step (start 1) events).map (fun s => (s.returned, s.stopped)) = some (true, false) := by
    decide +kernel
  obtain ⟨s, hrun, hs⟩ := Option.map_eq_some_iff.1 hsome
  obtain ⟨hreturned, hstopped⟩ : s.returned = true ∧ s.stopped = false := by
    simpa only [Prod.mk.injEq] using hs
  obtain ⟨-, -, hcause⟩ := (send_stat_returns 1 hrun).2.2.1 hreturned
  exact ⟨s, hrun, hreturned, hcause.resolve_left (by rw [hstopped]; exact Bool.false_ne_true)⟩

end StatStream

end PinpointAgent.Router
