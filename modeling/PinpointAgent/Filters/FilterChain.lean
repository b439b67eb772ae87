import PinpointAgent.Filters.SpanQueue
import PinpointAgent.Filters.UrlTemplate

/-!
# The filters of an agent

`handleTSpanFromBuf` takes the spans of an agent one after the other and runs each through the
filters: it is counted (`RequestCounter`), added to the statistics of its URL template
(`UrlTemplateReport`), searched for exceptions (`ErrorAnalysisFilter`) and handed to the sender
(`SpanSender`). A panic in a filter is recovered from: the filters behind it do not see the span,
and what was written before stays.

Any pointer in a decoded span may be `nil`, an event of the list too. All filters but one check for
that; the search for exceptions reads the exception of every event of a span that is marked with an
error.
-/

namespace PinpointAgent.Filters

open Framework Metadata

/-! ## The search for exceptions -/

structure PException where
  exceptionClassName : String
  exceptionMessage : String
  startTime : Int
  exceptionId : Int
  exceptionDepth : Int
deriving DecidableEq

structure PExceptionMetaData where
  transactionId : Option PTransactionId
  spanId : Int
  uriTemplate : String
  exceptions : List PException
deriving DecidableEq

/-- `id` is an `int64`; `sending` has the metadata that goroutines were started with. -/
structure ErrorAnalysisFilter where
  id : Int := 0
  sending : List PExceptionMetaData := []

namespace ErrorAnalysisFilter

def getNewExceptionId : EStateM Panic ErrorAnalysisFilter Int := fun e =>
  let id := toSigned 64 (e.id + 1)
  .ok id { e with id }

/-- An event with the message of the span's exception gets its number. -/
def exceptionIdFor (parentErrorId : Int) (parentExp : Option TExceptionInfo) (message : String) :
    EStateM Panic ErrorAnalysisFilter Int :=
  if parentExp.any (·.message = message) then pure parentErrorId else getNewExceptionId

/-- `nil` among the events makes the access to its exception panic. -/
def parseException (parentErrorId depth : Int) (parentExp : Option TExceptionInfo) (startTime : Int) :
    List (Option TSpanEvent) → EStateM Panic ErrorAnalysisFilter (List PException)
  | [] => return []
  | none :: _ => throw .nilPointer
  | some ev :: follows =>
    match ev.exceptionInfoV2 with
    | none => parseException parentErrorId depth parentExp startTime follows
    | some info => do
      let exceptionId ← exceptionIdFor parentErrorId parentExp info.message
      let exceptions ← parseException parentErrorId depth parentExp startTime follows
      return {
        exceptionClassName := info.className, exceptionMessage := info.message
        startTime := toSigned 64 (info.startTime + startTime)
        exceptionId, exceptionDepth := depth + 1 } :: exceptions

def spanExceptions (span : TSpan) : EStateM Panic ErrorAnalysisFilter (List PException) :=
  match span.exceptionInfoV2 with
  | some info => do
    let exceptionId ← getNewExceptionId
    let exceptions ← parseException exceptionId 0 (some info) span.getStartTime span.follows
    return {
      exceptionClassName := info.className, exceptionMessage := info.message
      startTime := toSigned 64 (info.startTime + span.getStartTime)
      exceptionId, exceptionDepth := 0 } :: exceptions
  | none => parseException 0 0 none span.getStartTime span.follows

def scanTSpanTree (span : TSpan) : EStateM Panic ErrorAnalysisFilter PExceptionMetaData := do
  let exceptions ← spanExceptions span
  return {
    transactionId := typeV1StringTransactionId span.transactionId
    spanId := span.spanId, uriTemplate := span.ut, exceptions }

def interceptor (span : TSpan) : EStateM Panic ErrorAnalysisFilter Bool :=
  if span.errorMarked = 1 then do
    let metaData ← scanTSpanTree span
    modify fun e => { e with sending := e.sending ++ [metaData] }
    return true
  else return true

end ErrorAnalysisFilter

/-! ## The chain -/

structure Filtering (ι : Type) where
  reqCounter : Router.RequestCounter
  utReport : UrlTemplateReport
  errorAnalysis : ErrorAnalysisFilter
  spanSender : SpanSender ι

inductive Filter where
  | requestCounter
  | urlTemplateReport
  | errorAnalysis
  | spanSender
deriving DecidableEq

def registerFilter : List Filter := [.requestCounter, .urlTemplateReport, .errorAnalysis, .spanSender]

/-- What surrounds the handling of a span: the clock, the lookups of the sender and the choice of its
`select`. -/
structure Moment where
  now : Int
  lookups : Nat → Int32 × Outcome
  pick : Nat

structure Setup where
  hash : String → List UInt8
  statIntervalSec : Int
  agentChannelSize : Nat
  spanStreamParallelismSize : Nat

section Chain

variable {ι : Type} [DecidableEq ι]

abbrev FilterM (ι : Type) := EStateM Panic (Filtering ι)

def onField {σ α : Type} (get : Filtering ι → σ) (set : Filtering ι → σ → Filtering ι)
    (c : EStateM Panic σ α) : FilterM ι α := fun f =>
  match c (get f) with
  | .ok a s => .ok a (set f s)
  | .error e s => .error e (set f s)

def Filter.interceptor (setup : Setup) (moment : Moment) (span : TSpan) : Filter → FilterM ι Bool
  | .requestCounter => fun f =>
    .ok true { f with
      reqCounter := f.reqCounter.interceptor setup.statIntervalSec moment.now span.toTSpan }
  | .urlTemplateReport => fun f => .ok true { f with utReport := f.utReport.interceptor span }
  | .errorAnalysis =>
    onField Filtering.errorAnalysis (fun f errorAnalysis => { f with errorAnalysis })
      (ErrorAnalysisFilter.interceptor span)
  | .spanSender =>
    onField Filtering.spanSender (fun f spanSender => { f with spanSender })
      (SpanSender.interceptor setup.hash moment.lookups moment.pick span)

def runFilters (setup : Setup) (moment : Moment) (span : TSpan) : List Filter → FilterM ι Unit
  | [] => return ()
  | filter :: filters => do
    if ← filter.interceptor setup moment span then runFilters setup moment span filters
    else return ()

/-- One round of `handleTSpanFromBuf`, with its `recover`. -/
def handleTSpan (setup : Setup) (moment : Moment) (span : TSpan) (f : Filtering ι) : Filtering ι :=
  finalState (runFilters setup moment span registerFilter) f

def Filtering.create (setup : Setup) (now : Int) : Filtering ι where
  reqCounter := .create now
  utReport := .create
  errorAnalysis := {}
  spanSender := .create setup.agentChannelSize setup.spanStreamParallelismSize

/-- The filters of an agent and what else goes on: the goroutines of the sender, and the reports of the
URL statistics. -/
inductive Filtering.Event (ι : Type) where
  | handleTSpan (moment : Moment) (span : TSpan)
  | goroutine (e : SpanSender.Event ι)
  | moveUtReport (order : List (String × Nat)) (clock : String → Int)

def Filtering.step (setup : Setup) (f : Filtering ι) : Filtering.Event ι → Option (Filtering ι)
  | .handleTSpan moment span => some (handleTSpan setup moment span f)
  | .goroutine e =>
    if e.span? = none then
      (f.spanSender.step setup.hash e).map fun spanSender => { f with spanSender }
    else none
  | .moveUtReport order clock =>
    if order.Perm f.utReport.uriMap then
      some { f with utReport := (f.utReport.moveUtReport order clock).2 }
    else none

end Chain

/-! ## Where the search panics -/

/-- The computation panics on a `nil` pointer, if `fails` holds, and returns otherwise. -/
def FailsIff {σ α : Type} (c : EStateM Panic σ α) (fails : Prop) : Prop :=
  ∀ s, match c s with
    | .ok _ _ => ¬fails
    | .error failed _ => fails ∧ failed = .nilPointer

namespace FailsIff

variable {σ α β : Type} {c : EStateM Panic σ α} {k : α → EStateM Panic σ β} {fails : Prop}

private theorem pure (a : α) : FailsIff (pure a : EStateM Panic σ α) False := fun _ h => h

private theorem bind_right (hc : FailsIff c False) (hk : ∀ a, FailsIff (k a) fails) : FailsIff (c >>= k) fails := by
  intro s
  have hfirst := hc s
  cases hrun : c s with
  | ok a s' =>
    rw [bind_of_ok k hrun]
    exact hk a s'
  | error failed s' =>
    rw [hrun] at hfirst
    exact hfirst.1.elim

private theorem bind_left (hc : FailsIff c fails) (hk : ∀ a, FailsIff (k a) False) : FailsIff (c >>= k) fails := by
  intro s
  have hfirst := hc s
  cases hrun : c s with
  | ok a s' =>
    rw [hrun] at hfirst
    rw [bind_of_ok k hrun]
    have hsecond := hk a s'
    cases hrest : k a s' with
    | ok b s'' => exact hfirst
    | error failed s'' =>
      rw [hrest] at hsecond
      exact hsecond.1.elim
  | error failed s' =>
    rw [hrun] at hfirst
    rw [bind_of_error k hrun]
    exact hfirst

end FailsIff

namespace ErrorAnalysisFilter

private theorem getNewExceptionId_failsIff : FailsIff getNewExceptionId False := fun _ h => h

private theorem exceptionIdFor_failsIff (parentErrorId : Int) (parentExp : Option TExceptionInfo) (message : String) :
    FailsIff (exceptionIdFor parentErrorId parentExp message) False := by
  unfold exceptionIdFor
  split
  · exact .pure _
  · exact getNewExceptionId_failsIff

private theorem parseException_failsIff (parentErrorId depth : Int) (parentExp : Option TExceptionInfo)
    (startTime : Int) (follows : List (Option TSpanEvent)) :
    FailsIff (parseException parentErrorId depth parentExp startTime follows) (none ∈ follows) := by
  induction follows with
  | nil => exact fun _ => List.not_mem_nil
  | cons ev follows ih =>
    cases ev with
    | none => exact fun _ => ⟨List.mem_cons_self, rfl⟩
    | some ev =>
      have hmem : none ∈ some ev :: follows ↔ none ∈ follows := by simp
      rw [hmem, parseException]
      split
      · exact ih
      · refine (exceptionIdFor_failsIff _ _ _).bind_right fun exceptionId => ?_
        exact ih.bind_left fun exceptions => .pure _

private theorem scanTSpanTree_failsIff (span : TSpan) : FailsIff (scanTSpanTree span) (none ∈ span.follows) := by
  refine FailsIff.bind_left (c := spanExceptions span) ?_ fun exceptions => .pure _
  unfold spanExceptions
  split
  · refine getNewExceptionId_failsIff.bind_right fun exceptionId => ?_
    exact (parseException_failsIff _ _ _ _ _).bind_left fun exceptions => .pure _
  · exact parseException_failsIff _ _ _ _ _

private theorem interceptor_failsIff (span : TSpan) :
    FailsIff (interceptor span) (span.errorMarked = 1 ∧ none ∈ span.follows) := by
  unfold interceptor
  by_cases hmarked : span.errorMarked = 1
  · have hmem : (span.errorMarked = 1 ∧ none ∈ span.follows) ↔ none ∈ span.follows := by simp [hmarked]
    rw [if_pos hmarked, hmem]
    refine (scanTSpanTree_failsIff span).bind_left fun metaData => ?_
    exact fun _ h => h
  · rw [if_neg hmarked]
    exact fun _ h => hmarked h.1

theorem interceptor_true {span : TSpan} {e e' : ErrorAnalysisFilter} {passed : Bool}
    (h : interceptor span e = .ok passed e') : passed = true := by
  unfold interceptor at h
  split at h
  · obtain ⟨metaData, e₁, -, hrest⟩ := bind_eq_ok h
    cases hrest
    rfl
  · cases h
    rfl

end ErrorAnalysisFilter

/-! ## Whole rounds -/

section Rounds

variable {ι : Type} [DecidableEq ι] {setup : Setup} {moment : Moment} {span : TSpan} {f f' : Filtering ι}

private theorem runFilters_of_true {filter : Filter} (filters : List Filter)
    (h : filter.interceptor setup moment span f = .ok true f') :
    runFilters setup moment span (filter :: filters) f = runFilters setup moment span filters f' := by
  rw [runFilters, bind_of_ok _ h]
  rfl

private theorem runFilters_of_error {filter : Filter} (filters : List Filter) {failed : Panic}
    (h : filter.interceptor setup moment span f = .error failed f') :
    runFilters setup moment span (filter :: filters) f = .error failed f' := by
  rw [runFilters, bind_of_error _ h]

def Offered (setup : Setup) (moment : Moment) (span : TSpan) (s s' : SpanSender ι) : Prop :=
  ∃ message lookups, makeSpanOrSpanChunk setup.hash moment.lookups span s.lookups = .ok message lookups ∧
    MessageOf span message lookups.ids.idMap ∧
    s'.offers = s.offers ++ [⟨span, message, s.selected moment.pick⟩] ∧ s'.lookups.Typed

private theorem runFilters_spanSender (htyped : f.spanSender.lookups.Typed) :
    ∃ f', runFilters setup moment span [.spanSender] f = .ok () f' ∧
      Offered setup moment span f.spanSender f'.spanSender := by
  obtain ⟨message, lookups, hmake, hnew, -, hmessage⟩ :=
    makeSpanOrSpanChunk_builds setup.hash moment.lookups span f.spanSender.lookups htyped
  obtain ⟨s', hrun, hkept, hoffers, -⟩ := SpanSender.interceptor_of_ok hmake moment.pick
  have hlast : Filter.interceptor setup moment span .spanSender f =
      .ok true { f with spanSender := s' } := by
    simp only [Filter.interceptor, onField, hrun]
  exact ⟨_, (runFilters_of_true [] hlast).trans rfl, message, lookups, hmake, hmessage, hoffers, hkept hnew⟩

/-- The filters after the first two, which always pass a span on. -/
def Filtering.counted (f : Filtering ι) (setup : Setup) (moment : Moment) (span : TSpan) : Filtering ι :=
  { f with
    reqCounter := f.reqCounter.interceptor setup.statIntervalSec moment.now span.toTSpan
    utReport := f.utReport.interceptor span }

theorem runFilters_eq_counted (setup : Setup) (moment : Moment) (span : TSpan) (f : Filtering ι) :
    runFilters setup moment span registerFilter f =
      runFilters setup moment span [.errorAnalysis, .spanSender] (f.counted setup moment span) := rfl

/-- A span goes through all filters, or is lost to the panic of the search for exceptions, with the
sender as it was. -/
theorem runFilters_registerFilter (setup : Setup) (moment : Moment) (span : TSpan)
    (htyped : f.spanSender.lookups.Typed) :
    (¬(span.errorMarked = 1 ∧ none ∈ span.follows) ∧
      ∃ f', runFilters setup moment span registerFilter f = .ok () f' ∧
        Offered setup moment span f.spanSender f'.spanSender) ∨
    ((span.errorMarked = 1 ∧ none ∈ span.follows) ∧
      ∃ f', runFilters setup moment span registerFilter f = .error .nilPointer f' ∧
        f'.spanSender = f.spanSender) := by
  let f₂ := f.counted setup moment span
  have hsame : f₂.errorAnalysis = f.errorAnalysis := rfl
  have hsearch := ErrorAnalysisFilter.interceptor_failsIff span f.errorAnalysis
  cases hrun : ErrorAnalysisFilter.interceptor span f.errorAnalysis with
  | ok passed e =>
    rw [hrun] at hsearch
    obtain rfl := ErrorAnalysisFilter.interceptor_true hrun
    have hthird : Filter.interceptor setup moment span .errorAnalysis f₂ =
        .ok true { f₂ with errorAnalysis := e } := by
      simp only [Filter.interceptor, onField, hsame, hrun]
    obtain ⟨f', hlast, hoffered⟩ : ∃ f', runFilters setup moment span [.spanSender]
        { f₂ with errorAnalysis := e } = .ok () f' ∧
          Offered setup moment span f.spanSender f'.spanSender := runFilters_spanSender htyped
    refine .inl ⟨hsearch, f', ?_, hoffered⟩
    rw [runFilters_eq_counted, runFilters_of_true _ hthird, hlast]
  | error failed e =>
    rw [hrun] at hsearch
    obtain ⟨hfails, rfl⟩ := hsearch
    have hthird : Filter.interceptor setup moment span .errorAnalysis f₂ =
        .error .nilPointer { f₂ with errorAnalysis := e } := by
      simp only [Filter.interceptor, onField, hsame, hrun]
    refine .inr ⟨hfails, { f₂ with errorAnalysis := e }, ?_, rfl⟩
    rw [runFilters_eq_counted, runFilters_of_error _ hthird]

private theorem typed_step {e : Filtering.Event ι} (htyped : f.spanSender.lookups.Typed)
    (h : Filtering.step setup f e = some f') : f'.spanSender.lookups.Typed := by
  cases e with
  | handleTSpan moment span =>
    obtain rfl := Option.some.inj h
    rcases runFilters_registerFilter setup moment span htyped with
      ⟨-, f₁, hrun, _, _, -, -, -, hkept⟩ | ⟨-, f₁, hrun, hsame⟩
    · rw [handleTSpan, finalState_of_ok hrun]
      exact hkept
    · rw [handleTSpan, finalState_of_error hrun, hsame]
      exact htyped
  | goroutine e =>
    simp only [Filtering.step] at h
    split at h
    · obtain ⟨s', hstep, rfl⟩ := Option.map_eq_some_iff.mp h
      exact SpanSender.typed_step htyped hstep
    · cases h
  | moveUtReport order clock =>
    simp only [Filtering.step] at h
    split at h
    · obtain rfl := Option.some.inj h
      exact htyped
    · cases h

/-- Whatever the agent has handled so far, a span goes through all filters and is offered to the queue of
the sender with exactly its events if and only if it is not marked with an error or none of its
events is `nil`. -/
theorem filter_chain_completes_iff (setup : Setup) (now : Int) {events : List (Filtering.Event ι)}
    (hrun : exec (Filtering.step setup) (Filtering.create setup now) events = some f)
    (moment : Moment) (span : TSpan) :
    (∃ f', runFilters setup moment span registerFilter f = .ok () f' ∧
      Offered setup moment span f.spanSender f'.spanSender) ↔
      (span.errorMarked = 1 → none ∉ span.follows) := by
  have htyped : f.spanSender.lookups.Typed :=
    exec_invariant (P := fun f : Filtering ι => f.spanSender.lookups.Typed)
      (fun _ _ _ h hstep => typed_step h hstep) IdLookups.typed_new hrun
  rcases runFilters_registerFilter setup moment span htyped with
    ⟨hfine, hdone⟩ | ⟨⟨hmarked, hnil⟩, f₁, hpanic, -⟩
  · exact ⟨fun _ hmarked hnil => hfine ⟨hmarked, hnil⟩, fun _ => hdone⟩
  · refine ⟨?_, fun h => absurd hnil (h hmarked)⟩
    rintro ⟨f', hok, -⟩
    rw [hpanic] at hok
    cases hok

end Rounds

def unmarkedSpan : TSpan :=
  { appId := "app", appName := "name", appServerType := 1500, follows := [some { name := "f" }, none] }

def markedSpan : TSpan := { unmarkedSpan with errorMarked := 1 }

def plainSetup : Setup := ⟨fun _ => [], 60, 1000, 2⟩

def plainMoment : Moment := ⟨0, fun _ => (1, .succeeded), 0⟩

theorem filter_chain_completes_iff_unmarked :
    ∃ f', runFilters plainSetup plainMoment unmarkedSpan registerFilter
        (Filtering.create plainSetup 0 : Filtering Unit) = .ok () f' ∧
      Offered plainSetup plainMoment unmarkedSpan (Filtering.create plainSetup 0).spanSender f'.spanSender := by
  have hrun : exec (Filtering.step plainSetup) (Filtering.create plainSetup 0 : Filtering Unit) [] =
      some (Filtering.create plainSetup 0) := rfl
  exact (filter_chain_completes_iff plainSetup 0 hrun plainMoment unmarkedSpan).mpr (by decide)

/-- The packet of the marked span is accepted, the search for exceptions panics on it, and the sender
never sees it. -/
theorem marked_span_is_lost :
    (Router.getAgentInfo 0 markedSpan.toTSpan).isOk = true ∧
      ∃ f', runFilters plainSetup plainMoment markedSpan registerFilter
          (Filtering.create plainSetup 0 : Filtering Unit) = .error .nilPointer f' ∧
        f'.spanSender.offers = [] ∧ f'.spanSender.received = [] :=
  ⟨by decide +kernel, _, rfl, rfl, rfl⟩

end PinpointAgent.Filters
