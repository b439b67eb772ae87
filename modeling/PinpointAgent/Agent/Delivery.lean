import PinpointAgent.Agent.HelloMsg
import PinpointAgent.Agent.Release

/-!
# Handing a span over

`TrySendSpan` takes a connection out of the pool, queues the span on it, serves its events and
gives it back. The collector's hello message is read while the events are served, so an exception
of `HandleHelloMsg` leaves `TrySendSpan` before the connection is given back, and then `EndTrace`
before the trace is freed. So does the exception of `connect_remote` for the address `tcp:`.

`Process` is the agent with its connections. The reader and the writer of jsoncpp are parameters,
as is the collector's address; no handler for raw spans is registered.
-/

namespace PinpointAgent.Agent

open Framework Cache ConnectionPool NodePool

abbrev SpanLayer := EventLayer HelloError ProcessState

structure SpanConnectionPool where
  conCounter : Nat
  pool : List SpanLayer

namespace SpanConnectionPool

def createConnection (s : ProcessState) (c : SpanConnectionPool) : SpanLayer × SpanConnectionPool :=
  (EventLayer.new freshLayer s, { c with conCounter := c.conCounter + 1 })

def new (s : ProcessState) : SpanConnectionPool := ⟨1, [EventLayer.new freshLayer s]⟩

def withState (s : ProcessState) (e : SpanLayer) : SpanLayer :=
  { e with receiver := { e.receiver with st := (none, s) } }

def get (s : ProcessState) (c : SpanConnectionPool) : SpanLayer × SpanConnectionPool :=
  match c.pool with
  | [] => c.createConnection s
  | e :: rest => (withState s e, { c with pool := rest })

def free (e : SpanLayer) (c : SpanConnectionPool) : SpanConnectionPool :=
  { c with pool := e :: c.pool }

end SpanConnectionPool

structure Setup where
  coHost : String
  spanTimeout : Int
  parseFromStream : List UInt8 → Except HelloError HelloValue
  write : Members → List UInt8

structure SendIo where
  headerMalloc : Bool
  bodyMalloc : Bool
  once : PollIo
  turns : Nat → PollIo

/-- The address is not a `tcp:` with nothing behind it, for which `connect_remote` throws. -/
def Setup.NamesRemote (cfg : Setup) : Prop := dialFor cfg.coHost.toList ≠ some (.stream [])

def Setup.routes (cfg : Setup) : Int → Option (ThrowingHandler HelloError ProcessState) :=
  helloRoutes cfg.parseFromStream

def serveSpan (cfg : Setup) (net : SendIo) (e : SpanLayer) :
    Option (Except (EventError HelloError) Unit × SpanLayer) :=
  if 0 < cfg.spanTimeout then e.syncSendAll cfg.coHost cfg.routes net.turns
  else if cfg.spanTimeout < 0 then some (.ok (), e)
  else
    match e.poolEventOnce cfg.coHost cfg.routes net.once with
    | none => none
    | some (.error x, e) => some (.error x, e)
    | some (.ok _, e) => some (.ok (), e)

def queueSpan (cfg : Setup) (net : SendIo) (span : Members) (e : SpanLayer) : Option SpanLayer :=
  (e.layer.copySpan net.headerMalloc net.bodyMalloc (cfg.write span)).map fun r =>
    { e with layer := r.2 }

/-- `TrySendSpan`. An exception destroys the connection on its way out. -/
def sendSpan (cfg : Setup) (net : SendIo) (span : Members) (s : ProcessState)
    (c : SpanConnectionPool) :
    Option (Except (EventError HelloError) Unit × ProcessState × SpanConnectionPool) :=
  match queueSpan cfg net span (c.get s).1 with
  | none => none
  | some e =>
      match serveSpan cfg net e with
      | none => none
      | some (.error x, e) => some (.error x, e.receiver.st.2, (c.get s).2)
      | some (.ok (), e) => some (.ok (), e.receiver.st.2, (c.get s).2.free e)

structure Process where
  world : World
  state : ProcessState
  connections : SpanConnectionPool

namespace Process

def new (agentType traceLimit : Int) (clock : Nat → Nat) (unixTimeMs : Nat) : Process :=
  ⟨World.new agentType clock, .new traceLimit unixTimeMs, .new (.new traceLimit unixTimeMs)⟩

def handedSpan (p : Process) (id : Int) : Option Members :=
  ((finalState (Agent.endTrace id false) p.world.agent).spans.drop p.world.agent.spans.length).head?

def deliver (cfg : Setup) (net : SendIo) (p : Process) (id : Int) :
    Option (Bool × ProcessState × SpanConnectionPool) :=
  match p.handedSpan id with
  | none => some (false, p.state, p.connections)
  | some span =>
      match sendSpan cfg net span p.state p.connections with
      | none => none
      | some (.error _, s, c) => some (true, s, c)
      | some (.ok (), s, c) => some (false, s, c)

def endTrace (cfg : Setup) (net : SendIo) (p : Process) (id : Int) : Option (Int × Process) :=
  match p.deliver cfg net id with
  | none => none
  | some (raises, s, c) =>
      some ((pinpointEndTrace p.world.agent id raises).1, ⟨p.world.step (.endTrace id raises), s, c⟩)

end Process

inductive ProcessCall where
  /-- a call that sends nothing -/
  | api (call : ApiCall)
  | endTrace (id : Int) (net : SendIo)

namespace Process

def call (cfg : Setup) (p : Process) : ProcessCall → Option Process
  | .api (.endTrace _ _) => none
  | .api c => some { p with world := p.world.step c }
  | .endTrace id net => (p.endTrace cfg net id).map Prod.snd

end Process

/-! ## What the collector may send -/

def helloBodies (stream : List UInt8) : List (List UInt8) :=
  ((parseFrames (inMsgBufSize - headerSize) stream).state.filter
    fun f => toSigned 32 f.type = 0).map Frame.body

/-- No `recv` returns more than it was asked for, and the hello messages that the buffer and the
results make up are ones that `HandleHelloMsg` answers. -/
structure Polite (cfg : Setup) (e : SpanLayer) (io : PollIo) : Prop where
  legal : Legal (noteExceptions cfg.routes) e.receiver io.recv
  harmless : ∀ body ∈ helloBodies (slice e.receiver.inBuf 0 e.receiver.inBufSize ++
    streamOf io.recv), HarmlessBody cfg.parseFromStream e.receiver.st.2 body

def PoliteServe (cfg : Setup) (net : SendIo) (e : SpanLayer) : Prop :=
  if 0 < cfg.spanTimeout then
    EventLayer.SyncAlong cfg.coHost cfg.routes (Polite cfg) net.turns EventLayer.maxRetryItems e
  else if cfg.spanTimeout < 0 then True
  else Polite cfg e net.once

def PoliteSend (cfg : Setup) (net : SendIo) (p : Process) (id : Int) : Prop :=
  ∀ span ∈ p.handedSpan id, ∀ e ∈ queueSpan cfg net span (p.connections.get p.state).1,
    PoliteServe cfg net e

def PoliteCall (cfg : Setup) (p : Process) : ProcessCall → Prop
  | .api _ => True
  | .endTrace id net => PoliteSend cfg net p id

section Quiet

variable {cfg : Setup} {e : SpanLayer} {io : PollIo} {net : SendIo}

private theorem noteException_state (st : Option HelloError × ProcessState) (type : Int)
    (body : List UInt8) :
    (noteException (fun s _ body => handleHelloMsg cfg.parseFromStream s body) st type body).2 =
      match handleHelloMsg cfg.parseFromStream st.2 body with
      | (.ok _, s) => (none, s)
      | (.error x, s) => (some x, s) := by
  unfold noteException
  dsimp only
  generalize handleHelloMsg cfg.parseFromStream st.2 body = r
  obtain ⟨x | ret, s⟩ := r
  · rfl
  · rfl

private theorem dispatch_hello (st : Option HelloError × ProcessState) {f : Frame}
    (htype : toSigned 32 f.type = 0) :
    (dispatch (noteExceptions cfg.routes) st f).2 =
      match handleHelloMsg cfg.parseFromStream st.2 f.body with
      | (.ok _, s) => (none, s)
      | (.error x, s) => (some x, s) := by
  have hroute : noteExceptions cfg.routes (toSigned 32 f.type) =
      some (noteException fun s _ body => handleHelloMsg cfg.parseFromStream s body) := by
    rw [noteExceptions, Setup.routes, helloRoutes, if_pos htype, Option.map_some]
  rw [← noteException_state st (toSigned 32 f.type), dispatch, hroute]

private theorem dispatch_other (st : Option HelloError × ProcessState) {f : Frame}
    (htype : toSigned 32 f.type ≠ 0) : (dispatch (noteExceptions cfg.routes) st f).2 = st := by
  have hroute : noteExceptions cfg.routes (toSigned 32 f.type) = none := by
    rw [noteExceptions, Setup.routes, helloRoutes, if_neg htype, Option.map_none]
  rw [dispatch, hroute]

private theorem ready_handleHelloMsg {s : ProcessState} (h : s.ready = true) (body : List UInt8) :
    handleHelloMsg cfg.parseFromStream s body = (.ok 0, s) := by
  rw [handleHelloMsg, if_pos h]

private theorem dispatch_harmless {s₀ : ProcessState} {st : Option HelloError × ProcessState} {f : Frame}
    (hst : st.1 = none ∧ (s₀.ready = true → st.2.ready = true))
    (hbody : toSigned 32 f.type = 0 → HarmlessBody cfg.parseFromStream s₀ f.body) :
    (dispatch (noteExceptions cfg.routes) st f).2.1 = none ∧
      (s₀.ready = true → (dispatch (noteExceptions cfg.routes) st f).2.2.ready = true) := by
  by_cases htype : toSigned 32 f.type = 0
  · rw [dispatch_hello st htype]
    by_cases hready : st.2.ready = true
    · rw [ready_handleHelloMsg hready]
      exact ⟨rfl, fun _ => hready⟩
    · have hnot : s₀.ready ≠ true := fun h => hready (hst.2 h)
      obtain ⟨ret, hret⟩ := (handleHelloMsg_isOk_iff st.2 f.body).2
        (.inr ((hbody htype).resolve_left hnot))
      generalize handleHelloMsg cfg.parseFromStream st.2 f.body = r at hret
      obtain ⟨x | ret', s⟩ := r
      · cases hret
      · exact ⟨rfl, fun h => absurd h hnot⟩
  · rw [dispatch_other st htype]
    exact hst

structure Calm (r : Receiver (Option HelloError × ProcessState)) : Prop where
  tidy : r.Tidy
  clear : r.st.1 = none

private theorem Calm.reset {r : Receiver (Option HelloError × ProcessState)} (h : Calm r) :
    Calm { r with inBufSize := 0 } :=
  ⟨Receiver.tidy_reset h.tidy.buf_length, h.clear⟩

private theorem reads_of_polite (hcalm : Calm e.receiver) (h : Polite cfg e io) :
    e.Reads cfg.routes io.recv (fun _ => False) Calm := by
  have hframe : ∀ f ∈ (parseFrames (inMsgBufSize - headerSize)
      (slice e.receiver.inBuf 0 e.receiver.inBufSize ++ streamOf io.recv)).state,
      ∀ st : Option HelloError × ProcessState,
        (st.1 = none ∧ (e.receiver.st.2.ready = true → st.2.ready = true)) →
        ((dispatch (noteExceptions cfg.routes) st f).2.1 = none ∧
          (e.receiver.st.2.ready = true →
            (dispatch (noteExceptions cfg.routes) st f).2.2.ready = true)) := by
    intro f hf st hst
    refine dispatch_harmless hst fun htype => h.harmless f.body ?_
    exact List.mem_map.2 ⟨f, List.mem_filter.2 ⟨hf, decide_eq_true htype⟩, rfl⟩
  obtain ⟨⟨hclear, -⟩, htidy⟩ := recvByteStream_invariant
    (P := fun st : Option HelloError × ProcessState =>
      st.1 = none ∧ (e.receiver.st.2.ready = true → st.2.ready = true))
    hcalm.tidy h.legal ⟨hcalm.clear, id⟩ hframe
  have hlength := recvByteStream_length hcalm.tidy.buf_length h.legal
  have hcall : e.recvByteStream cfg.routes io.recv =
      (.ok ((ConnectionPool.recvByteStream (noteExceptions cfg.routes) e.receiver
          io.recv).1.elim 0 RecvExit.ret),
        { e with receiver := (ConnectionPool.recvByteStream (noteExceptions cfg.routes) e.receiver
          io.recv).2.1 }) := by
    unfold EventLayer.recvByteStream
    generalize ConnectionPool.recvByteStream (noteExceptions cfg.routes) e.receiver io.recv = r
      at hclear
    obtain ⟨exit, ⟨inBuf, inBufSize, x, st⟩, rest⟩ := r
    cases hclear
    rfl
  refine ⟨fun x hx => ?_, fun ret hret hne => ?_, fun ret _ => ?_⟩
  · rw [hcall] at hx
    cases hx
  · rw [hcall] at hret ⊢
    cases hret
    exact ⟨htidy hne, hclear⟩
  · rw [hcall]
    exact ⟨Receiver.tidy_reset hlength, hclear⟩

private theorem serveSpan_of_polite (hremote : cfg.NamesRemote) (h : e.layer.Attentive) (hcalm : Calm e.receiver)
    (hpolite : PoliteServe cfg net e) :
    ∃ e', serveSpan cfg net e = some (.ok (), e') ∧ e'.layer.Attentive ∧ Calm e'.receiver := by
  have hreset : ∀ r, Calm r → Calm { r with inBufSize := 0 } := fun _ hr => hr.reset
  have hdials : EventLayer.Dials (fun _ : EventError HelloError => False) cfg.coHost := hremote
  unfold PoliteServe at hpolite
  unfold serveSpan
  by_cases hwait : 0 < cfg.spanTimeout
  · rw [if_pos hwait] at hpolite ⊢
    obtain ⟨x | ⟨⟩, e', hsync, h', hthrown, hreturned⟩ := EventLayer.syncLoop_ends
      (X := fun _ => False) hdials hreset (fun _ _ => reads_of_polite) EventLayer.maxRetryItems h hcalm
      hpolite
    · exact (hthrown x rfl).elim
    · exact ⟨e', hsync, h', hreturned rfl⟩
  · rw [if_neg hwait] at hpolite ⊢
    by_cases hdrop : cfg.spanTimeout < 0
    · rw [if_pos hdrop]
      exact ⟨e, rfl, h, hcalm⟩
    · rw [if_neg hdrop] at hpolite ⊢
      obtain ⟨⟨x | ret, e'⟩, hpoll, hserved⟩ : EventLayer.Serves (fun _ => False) Calm
          (e.poolEventOnce cfg.coHost cfg.routes net.once) :=
        EventLayer.serves_poolEventOnce hdials hreset h hcalm (reads_of_polite hcalm hpolite)
      · exact (hserved.thrown x rfl).elim
      · rw [hpoll]
        exact ⟨e', rfl, hserved.attentive, hserved.returned ret rfl⟩

end Quiet

/-! ## Runs of a process -/

/-- The connections are in order, and all that were made are back in the pool. -/
structure SpanConnectionPool.Whole (c : SpanConnectionPool) : Prop where
  layers : ∀ e ∈ c.pool, e.layer.Attentive ∧ e.receiver.Tidy
  counted : c.pool.length = c.conCounter

namespace SpanConnectionPool

variable {c : SpanConnectionPool}

private theorem fresh_ok (s : ProcessState) :
    (EventLayer.new freshLayer s : SpanLayer).layer.Attentive ∧
      (EventLayer.new freshLayer s : SpanLayer).receiver.Tidy :=
  ⟨TransLayer.attentive_new new_eq_freshLayer,
    (synced_new (noteExceptions fun _ => none) (none, s)).tidy⟩

private theorem whole_new (s : ProcessState) : (new s).Whole := by
  refine ⟨fun e he => ?_, rfl⟩
  rw [List.mem_singleton.1 he]
  exact fresh_ok s

private theorem Whole.get (h : c.Whole) (s : ProcessState) :
    (c.get s).1.layer.Attentive ∧ Calm (c.get s).1.receiver ∧ (c.get s).1.receiver.st.2 = s ∧
      (∀ e ∈ (c.get s).2.pool, e.layer.Attentive ∧ e.receiver.Tidy) ∧
      (c.get s).2.pool.length + 1 = (c.get s).2.conCounter := by
  have hcounted := h.counted
  unfold SpanConnectionPool.get
  cases hpool : c.pool with
  | nil =>
    rw [hpool] at hcounted
    refine ⟨(fresh_ok s).1, ⟨(fresh_ok s).2, rfl⟩, rfl, ?_, ?_⟩
    · intro e he
      exact h.layers e he
    · change c.pool.length + 1 = c.conCounter + 1
      rw [hpool, ← hcounted]
  | cons e rest =>
    rw [hpool] at hcounted
    have he := h.layers e (hpool ▸ List.mem_cons_self)
    refine ⟨he.1, ⟨⟨he.2.buf_length, he.2.size_le, he.2.unfinished⟩, rfl⟩, rfl, ?_, hcounted⟩
    intro e' he'
    exact h.layers e' (hpool ▸ List.mem_cons_of_mem _ he')

end SpanConnectionPool

namespace Process

variable {cfg : Setup} {net : SendIo} {p : Process} {id : Int}

/-- The span is so large that copying it writes past the memory allocated for it. -/
def Oversized (cfg : Setup) (p : Process) (id : Int) : Prop :=
  ∃ span ∈ p.handedSpan id, 2 ^ 31 ≤ dataChunkSize + (cfg.write span).length % 2 ^ 32

private theorem deliver_of_polite (hremote : cfg.NamesRemote) (h : p.connections.Whole) (hpolite : PoliteSend cfg net p id) :
    (∃ s c, p.deliver cfg net id = some (false, s, c) ∧ c.Whole) ∨
      (p.deliver cfg net id = none ∧ p.Oversized cfg id) := by
  unfold deliver
  cases hspan : p.handedSpan id with
  | none => exact .inl ⟨_, _, rfl, h⟩
  | some span =>
    obtain ⟨hattentive, hcalm, -, hrest, hcounted⟩ := h.get p.state
    cases hqueue : queueSpan cfg net span (p.connections.get p.state).1 with
    | none =>
      right
      refine ⟨by simp only [sendSpan, hqueue], span, hspan, ?_⟩
      by_contra hshort
      have hsome : ((p.connections.get p.state).1.layer.copySpan net.headerMalloc net.bodyMalloc
          (cfg.write span)).isSome = true :=
        hattentive.copySpan_isSome (Nat.lt_of_not_le hshort)
      rw [Option.map_eq_none_iff.mp hqueue] at hsome
      cases hsome
    | some e =>
      left
      obtain ⟨copied, hcopy, rfl⟩ := Option.map_eq_some_iff.mp hqueue
      obtain ⟨e', hserve, h', hcalm'⟩ := serveSpan_of_polite
        (e := { (p.connections.get p.state).1 with layer := copied.2 }) hremote
        (hattentive.copySpan hcopy) hcalm (hpolite span hspan _ hqueue)
      refine ⟨e'.receiver.st.2, (p.connections.get p.state).2.free e', ?_, ?_, hcounted⟩
      · simp only [sendSpan, hqueue, hserve]
      · intro e'' he''
        rcases List.mem_cons.1 he'' with rfl | hold
        · exact ⟨h', hcalm'.tidy⟩
        · exact hrest e'' hold

private theorem pinpointEndTrace_agent (a : Agent) (id : Int) (raises : Bool) :
    (pinpointEndTrace a id raises).2 = a.after (.endTrace id raises) := by
  rw [pinpointEndTrace, after, finalState]
  cases Agent.endTrace id raises a with
  | ok parent a' => rfl
  | error x a' => rfl

structure Sound (p : Process) : Prop where
  world : p.world.Ok
  connections : p.connections.Whole

private theorem sound_new (agentType traceLimit : Int) (clock : Nat → Nat) (unixTimeMs : Nat) :
    (new agentType traceLimit clock unixTimeMs).Sound :=
  ⟨World.ok_new agentType clock, SpanConnectionPool.whole_new _⟩

private theorem Sound.call {c : ProcessCall} {p' : Process} (hremote : cfg.NamesRemote) (h : p.Sound) (hpolite : PoliteCall cfg p c)
    (hcall : p.call cfg c = some p') : p'.Sound := by
  cases c with
  | api c =>
    have hworld := h.world.step c
    cases c with
    | endTrace id raises => cases hcall
    | _ =>
      cases hcall
      exact ⟨hworld, h.connections⟩
  | endTrace id net =>
    rcases deliver_of_polite hremote h.connections hpolite with ⟨s, c, hdeliver, hwhole⟩ | ⟨hdeliver, -⟩
    · rw [Process.call, endTrace, hdeliver] at hcall
      cases hcall
      exact ⟨h.world.step _, hwhole⟩
    · rw [Process.call, endTrace, hdeliver] at hcall
      cases hcall

private theorem Sound.endTrace {t : Trace} (hremote : cfg.NamesRemote) (h : p.Sound) (ht : t ∈ p.world.forest)
    (hpolite : PoliteSend cfg net p t.root) :
    (∃ ret p', p.endTrace cfg net t.root = some (ret, p') ∧ p'.connections.Whole ∧
        (Released p.world.agent t (ret, p'.world.agent) ↔ p.world.agent.Deliverable t false)) ∨
      (p.endTrace cfg net t.root = none ∧ p.Oversized cfg t.root) := by
  rcases deliver_of_polite hremote h.connections hpolite with ⟨s, c, hdeliver, hwhole⟩ | ⟨hdeliver, hbig⟩
  · left
    refine ⟨(pinpointEndTrace p.world.agent t.root false).1,
      ⟨p.world.step (.endTrace t.root false), s, c⟩, ?_, hwhole, ?_⟩
    · rw [Process.endTrace, hdeliver]
    · have hagent : (p.world.step (.endTrace t.root false)).agent =
          (pinpointEndTrace p.world.agent t.root false).2 :=
        (pinpointEndTrace_agent _ _ _).symm
      rw [hagent]
      exact pinpointEndTrace_released_iff h.world.holds ht false
  · right
    refine ⟨?_, hbig⟩
    rw [Process.endTrace, hdeliver]

/-- `HandleHelloMsg` answers with 0 or -1 if and only if the process is ready or the body reads as
a harmless value. If the address of the collector is more than its scheme, then in every run whose
collectors send only such bodies, all connections are back in the pool after every call, and the end
of a live root gives its connection back and frees the trace whenever no clue is in the way of the
span's events. -/
theorem harmless_hello_harms_no_trace (cfg : Setup) (agentType traceLimit : Int)
    (clock : Nat → Nat) (unixTimeMs : Nat) :
    (∀ s body, (∃ ret, (handleHelloMsg cfg.parseFromStream s body).1 = .ok ret ∧
        (ret = 0 ∨ ret = -1)) ↔ HarmlessBody cfg.parseFromStream s body) ∧
      (cfg.NamesRemote → ∀ calls p,
        Along (call cfg) (PoliteCall cfg) (new agentType traceLimit clock unixTimeMs) calls →
        exec (call cfg) (new agentType traceLimit clock unixTimeMs) calls = some p →
        p.connections.pool.length = p.connections.conCounter ∧
        ∀ r net, p.world.agent.pool.Live r → IsRoot p.world.agent.pool r →
          PoliteSend cfg net p r →
          (∃ t ∈ p.world.forest, t.root = r ∧ ∃ ret p', p.endTrace cfg net r = some (ret, p') ∧
            p'.connections.pool.length = p'.connections.conCounter ∧
            (Released p.world.agent t (ret, p'.world.agent) ↔
              p.world.agent.Deliverable t false)) ∨
          (p.endTrace cfg net r = none ∧ p.Oversized cfg r)) := by
  constructor
  · intro s body
    rw [← handleHelloMsg_isOk_iff]
    exact ⟨fun ⟨ret, hret, _⟩ => ⟨ret, hret⟩, fun ⟨ret, hret⟩ => ⟨ret, hret, handleHelloMsg_ret hret⟩⟩
  · intro hremote calls p halong hrun
    have h : p.Sound := Along.invariant (fun _ _ _ h hc hs => h.call hremote hc hs)
      (sound_new agentType traceLimit clock unixTimeMs) halong hrun
    refine ⟨h.connections.counted, fun r net hlive hroot hpolite => ?_⟩
    obtain ⟨t, ht, rfl⟩ := exists_trace_of_root h.world.holds hlive hroot.2.1
    rcases h.endTrace hremote ht hpolite with ⟨ret, p', hend, hwhole, hreleased⟩ | hbig
    · exact .inl ⟨t, ht, rfl, ret, p', hend, hwhole.counted, hreleased⟩
    · exact .inr hbig

/-- A collector on localhost, spans sent without waiting, and a reader that finds `value` in
`text` and nothing in any other text. -/
def oneText (text : String) (value : HelloValue) : Setup where
  coHost := "tcp:127.0.0.1:9999"
  spanTimeout := 0
  parseFromStream := fun body =>
    .ok (if body = text.toList.map (fun c => UInt8.ofNat c.toNat) then value else .null)
  write := fun _ => []

def oneHello (text : String) : SendIo where
  headerMalloc := true
  bodyMalloc := true
  once :=
    { connect := ⟨1700000000, 1700000000, some 3⟩
      select := .events false true false
      recv := [.bytes (be32 0 ++ be32 text.length ++ text.toList.map fun c => UInt8.ofNat c.toNat)]
      send := []
      reconnect := ⟨1700000000, 1700000000, none⟩ }
  turns := fun _ => ⟨⟨0, 0, none⟩, .timeout, [], [], ⟨0, 0, none⟩⟩

def started : Process :=
  ⟨(World.new 1500 fun n => n).step (.startTrace 0 []), .new (-1) 1700000000000,
    .new (.new (-1) 1700000000000)⟩

private theorem exec_started (cfg : Setup) :
    exec (call cfg) (new 1500 (-1) (fun n => n) 1700000000000) [.api (.startTrace 0 [])] =
      some started := rfl

/-- A collector with a start time is polite, and the end of the root gives the connection back. -/
theorem harmless_hello_harms_no_trace_start_time :
    PoliteSend (oneText "\x7b\"time\":\"17\"\x7d" (.obj [("time", .str "17")]))
        (oneHello "\x7b\"time\":\"17\"\x7d") started 128 ∧
      ((∃ t ∈ started.world.forest, t.root = 128 ∧ ∃ ret p',
          started.endTrace (oneText "\x7b\"time\":\"17\"\x7d" (.obj [("time", .str "17")]))
            (oneHello "\x7b\"time\":\"17\"\x7d") 128 = some (ret, p') ∧
          p'.connections.pool.length = p'.connections.conCounter ∧
          (Released started.world.agent t (ret, p'.world.agent) ↔
            started.world.agent.Deliverable t false)) ∨
        (started.endTrace (oneText "\x7b\"time\":\"17\"\x7d" (.obj [("time", .str "17")]))
            (oneHello "\x7b\"time\":\"17\"\x7d") 128 = none ∧
          started.Oversized (oneText "\x7b\"time\":\"17\"\x7d" (.obj [("time", .str "17")]))
            128)) := by
  have hpolite : PoliteSend (oneText "\x7b\"time\":\"17\"\x7d" (.obj [("time", .str "17")]))
      (oneHello "\x7b\"time\":\"17\"\x7d") started 128 := by
    intro span _ e he
    obtain ⟨copied, -, rfl⟩ := Option.map_eq_some_iff.mp he
    have hlegal : Legal (noteExceptions
        (oneText "\x7b\"time\":\"17\"\x7d" (.obj [("time", .str "17")])).routes)
        (started.connections.get started.state).1.receiver
        (oneHello "\x7b\"time\":\"17\"\x7d").once.recv := by
      decide +kernel
    change Polite _ _ _
    refine ⟨hlegal, fun body hbody => .inr ?_⟩
    have hbodies : helloBodies (slice (Receiver.new (none, started.state) : Receiver
        (Option HelloError × ProcessState)).inBuf 0 0 ++
          streamOf (oneHello "\x7b\"time\":\"17\"\x7d").once.recv) =
        ["\x7b\"time\":\"17\"\x7d".toList.map fun c => UInt8.ofNat c.toNat] := by
      decide +kernel
    have hone := List.mem_singleton.1 (hbodies ▸ hbody)
    refine ⟨.obj [("time", .str "17")], ?_, by decide, .inr ?_⟩
    · rw [hone]
      exact congrArg Except.ok (if_pos rfl)
    · change (stoll "17".toList).isSome = true
      decide
  refine ⟨hpolite, ?_⟩
  exact ((harmless_hello_harms_no_trace _ 1500 (-1) (fun n => n) 1700000000000).2
    (fun hempty => absurd hempty (by decide +kernel)) [.api (.startTrace 0 [])] started ⟨trivial, fun _ _ => trivial⟩ (exec_started _)).2 128 _
      (by decide +kernel) (by decide +kernel) hpolite

/-- A hello whose time is no number throws out of `pinpoint_end_trace`: the root is still in use,
and the connection is gone. -/
theorem unreadable_time_leaks :
    (handleHelloMsg (oneText "\x7b\"time\":\"x\"\x7d" (.obj [("time", .str "x")])).parseFromStream
        started.state ("\x7b\"time\":\"x\"\x7d".toList.map fun c => UInt8.ofNat c.toNat)).1 =
      .error .stoll ∧
    (started.endTrace (oneText "\x7b\"time\":\"x\"\x7d" (.obj [("time", .str "x")]))
        (oneHello "\x7b\"time\":\"x\"\x7d") 128).map
      (fun r => (r.1, decide (r.2.world.agent.pool.Live 128), r.2.connections.pool.length,
        r.2.connections.conCounter)) = some (invalidNode, true, 0, 1) := by
  decide +kernel

end Process

end PinpointAgent.Agent
