import PinpointAgent.Agent.HelloMsg
import PinpointAgent.ConnectionPool.RecvStream
import PinpointAgent.Jsoncpp.RoundTrip
import PinpointAgent.NodePool.UserOptions
import PinpointAgent.Server.Hello

/-!
# The handshake

The server writes the hello message of `genHello` to every client it accepts, in as many `Write` calls as it
takes; the agent reads what has come in whenever the socket is ready, and sets its start time from the message.
However the bytes are cut on their way, the agent takes over the server's start time with the last byte of the
message, and nothing before.
-/

namespace PinpointAgent.Handshake

open Framework Cache ConnectionPool NodePool Agent Server Jsoncpp

/-! ## The text of the message -/

def marshalChar (c : Char) : Bytes :=
  if c = '"' ∨ c = '\\' then ['\\'.toUInt8, c.toUInt8]
  else if c = '\n' then ascii "\\n"
  else if c = '\r' then ascii "\\r"
  else if c = '\t' then ascii "\\t"
  else if c.toNat = 8 then ascii "\\b"
  else if c.toNat = 12 then ascii "\\f"
  else if c.toNat < 0x20 ∨ c = '<' ∨ c = '>' ∨ c = '&' ∨ c.toNat = 0x2028 ∨ c.toNat = 0x2029 then
    hexEscape c.toNat
  else String.utf8EncodeChar c

def marshalString (s : String) : Bytes := '"'.toUInt8 :: s.toList.flatMap marshalChar ++ ['"'.toUInt8]

def marshal (info : ServerInfo) : Bytes :=
  ascii "\x7b\"appid\":" ++ marshalString info.appId ++ ascii ",\"appname\":" ++ marshalString info.appName ++
    ascii ",\"time\":" ++ marshalString info.startTime ++ ascii ",\"version\":" ++ marshalString info.version ++
    ascii "\x7d"

/-- Characters that neither Go nor jsoncpp writes as an escape sequence. -/
def PlainChar (c : Char) : Prop :=
  (0x20 ≤ c.toNat ∧ c.toNat ≤ 0x7F) ∧ c ≠ '"' ∧ c ≠ '\\' ∧ c ≠ '<' ∧ c ≠ '>' ∧ c ≠ '&'

instance decidablePlainChar (c : Char) : Decidable (PlainChar c) := inferInstanceAs (Decidable (_ ∧ _))

def PlainText (s : String) : Prop := ∀ c ∈ s.toList, PlainChar c

instance decidablePlainText (s : String) : Decidable (PlainText s) := List.decidableBAll PlainChar s.toList

section Text

variable {c : Char} {s : String}

private theorem utf8EncodeChar_of_ascii (h : c.toNat ≤ 0x7F) : String.utf8EncodeChar c = [c.toUInt8] := by
  have hle : c.val.toNat ≤ 0x7F := h
  rw [String.utf8EncodeChar, if_pos hle]
  rfl

private theorem PlainChar.marshalChar_eq (h : PlainChar c) : marshalChar c = [c.toUInt8] := by
  obtain ⟨⟨hlow, hhigh⟩, hquote, hback, hless, hgreater, hamp⟩ := h
  have hnot (d : Char) (hd : d.toNat < 0x20) : c ≠ d := by
    rintro rfl
    omega
  rw [marshalChar, if_neg (not_or.2 ⟨hquote, hback⟩), if_neg (hnot '\n' (by decide)), if_neg (hnot '\r' (by decide)),
    if_neg (hnot '\t' (by decide)), if_neg (by omega), if_neg (by omega), if_neg, utf8EncodeChar_of_ascii hhigh]
  rintro (hcontrol | rfl | rfl | rfl | hline | hline)
  · omega
  · exact hless rfl
  · exact hgreater rfl
  · exact hamp rfl
  · omega
  · omega

private theorem PlainChar.requiresEscaping_eq (h : PlainChar c) : requiresEscaping c.toUInt8 = false := by
  obtain ⟨⟨hlow, hhigh⟩, hquote, hback, -⟩ := h
  have htoNat : c.toUInt8.toNat = c.toNat := by
    show c.toNat % 256 = c.toNat
    omega
  have hne (d : Char) (hd : d.toNat ≤ 0x7F) (hcd : c ≠ d) : c.toUInt8 ≠ d.toUInt8 := by
    intro heq
    have hd' : d.toUInt8.toNat = d.toNat := by
      show d.toNat % 256 = d.toNat
      omega
    have hnat : c.toNat = d.toNat := by rw [← htoNat, ← hd', heq]
    exact hcd (Char.ext (UInt32.toNat_inj.1 hnat))
  have hlow' : ¬c.toUInt8 < 0x20 := by
    rw [UInt8.lt_iff_toNat_lt, htoNat]
    show ¬c.toNat < 32
    omega
  have hhigh' : ¬c.toUInt8 > 0x7F := by
    rw [gt_iff_lt, UInt8.lt_iff_toNat_lt, htoNat]
    show ¬127 < c.toNat
    omega
  rw [requiresEscaping]
  simp only [hne '\\' (by decide) hback, hne '"' (by decide) hquote, hlow', hhigh', decide_false, Bool.or_self]

private theorem PlainText.utf8_eq (h : PlainText s) : utf8 s = s.toList.map Char.toUInt8 := by
  rw [utf8, List.map_eq_flatMap]
  exact List.flatMap_congr fun c hc => utf8EncodeChar_of_ascii (h c hc).1.2

private theorem PlainText.marshalString_eq (h : PlainText s) : marshalString s = valueToQuotedStringN (utf8 s) := by
  have hchars : s.toList.flatMap marshalChar = utf8 s := by
    rw [h.utf8_eq, List.map_eq_flatMap]
    exact List.flatMap_congr fun c hc => (h c hc).marshalChar_eq
  have hescape : doesAnyCharRequireEscaping (utf8 s) = false := by
    rw [doesAnyCharRequireEscaping, h.utf8_eq, List.any_eq_false]
    intro b hb
    obtain ⟨c, hc, rfl⟩ := List.mem_map.1 hb
    rw [(h c hc).requiresEscaping_eq]
    exact Bool.false_ne_true
  rw [marshalString, hchars, valueToQuotedStringN, hescape, if_neg Bool.false_ne_true]

def infoValue (info : ServerInfo) : Value :=
  .obj [(utf8 "appid", .str (utf8 info.appId)), (utf8 "appname", .str (utf8 info.appName)),
    (utf8 "time", .str (utf8 info.startTime)), (utf8 "version", .str (utf8 info.version))]

structure PlainInfo (info : ServerInfo) : Prop where
  appId : PlainText info.appId
  appName : PlainText info.appName
  startTime : PlainText info.startTime
  version : PlainText info.version

private theorem PlainInfo.marshal_eq {info : ServerInfo} (h : PlainInfo info) :
    marshal info = NodeTreeWriter.write (infoValue info) := by
  -- the constant parts, cut at the tokens of the writer
  have happid : ascii "\x7b\"appid\":" = '\x7b'.toUInt8 :: (valueToQuotedStringN (utf8 "appid") ++ [':'.toUInt8]) := by
    decide +kernel
  have happname : ascii ",\"appname\":" = ','.toUInt8 :: (valueToQuotedStringN (utf8 "appname") ++ [':'.toUInt8]) := by
    decide +kernel
  have htime : ascii ",\"time\":" = ','.toUInt8 :: (valueToQuotedStringN (utf8 "time") ++ [':'.toUInt8]) := by
    decide +kernel
  have hversion : ascii ",\"version\":" = ','.toUInt8 :: (valueToQuotedStringN (utf8 "version") ++ [':'.toUInt8]) := by
    decide +kernel
  rw [NodeTreeWriter.write_eq_render, marshal, infoValue, happid, happname, htime, hversion, h.appId.marshalString_eq,
    h.appName.marshalString_eq, h.startTime.marshalString_eq, h.version.marshalString_eq]
  simp only [Value.render, Value.renderMembers, Value.leafText, List.isEmpty_cons, List.isEmpty_nil, List.append_assoc,
    List.cons_append, List.nil_append, if_true, if_false, Bool.false_eq_true, List.append_nil]
  rfl

end Text

/-! ## What the agent reads -/

/-- The bytes of a `std::string`, one character for each. -/
def latin1 (s : Bytes) : String := String.ofList (s.map fun b => Char.ofNat b.toNat)

def readerError : Thrown → HelloError
  | .keyLength => .keyLength
  | .stringLength => .stringLength
  -- the reader comes to its end on every text
  | .stackLimit | .diverged => .stackLimit

/-- jsoncpp's `parseFromStream` with the builder of the agent. -/
def parseFromStream (toDouble : Bytes → Option Bytes) (body : Bytes) : Except HelloError HelloValue :=
  match parse toDouble body with
  | .ok (_, root) => .ok (root.map latin1)
  | .error x => .error (readerError x)

section Read

variable (toDouble : Bytes → Option Bytes) {version : String} {now : Nat}

private theorem PlainText.latin1_utf8 {s : String} (h : PlainText s) : latin1 (utf8 s) = s := by
  have hchar (c : Char) (hc : c ∈ s.toList) : Char.ofNat c.toUInt8.toNat = c := by
    have htoNat : c.toUInt8.toNat = c.toNat := by
      show c.toNat % 256 = c.toNat
      have := (h c hc).1.2
      omega
    rw [htoNat, Char.ofNat_toNat]
  rw [latin1, h.utf8_eq, List.map_map]
  exact (congrArg String.ofList ((List.map_congr_left hchar).trans (List.map_id _))).trans String.ofList_toList

private theorem toList_repr (n : Nat) : (Int.repr n).toList = Nat.toDigits 10 n := by
  rw [Int.repr.eq_def]
  exact String.toList_ofList

private theorem plainText_repr (n : Nat) : PlainText (Int.repr n) := by
  intro c hc
  rw [toList_repr] at hc
  have hdigit := isDigit_bounds (Nat.isDigit_of_mem_toDigits (by decide) (by decide) hc)
  have hne (d : Char) (hd : d.toNat < 48 ∨ 57 < d.toNat) : c ≠ d := by
    rintro rfl
    omega
  exact ⟨⟨by omega, by omega⟩, hne '"' (by decide), hne '\\' (by decide), hne '<' (by decide), hne '>' (by decide),
    hne '&' (by decide)⟩

private theorem stoll_repr (hnow : now < 2 ^ 63) : stoll (Int.repr now).toList = some (now : Int) := by
  have hdigits : ∀ c ∈ Nat.toDigits 10 now, c.isDigit = true := fun c hc =>
    Nat.isDigit_of_mem_toDigits (by decide) (by decide) hc
  let m : Numeral := ⟨[], Nat.toDigits 10 now, by decide, Nat.toDigits_ne_nil, hdigits⟩
  have hvalue : m.value = now := by
    have hdecimal : Nat.ofDigitChars 10 (Nat.toDigits 10 now) 0 = now :=
      Nat.ofDigitChars_toDigits (by decide) (by decide)
    rw [Numeral.value, if_neg (show ¬([] : List Char) = ['-'] by decide), hdecimal]
  have hfits : m.Fits := by
    rw [Numeral.Fits, hvalue]
    omega
  have hread := stoll_numeral m
  rw [if_pos hfits, hvalue] at hread
  rw [toList_repr]
  exact hread

private theorem plainInfo_hello (hversion : PlainText version) : PlainInfo (ServerInfo.hello version now) :=
  ⟨show PlainText "no" by decide, show PlainText "no" by decide, plainText_repr now, hversion⟩

private theorem PlainText.length_utf8_le {s : String} (h : PlainText s) : (utf8 s).length ≤ (marshalString s).length := by
  rw [marshalString, h.utf8_eq, List.length_map, List.cons_append, List.length_cons, List.length_append,
    List.flatMap_congr (g := fun c => [c.toUInt8]) fun c hc => (h c hc).marshalChar_eq, ← List.map_eq_flatMap,
    List.length_map]
  omega

private theorem length_marshal_ge (info : ServerInfo) :
    (marshalString info.startTime).length ≤ (marshal info).length ∧
      (marshalString info.version).length ≤ (marshal info).length := by
  simp only [marshal, List.length_append]
  omega

private theorem parseFromStream_marshal (hversion : PlainText version)
    (hlength : (marshal (ServerInfo.hello version now)).length ≤ inMsgBufSize - headerSize) :
    parseFromStream toDouble (marshal (ServerInfo.hello version now)) =
      .ok (.obj [("appid", .str "no"), ("appname", .str "no"), ("time", .str (Int.repr now)),
        ("version", .str version)]) := by
  have hkey (key : String) (hkey : PlainText key) : latin1 (utf8 key) = key := hkey.latin1_utf8
  have hwritable : (infoValue (ServerInfo.hello version now)).Writable := by
    have hlimit : inMsgBufSize - headerSize ≤ maxStringLength := by decide
    obtain ⟨htime, hname⟩ := length_marshal_ge (ServerInfo.hello version now)
    have htime' := (plainInfo_hello hversion).startTime.length_utf8_le.trans htime
    have hname' := (plainInfo_hello hversion).version.length_utf8_le.trans hname
    refine ⟨?_, ⟨⟨"appid", rfl⟩, by decide⟩, ⟨⟨"no", rfl⟩, show (utf8 "no").length ≤ maxStringLength by decide⟩,
      ⟨⟨"appname", rfl⟩, by decide⟩, ⟨⟨"no", rfl⟩, show (utf8 "no").length ≤ maxStringLength by decide⟩,
      ⟨⟨"time", rfl⟩, by decide⟩, ⟨⟨_, rfl⟩, htime'.trans (hlength.trans hlimit)⟩, ⟨⟨"version", rfl⟩, by decide⟩,
      ⟨⟨_, rfl⟩, hname'.trans (hlength.trans hlimit)⟩, trivial⟩
    have hkeys : [utf8 "appid", utf8 "appname", utf8 "time", utf8 "version"].Pairwise (· < ·) := by decide +kernel
    exact List.pairwise_map.1 hkeys
  have hread := parse_write toDouble hwritable
  rw [if_pos (show (infoValue (ServerInfo.hello version now)).height ≤ stackLimit from (by decide : 2 ≤ 1000))] at hread
  rw [parseFromStream, (plainInfo_hello hversion).marshal_eq, hread]
  simp only [infoValue, ServerInfo.hello, Value.asRead, Value.asReadMembers, JsonTree.map, JsonTree.mapMembers,
    (plainText_repr now).latin1_utf8, hversion.latin1_utf8, hkey "no" (by decide), hkey "appid" (by decide),
    hkey "appname" (by decide), hkey "time" (by decide), hkey "version" (by decide)]

theorem handleHelloMsg_marshal (hversion : PlainText version) (hnew : ¬compareVersion version lowestVersion < 0)
    (hnow : now < 2 ^ 63) (hlength : (marshal (ServerInfo.hello version now)).length ≤ inMsgBufSize - headerSize)
    (s : ProcessState) :
    handleHelloMsg (parseFromStream toDouble) s (marshal (ServerInfo.hello version now)) =
      (.ok 0, s.setStartTime now) := by
  have htime : ((now : Int) % 2 ^ 64).toNat = now := by
    rw [Int.emod_eq_of_lt (by omega) (by omega), Int.toNat_natCast]
  rw [handleHelloMsg]
  cases hready : s.ready with
  | true => rw [if_pos rfl, ProcessState.setStartTime, if_pos hready]
  | false =>
    rw [if_neg Bool.false_ne_true, parseFromStream_marshal toDouble hversion hlength]
    have hcheck : checkVersion (.obj [("appid", .str "no"), ("appname", .str "no"), ("time", .str (Int.repr now)),
        ("version", .str version)]) = .ok true := by
      rw [checkVersion_obj]
      exact congrArg Except.ok (decide_eq_true hnew)
    have hread : readTime (.obj [("appid", .str "no"), ("appname", .str "no"), ("time", .str (Int.repr now)),
        ("version", .str version)]) s = .ok (s.setStartTime now) := by
      have hmember : HelloValue.member "time" (.obj [("appid", .str "no"), ("appname", .str "no"),
          ("time", .str (Int.repr now)), ("version", .str version)]) = .ok (.str (Int.repr now)) := rfl
      simp only [readTime, hmember, stoll_repr hnow, htime]
    simp only [readHello, hcheck, hread, answerHello]

end Read

/-! ## The bytes on their way -/

/-- What a call of `con.Write` returns: how many bytes it took, and whether there is an error. -/
structure WriteResult where
  size : Nat
  err : Bool
deriving DecidableEq, Repr

inductive RespExit where
  | sent
  | skipped
  | channelError
  | zeroByteWrite
  /-- the next `Write` has not returned -/
  | writing
deriving DecidableEq, Repr

def writeLoop : Bytes → List WriteResult → Bytes × RespExit
  | [], _ => ([], .sent)
  | _ :: _, [] => ([], .writing)
  | c :: buffer, r :: writes =>
    if r.err then ((c :: buffer).take r.size, .channelError)
    else if r.size = 0 then ([], .zeroByteWrite)
    else
      let rest := writeLoop ((c :: buffer).drop r.size) writes
      ((c :: buffer).take r.size ++ rest.1, rest.2)

def respToClient (msgType : Nat) (msgBody : Bytes) (writes : List WriteResult) : Bytes × RespExit :=
  if 2 ^ 31 - 1 < msgBody.length then ([], .skipped)
  else writeLoop (be32 msgType ++ be32 msgBody.length ++ msgBody) writes

theorem writeLoop_spec (buffer : Bytes) (writes : List WriteResult) :
    (writeLoop buffer writes).1 <+: buffer ∧
      ((writeLoop buffer writes).2 = .sent → (writeLoop buffer writes).1 = buffer) := by
  induction writes generalizing buffer with
  | nil =>
    cases buffer with
    | nil => exact ⟨List.prefix_refl _, fun _ => rfl⟩
    | cons c buffer => exact ⟨List.nil_prefix, fun h => by cases h⟩
  | cons r writes ih =>
    cases buffer with
    | nil => exact ⟨List.prefix_refl _, fun _ => rfl⟩
    | cons c buffer =>
      rw [writeLoop]
      split
      · exact ⟨List.take_prefix .., fun h => by cases h⟩
      · split
        · exact ⟨List.nil_prefix, fun h => by cases h⟩
        · obtain ⟨hfront, hsent⟩ := ih ((c :: buffer).drop r.size)
          refine ⟨?_, fun h => ?_⟩
          · have hwhole := (List.prefix_append_right_inj ((c :: buffer).take r.size)).2 hfront
            rwa [List.take_append_drop] at hwhole
          · have hrest : (writeLoop ((c :: buffer).drop r.size) writes).1 = (c :: buffer).drop r.size := hsent h
            show (c :: buffer).take r.size ++ _ = c :: buffer
            rw [hrest, List.take_append_drop]

/-! ## From the server to the agent -/

section Handshake

variable {σ : Type} {msgRouteMap : RouterMsgMap σ} {st : σ} {f : Frame} {s : Bytes}

private theorem scanFrame_of_front {limit : Nat} (hlimit : f.body.length ≤ limit) (hfront : s <+: f.encode)
    (hpart : s ≠ f.encode) : scanFrame limit s = .incomplete := by
  obtain ⟨t, ht⟩ := hfront
  have hscan := scanFrame_encode hlimit []
  rw [List.append_nil, ← ht] at hscan
  cases hs : scanFrame limit s with
  | incomplete => rfl
  | oversized =>
    rw [scanFrame_oversized_append hs t] at hscan
    cases hscan
  | frame g rest =>
    rw [scanFrame_frame_append hs t] at hscan
    have hnil : rest ++ t = [] := (Scan.frame.inj hscan).2
    obtain ⟨-, rfl⟩ := List.append_eq_nil_iff.1 hnil
    exact absurd ((List.append_nil s).symm.trans ht) hpart

theorem received_of_front (hlimit : f.body.length ≤ inMsgBufSize - headerSize) (hfront : s <+: f.encode)
    (hgo : (dispatch msgRouteMap st f).1 = true) :
    (received msgRouteMap st s).pass = .starved ∧
      (received msgRouteMap st s).state = if s = f.encode then (dispatch msgRouteMap st f).2 else st := by
  rw [received]
  by_cases hall : s = f.encode
  · have hscan := scanFrame_encode hlimit []
    rw [List.append_nil] at hscan
    rw [if_pos hall, hall, deframe_frame hscan hgo, deframe_incomplete (scanFrame_of_lt_header (by decide))]
    exact ⟨rfl, rfl⟩
  · rw [if_neg hall, deframe_incomplete (scanFrame_of_front hlimit hfront hall)]
    exact ⟨rfl, rfl⟩

theorem pump_of_front {results : List RecvResult} (hlimit : f.body.length ≤ inMsgBufSize - headerSize)
    (hgo : (dispatch msgRouteMap st f).1 = true) (hquiet : Quiet results) (hfront : streamOf results <+: f.encode)
    (hlegal : Legal msgRouteMap (Receiver.new st) results) :
    ∃ r, pump msgRouteMap (Receiver.new st) results = (none, r, []) ∧
      r.st = if streamOf results = f.encode then (dispatch msgRouteMap st f).2 else st := by
  obtain ⟨exit, r, seen, rest, hrun, rfl, hout, hne⟩ :=
    pumpFuel_outcome (results.length + 1) (synced_new msgRouteMap st) hlegal (Nat.lt_succ_self _)
  have hseen : streamOf seen <+: f.encode := by
    rw [streamOf_append] at hfront
    exact (List.prefix_append ..).trans hfront
  obtain ⟨hstarved, hstate⟩ := received_of_front hlimit hseen hgo
  have hst := hout.state_eq
  rw [List.nil_append] at hst
  cases hout with
  | waiting synced quiet =>
    rw [List.append_nil] at hrun ⊢
    exact ⟨r, hrun, hst.trans hstate⟩
  | wouldBlock => exact absurd rfl hne
  | fatal stop state quiet =>
    rw [List.nil_append] at stop
    exact absurd hstarved stop
  | closed synced last => exact absurd (List.mem_append_left _ last) hquiet.1
  | failed synced last => exact absurd (List.mem_append_left _ last) hquiet.2

end Handshake

def helloFrame (info : ServerInfo) (hlength : (marshal info).length ≤ inMsgBufSize - headerSize) : Frame where
  type := 0
  body := marshal info
  type_lt := by decide
  body_lt := Nat.lt_of_le_of_lt hlength (by decide)

private theorem dispatch_hello {parse : List UInt8 → Except HelloError HelloValue} {s s' : ProcessState} {f : Frame}
    (htype : f.type = 0) (hhandle : handleHelloMsg parse s f.body = (.ok 0, s')) :
    dispatch (noteExceptions (helloRoutes parse)) (none, s) f = (true, (none, s')) := by
  have hroute : noteExceptions (helloRoutes parse) 0 =
      some (noteException fun s _ body => handleHelloMsg parse s body) := by
    rw [noteExceptions, helloRoutes, if_pos rfl, Option.map_some]
  have hsigned : toSigned 32 (f.type : Int) = 0 := by
    rw [htype]
    exact toSigned_32_natCast (by decide)
  rw [dispatch, hsigned, hroute]
  simp only [noteException, hhandle]
  rw [decide_eq_true (show (0 : Int) ≠ -1 by decide)]

/-- However the server's writes and the agent's reads cut a hello message that the agent's buffer holds, the agent
waits without an exception and without giving the connection up until it has all of the message; then it has the
server's start time, unless it had one before. -/
theorem handshake_hands_over_start_time (toDouble : Bytes → Option Bytes) {version : String}
    (hplain : PlainText version) (hnew : ¬compareVersion version lowestVersion < 0) {now : Nat} (hnow : now < 2 ^ 63)
    {body : Bytes} (hbody : marshal (ServerInfo.hello version now) = body)
    (hlength : body.length ≤ inMsgBufSize - headerSize) (s : ProcessState)
    (writes : List WriteResult) {results : List RecvResult} (hquiet : Quiet results)
    (hstream : streamOf results <+: (respToClient 0 body writes).1)
    (hlegal : Legal (noteExceptions (helloRoutes (parseFromStream toDouble))) (Receiver.new (none, s)) results) :
    ((respToClient 0 body writes).2 = .sent →
        (respToClient 0 body writes).1 = be32 0 ++ be32 body.length ++ body) ∧
      ∃ r, pump (noteExceptions (helloRoutes (parseFromStream toDouble))) (Receiver.new (none, s)) results =
          (none, r, []) ∧
        r.st = (none, if streamOf results = be32 0 ++ be32 body.length ++ body ∧ s.ready = false then
          { s with startTime := now, ready := true } else s) := by
  subst hbody
  have hsmall : ¬2 ^ 31 - 1 < (marshal (ServerInfo.hello version now)).length := by
    simp only [inMsgBufSize, headerSize] at hlength
    omega
  rw [respToClient, if_neg hsmall] at hstream ⊢
  obtain ⟨hwritten, hsent⟩ := writeLoop_spec (helloFrame _ hlength).encode writes
  have hdispatch := dispatch_hello (f := helloFrame _ hlength) rfl
    (handleHelloMsg_marshal toDouble hplain hnew hnow hlength s)
  obtain ⟨r, hrun, hst⟩ := pump_of_front hlength (by rw [hdispatch]) hquiet (hstream.trans hwritten) hlegal
  refine ⟨hsent, r, hrun, hst.trans ?_⟩
  have hset : s.setStartTime now =
      if s.ready = false then { s with startTime := now, ready := true } else s := by
    cases hready : s.ready <;> simp [ProcessState.setStartTime, hready]
  rw [hdispatch, hset, ite_and]
  exact (apply_ite (Prod.mk none) ..).symm

/-- The current version, written in two pieces and received in three. -/
theorem handshake_hands_over_start_time_pieces :
    let info := ServerInfo.hello "v0.7.10" (1700000000000 : Nat)
    let message := be32 0 ++ be32 (marshal info).length ++ marshal info
    let s : ProcessState := ⟨0, 0, 0, -1, 0, false⟩
    let results : List RecvResult := [.bytes (message.take 5), .wouldBlock, .bytes ((message.drop 5).take 30),
      .bytes (message.drop 35)]
    ∃ r, pump (noteExceptions (helloRoutes (parseFromStream some))) (Receiver.new (none, s)) results =
        (none, r, []) ∧ r.st = (none, { s with startTime := 1700000000000, ready := true }) := by
  intro info message s results
  have hstream : streamOf results = message := by decide +kernel
  have hwritten : (respToClient 0 (marshal info) [⟨20, false⟩, ⟨1000, false⟩]).1 = message := by decide +kernel
  have hplain : PlainText "v0.7.10" := by decide
  have hbody : marshal (ServerInfo.hello "v0.7.10" (1700000000000 : Nat)) = marshal info := rfl
  have hquiet : Quiet results := ⟨by decide +kernel, by decide +kernel⟩
  obtain ⟨-, r, hrun, hst⟩ := handshake_hands_over_start_time some hplain (by decide +kernel) (by decide) hbody
    (by decide +kernel) s [⟨20, false⟩, ⟨1000, false⟩] hquiet (by rw [hstream, ← hwritten]) (by decide +kernel)
  exact ⟨r, hrun, hst.trans (congrArg (Prod.mk none) (if_pos ⟨hstream, rfl⟩))⟩

end PinpointAgent.Handshake
