import PinpointAgent.ConnectionPool.WholeFrames

/-!
# The address of the collector

`connect_remote` tells the address families apart by a prefix, in any letter case, and passes the
rest of the text on. The rest is cut off behind `strlen(TCP_SOCKET)` characters in both branches,
although `unix:` is one character longer: the path of a unix socket keeps the colon in front.
-/

namespace PinpointAgent.ConnectionPool

/-- `connect_remote` with the call it makes and what it returns; `dial` is the descriptor that the
call yields, which it does for every text but the empty one. -/
def EventLayer.dialRemote {ε σ : Type*} (dial : Dial → Option Nat) (coHost : String)
    (checked stored : Int) (e : EventLayer ε σ) : Option Dial × Int × EventLayer ε σ :=
  if coHost = "" then (none, -1, e)
  else if checked < e.lastConnectTime + reconnectTimeSec then (none, -1, e)
  else
    match dialFor coHost.toList with
    | none => (none, -1, { e with lastConnectTime := stored })
    | some call =>
      match dial call with
      | some fd =>
        (some call, fd,
          { e with layer := e.layer.connectRemote .opened, cFd := fd, lastConnectTime := stored })
      | none =>
        (some call, -1, { e with layer := e.layer.connectRemote .refused, lastConnectTime := stored })

/-- The statement is the scheme, in any letter case, and the rest. -/
def Spelled (scheme statement rest : List Char) : Prop :=
  ∃ spelling, statement = spelling ++ rest ∧ spelling.map Char.toUpper = scheme.map Char.toUpper

structure DialsAsAddressed (statement : List Char) (attempt : Option Dial) (ret : Int) : Prop where
  unix : ∀ rest, Spelled unixSocket statement rest → attempt = some (.unix rest)
  stream : ∀ rest, Spelled tcpSocket statement rest → attempt = some (.stream rest)
  other : (¬∃ rest, Spelled unixSocket statement rest) → (¬∃ rest, Spelled tcpSocket statement rest) →
    attempt = none ∧ ret = -1

variable {scheme statement rest : List Char}

private theorem spelled_nil : Spelled [] statement rest ↔ rest = statement := by
  constructor
  · rintro ⟨spelling, rfl, hspelling⟩
    rw [List.map_eq_nil_iff.1 hspelling]
    rfl
  · rintro rfl
    exact ⟨[], rfl, rfl⟩

private theorem spelled_cons {c d : Char} :
    Spelled (c :: scheme) (d :: statement) rest ↔ d.toUpper = c.toUpper ∧ Spelled scheme statement rest := by
  constructor
  · rintro ⟨spelling, hstatement, hspelling⟩
    cases spelling with
    | nil => simp at hspelling
    | cons x spelling =>
      obtain ⟨rfl, rfl⟩ := List.cons.inj hstatement
      obtain ⟨hhead, htail⟩ := List.cons.inj hspelling
      exact ⟨hhead, spelling, rfl, htail⟩
  · rintro ⟨hhead, spelling, rfl, htail⟩
    exact ⟨d :: spelling, rfl, by rw [List.map_cons, List.map_cons, hhead, htail]⟩

private theorem not_spelled_of_nil {c : Char} : ¬Spelled (c :: scheme) [] rest := by
  rintro ⟨spelling, hstatement, hspelling⟩
  rw [(List.append_eq_nil_iff.1 hstatement.symm).1] at hspelling
  cases hspelling

private theorem Spelled.rest_eq (h : Spelled scheme statement rest) : rest = statement.drop scheme.length := by
  obtain ⟨spelling, rfl, hspelling⟩ := h
  have hlength : scheme.length = spelling.length := by
    have := congrArg List.length hspelling
    rwa [List.length_map, List.length_map, eq_comm] at this
  rw [hlength, List.drop_left]

theorem strcasecmp_eq_zero_iff : strcasecmp statement scheme = 0 ↔ ∃ rest, Spelled scheme statement rest := by
  induction scheme generalizing statement with
  | nil =>
    have hzero : strcasecmp statement [] = 0 := by cases statement <;> rfl
    exact iff_of_true hzero ⟨statement, spelled_nil.2 rfl⟩
  | cons c scheme ih =>
    cases statement with
    | nil => exact iff_of_false (by simp [strcasecmp]) fun ⟨_, h⟩ => not_spelled_of_nil h
    | cons d statement =>
      rw [strcasecmp]
      by_cases hupper : d.toUpper = c.toUpper
      · rw [if_neg (not_not.2 hupper), ih]
        exact exists_congr fun rest => by rw [spelled_cons, and_iff_right hupper]
      · rw [if_pos hupper]
        refine iff_of_false (fun hzero => hupper ?_) fun ⟨_, h⟩ => hupper (spelled_cons.1 h).1
        -- characters with equal codes are equal
        have hcode : d.toNat = c.toNat := by omega
        rw [Char.toNat_inj.1 hcode]

private theorem not_spelled_both (hunix : Spelled unixSocket statement rest) {rest' : List Char} :
    ¬Spelled tcpSocket statement rest' := by
  rintro ⟨spelling, rfl, hspelling⟩
  obtain ⟨other, hother, hupper⟩ := hunix
  cases spelling with
  | nil => cases hspelling
  | cons c spelling =>
    cases other with
    | nil => cases hupper
    | cons d other =>
      obtain ⟨rfl, -⟩ := List.cons.inj hother
      have htcp : c.toUpper = 'T' := (List.cons.inj hspelling).1
      have hunix : c.toUpper = 'U' := (List.cons.inj hupper).1
      rw [hunix] at htcp
      exact absurd htcp (by decide)

theorem EventLayer.dialRemote_layer {ε σ : Type*} (dial : Dial → Option Nat) {coHost : String}
    (hremote : dialFor coHost.toList ≠ some (.stream [])) (checked stored : Int) (e : EventLayer ε σ) :
    e.connectRemote coHost ⟨checked, stored, (dialFor coHost.toList).bind dial⟩ =
      (.ok (), (e.dialRemote dial coHost checked stored).2.2) := by
  unfold dialRemote connectRemote
  by_cases hempty : coHost = ""
  · rw [if_pos hempty, if_pos hempty]
  · rw [if_neg hempty, if_neg hempty]
    by_cases hwait : checked < e.lastConnectTime + reconnectTimeSec
    · rw [if_pos hwait, if_pos hwait]
    · rw [if_neg hwait, if_neg hwait]
      cases hdial : dialFor coHost.toList with
      | none => rfl
      | some call =>
        have hcall : call ≠ .stream [] := fun heq => hremote (heq ▸ hdial)
        simp only [if_neg hcall, Option.bind_some]
        cases dial call <;> rfl

section Attempt

variable {ε σ : Type*} {e : EventLayer ε σ} {coHost : String} {checked : Int}

private theorem EventLayer.dialRemote_attempt (hne : coHost ≠ "")
    (hwait : e.lastConnectTime + reconnectTimeSec ≤ checked) (dial : Dial → Option Nat) (stored : Int) :
    (e.dialRemote dial coHost checked stored).1 = dialFor coHost.toList ∧
      (dialFor coHost.toList = none → (e.dialRemote dial coHost checked stored).2.1 = -1) := by
  unfold dialRemote
  rw [if_neg hne, if_neg (not_lt.2 hwait)]
  cases dialFor coHost.toList with
  | none => exact ⟨rfl, fun _ => rfl⟩
  | some call =>
    refine ⟨?_, fun h => by cases h⟩
    dsimp only
    cases dial call <;> rfl

private theorem dialFor_stream (h : Spelled tcpSocket statement rest) : dialFor statement = some (.stream rest) := by
  unfold dialFor
  rw [if_neg (fun hunix => ?_), if_pos (strcasecmp_eq_zero_iff.2 ⟨rest, h⟩), h.rest_eq]
  obtain ⟨rest', hrest'⟩ := strcasecmp_eq_zero_iff.1 hunix
  exact not_spelled_both hrest' h

private theorem dialFor_other (hunix : ¬∃ rest, Spelled unixSocket statement rest)
    (htcp : ¬∃ rest, Spelled tcpSocket statement rest) : dialFor statement = none := by
  unfold dialFor
  rw [if_neg (mt strcasecmp_eq_zero_iff.1 hunix), if_neg (mt strcasecmp_eq_zero_iff.1 htcp)]

private theorem dialFor_unix_ne (h : Spelled unixSocket statement rest) : dialFor statement ≠ some (.unix rest) := by
  unfold dialFor
  rw [if_pos (strcasecmp_eq_zero_iff.2 ⟨rest, h⟩)]
  intro heq
  have hrest : statement.drop tcpSocket.length = rest := Dial.unix.inj (Option.some.inj heq)
  have hlength := congrArg List.length hrest
  obtain ⟨spelling, rfl, hspelling⟩ := h
  have hfive : spelling.length = 5 := by
    have := congrArg List.length hspelling
    rwa [List.length_map, List.length_map] at this
  rw [List.length_drop, List.length_append, hfive] at hlength
  have hfour : tcpSocket.length = 4 := rfl
  omega

/-- `connect_remote` does what the address asks for, except for every address of a unix socket. -/
theorem connect_remote_dials_iff (hne : coHost ≠ "")
    (hwait : e.lastConnectTime + reconnectTimeSec ≤ checked) (dial : Dial → Option Nat) (stored : Int) :
    DialsAsAddressed coHost.toList (e.dialRemote dial coHost checked stored).1
        (e.dialRemote dial coHost checked stored).2.1 ↔
      ¬∃ rest, Spelled unixSocket coHost.toList rest := by
  obtain ⟨hattempt, hret⟩ := EventLayer.dialRemote_attempt hne hwait dial stored
  rw [hattempt]
  constructor
  · rintro h ⟨rest, hrest⟩
    exact dialFor_unix_ne hrest (h.unix rest hrest)
  · intro hunix
    exact {
      unix := fun rest hrest => absurd ⟨rest, hrest⟩ hunix
      stream := fun rest hrest => dialFor_stream hrest
      other := fun _ htcp => ⟨dialFor_other hunix htcp, hret (dialFor_other hunix htcp)⟩ }

end Attempt

theorem connect_remote_dials_iff_tcp :
    DialsAsAddressed "Tcp:h:9999".toList
      ((EventLayer.new freshLayer () : EventLayer Unit Unit).dialRemote (fun _ => some 3) "Tcp:h:9999" 5 5).1
      ((EventLayer.new freshLayer () : EventLayer Unit Unit).dialRemote (fun _ => some 3) "Tcp:h:9999" 5 5).2.1 := by
  refine (connect_remote_dials_iff (by decide) (by decide) _ _).2 ?_
  rw [← strcasecmp_eq_zero_iff]
  decide

/-- The form of the default address: the socket that is dialled is named `:/tmp/a.sock`. -/
theorem unix_path_keeps_colon :
    ((EventLayer.new freshLayer () : EventLayer Unit Unit).dialRemote (fun _ => none) "unix:/tmp/a.sock" 5 5).1 =
        some (.unix ":/tmp/a.sock".toList) ∧
      Spelled unixSocket "unix:/tmp/a.sock".toList "/tmp/a.sock".toList :=
  ⟨by decide, "unix:".toList, by decide, by decide⟩

end PinpointAgent.ConnectionPool
