import PinpointAgent.Cache.State
import PinpointAgent.ConnectionPool.EventLoop
import PinpointAgent.NodePool.TraceNode

/-!
# The collector's hello message

`HandleHelloMsg` reads the version and the start time out of the JSON text that a collector sends
as message type 0. Nothing checks the shape of the text first: a member is looked up in whatever
value it holds, a version is turned into a string whatever its type, and a time is read as a
number whatever its characters, so each of these steps can throw.

The reader of jsoncpp is a parameter. It leaves a value even when it reports an error, and it
throws by itself on deeply nested text and on very long keys and strings.
-/

namespace PinpointAgent.Agent

open Framework Cache ConnectionPool NodePool

inductive HelloError where
  /-- a member of a value that is neither null nor an object -/
  | notAnObject
  /-- the text of an array or of an object -/
  | notConvertible
  | stoll
  /-- the reader's limits on nesting and on the lengths of keys and strings -/
  | stackLimit
  | keyLength
  | stringLength
deriving DecidableEq, Repr

abbrev HelloValue := JsonTree String

namespace HelloValue

/-- `operator[]`, which takes null for an object without members. -/
def member (key : String) : HelloValue → Except HelloError HelloValue
  | .null => .ok .null
  | .obj members => .ok ((members.lookup key).getD .null)
  | _ => .error .notAnObject

def asString : HelloValue → Except HelloError String
  | .null => .ok ""
  | .bool b => .ok (if b then "true" else "false")
  | .int n => .ok (toString n)
  | .uint n => .ok (toString n)
  | .real text => .ok text
  | .str s => .ok s
  | .arr _ | .obj _ => .error .notConvertible

def toBool : HelloValue → Bool
  | .null => false
  | _ => true

def isString : HelloValue → Bool
  | .str _ => true
  | _ => false

end HelloValue

/-! ## Versions -/

/-- The characters of a `std::string` up to its first NUL. -/
def cStr (s : String) : List Char := s.toList.takeWhile (· ≠ Char.ofNat 0)

def ulongMax : Nat := 2 ^ 64 - 1

def splitSign : List Char → Bool × List Char
  | '-' :: rest => (true, rest)
  | '+' :: rest => (false, rest)
  | text => (false, text)

def readDigits (digits : List Char) : Nat :=
  digits.foldl (fun n c => 10 * n + (c.toNat - 48)) 0

def clampUlong (negative : Bool) (magnitude : Nat) : Nat :=
  if ulongMax < magnitude then ulongMax
  else if negative then wordSub 64 0 magnitude
  else magnitude

/-- `strtoul` in base ten, with the text behind the number; without digits nothing is consumed. -/
def strtoul (text : List Char) : Nat × List Char :=
  let signed := splitSign (text.dropWhile isSpace)
  let digits := signed.2.takeWhile Char.isDigit
  if digits = [] then (0, text)
  else (clampUlong signed.1 (readDigits digits), signed.2.dropWhile Char.isDigit)

/-- The number at the front, and the text behind the next dot. -/
def nextVersionPart (version : List Char) : Nat × List Char :=
  ((strtoul version).1, ((strtoul version).2.dropWhile (· ≠ '.')).drop 1)

def compareLoop : Nat → List Char → List Char → Int
  | 0, _, _ => 0
  | fuel + 1, lhs, rhs =>
      if lhs = [] ∧ rhs = [] then 0
      else if (nextVersionPart lhs).1 ≠ (nextVersionPart rhs).1 then
        if (nextVersionPart lhs).1 < (nextVersionPart rhs).1 then -1 else 1
      else compareLoop fuel (nextVersionPart lhs).2 (nextVersionPart rhs).2

def skipV (version : List Char) : List Char :=
  if version.head? = some 'v' ∨ version.head? = some 'V' then version.drop 1 else version

/-- Every turn of the loop shortens a text that is not empty, so one turn for each character and
one more are enough. -/
def compareVersion (lhs rhs : String) : Int :=
  compareLoop ((cStr lhs).length + (cStr rhs).length + 1) (skipV (cStr lhs)) (skipV (cStr rhs))

private theorem length_splitSign (text : List Char) : (splitSign text).2.length ≤ text.length := by
  unfold splitSign
  split
  · exact Nat.le_succ _
  · exact Nat.le_succ _
  · exact Nat.le_refl _

private theorem length_strtoul (text : List Char) : (strtoul text).2.length ≤ text.length := by
  unfold strtoul
  dsimp only
  split
  · exact Nat.le_refl _
  · calc ((splitSign (text.dropWhile isSpace)).2.dropWhile Char.isDigit).length
        ≤ (splitSign (text.dropWhile isSpace)).2.length :=
          (List.dropWhile_suffix Char.isDigit).length_le
      _ ≤ (text.dropWhile isSpace).length := length_splitSign _
      _ ≤ text.length := (List.dropWhile_suffix isSpace).length_le

private theorem length_nextVersionPart {version : List Char} (hne : version ≠ []) :
    (nextVersionPart version).2.length < version.length := by
  have hpos := List.length_pos_of_ne_nil hne
  have hnumber := length_strtoul version
  have hdot := (List.dropWhile_suffix (· ≠ '.') (l := (strtoul version).2)).length_le
  rw [nextVersionPart, List.length_drop]
  omega

private theorem nextVersionPart_nil : nextVersionPart [] = (0, []) := rfl

theorem length_turn {lhs rhs : List Char} (hgoing : ¬(lhs = [] ∧ rhs = [])) :
    (nextVersionPart lhs).2.length + (nextVersionPart rhs).2.length < lhs.length + rhs.length := by
  by_cases hl : lhs = []
  · have hr := length_nextVersionPart (fun hr => hgoing ⟨hl, hr⟩)
    rw [hl, nextVersionPart_nil, List.length_nil]
    omega
  · have hl' := length_nextVersionPart hl
    by_cases hr : rhs = []
    · rw [hr, nextVersionPart_nil, List.length_nil]
      omega
    · have hr' := length_nextVersionPart hr
      omega

/-! ## The handler -/

def lowestVersion : String := "v0.7.0"

def checkVersion (root : HelloValue) : Except HelloError Bool :=
  match root.member "version" with
  | .error x => .error x
  | .ok version =>
      if version.toBool || version.isString then
        match version.asString with
        | .error x => .error x
        | .ok text => .ok (decide (¬compareVersion text lowestVersion < 0))
      else .ok true

/-- A time that is no string is passed over. -/
def readTime (root : HelloValue) (s : ProcessState) : Except HelloError ProcessState :=
  match root.member "time" with
  | .error x => .error x
  | .ok (.str text) =>
      match stoll text.toList with
      | none => .error .stoll
      | some time => .ok (s.setStartTime (time % 2 ^ 64).toNat)
  | .ok _ => .ok s

def answerHello (s : ProcessState) : Except HelloError ProcessState → Except HelloError Int × ProcessState
  | .error x => (.error x, s)
  | .ok s' => (.ok 0, s')

def readHello (root : HelloValue) (s : ProcessState) : Except HelloError Int × ProcessState :=
  match checkVersion root with
  | .error x => (.error x, s)
  | .ok false => (.ok (-1), s)
  | .ok true => answerHello s (readTime root s)

/-- `parseFromStream` gives the value it leaves in `root`, or the exception it throws. -/
def handleHelloMsg (parseFromStream : List UInt8 → Except HelloError HelloValue)
    (s : ProcessState) (body : List UInt8) : Except HelloError Int × ProcessState :=
  if s.ready then (.ok 0, s)
  else
    match parseFromStream body with
    | .error x => (.error x, s)
    | .ok root => readHello root s

/-- The handlers an agent registers for its connections. -/
def helloRoutes (parseFromStream : List UInt8 → Except HelloError HelloValue) :
    Int → Option (ThrowingHandler HelloError ProcessState) :=
  fun type => if type = 0 then some fun s _ body => handleHelloMsg parseFromStream s body else none

namespace HelloValue

def isContainer : HelloValue → Bool
  | .arr _ | .obj _ => true
  | _ => false

/-- A version that makes the agent give the connection up. -/
def TooOld (version : HelloValue) : Prop :=
  version.toBool = true ∧
    ∃ text, version.asString = .ok text ∧ compareVersion text lowestVersion < 0

/-- A text that begins with a number of 64 bits, or no text. -/
def ReadableTime : HelloValue → Prop
  | .str text => (stoll text.toList).isSome = true
  | _ => True

/-- The values that `HandleHelloMsg` gets through without an exception. -/
def Harmless : HelloValue → Prop
  | .null => True
  | .obj members =>
      isContainer ((members.lookup "version").getD .null) = false ∧
        (TooOld ((members.lookup "version").getD .null) ∨
          ReadableTime ((members.lookup "time").getD .null))
  | _ => False

private theorem asString_isOk_iff (v : HelloValue) : (∃ text, v.asString = .ok text) ↔
    v.isContainer = false := by
  cases v <;> simp [asString, isContainer]

end HelloValue

theorem checkVersion_obj (members : List (String × HelloValue)) :
    checkVersion (.obj members) =
      if ((members.lookup "version").getD .null).toBool then
        match ((members.lookup "version").getD .null).asString with
        | .error x => .error x
        | .ok text => .ok (decide (¬compareVersion text lowestVersion < 0))
      else .ok true := by
  rw [checkVersion, HelloValue.member]
  generalize (members.lookup "version").getD .null = version
  cases version <;> rfl

private theorem readTime_isOk_iff (members : List (String × HelloValue)) (s : ProcessState) :
    (∃ s', readTime (.obj members) s = .ok s') ↔
      ((members.lookup "time").getD .null).ReadableTime := by
  rw [readTime, HelloValue.member]
  generalize (members.lookup "time").getD .null = time
  cases time with
  | str text =>
    rw [HelloValue.ReadableTime]
    cases hnumber : stoll text.toList with
    | none => exact iff_of_false (by simp [hnumber]) (by simp)
    | some t => exact iff_of_true ⟨s.setStartTime (t % 2 ^ 64).toNat, by simp only [hnumber]⟩ rfl
  | _ => exact iff_of_true ⟨s, rfl⟩ trivial

private theorem answerHello_isOk_iff (s : ProcessState) (r : Except HelloError ProcessState) :
    (∃ ret, (answerHello s r).1 = .ok ret) ↔ ∃ s', r = .ok s' := by
  cases r with
  | error x => simp [answerHello]
  | ok s' => simp [answerHello]

private theorem readHello_isOk_iff (root : HelloValue) (s : ProcessState) :
    (∃ ret, (readHello root s).1 = .ok ret) ↔ root.Harmless := by
  cases root with
  | null => exact iff_of_true ⟨0, rfl⟩ trivial
  | obj members =>
    have htime := readTime_isOk_iff members s
    have hversion := checkVersion_obj members
    rw [HelloValue.Harmless]
    unfold readHello
    generalize (members.lookup "version").getD .null = version at hversion ⊢
    rw [← htime, HelloValue.TooOld]
    cases hbool : HelloValue.toBool version with
    | false =>
      rw [hbool] at hversion
      have hnull : HelloValue.isContainer version = false := by
        cases version with
        | null => rfl
        | _ => cases hbool
      simp only [hversion, hnull, Bool.false_eq_true, if_false, false_and, false_or, true_and]
      exact answerHello_isOk_iff s _
    | true =>
      rw [hbool, if_pos rfl] at hversion
      cases hstr : HelloValue.asString version with
      | error x =>
        have hcontainer : HelloValue.isContainer version ≠ false := by
          rw [ne_eq, ← HelloValue.asString_isOk_iff, hstr]
          simp
        simp [hversion, hstr, hcontainer]
      | ok text =>
        have hcontainer : HelloValue.isContainer version = false :=
          (HelloValue.asString_isOk_iff version).1 ⟨text, hstr⟩
        rw [hstr] at hversion
        by_cases hold : compareVersion text lowestVersion < 0
        · simp [hversion, hcontainer, hold]
        · simp only [hversion, hcontainer, hold, not_false_eq_true, decide_true, Except.ok.injEq,
            exists_eq_left', and_false, false_or, true_and]
          exact answerHello_isOk_iff s _
  | _ => exact iff_of_false (by rintro ⟨ret, h⟩; cases h) id

private theorem readHello_ret {root : HelloValue} {s : ProcessState} {ret : Int}
    (h : (readHello root s).1 = .ok ret) : ret = 0 ∨ ret = -1 := by
  unfold readHello at h
  split at h
  · cases h
  · cases h
    exact .inr rfl
  · unfold answerHello at h
    split at h
    · cases h
    · cases h
      exact .inl rfl

section Handler

variable {parseFromStream : List UInt8 → Except HelloError HelloValue}

/-- The bodies that a process in state `s` answers with 0 or -1. -/
def HarmlessBody (parseFromStream : List UInt8 → Except HelloError HelloValue) (s : ProcessState)
    (body : List UInt8) : Prop :=
  s.ready = true ∨ ∃ root, parseFromStream body = .ok root ∧ root.Harmless

theorem handleHelloMsg_isOk_iff (s : ProcessState) (body : List UInt8) :
    (∃ ret, (handleHelloMsg parseFromStream s body).1 = .ok ret) ↔
      HarmlessBody parseFromStream s body := by
  unfold handleHelloMsg HarmlessBody
  cases hready : s.ready with
  | true => simp
  | false =>
    cases hparse : parseFromStream body with
    | error x => simp
    | ok root => simpa using readHello_isOk_iff root s

theorem handleHelloMsg_ret {s : ProcessState} {body : List UInt8} {ret : Int}
    (h : (handleHelloMsg parseFromStream s body).1 = .ok ret) : ret = 0 ∨ ret = -1 := by
  unfold handleHelloMsg at h
  split at h
  · cases h
    exact .inl rfl
  · split at h
    · cases h
    · exact readHello_ret h

end Handler

end PinpointAgent.Agent
