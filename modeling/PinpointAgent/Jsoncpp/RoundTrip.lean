import PinpointAgent.Jsoncpp.Strings

/-!
# Values between the writer and the reader

What the writer makes of a value is read back by the reader: token after token, each item of an array and
each member of an object in turn. A number that was unsigned comes back signed if it is small enough, and a
value that is nested too deeply makes the reader throw.
-/

namespace PinpointAgent.Jsoncpp

open Framework

namespace Value

mutual

/-- Numbers of 64 bits, well-formed strings, and objects with increasing keys. Strings and keys are no longer than
jsoncpp holds them. -/
def Writable : Value → Prop
  | .null | .bool _ => True
  | .int n => -2 ^ 63 ≤ n ∧ n < 2 ^ 63
  | .uint n => n < 2 ^ 64
  | .real _ => False
  | .str s => (∃ text : String, s = utf8 text) ∧ s.length ≤ maxStringLength
  | .arr items => WritableItems items
  | .obj members => SortedMap.Sorted members ∧ WritableMembers members

def WritableItems : List Value → Prop
  | [] => True
  | v :: items => v.Writable ∧ WritableItems items

def WritableMembers : List (Bytes × Value) → Prop
  | [] => True
  | (key, v) :: members =>
    ((∃ text : String, key = utf8 text) ∧ key.length < keyLengthLimit) ∧ v.Writable ∧ WritableMembers members

end

mutual

def height : Value → Nat
  | .arr items => heightItems items + 1
  | .obj members => heightMembers members + 1
  | _ => 1

def heightItems : List Value → Nat
  | [] => 0
  | v :: items => max v.height (heightItems items)

def heightMembers : List (Bytes × Value) → Nat
  | [] => 0
  | (_, v) :: members => max v.height (heightMembers members)

end

mutual

def asRead : Value → Value
  | .uint n => if n ≤ maxLargestInt then .int n else .uint n
  | .arr items => .arr (asReadItems items)
  | .obj members => .obj (asReadMembers members)
  | .null => .null
  | .bool b => .bool b
  | .int n => .int n
  | .real text => .real text
  | .str s => .str s

def asReadItems : List Value → List Value
  | [] => []
  | v :: items => v.asRead :: asReadItems items

def asReadMembers : List (Bytes × Value) → List (Bytes × Value)
  | [] => []
  | (key, v) :: members => (key, v.asRead) :: asReadMembers members

end

theorem writableItems_iff (items : List Value) : WritableItems items ↔ ∀ v ∈ items, v.Writable := by
  induction items with
  | nil => simp [WritableItems]
  | cons v items ih => rw [WritableItems, ih, List.forall_mem_cons]

theorem writableMembers_iff (members : List (Bytes × Value)) : WritableMembers members ↔
    ∀ e ∈ members, ((∃ text : String, e.1 = utf8 text) ∧ e.1.length < keyLengthLimit) ∧ e.2.Writable := by
  induction members with
  | nil => simp [WritableMembers]
  | cons e members ih =>
    rw [WritableMembers, ih, List.forall_mem_cons]
    exact and_assoc.symm

theorem heightItems_le_iff (items : List Value) (n : Nat) :
    heightItems items ≤ n ↔ ∀ v ∈ items, v.height ≤ n := by
  induction items with
  | nil => simp [heightItems]
  | cons v items ih => rw [heightItems, Nat.max_le, ih, List.forall_mem_cons]

theorem heightMembers_le_iff (members : List (Bytes × Value)) (n : Nat) :
    heightMembers members ≤ n ↔ ∀ e ∈ members, e.2.height ≤ n := by
  induction members with
  | nil => simp [heightMembers]
  | cons e members ih => rw [heightMembers, Nat.max_le, ih, List.forall_mem_cons]

end Value

/-! ## Single tokens -/

def Ends (rest : Bytes) : Prop :=
  ∀ c ∈ rest.head?, c = ','.toUInt8 ∨ c = ']'.toUInt8 ∨ c = '\x7d'.toUInt8

private theorem skipSpaces_of_not_space {c : UInt8} (h : isSpace c = false) (text : Bytes) :
    skipSpaces (c :: text) = c :: text := by
  rw [skipSpaces, List.dropWhile_cons, h, if_neg Bool.false_ne_true]

private theorem readToken_of_scan {c : UInt8} {text front rest : Bytes} {type : TokenType} (hspace : isSpace c = false)
    (hscan : scanToken c text = (type, rest)) (hfront : c :: text = front ++ rest) :
    readToken (c :: text) = (⟨type, front⟩, rest) := by
  rw [readToken, skipSpaces_of_not_space hspace]
  simp only [hscan]
  rw [hfront, textBetween_append]

private theorem skipCommentTokens_of_ne {text : Bytes} (h : (readToken text).1.type ≠ .comment) :
    skipCommentTokens text = readToken text := by
  rw [skipCommentTokens]
  cases text.length with
  | zero => rfl
  | succ n => rw [skipCommentsWithin, if_neg h]

private theorem skipCommentTokens_of_readToken {text front rest : Bytes} {type : TokenType}
    (h : readToken text = (⟨type, front⟩, rest)) (hne : type ≠ .comment) :
    skipCommentTokens text = (⟨type, front⟩, rest) := by
  rw [skipCommentTokens_of_ne (by rw [h]; exact hne), h]

private theorem readToken_punctuation (rest : Bytes) :
    readToken ('['.toUInt8 :: rest) = (⟨.arrayBegin, ['['.toUInt8]⟩, rest) ∧
      readToken (']'.toUInt8 :: rest) = (⟨.arrayEnd, [']'.toUInt8]⟩, rest) ∧
      readToken ('\x7b'.toUInt8 :: rest) = (⟨.objectBegin, ['\x7b'.toUInt8]⟩, rest) ∧
      readToken ('\x7d'.toUInt8 :: rest) = (⟨.objectEnd, ['\x7d'.toUInt8]⟩, rest) ∧
      readToken (','.toUInt8 :: rest) = (⟨.arraySeparator, [','.toUInt8]⟩, rest) ∧
      readToken (':'.toUInt8 :: rest) = (⟨.memberSeparator, [':'.toUInt8]⟩, rest) :=
  ⟨readToken_of_scan rfl rfl rfl, readToken_of_scan rfl rfl rfl, readToken_of_scan rfl rfl rfl,
    readToken_of_scan rfl rfl rfl, readToken_of_scan rfl rfl rfl, readToken_of_scan rfl rfl rfl⟩

private theorem matchPattern_append (pattern rest : Bytes) : matchPattern pattern (pattern ++ rest) = (true, rest) := by
  rw [matchPattern, if_pos (List.prefix_append ..), List.drop_left]

private theorem readToken_word (rest : Bytes) :
    readToken (ascii "null" ++ rest) = (⟨.null, ascii "null"⟩, rest) ∧
      readToken (ascii "true" ++ rest) = (⟨.true, ascii "true"⟩, rest) ∧
      readToken (ascii "false" ++ rest) = (⟨.false, ascii "false"⟩, rest) := by
  have hword (c : UInt8) (pattern : Bytes) {type : TokenType} (hspace : isSpace c = false)
      (hscan : ∀ text, scanToken c text = tokenType type (matchPattern pattern text)) :
      readToken (c :: (pattern ++ rest)) = (⟨type, c :: pattern⟩, rest) := by
    refine readToken_of_scan hspace ?_ rfl
    rw [hscan, matchPattern_append]
    rfl
  exact ⟨hword 'n'.toUInt8 (ascii "ull") rfl fun _ => rfl, hword 't'.toUInt8 (ascii "rue") rfl fun _ => rfl,
    hword 'f'.toUInt8 (ascii "alse") rfl fun _ => rfl⟩

/-! ## Numbers -/

private theorem toNat_toUInt8_of_isDigit {c : Char} (h : c.isDigit = true) :
    c.toUInt8.toNat = c.toNat ∧ 48 ≤ c.toNat ∧ c.toNat ≤ 57 := by
  simp only [Char.isDigit, Bool.and_eq_true, decide_eq_true_eq, UInt32.le_iff_toNat_le] at h
  have hlow : 48 ≤ c.toNat := h.1
  have hhigh : c.toNat ≤ 57 := h.2
  refine ⟨?_, hlow, hhigh⟩
  show c.toNat % 256 = c.toNat
  omega

private theorem isDigit_toUInt8 {c : Char} (h : c.isDigit = true) : isDigit c.toUInt8 = true := by
  obtain ⟨heq, hlow, hhigh⟩ := toNat_toUInt8_of_isDigit h
  rw [isDigit, Bool.and_eq_true, decide_eq_true_eq, decide_eq_true_eq, UInt8.le_iff_toNat_le,
    UInt8.le_iff_toNat_le, heq]
  exact ⟨hlow, hhigh⟩

private theorem le_ofDigitChars (cs : List Char) (value : Nat) :
    value ≤ Nat.ofDigitChars 10 cs value ∧ (cs ≠ [] → 10 * value ≤ Nat.ofDigitChars 10 cs value) := by
  induction cs generalizing value with
  | nil => exact ⟨le_rfl, fun h => absurd rfl h⟩
  | cons c cs ih =>
    rw [Nat.ofDigitChars_cons]
    have hrest := (ih (10 * value + (c.toNat - '0'.toNat))).1
    exact ⟨by omega, fun _ => by omega⟩

private theorem decodeDigits_map {threshold maxLastDigit value : Nat} {cs : List Char} (hthreshold : 0 < threshold)
    (hlast : maxLastDigit < 10) (hdigits : ∀ c ∈ cs, c.isDigit = true)
    (hmax : Nat.ofDigitChars 10 cs value ≤ threshold * 10 + maxLastDigit) :
    decodeDigits threshold maxLastDigit value (cs.map Char.toUInt8) = some (Nat.ofDigitChars 10 cs value) := by
  induction cs generalizing value with
  | nil => rfl
  | cons c cs ih =>
    have hc := hdigits c List.mem_cons_self
    obtain ⟨heq, hlow, hhigh⟩ := toNat_toUInt8_of_isDigit hc
    rw [Nat.ofDigitChars_cons] at hmax ⊢
    have hzero : '0'.toNat = 48 := rfl
    rw [hzero] at hmax ⊢
    obtain ⟨hle, hten⟩ := le_ofDigitChars cs (10 * value + (c.toNat - 48))
    have hsmall : ¬(threshold ≤ value ∧
        (threshold < value ∨ cs.map Char.toUInt8 ≠ [] ∨ maxLastDigit < c.toNat - 48)) := by
      rintro ⟨hge, hlt | hne | hlt⟩
      · omega
      · have := hten (by simpa using hne)
        omega
      · omega
    rw [List.map_cons, decodeDigits, if_pos (isDigit_toUInt8 hc), heq, if_neg hsmall, Nat.mul_comm value]
    exact ih (fun d hd => hdigits d (List.mem_cons_of_mem _ hd)) hmax

private theorem isDigit_of_mem_uintToString {n : Nat} : ∀ c ∈ uintToString n, isDigit c = true := by
  intro c hc
  obtain ⟨d, hd, rfl⟩ := List.mem_map.1 hc
  exact isDigit_toUInt8 (Nat.isDigit_of_mem_toDigits (by decide) (by decide) hd)

private theorem uintToString_ne_nil (n : Nat) : uintToString n ≠ [] := by
  rw [uintToString, Ne, List.map_eq_nil_iff]
  exact Nat.toDigits_ne_nil

private theorem decodeDigits_uintToString {threshold maxLastDigit n : Nat} (hthreshold : 0 < threshold)
    (hlast : maxLastDigit < 10) (hmax : n ≤ threshold * 10 + maxLastDigit) :
    decodeDigits threshold maxLastDigit 0 (uintToString n) = some n := by
  have hvalue : Nat.ofDigitChars 10 (Nat.toDigits 10 n) 0 = n := Nat.ofDigitChars_toDigits (by decide) (by decide)
  rw [uintToString, decodeDigits_map hthreshold hlast
    (fun c hc => Nat.isDigit_of_mem_toDigits (by decide) (by decide) hc) (by rw [hvalue]; exact hmax), hvalue]

private theorem decodeNumber_uintToString (toDouble : Bytes → Option Bytes) {n : Nat} (h : n < 2 ^ 64) :
    decodeNumber toDouble (uintToString n) = some (Value.asRead (.uint n)) := by
  obtain ⟨c, cs, hcs⟩ := List.exists_cons_of_ne_nil (uintToString_ne_nil n)
  have hdigit : isDigit c = true := isDigit_of_mem_uintToString c (hcs ▸ List.mem_cons_self)
  have hsign : ¬(uintToString n).head? = some '-'.toUInt8 := by
    rw [hcs, List.head?_cons, Option.some.injEq]
    rintro rfl
    cases hdigit
  have hdecode : decodeDigits (maxLargestUInt / 10) (maxLargestUInt % 10) 0 (uintToString n) = some n :=
    decodeDigits_uintToString (by decide) (by decide) (by rw [maxLargestUInt]; omega)
  simp only [decodeNumber, hsign, if_false, hdecode]
  rw [Value.asRead]
  split <;> rfl

private theorem decodeNumber_intToString (toDouble : Bytes → Option Bytes) {n : Int} (hlow : -2 ^ 63 ≤ n)
    (hhigh : n < 2 ^ 63) : decodeNumber toDouble (intToString n) = some (.int n) := by
  rw [intToString]
  split
  · next hneg =>
    have hdecode : decodeDigits ((maxLargestInt + 1) / 10) ((maxLargestInt + 1) % 10) 0
        (uintToString n.natAbs) = some n.natAbs :=
      decodeDigits_uintToString (by decide) (by decide) (by rw [maxLargestInt]; omega)
    simp only [decodeNumber, List.head?_cons, if_true, List.tail_cons, hdecode]
    congr 2
    omega
  · rw [decodeNumber_uintToString toDouble (by omega), Value.asRead, if_pos (by rw [maxLargestInt]; omega)]
    congr 2
    omega

private theorem readNumber_digits {digits rest : Bytes} (checkInf : Bool) (hdigits : ∀ c ∈ digits, isDigit c = true)
    (hne : digits ≠ []) (hends : Ends rest) : readNumber checkInf (digits ++ rest) = (true, rest) := by
  have hhead (c : UInt8) (hc : c ∈ rest.head?) : isDigit c = false ∧ c ≠ '.'.toUInt8 ∧ c ≠ 'e'.toUInt8 ∧
      c ≠ 'E'.toUInt8 := by
    obtain rfl | rfl | rfl := hends c hc <;> decide
  have hdrop : (digits ++ rest).dropWhile isDigit = rest := by
    rw [List.dropWhile_append_of_pos hdigits]
    cases rest with
    | nil => rfl
    | cons c rest => rw [List.dropWhile_cons, (hhead c rfl).1, if_neg Bool.false_ne_true]
  have hfraction : skipFraction rest = rest := if_neg fun h => (hhead _ h).2.1 rfl
  have hexponent : skipExponent rest = rest :=
    if_neg fun h => h.elim (fun h => (hhead _ h).2.2.1 rfl) fun h => (hhead _ h).2.2.2 rfl
  have hinf : ¬(checkInf = true ∧ (digits ++ rest).head? = some 'I'.toUInt8) := by
    rintro ⟨-, hI⟩
    obtain ⟨c, digits, rfl⟩ := List.exists_cons_of_ne_nil hne
    obtain rfl := Option.some.inj hI
    cases hdigits _ List.mem_cons_self
  rw [readNumber, if_neg hinf, hdrop, hfraction, hexponent]

private theorem scanToken_digit {c : UInt8} (h : isDigit c = true) (text : Bytes) :
    isSpace c = false ∧ scanToken c text = (.number, (readNumber false text).2) := by
  have hne {d : UInt8} (hd : isDigit d = false) : c ≠ d := by
    rintro rfl
    cases h.symm.trans hd
  refine ⟨?_, ?_⟩
  · rw [isSpace, decide_eq_false (hne rfl), decide_eq_false (hne rfl), decide_eq_false (hne rfl),
      decide_eq_false (hne rfl)]
    rfl
  · rw [scanToken, if_neg (hne rfl), if_neg (hne rfl), if_neg (hne rfl), if_neg (hne rfl),
      if_neg (hne rfl), if_neg (hne rfl), if_pos h]

private theorem readToken_uintToString (n : Nat) {rest : Bytes} (hends : Ends rest) :
    readToken (uintToString n ++ rest) = (⟨.number, uintToString n⟩, rest) := by
  have hdigits := isDigit_of_mem_uintToString (n := n)
  obtain ⟨c, cs, hcs⟩ := List.exists_cons_of_ne_nil (uintToString_ne_nil n)
  rw [hcs] at hdigits ⊢
  obtain ⟨hspace, hscan⟩ := scanToken_digit (hdigits c List.mem_cons_self) (cs ++ rest)
  have hrest : (readNumber false (cs ++ rest)).2 = rest := by
    have hall := readNumber_digits false hdigits (List.cons_ne_nil c cs) hends
    have hfirst : readNumber false (c :: cs ++ rest) = readNumber false (cs ++ rest) := by
      rw [readNumber, readNumber, List.cons_append, List.dropWhile_cons, hdigits c List.mem_cons_self]
      simp
    rw [← hfirst, hall]
  rw [hrest] at hscan
  exact readToken_of_scan hspace hscan rfl

private theorem readToken_intToString (n : Int) {rest : Bytes} (hends : Ends rest) :
    readToken (intToString n ++ rest) = (⟨.number, intToString n⟩, rest) := by
  rw [intToString]
  split
  · refine readToken_of_scan rfl ?_ rfl
    show tokenType .number (readNumber true (uintToString n.natAbs ++ rest)) = _
    rw [readNumber_digits true isDigit_of_mem_uintToString (uintToString_ne_nil _) hends]
    rfl
  · exact readToken_uintToString n.natAbs hends

/-! ## Values -/

/-- A character that a value can begin with: no blank, no end of an array, no byte order mark. -/
def Begins (c : UInt8) : Prop := isSpace c = false ∧ c ≠ ']'.toUInt8 ∧ c ≠ 0xEF

private theorem Value.render_head {v : Value} (h : v.Writable) : ∃ c text, v.render = c :: text ∧ Begins c := by
  have hnumber (n : Nat) : ∃ c text, uintToString n = c :: text ∧ Begins c := by
    obtain ⟨c, text, htext⟩ := List.exists_cons_of_ne_nil (uintToString_ne_nil n)
    have hdigit : isDigit c = true := isDigit_of_mem_uintToString c (htext ▸ List.mem_cons_self)
    refine ⟨c, text, htext, (scanToken_digit hdigit []).1, ?_, ?_⟩
    · rintro rfl
      cases hdigit
    · rintro rfl
      cases hdigit
  cases v with
  | null => exact ⟨_, _, rfl, by decide, by decide, by decide⟩
  | bool b => cases b <;> exact ⟨_, _, rfl, by decide, by decide, by decide⟩
  | int n =>
    show ∃ c text, intToString n = c :: text ∧ _
    rw [intToString]
    split
    · exact ⟨_, _, rfl, by decide, by decide, by decide⟩
    · exact hnumber n.natAbs
  | uint n => exact hnumber n
  | real text => exact h.elim
  | str s => exact ⟨_, _, valueToQuotedStringN_eq s, by decide, by decide, by decide⟩
  | arr items => exact ⟨_, _, rfl, by decide, by decide, by decide⟩
  | obj members => exact ⟨_, _, rfl, by decide, by decide, by decide⟩

def Value.isContainer : Value → Bool
  | .arr _ | .obj _ => true
  | _ => false

/-- What the reader answers for a value of that height on a stack of that depth. -/
def outcome (depth height : Nat) (r : Read) : Except Thrown Read :=
  if depth + height ≤ stackLimit + 1 then .ok r else .error .stackLimit

section Outcome

variable {depth height height' : Nat} {r : Read}

private theorem outcome_of_le (h : depth + height ≤ stackLimit + 1) : outcome depth height r = .ok r := if_pos h

private theorem outcome_of_lt (h : stackLimit + 1 < depth + height) : outcome depth height r = .error .stackLimit :=
  if_neg (Nat.not_le.2 h)

private theorem outcome_max_of_le (h : depth + height ≤ stackLimit + 1) :
    outcome depth (max height height') r = outcome depth height' r := by
  rw [outcome, outcome]
  exact if_congr (by omega) rfl rfl

end Outcome

private theorem ends_nil : Ends [] := by
  rintro c ⟨⟩

private theorem ends_comma (rest : Bytes) : Ends (','.toUInt8 :: rest) := by
  rintro c ⟨⟩
  exact .inl rfl

private theorem ends_arrayEnd (rest : Bytes) : Ends (']'.toUInt8 :: rest) := by
  rintro c ⟨⟩
  exact .inr (.inl rfl)

private theorem ends_objectEnd (rest : Bytes) : Ends ('\x7d'.toUInt8 :: rest) := by
  rintro c ⟨⟩
  exact .inr (.inr rfl)

section Values

variable (toDouble : Bytes → Option Bytes)

private theorem readValue_deep {depth : Nat} (fuel : Nat) (current : Value) (text : Bytes) (h : stackLimit < depth) :
    readValue toDouble (fuel + 1) depth current text = .error .stackLimit := by
  rw [readValue, if_pos h]

private theorem readValue_scalar {v : Value} (hv : v.Writable) (hscalar : v.isContainer = false) {rest : Bytes}
    (hends : Ends rest) (fuel depth : Nat) (current : Value) :
    readValue toDouble (fuel + 1) depth current (v.render ++ rest) =
      outcome depth 1 ⟨true, v.asRead, rest⟩ := by
  rw [outcome]
  split
  · next hdepth =>
    have hshallow : ¬stackLimit < depth := by omega
    cases v with
    | null =>
      have htoken := skipCommentTokens_of_readToken (readToken_word rest).1 (by decide)
      rw [readValue, if_neg hshallow, Value.render, Value.leafText, htoken]
      rfl
    | bool b =>
      cases b with
      | true =>
        have htoken := skipCommentTokens_of_readToken (readToken_word rest).2.1 (by decide)
        rw [readValue, if_neg hshallow, Value.render, Value.leafText, if_pos rfl, htoken]
        rfl
      | false =>
        have htoken := skipCommentTokens_of_readToken (readToken_word rest).2.2 (by decide)
        rw [readValue, if_neg hshallow, Value.render, Value.leafText, if_neg Bool.false_ne_true, htoken]
        rfl
    | int n =>
      have htoken := skipCommentTokens_of_readToken (readToken_intToString n hends) (by decide)
      rw [readValue, if_neg hshallow, Value.render, Value.leafText, htoken]
      simp only [decodeNumber_intToString toDouble hv.1 hv.2]
      rfl
    | uint n =>
      have htoken := skipCommentTokens_of_readToken (readToken_uintToString n hends) (by decide)
      rw [readValue, if_neg hshallow, Value.render, Value.leafText, htoken]
      simp only [decodeNumber_uintToString toDouble hv]
      rfl
    | real text => exact hv.elim
    | str s =>
      obtain ⟨⟨text, rfl⟩, hlength⟩ := hv
      have htoken := skipCommentTokens_of_readToken (readToken_quoted (utf8 text) rest) (by decide)
      rw [readValue, if_neg hshallow, Value.render, Value.leafText, htoken]
      simp only [decodeString_valueToQuotedStringN, readBack_utf8]
      exact if_neg (Nat.not_lt.2 hlength)
    | arr items => cases hscalar
    | obj members => cases hscalar
  · exact readValue_deep toDouble _ current _ (by omega)

/-! ### Arrays -/

private theorem readValue_array {depth : Nat} (h : depth ≤ stackLimit) (fuel : Nat) (current : Value) (text : Bytes) :
    readValue toDouble (fuel + 1) depth current ('['.toUInt8 :: text) = readArray toDouble fuel depth [] text := by
  rw [readValue, if_neg (by omega), skipCommentTokens_of_readToken (readToken_punctuation text).1 (by decide)]

private theorem readArray_end (fuel depth : Nat) (items : List Value) (rest : Bytes) :
    readArray toDouble (fuel + 1) depth items (']'.toUInt8 :: rest) = .ok ⟨true, .arr items, rest⟩ := by
  rw [readArray]
  exact if_pos rfl

section Item

variable {fuel depth : Nat} {items : List Value} {c : UInt8} {text rest : Bytes} {value : Value} {x : Thrown}

private theorem readArray_item (hc : Begins c)
    (hread : readValue toDouble fuel (depth + 1) .null (c :: text) = .ok ⟨true, value, ','.toUInt8 :: rest⟩) :
    readArray toDouble (fuel + 1) depth items (c :: text) =
      readArray toDouble fuel depth (items ++ [value]) rest := by
  have hcomma := skipCommentTokens_of_readToken (readToken_punctuation rest).2.2.2.2.1 (by decide)
  rw [readArray, skipSpaces_of_not_space hc.1, if_neg (by simpa using hc.2.1), hread]
  simp only [hcomma]

private theorem readArray_last (hc : Begins c)
    (hread : readValue toDouble fuel (depth + 1) .null (c :: text) = .ok ⟨true, value, ']'.toUInt8 :: rest⟩) :
    readArray toDouble (fuel + 1) depth items (c :: text) = .ok ⟨true, .arr (items ++ [value]), rest⟩ := by
  have hend := skipCommentTokens_of_readToken (readToken_punctuation rest).2.1 (by decide)
  rw [readArray, skipSpaces_of_not_space hc.1, if_neg (by simpa using hc.2.1), hread]
  simp only [hend]

private theorem readArray_thrown (hc : Begins c)
    (hread : readValue toDouble fuel (depth + 1) .null (c :: text) = .error x) :
    readArray toDouble (fuel + 1) depth items (c :: text) = .error x := by
  rw [readArray, skipSpaces_of_not_space hc.1, if_neg (by simpa using hc.2.1), hread]

end Item

/-! ### Objects -/

private theorem readValue_object {depth : Nat} (h : depth ≤ stackLimit) (fuel : Nat) (current : Value) (text : Bytes) :
    readValue toDouble (fuel + 1) depth current ('\x7b'.toUInt8 :: text) =
      readObject toDouble fuel depth [] text := by
  rw [readValue, if_neg (by omega), skipCommentTokens_of_readToken (readToken_punctuation text).2.2.1 (by decide)]

private theorem readObject_end (fuel depth : Nat) (members : List (Bytes × Value)) (rest : Bytes) :
    readObject toDouble (fuel + 1) depth members ('\x7d'.toUInt8 :: rest) = .ok ⟨true, .obj members, rest⟩ := by
  rw [readObject, skipCommentTokens_of_readToken (readToken_punctuation rest).2.2.2.1 (by decide)]

private theorem readComma_end (fuel depth : Nat) (members : List (Bytes × Value)) (rest : Bytes) :
    readComma toDouble (fuel + 1) depth members ('\x7d'.toUInt8 :: rest) = .ok ⟨true, .obj members, rest⟩ := by
  rw [readComma, (readToken_punctuation rest).2.2.2.1]

private theorem readComma_comma (fuel depth : Nat) (members : List (Bytes × Value)) (rest : Bytes) :
    readComma toDouble (fuel + 1) depth members (','.toUInt8 :: rest) =
      readObject toDouble fuel depth members rest := by
  rw [readComma, (readToken_punctuation rest).2.2.2.2.1]

section Member

variable {fuel depth : Nat} {members : List (Bytes × Value)} {text rest : Bytes} {value : Value} {x : Thrown}

private theorem readObject_member {name : String} (hname : (utf8 name).length < keyLengthLimit) (hread : readValue toDouble fuel (depth + 1) (memberOf members (utf8 name)) text =
      .ok ⟨true, value, rest⟩) :
    readObject toDouble (fuel + 1) depth members
        (valueToQuotedStringN (utf8 name) ++ ':'.toUInt8 :: text) =
      readComma toDouble fuel depth (SortedMap.insert members (utf8 name) value) rest := by
  have htoken := skipCommentTokens_of_readToken
    (readToken_quoted (utf8 name) (':'.toUInt8 :: text)) (by decide)
  rw [readObject, htoken]
  simp only [decodeString_valueToQuotedStringN, readBack_utf8, if_neg (Nat.not_le.2 hname),
    (readToken_punctuation text).2.2.2.2.2, hread, if_true]

private theorem readObject_thrown {name : String} (hname : (utf8 name).length < keyLengthLimit) (hread : readValue toDouble fuel (depth + 1) (memberOf members (utf8 name)) text =
      .error x) :
    readObject toDouble (fuel + 1) depth members
        (valueToQuotedStringN (utf8 name) ++ ':'.toUInt8 :: text) = .error x := by
  have htoken := skipCommentTokens_of_readToken
    (readToken_quoted (utf8 name) (':'.toUInt8 :: text)) (by decide)
  rw [readObject, htoken]
  simp only [decodeString_valueToQuotedStringN, readBack_utf8, if_neg (Nat.not_le.2 hname),
    (readToken_punctuation text).2.2.2.2.2, hread, if_true]

end Member

/-! ### The whole text -/

private theorem renderItems_singleton (v : Value) : Value.renderItems [v] = v.render := by simp [Value.renderItems]

private theorem renderItems_cons_cons (v u : Value) (items : List Value) :
    Value.renderItems (v :: u :: items) = v.render ++ ','.toUInt8 :: Value.renderItems (u :: items) := by
  rw [Value.renderItems]
  simp

private theorem renderMembers_singleton (key : Bytes) (v : Value) :
    Value.renderMembers [(key, v)] = valueToQuotedStringN key ++ ':'.toUInt8 :: v.render := by
  simp [Value.renderMembers]

private theorem renderMembers_cons_cons (key : Bytes) (v : Value) (member : Bytes × Value)
    (members : List (Bytes × Value)) :
    Value.renderMembers ((key, v) :: member :: members) =
      valueToQuotedStringN key ++ ':'.toUInt8 :: (v.render ++ ','.toUInt8 :: Value.renderMembers (member :: members)) := by
  rw [Value.renderMembers]
  simp

mutual

private theorem readValue_render (v : Value) (hv : v.Writable) {rest : Bytes} (hends : Ends rest) (fuel : Nat)
    (hfuel : 2 * v.render.length ≤ fuel) (depth : Nat) (current : Value) :
    readValue toDouble fuel depth current (v.render ++ rest) =
      outcome depth v.height ⟨true, v.asRead, rest⟩ := by
  obtain ⟨c, text, hhead, -⟩ := Value.render_head hv
  obtain ⟨fuel, rfl⟩ : ∃ n, fuel = n + 1 := ⟨fuel - 1, by rw [hhead, List.length_cons] at hfuel; omega⟩
  by_cases hdeep : stackLimit < depth
  · have hpos : 1 ≤ v.height := by cases v <;> simp [Value.height]
    rw [readValue_deep toDouble fuel current _ hdeep, outcome_of_lt (by omega)]
  · cases v with
    | arr items =>
      have htext : Value.render (.arr items) ++ rest =
          '['.toUInt8 :: (Value.renderItems items ++ ']'.toUInt8 :: rest) := by simp [Value.render]
      have hlen : (Value.render (.arr items)).length = (Value.renderItems items).length + 2 := by
        simp [Value.render]
      rw [htext, readValue_array toDouble (by omega),
        readArray_render items hv [] rest fuel (by omega) (by omega), Value.height, Value.asRead, outcome, outcome]
      exact if_congr (by omega) rfl rfl
    | obj members =>
      have htext : Value.render (.obj members) ++ rest =
          '\x7b'.toUInt8 :: (Value.renderMembers members ++ '\x7d'.toUInt8 :: rest) := by simp [Value.render]
      have hlen : (Value.render (.obj members)).length = (Value.renderMembers members).length + 2 := by
        simp [Value.render]
      rw [htext, readValue_object toDouble (by omega),
        readObject_render members hv.1 hv.2 [] (by simp) rest fuel (by omega) (by omega), Value.height,
        Value.asRead, outcome, outcome]
      exact if_congr (by omega) rfl rfl
    | _ => exact readValue_scalar toDouble hv rfl hends fuel depth current

theorem readArray_render (items : List Value) (hitems : Value.WritableItems items) (front : List Value)
    (rest : Bytes) (fuel : Nat) (hfuel : 2 * (Value.renderItems items).length + 1 ≤ fuel) {depth : Nat}
    (hdepth : depth ≤ stackLimit) :
    readArray toDouble fuel depth front (Value.renderItems items ++ ']'.toUInt8 :: rest) =
      outcome (depth + 1) (Value.heightItems items) ⟨true, .arr (front ++ Value.asReadItems items), rest⟩ := by
  obtain ⟨fuel, rfl⟩ : ∃ n, fuel = n + 1 := ⟨fuel - 1, by omega⟩
  cases items with
  | nil =>
    rw [Value.asReadItems, List.append_nil, outcome_of_le (by rw [Value.heightItems]; omega)]
    exact readArray_end toDouble fuel depth front rest
  | cons v items =>
    obtain ⟨c, text, hhead, hc⟩ := Value.render_head hitems.1
    rw [Value.heightItems, Value.asReadItems]
    cases items with
    | nil =>
      rw [renderItems_singleton] at hfuel ⊢
      have hread := readValue_render v hitems.1 (ends_arrayEnd rest) fuel (by omega) (depth + 1) .null
      rw [hhead, List.cons_append] at hread ⊢
      rw [Value.heightItems, Nat.max_zero]
      by_cases hfits : depth + 1 + v.height ≤ stackLimit + 1
      · rw [outcome_of_le hfits] at hread ⊢
        exact readArray_last toDouble hc hread
      · rw [outcome_of_lt (by omega)] at hread ⊢
        exact readArray_thrown toDouble hc hread
    | cons u items =>
      rw [renderItems_cons_cons] at hfuel ⊢
      rw [List.length_append, List.length_cons] at hfuel
      have hread := readValue_render v hitems.1
        (ends_comma (Value.renderItems (u :: items) ++ ']'.toUInt8 :: rest)) fuel (by omega) (depth + 1) .null
      have hrest := readArray_render (u :: items) hitems.2 (front ++ [v.asRead]) rest fuel (by omega) hdepth
      rw [List.append_assoc, List.cons_append]
      rw [hhead, List.cons_append] at hread ⊢
      by_cases hfits : depth + 1 + v.height ≤ stackLimit + 1
      · rw [outcome_of_le hfits] at hread
        rw [readArray_item toDouble hc hread, hrest, outcome_max_of_le hfits, List.append_assoc]
        rfl
      · rw [outcome_of_lt (by omega)] at hread ⊢
        exact readArray_thrown toDouble hc hread

theorem readObject_render (members : List (Bytes × Value)) (hsorted : SortedMap.Sorted members)
    (hmembers : Value.WritableMembers members) (front : List (Bytes × Value))
    (hfront : ∀ a ∈ front, ∀ b ∈ members, a.1 < b.1) (rest : Bytes) (fuel : Nat)
    (hfuel : 2 * (Value.renderMembers members).length + 1 ≤ fuel) {depth : Nat} (hdepth : depth ≤ stackLimit) :
    readObject toDouble fuel depth front (Value.renderMembers members ++ '\x7d'.toUInt8 :: rest) =
      outcome (depth + 1) (Value.heightMembers members)
        ⟨true, .obj (front ++ Value.asReadMembers members), rest⟩ := by
  obtain ⟨fuel, rfl⟩ : ∃ n, fuel = n + 1 := ⟨fuel - 1, by omega⟩
  cases members with
  | nil =>
    rw [Value.asReadMembers, List.append_nil, outcome_of_le (by rw [Value.heightMembers]; omega)]
    exact readObject_end toDouble fuel depth front rest
  | cons member members =>
    obtain ⟨key, v⟩ := member
    obtain ⟨⟨⟨name, rfl⟩, hname⟩, hv, hmembers⟩ := hmembers
    obtain ⟨hkey, hsorted⟩ := List.pairwise_cons.1 hsorted
    -- the keys come in order, so each member goes to the end
    have hinsert : SortedMap.insert front (utf8 name) v.asRead = front ++ [(utf8 name, v.asRead)] :=
      SortedMap.insert_of_lt fun a ha => hfront a ha _ List.mem_cons_self
    have hquote : 1 ≤ (valueToQuotedStringN (utf8 name)).length := by simp [valueToQuotedStringN_eq]
    rw [Value.heightMembers, Value.asReadMembers]
    cases members with
    | nil =>
      rw [renderMembers_singleton] at hfuel ⊢
      rw [List.length_append, List.length_cons] at hfuel
      have hread := readValue_render v hv (ends_objectEnd rest) fuel (by omega) (depth + 1)
        (memberOf front (utf8 name))
      rw [List.append_assoc, List.cons_append, Value.heightMembers, Nat.max_zero]
      by_cases hfits : depth + 1 + v.height ≤ stackLimit + 1
      · rw [outcome_of_le hfits] at hread ⊢
        obtain ⟨fuel, rfl⟩ : ∃ n, fuel = n + 1 := ⟨fuel - 1, by omega⟩
        rw [readObject_member toDouble hname hread, hinsert]
        exact readComma_end toDouble fuel depth _ rest
      · rw [outcome_of_lt (by omega)] at hread ⊢
        exact readObject_thrown toDouble hname hread
    | cons member members =>
      rw [renderMembers_cons_cons] at hfuel ⊢
      rw [List.length_append, List.length_cons, List.length_append, List.length_cons] at hfuel
      have hread := readValue_render v hv
        (ends_comma (Value.renderMembers (member :: members) ++ '\x7d'.toUInt8 :: rest)) fuel (by omega) (depth + 1)
        (memberOf front (utf8 name))
      rw [List.append_assoc, List.cons_append, List.append_assoc, List.cons_append]
      by_cases hfits : depth + 1 + v.height ≤ stackLimit + 1
      · rw [outcome_of_le hfits] at hread
        obtain ⟨fuel, rfl⟩ : ∃ n, fuel = n + 1 := ⟨fuel - 1, by omega⟩
        have hfront' : ∀ a ∈ front ++ [(utf8 name, v.asRead)], ∀ b ∈ member :: members, a.1 < b.1 := by
          intro a ha b hb
          obtain ha | ha := List.mem_append.1 ha
          · exact hfront a ha b (List.mem_cons_of_mem _ hb)
          · rw [List.mem_singleton.1 ha]
            exact hkey b hb
        have hrest := readObject_render (member :: members) hsorted hmembers
          (front ++ [(utf8 name, v.asRead)]) hfront' rest fuel (by omega) hdepth
        rw [readObject_member toDouble hname hread, hinsert, readComma_comma, hrest, outcome_max_of_le hfits,
          List.append_assoc]
        rfl
      · rw [outcome_of_lt (by omega)] at hread ⊢
        exact readObject_thrown toDouble hname hread

end

theorem parse_write {v : Value} (hv : v.Writable) :
    parse toDouble (NodeTreeWriter.write v) =
      if v.height ≤ stackLimit then .ok (true, v.asRead) else .error .stackLimit := by
  obtain ⟨c, text, hhead, hc⟩ := Value.render_head hv
  have hbom : skipBom v.render = v.render := by
    refine if_neg fun hprefix => ?_
    rw [hhead, List.cons_prefix_cons] at hprefix
    exact hc.2.2 hprefix.1.symm
  have hread := readValue_render toDouble v hv ends_nil (2 * v.render.length + 1)
    (by omega) 1 .null
  rw [List.append_nil] at hread
  rw [NodeTreeWriter.write_eq_render, parse, hbom, hread, outcome]
  split
  · rw [if_pos (by omega)]
    rfl
  · rw [if_neg (by omega)]
    rfl

end Values

/-! ## The characters of a text -/

section Printable

private theorem printable_uintToString (value : Nat) : ∀ c ∈ uintToString value, 0x20 ≤ c ∧ c ≤ 0x7F := by
  refine List.forall_mem_map.2 fun c hc => ?_
  obtain ⟨htoNat, hlow, hhigh⟩ := toNat_toUInt8_of_isDigit (Nat.isDigit_of_mem_toDigits (by decide) (by decide) hc)
  rw [UInt8.le_iff_toNat_le, UInt8.le_iff_toNat_le, htoNat]
  exact ⟨show 32 ≤ c.toNat by omega, show c.toNat ≤ 127 by omega⟩

private theorem printable_separator (last : Bool) :
    ∀ c ∈ (if last then [] else [','.toUInt8] : Bytes), 0x20 ≤ c ∧ c ≤ 0x7F := by
  cases last <;> exact printable_of_all (by decide)

mutual

theorem printable_render {v : Value} (hv : v.Writable) : ∀ c ∈ v.render, 0x20 ≤ c ∧ c ≤ 0x7F := by
  cases v with
  | null => exact printable_of_all (by decide)
  | bool b => cases b <;> exact printable_of_all (by decide)
  | int n =>
    show ∀ c ∈ intToString n, 0x20 ≤ c ∧ c ≤ 0x7F
    unfold intToString
    split
    · exact List.forall_mem_cons.2 ⟨by decide, printable_uintToString _⟩
    · exact printable_uintToString _
  | uint n => exact printable_uintToString n
  | real text => exact hv.elim
  | str s => exact printable_valueToQuotedStringN s
  | arr items =>
    rw [Value.render, List.forall_mem_append, List.forall_mem_cons]
    exact ⟨⟨by decide, printable_renderItems hv⟩, printable_of_all (by decide)⟩
  | obj members =>
    rw [Value.render, List.forall_mem_append, List.forall_mem_cons]
    exact ⟨⟨by decide, printable_renderMembers hv.2⟩, printable_of_all (by decide)⟩

theorem printable_renderItems {items : List Value} (hitems : Value.WritableItems items) :
    ∀ c ∈ Value.renderItems items, 0x20 ≤ c ∧ c ≤ 0x7F := by
  cases items with
  | nil => exact fun c hc => absurd hc List.not_mem_nil
  | cons v items =>
    rw [Value.renderItems, List.forall_mem_append, List.forall_mem_append]
    exact ⟨⟨printable_render hitems.1, printable_separator _⟩, printable_renderItems hitems.2⟩

theorem printable_renderMembers {members : List (Bytes × Value)} (hmembers : Value.WritableMembers members) :
    ∀ c ∈ Value.renderMembers members, 0x20 ≤ c ∧ c ≤ 0x7F := by
  cases members with
  | nil => exact fun c hc => absurd hc List.not_mem_nil
  | cons e members =>
    obtain ⟨key, v⟩ := e
    obtain ⟨-, hv, hrest⟩ := hmembers
    rw [Value.renderMembers, List.forall_mem_append, List.forall_mem_append, List.forall_mem_append,
      List.forall_mem_cons]
    exact ⟨⟨⟨printable_valueToQuotedStringN key, by decide, printable_render hv⟩, printable_separator _⟩,
      printable_renderMembers hrest⟩

end

end Printable

section AsRead

theorem lookup_asReadMembers (members : List (Bytes × Value)) (key : Bytes) :
    (Value.asReadMembers members).lookup key = (members.lookup key).map Value.asRead := by
  induction members with
  | nil => rfl
  | cons e members ih =>
    obtain ⟨k, v⟩ := e
    rw [Value.asReadMembers, List.lookup_cons, List.lookup_cons, ih]
    cases key == k <;> rfl

private theorem isEmpty_asReadItems (items : List Value) : (Value.asReadItems items).isEmpty = items.isEmpty := by
  cases items <;> rfl

private theorem isEmpty_asReadMembers (members : List (Bytes × Value)) :
    (Value.asReadMembers members).isEmpty = members.isEmpty := by
  cases members <;> rfl

mutual

private theorem render_asRead (v : Value) : v.asRead.render = v.render := by
  cases v with
  | null | bool | int | real | str => rfl
  | uint n =>
    rw [Value.asRead]
    split
    · show intToString n = uintToString n
      rw [intToString, if_neg (by omega), Int.natAbs_natCast]
    · rfl
  | arr items => rw [Value.asRead, Value.render, Value.render, renderItems_asReadItems]
  | obj members => rw [Value.asRead, Value.render, Value.render, renderMembers_asReadMembers]

theorem renderItems_asReadItems (items : List Value) :
    Value.renderItems (Value.asReadItems items) = Value.renderItems items := by
  cases items with
  | nil => rfl
  | cons v items =>
    rw [Value.asReadItems, Value.renderItems, Value.renderItems, render_asRead, isEmpty_asReadItems,
      renderItems_asReadItems]

theorem renderMembers_asReadMembers (members : List (Bytes × Value)) :
    Value.renderMembers (Value.asReadMembers members) = Value.renderMembers members := by
  cases members with
  | nil => rfl
  | cons e members =>
    obtain ⟨key, v⟩ := e
    rw [Value.asReadMembers, Value.renderMembers, Value.renderMembers, render_asRead, isEmpty_asReadMembers,
      renderMembers_asReadMembers]

end

end AsRead

/-- The text of a value is ASCII without control characters below the blank. It is read back, and what was
read has the same text; only a value that is nested in more than `stackLimit` levels makes the reader
throw. -/
theorem written_value_reads_back (toDouble : Bytes → Option Bytes) {v : Value} (hv : v.Writable) :
    (∀ c ∈ NodeTreeWriter.write v, 0x20 ≤ c ∧ c ≤ 0x7F) ∧
      (v.height ≤ stackLimit → parse toDouble (NodeTreeWriter.write v) = .ok (true, v.asRead)) ∧
      (stackLimit < v.height → parse toDouble (NodeTreeWriter.write v) = .error .stackLimit) ∧
      NodeTreeWriter.write v.asRead = NodeTreeWriter.write v := by
  refine ⟨?_, ?_, ?_, ?_⟩
  · rw [NodeTreeWriter.write_eq_render]
    exact printable_render hv
  · intro hheight
    rw [parse_write toDouble hv, if_pos hheight]
  · intro hheight
    rw [parse_write toDouble hv, if_neg (Nat.not_le.2 hheight)]
  · rw [NodeTreeWriter.write_eq_render, NodeTreeWriter.write_eq_render, render_asRead]

theorem written_value_reads_back_nested :
    let v : Value := .obj [(utf8 "event", .arr [.uint 18446744073709551615, .int (-1), .str (utf8 "\"\u00e9")])]
    v.Writable ∧ parse some (NodeTreeWriter.write v) = .ok (true, v.asRead) := by
  intro v
  have hv : v.Writable :=
    ⟨List.pairwise_singleton .., ⟨⟨"event", rfl⟩, by decide⟩,
      ⟨show 18446744073709551615 < 2 ^ 64 by decide, ⟨by decide, by decide⟩, ⟨⟨"\"\u00e9", rfl⟩, by decide⟩, trivial⟩,
      trivial⟩
  exact ⟨hv, (written_value_reads_back some hv).2.1 (by decide)⟩

end PinpointAgent.Jsoncpp
