import PinpointAgent.Jsoncpp.RoundTrip

/-!
# Reading any text

A collector can send any bytes. The reader comes to an end on all of them: every turn of its loops takes a
token, also of the loop that looks for a place to go on after an error. Every level of nesting takes an opening
bracket, and what is decoded is no longer than its token, so that the reader throws only on a text with very many
brackets or a very long one. What it accepts is a value it would read again from the text that the writer makes of it.
-/

namespace PinpointAgent.Jsoncpp

open Framework

def isOpening (c : UInt8) : Bool := c = '['.toUInt8 || c = '\x7b'.toUInt8

def openings (text : Bytes) : Nat := text.countP isOpening

private theorem openings_le_of_suffix {rest text : Bytes} (h : rest <:+ text) : openings rest ≤ openings text :=
  h.sublist.countP_le

/-! ## Tokens -/

section Tokens

variable {text rest : Bytes}

private theorem suffix_readCStyleComment (text : Bytes) : (readCStyleComment text).2 <:+ text := by
  induction text with
  | nil => exact List.suffix_refl _
  | cons c text ih =>
    cases text with
    | nil => exact List.nil_suffix
    | cons d text =>
      rw [readCStyleComment]
      split
      · exact (List.suffix_cons d text).trans (List.suffix_cons c _)
      · exact ih.trans (List.suffix_cons c _)

private theorem suffix_readCppStyleComment (text : Bytes) : (readCppStyleComment text).2 <:+ text := by
  induction text with
  | nil => exact List.suffix_refl _
  | cons c text ih =>
    rw [readCppStyleComment]
    split
    · exact List.suffix_cons c text
    · split
      · show (if text.head? = some 10 then text.tail else text) <:+ c :: text
        split
        · exact (List.tail_suffix text).trans (List.suffix_cons c text)
        · exact List.suffix_cons c text
      · exact ih.trans (List.suffix_cons c text)

private theorem suffix_readComment (text : Bytes) : (readComment text).2 <:+ text := by
  cases text with
  | nil => exact List.suffix_refl _
  | cons c text =>
    rw [readComment]
    split
    · exact (suffix_readCStyleComment text).trans (List.suffix_cons c text)
    · split
      · exact (suffix_readCppStyleComment text).trans (List.suffix_cons c text)
      · exact List.suffix_cons c text

private theorem suffix_readNumber (checkInf : Bool) (text : Bytes) : (readNumber checkInf text).2 <:+ text := by
  have hfraction (text : Bytes) : skipFraction text <:+ text := by
    unfold skipFraction
    split
    · exact (List.dropWhile_suffix _).trans (List.tail_suffix text)
    · exact List.suffix_refl _
  have hexponent (text : Bytes) : skipExponent text <:+ text := by
    unfold skipExponent
    split
    · split
      · exact (List.dropWhile_suffix _).trans ((List.tail_suffix _).trans (List.tail_suffix text))
      · exact (List.dropWhile_suffix _).trans (List.tail_suffix text)
    · exact List.suffix_refl _
  unfold readNumber
  split
  · exact List.tail_suffix text
  · exact (hexponent _).trans ((hfraction _).trans (List.dropWhile_suffix _))

private theorem suffix_readString (text : Bytes) : (readString text).2 <:+ text := by
  fun_induction readString text with
  | case1 => exact List.suffix_refl _
  | case2 => exact List.nil_suffix
  | case3 d text ih => exact ih.trans ((List.suffix_cons d text).trans (List.suffix_cons _ _))
  | case4 => exact List.suffix_cons ..
  | case5 c text _ _ ih => exact ih.trans (List.suffix_cons c text)

private theorem suffix_matchPattern (pattern text : Bytes) : (matchPattern pattern text).2 <:+ text := by
  unfold matchPattern
  split
  · exact List.drop_suffix ..
  · exact List.suffix_refl _

/-- What is behind a token, and the brackets among the tokens. -/
structure Scanned (c : UInt8) (text : Bytes) (r : TokenType × Bytes) : Prop where
  suffix : r.2 <:+ text
  opening : r.1 = .objectBegin ∨ r.1 = .arrayBegin → isOpening c = true

private theorem scanned_of_ne {c : UInt8} {type : TokenType} (hsuffix : rest <:+ text) (hobject : type ≠ .objectBegin)
    (harray : type ≠ .arrayBegin) : Scanned c text (type, rest) :=
  ⟨hsuffix, fun h => absurd h (not_or.2 ⟨hobject, harray⟩)⟩

private theorem scanned_tokenType {c : UInt8} {type : TokenType} {r : Bool × Bytes} (hsuffix : r.2 <:+ text)
    (hobject : type ≠ .objectBegin) (harray : type ≠ .arrayBegin) : Scanned c text (tokenType type r) := by
  obtain ⟨ok, rest⟩ := r
  cases ok with
  | true => exact scanned_of_ne hsuffix hobject harray
  | false => exact scanned_of_ne hsuffix (by decide) (by decide)

private theorem scanned_scanToken (c : UInt8) (text : Bytes) : Scanned c text (scanToken c text) := by
  have hsame := List.suffix_refl text
  have hone {type : TokenType} (hobject : type ≠ .objectBegin) (harray : type ≠ .arrayBegin) :
      Scanned c text (type, text) := scanned_of_ne hsame hobject harray
  unfold scanToken
  refine iteInduction (fun h => ⟨hsame, fun _ => by rw [h]; rfl⟩) fun _ => ?_
  refine iteInduction (fun _ => hone (by decide) (by decide)) fun _ => ?_
  refine iteInduction (fun h => ⟨hsame, fun _ => by rw [h]; rfl⟩) fun _ => ?_
  refine iteInduction (fun _ => hone (by decide) (by decide)) fun _ => ?_
  refine iteInduction (fun _ => scanned_tokenType (suffix_readString text) (by decide) (by decide)) fun _ => ?_
  refine iteInduction (fun _ => scanned_tokenType (suffix_readComment text) (by decide) (by decide)) fun _ => ?_
  refine iteInduction (fun _ => scanned_of_ne (suffix_readNumber false text) (by decide) (by decide)) fun _ => ?_
  refine iteInduction (fun _ => scanned_tokenType (suffix_readNumber true text) (by decide) (by decide)) fun _ => ?_
  refine iteInduction (fun _ => scanned_tokenType (suffix_matchPattern _ text) (by decide) (by decide)) fun _ => ?_
  refine iteInduction (fun _ => scanned_tokenType (suffix_matchPattern _ text) (by decide) (by decide)) fun _ => ?_
  refine iteInduction (fun _ => scanned_tokenType (suffix_matchPattern _ text) (by decide) (by decide)) fun _ => ?_
  refine iteInduction (fun _ => hone (by decide) (by decide)) fun _ => ?_
  refine iteInduction (fun _ => hone (by decide) (by decide)) fun _ => ?_
  exact iteInduction (fun _ => hone (by decide) (by decide)) fun _ => hone (by decide) (by decide)

structure Takes (text : Bytes) (token : Token) (rest : Bytes) : Prop where
  suffix : rest <:+ text
  length_le : token.text.length ≤ text.length
  shorter : token.type ≠ .endOfStream → rest.length < text.length
  opening : token.type = .objectBegin ∨ token.type = .arrayBegin → openings rest < openings text

private theorem takes_readToken (text : Bytes) : Takes text (readToken text).1 (readToken text).2 := by
  have hspaces : skipSpaces text <:+ text := List.dropWhile_suffix _
  unfold readToken
  split
  · exact ⟨List.nil_suffix, Nat.zero_le _, fun h => absurd rfl h, fun h => absurd h (by decide)⟩
  · next c behind heq =>
    rw [heq] at hspaces
    have hlength := hspaces.length_le
    obtain ⟨hsuffix, hopening⟩ := scanned_scanToken c behind
    refine ⟨hsuffix.trans ((List.suffix_cons c behind).trans hspaces), ?_, fun _ => ?_, fun h => ?_⟩
    · exact (List.length_take_le' ..).trans hlength
    · have hrest := hsuffix.length_le
      rw [List.length_cons] at hlength
      exact Nat.lt_of_lt_of_le (Nat.lt_succ_of_le hrest) hlength
    · have hle := openings_le_of_suffix hspaces
      rw [openings, List.countP_cons_of_pos (hopening h)] at hle
      exact Nat.lt_of_lt_of_le (Nat.lt_succ_of_le (openings_le_of_suffix hsuffix)) hle

private theorem Takes.of_suffix {token : Token} {more : Bytes} (h : Takes text token rest) (hmore : text <:+ more) :
    Takes more token rest :=
  ⟨h.suffix.trans hmore, h.length_le.trans hmore.length_le, fun htype => Nat.lt_of_lt_of_le (h.shorter htype) hmore.length_le,
    fun htype => Nat.lt_of_lt_of_le (h.opening htype) (openings_le_of_suffix hmore)⟩

private theorem takes_skipCommentTokens (text : Bytes) :
    Takes text (skipCommentTokens text).1 (skipCommentTokens text).2 := by
  have hwithin (n : Nat) (text : Bytes) :
      Takes text (skipCommentsWithin n text).1 (skipCommentsWithin n text).2 := by
    induction n generalizing text with
    | zero => exact takes_readToken text
    | succ n ih =>
      rw [skipCommentsWithin]
      split
      · exact (ih _).of_suffix (takes_readToken text).suffix
      · exact takes_readToken text
  exact hwithin _ text

/-- The search for a token ends: at the latest at the end of the text. -/
theorem recoverFromError_ok (skipUntilToken : TokenType) {fuel : Nat} (hfuel : text.length + 1 ≤ fuel) :
    ∃ rest, recoverFromError skipUntilToken fuel text = .ok rest ∧ rest <:+ text := by
  induction fuel generalizing text with
  | zero => omega
  | succ fuel ih =>
    have htakes := takes_readToken text
    rw [recoverFromError]
    split
    · exact ⟨_, rfl, htakes.suffix⟩
    · next hgoes =>
      have hshorter := htakes.shorter (not_or.1 hgoes).2
      obtain ⟨rest, hrest, hsuffix⟩ : ∃ rest, recoverFromError skipUntilToken fuel (readToken text).2 = .ok rest ∧
          rest <:+ (readToken text).2 := ih (by omega)
      exact ⟨rest, hrest, hsuffix.trans htakes.suffix⟩

end Tokens

/-! ## Strings -/

private theorem length_codePointToUTF8_le (cp : Nat) : (codePointToUTF8 cp).length ≤ 4 := by
  unfold codePointToUTF8
  repeat' split
  all_goals simp

private theorem decodeUnicodeEscapeSequence_length {text : Bytes} {unicode : Nat}
    (h : decodeUnicodeEscapeSequence text = some unicode) : 4 ≤ text.length := by
  unfold decodeUnicodeEscapeSequence at h
  split at h
  · simp
  · cases h

private theorem decodeUnicodeCodePoint_taken {text : Bytes} {unicode taken : Nat}
    (h : decodeUnicodeCodePoint text = some (unicode, taken)) : 4 ≤ taken ∧ taken ≤ text.length := by
  unfold decodeUnicodeCodePoint at h
  split at h
  · cases h
  · next first hfirst =>
    have hfour := decodeUnicodeEscapeSequence_length hfirst
    split at h
    · split at h
      · next c d behind hdrop =>
        split at h
        · obtain ⟨pair, hpair, heq⟩ := Option.map_eq_some_iff.1 h
          obtain rfl : 10 = taken := congrArg Prod.snd heq
          have hsecond := decodeUnicodeEscapeSequence_length hpair
          have hlength := congrArg List.length hdrop
          rw [List.length_drop, List.length_cons, List.length_cons] at hlength
          omega
        · cases h
      · cases h
    · obtain rfl : 4 = taken := congrArg Prod.snd (Option.some.inj h)
      exact ⟨Nat.le_refl 4, hfour⟩

private theorem length_decodeChars_le {skip : Nat} {text s : Bytes} (h : decodeChars skip text = some s) :
    s.length ≤ text.length - skip := by
  fun_induction decodeChars skip text generalizing s with
  | case1 | case3 =>
    cases h
    exact Nat.zero_le _
  | case2 skip c text ih =>
    rw [List.length_cons, Nat.succ_eq_add_one, Nat.add_sub_add_right]
    exact ih h
  | case4 | case5 | case7 => cases h
  | case6 text unicode taken hcode hne ih =>
    obtain ⟨tail, htail, rfl⟩ := Option.map_eq_some_iff.1 h
    have hcp := length_codePointToUTF8_le unicode
    have htaken := decodeUnicodeCodePoint_taken hcode
    have hle := ih htail
    simp only [List.length_append, List.length_cons]
    omega
  | case8 c text _ d _ _ ih | case9 d text _ _ ih =>
    obtain ⟨tail, htail, rfl⟩ := Option.map_eq_some_iff.1 h
    have hle := ih htail
    simp only [List.length_cons]
    omega

private theorem length_decodeString_le {text s : Bytes} (h : decodeString text = some s) : s.length ≤ text.length := by
  have hle := length_decodeChars_le h
  rw [List.length_dropLast, List.length_tail] at hle
  omega

/-! ## Values -/

/-- What the reader makes of a text: nested at most `n` deep, numbers unsigned only where they have to be, the
members of an object in the order of their keys, and strings as long as a value can hold them. -/
inductive Normal : Nat → Value → Prop
  | null {n : Nat} : Normal (n + 1) .null
  | bool {n : Nat} (b : Bool) : Normal (n + 1) (.bool b)
  | int {n : Nat} {k : Int} (hlow : -2 ^ 63 ≤ k) (hhigh : k < 2 ^ 63) : Normal (n + 1) (.int k)
  | uint {n k : Nat} (hlow : maxLargestInt < k) (hhigh : k < 2 ^ 64) : Normal (n + 1) (.uint k)
  | real {n : Nat} (text : Bytes) : Normal (n + 1) (.real text)
  | str {n : Nat} {s : Bytes} (hlength : s.length ≤ maxStringLength) : Normal (n + 1) (.str s)
  | arr {n : Nat} {items : List Value} (hitems : ∀ v ∈ items, Normal n v) : Normal (n + 1) (.arr items)
  | obj {n : Nat} {members : List (Bytes × Value)} (hsorted : SortedMap.Sorted members)
      (hkeys : ∀ e ∈ members, e.1.length < keyLengthLimit) (hmembers : ∀ e ∈ members, Normal n e.2) :
      Normal (n + 1) (.obj members)

private theorem decodeDigits_le {max value : Nat} {text : Bytes} {result : Nat} (hvalue : value ≤ max)
    (h : decodeDigits (max / 10) (max % 10) value text = some result) : result ≤ max := by
  induction text generalizing value with
  | nil => exact Option.some.inj h ▸ hvalue
  | cons c text ih =>
    rw [decodeDigits] at h
    split at h
    · next hdigit =>
      dsimp only at h
      split at h
      · cases h
      · next hfits =>
        refine ih ?_ h
        have hc : c.toNat - 48 ≤ 9 := by
          simp only [isDigit, Bool.and_eq_true, decide_eq_true_eq, UInt8.le_iff_toNat_le] at hdigit
          have hhigh : c.toNat ≤ 57 := hdigit.2
          omega
        by_cases hat : max / 10 ≤ value
        · have hlast : ¬(max / 10 < value ∨ text ≠ [] ∨ max % 10 < c.toNat - 48) := fun hbad => hfits ⟨hat, hbad⟩
          omega
        · omega
    · cases h

private theorem normal_decodeNumber {toDouble : Bytes → Option Bytes} {text : Bytes} {v : Value}
    (h : decodeNumber toDouble text = some v) (n : Nat) : Normal (n + 1) v := by
  unfold decodeNumber at h
  dsimp only at h
  split at h
  · obtain ⟨real, -, rfl⟩ := Option.map_eq_some_iff.1 h
    exact .real real
  · next value hvalue =>
    have hle := decodeDigits_le (Nat.zero_le _) hvalue
    by_cases hnegative : text.head? = some '-'.toUInt8
    · rw [if_pos hnegative] at h hle
      cases h
      simp only [maxLargestInt] at hle
      exact .int (by omega) (by omega)
    · rw [if_neg hnegative] at h hle
      split at h
      · next hsmall =>
        cases h
        simp only [maxLargestInt] at hsmall
        exact .int (by omega) (by omega)
      · next hlarge =>
        cases h
        simp only [maxLargestUInt] at hle
        exact .uint (Nat.not_le.1 hlarge) (by omega)

/-- The reader comes to an end, with some text behind it or with an exception that the brackets or the length of
the text explain. A value that it accepts took some text. -/
structure Reads (depth n : Nat) (text : Bytes) (out : Except Thrown Read) : Prop where
  ends : out ≠ .error .diverged
  stackLimit : out = .error .stackLimit → stackLimit < depth + openings text
  keyLength : out = .error .keyLength → keyLengthLimit ≤ text.length
  stringLength : out = .error .stringLength → maxStringLength < text.length
  suffix : ∀ r, out = .ok r → r.current <:+ text
  accepts : ∀ r, out = .ok r → r.successful = true → r.current.length < text.length ∧ Normal n r.value

section Reads

variable {depth n : Nat} {text rest : Bytes} {v : Value}

private theorem reads_refused (h : rest <:+ text) : Reads depth n text (.ok ⟨false, v, rest⟩) where
  ends := by simp
  stackLimit := by simp
  keyLength := by simp
  stringLength := by simp
  suffix r hr := by
    cases hr
    exact h
  accepts r hr hok := by
    cases hr
    cases hok

private theorem reads_recovered {skipUntilToken : TokenType} {fuel : Nat} (h : rest <:+ text) (hfuel : rest.length + 1 ≤ fuel) :
    Reads depth n text (recovered skipUntilToken fuel v rest) := by
  obtain ⟨behind, hbehind, hsuffix⟩ := recoverFromError_ok skipUntilToken hfuel
  rw [recovered, hbehind]
  exact reads_refused (hsuffix.trans h)

private theorem reads_accepted (h : rest <:+ text) (hshorter : rest.length < text.length) (hv : Normal n v) :
    Reads depth n text (.ok ⟨true, v, rest⟩) where
  ends := by simp
  stackLimit := by simp
  keyLength := by simp
  stringLength := by simp
  suffix r hr := by
    cases hr
    exact h
  accepts r hr _ := by
    cases hr
    exact ⟨hshorter, hv⟩

private theorem Reads.of_suffix {depth' : Nat} {out : Except Thrown Read} (h : Reads depth n rest out) (hrest : rest <:+ text)
    (hdepth : depth + openings rest ≤ depth' + openings text) : Reads depth' n text out where
  ends := h.ends
  stackLimit hout := Nat.lt_of_lt_of_le (h.stackLimit hout) hdepth
  keyLength hout := (h.keyLength hout).trans hrest.length_le
  stringLength hout := Nat.lt_of_lt_of_le (h.stringLength hout) hrest.length_le
  suffix r hr := (h.suffix r hr).trans hrest
  accepts r hr hok := ⟨Nat.lt_of_lt_of_le (h.accepts r hr hok).1 hrest.length_le, (h.accepts r hr hok).2⟩

private theorem Reads.further {out : Except Thrown Read} (h : Reads depth n rest out) (hrest : rest <:+ text) :
    Reads depth n text out :=
  h.of_suffix hrest (Nat.add_le_add_left (openings_le_of_suffix hrest) _)

private theorem Reads.thrown {n' : Nat} {x : Thrown} (h : Reads depth n text (.error x)) :
    Reads depth n' text (.error x) where
  ends := h.ends
  stackLimit := h.stackLimit
  keyLength := h.keyLength
  stringLength := h.stringLength
  suffix r hr := by cases hr
  accepts r hr := by cases hr

end Reads

section Loops

variable (toDouble : Bytes → Option Bytes)

/-- The reader of values, of members and of items with enough rounds for the text. -/
structure ReadsWithin (fuel : Nat) : Prop where
  value : ∀ depth current text, 2 * text.length + 1 ≤ fuel →
    Reads depth (stackLimit + 1 - depth) text (readValue toDouble fuel depth current text)
  object : ∀ depth n members text, depth + n = stackLimit → Normal (n + 1) (.obj members) →
    2 * text.length + 2 ≤ fuel → Reads (depth + 1) (n + 1) text (readObject toDouble fuel depth members text)
  comma : ∀ depth n members text, depth + n = stackLimit → Normal (n + 1) (.obj members) →
    2 * text.length + 2 ≤ fuel → Reads (depth + 1) (n + 1) text (readComma toDouble fuel depth members text)
  array : ∀ depth n items text, depth + n = stackLimit → (∀ v ∈ items, Normal n v) →
    2 * text.length + 2 ≤ fuel → Reads (depth + 1) (n + 1) text (readArray toDouble fuel depth items text)

variable {toDouble} {fuel depth n : Nat} {members : List (Bytes × Value)} {text : Bytes}

private theorem reads_readNumeral {token : Token} {rest : Bytes} {current : Value} {decoded : Option Value}
    (htakes : Takes text token rest) (htype : token.type ≠ .endOfStream) (hdecoded : ∀ v ∈ decoded, Normal n v) :
    Reads depth n text (.ok (readNumeral current rest decoded)) := by
  cases decoded with
  | none => exact reads_refused htakes.suffix
  | some v => exact reads_accepted htakes.suffix (htakes.shorter htype) (hdecoded v rfl)

private theorem reads_readText {token : Token} {rest : Bytes} (current : Value) (htakes : Takes text token rest)
    (htype : token.type ≠ .endOfStream) :
    Reads depth (n + 1) text (readText current rest (decodeString token.text)) := by
  cases hdecoded : decodeString token.text with
  | none => exact reads_refused htakes.suffix
  | some s =>
    rw [readText]
    split
    · next hlong =>
      have hlength := (length_decodeString_le hdecoded).trans htakes.length_le
      exact ⟨by simp, by simp, by simp, fun _ => Nat.lt_of_lt_of_le hlong hlength, by simp, by simp⟩
    · next hshort => exact reads_accepted htakes.suffix (htakes.shorter htype) (.str (Nat.le_of_not_lt hshort))

private theorem ReadsWithin.readValue (h : ReadsWithin toDouble fuel) (current : Value) (hfuel : 2 * text.length + 1 ≤ fuel + 1) :
    Reads depth (stackLimit + 1 - depth) text (Jsoncpp.readValue toDouble (fuel + 1) depth current text) := by
  have htakes := takes_skipCommentTokens text
  rw [Jsoncpp.readValue]
  split
  · next hlimit => exact ⟨by simp, fun _ => Nat.lt_add_right _ hlimit, by simp, by simp, by simp, by simp⟩
  · next hlimit =>
    obtain ⟨n, hn⟩ : ∃ n, depth + n = stackLimit := ⟨stackLimit - depth, by omega⟩
    have hsucc : stackLimit + 1 - depth = n + 1 := by omega
    rw [hsucc]
    cases htype : (skipCommentTokens text).1.type with
    | objectBegin =>
      have hshorter := htakes.shorter (by rw [htype]; decide)
      have hopening := htakes.opening (.inl htype)
      refine (h.object depth n [] _ hn (.obj List.Pairwise.nil (by simp) (by simp)) (by omega)).of_suffix htakes.suffix
        (by omega)
    | arrayBegin =>
      have hshorter := htakes.shorter (by rw [htype]; decide)
      have hopening := htakes.opening (.inr htype)
      refine (h.array depth n [] _ hn (by simp) (by omega)).of_suffix htakes.suffix (by omega)
    | number =>
      exact reads_readNumeral htakes (by rw [htype]; decide) fun v hv => normal_decodeNumber hv n
    | string => exact reads_readText current htakes (by rw [htype]; decide)
    | true => exact reads_accepted htakes.suffix (htakes.shorter (by rw [htype]; decide)) (.bool _)
    | false => exact reads_accepted htakes.suffix (htakes.shorter (by rw [htype]; decide)) (.bool _)
    | null => exact reads_accepted htakes.suffix (htakes.shorter (by rw [htype]; decide)) .null
    | _ => exact reads_refused htakes.suffix

private theorem normal_insert (hmembers : Normal (n + 1) (.obj members)) {name : Bytes} {v : Value}
    (hname : name.length < keyLengthLimit) (hv : Normal n v) :
    Normal (n + 1) (.obj (SortedMap.insert members name v)) := by
  cases hmembers with
  | obj hsorted hkeys hmembers =>
    refine .obj (SortedMap.sorted_insert hsorted) (fun e he => ?_) (fun e he => ?_)
    · obtain rfl | hold := SortedMap.eq_or_mem_of_mem_insert he
      · exact hname
      · exact hkeys e hold
    · obtain rfl | hold := SortedMap.eq_or_mem_of_mem_insert he
      · exact hv
      · exact hmembers e hold

-- a member or an item: what the reader of values throws is thrown, and the loop goes on with what it accepts
private theorem ReadsWithin.nested {behind : Bytes} (h : ReadsWithin toDouble fuel) (current : Value)
    (hn : depth + n = stackLimit) (hbehind : behind <:+ text) (hfuel : 2 * behind.length + 1 ≤ fuel) :
    (∃ x, Jsoncpp.readValue toDouble fuel (depth + 1) current behind = .error x ∧
      Reads (depth + 1) (n + 1) text (.error x)) ∨
    ∃ v rest, rest <:+ text ∧
      (Jsoncpp.readValue toDouble fuel (depth + 1) current behind = .ok ⟨false, v, rest⟩ ∨
        Jsoncpp.readValue toDouble fuel (depth + 1) current behind = .ok ⟨true, v, rest⟩ ∧
          rest.length < behind.length ∧ Normal n v) := by
  have hvalue := h.value (depth + 1) current behind hfuel
  rw [show stackLimit + 1 - (depth + 1) = n by omega] at hvalue
  cases hout : Jsoncpp.readValue toDouble fuel (depth + 1) current behind with
  | error x =>
    rw [hout] at hvalue
    exact .inl ⟨x, rfl, (hvalue.further hbehind).thrown⟩
  | ok r =>
    obtain ⟨ok, v, rest⟩ := r
    refine .inr ⟨v, rest, (hvalue.suffix _ hout).trans hbehind, ?_⟩
    cases ok with
    | false => exact .inl rfl
    | true => exact .inr ⟨rfl, hvalue.accepts _ hout rfl⟩

private theorem ReadsWithin.readObject (h : ReadsWithin toDouble fuel) (hn : depth + n = stackLimit)
    (hmembers : Normal (n + 1) (.obj members)) (hfuel : 2 * text.length + 2 ≤ fuel + 1) :
    Reads (depth + 1) (n + 1) text (Jsoncpp.readObject toDouble (fuel + 1) depth members text) := by
  have htakes := takes_skipCommentTokens text
  have hcolon := takes_readToken (skipCommentTokens text).2
  have hlength := htakes.suffix.length_le
  rw [Jsoncpp.readObject]
  cases htype : (skipCommentTokens text).1.type with
  | objectEnd => exact reads_accepted htakes.suffix (htakes.shorter (by rw [htype]; decide)) hmembers
  | string =>
    have hshorter := htakes.shorter (by rw [htype]; decide)
    dsimp only
    cases hdecoded : decodeString (skipCommentTokens text).1.text with
    | none => exact reads_recovered htakes.suffix (by omega)
    | some name =>
      dsimp only
      split
      · next hlong =>
        have hname := (length_decodeString_le hdecoded).trans htakes.length_le
        exact ⟨by simp, by simp, fun _ => hlong.trans hname, by simp, by simp, by simp⟩
      split
      · next hname hseparator =>
        have hshorter' := hcolon.shorter (by rw [hseparator]; decide)
        obtain ⟨x, hout, hreads⟩ | ⟨v, rest, hrest, hout | ⟨hout, hless, hv⟩⟩ :=
          h.nested (memberOf members name) hn (hcolon.suffix.trans htakes.suffix) (by omega)
        · rw [hout]
          exact hreads
        · rw [hout]
          have hrestLength := hrest.length_le
          exact reads_recovered hrest (by omega)
        · rw [hout]
          exact (h.comma depth n _ rest hn (normal_insert hmembers (Nat.not_le.1 hname) hv) (by omega)).further hrest
      · have hcolonLength := hcolon.suffix.length_le
        exact reads_recovered (hcolon.suffix.trans htakes.suffix) (by omega)
  | _ => exact reads_recovered htakes.suffix (by omega)

private theorem ReadsWithin.readComma (h : ReadsWithin toDouble fuel) (hn : depth + n = stackLimit)
    (hmembers : Normal (n + 1) (.obj members)) (hfuel : 2 * text.length + 2 ≤ fuel + 1) :
    Reads (depth + 1) (n + 1) text (Jsoncpp.readComma toDouble (fuel + 1) depth members text) := by
  have htakes := takes_readToken text
  have htextLength := htakes.suffix.length_le
  rw [Jsoncpp.readComma]
  cases htype : (readToken text).1.type with
  | objectEnd => exact reads_accepted htakes.suffix (htakes.shorter (by rw [htype]; decide)) hmembers
  | arraySeparator =>
    have hshorter := htakes.shorter (by rw [htype]; decide)
    exact (h.object depth n members _ hn hmembers (by omega)).further htakes.suffix
  | comment =>
    have hshorter := htakes.shorter (by rw [htype]; decide)
    have hnext := takes_skipCommentTokens (readToken text).2
    have hsuffix := hnext.suffix.trans htakes.suffix
    have hlength := hnext.suffix.length_le
    dsimp only
    split
    · exact reads_accepted hsuffix (by omega) hmembers
    · exact (h.object depth n members _ hn hmembers (by omega)).further hsuffix
  | _ => exact reads_recovered htakes.suffix (by omega)

private theorem ReadsWithin.readArray {items : List Value} (h : ReadsWithin toDouble fuel) (hn : depth + n = stackLimit)
    (hitems : ∀ v ∈ items, Normal n v) (hfuel : 2 * text.length + 2 ≤ fuel + 1) :
    Reads (depth + 1) (n + 1) text (Jsoncpp.readArray toDouble (fuel + 1) depth items text) := by
  have hspaces : skipSpaces text <:+ text := List.dropWhile_suffix _
  have hlength := hspaces.length_le
  rw [Jsoncpp.readArray]
  split
  · next hend =>
    refine reads_accepted ((List.tail_suffix _).trans hspaces) ?_ (.arr hitems)
    cases heq : skipSpaces text with
    | nil =>
      rw [heq] at hend
      cases hend
    | cons c behind =>
      rw [heq] at hlength
      exact Nat.lt_of_succ_le hlength
  · obtain ⟨x, hout, hreads⟩ | ⟨v, rest, hrest, hout | ⟨hout, hshorter, hv⟩⟩ := h.nested .null hn hspaces (by omega)
    · rw [hout]
      exact hreads
    · rw [hout]
      have hrestLength := hrest.length_le
      exact reads_recovered hrest (by omega)
    · rw [hout]
      have hnext := takes_skipCommentTokens rest
      have hsuffix := hnext.suffix.trans hrest
      have hnextLength := hsuffix.length_le
      have hitems' : ∀ w ∈ items ++ [v], Normal n w := by
        rw [List.forall_mem_append]
        exact ⟨hitems, List.forall_mem_singleton.2 hv⟩
      dsimp only
      cases htype : (skipCommentTokens rest).1.type with
      | arrayEnd =>
        have hless := hnext.shorter (by rw [htype]; decide)
        exact reads_accepted hsuffix (by omega) (.arr hitems')
      | arraySeparator =>
        have hless := hnext.shorter (by rw [htype]; decide)
        exact (h.array depth n _ _ hn hitems' (by omega)).further hsuffix
      | _ => exact reads_recovered hsuffix (by omega)

/-- Two rounds for each character are enough: one takes the character, the other the step from a value to the
loop of an array or an object. Each round leaves enough of them for a recovery. -/
theorem readsWithin (toDouble : Bytes → Option Bytes) (fuel : Nat) : ReadsWithin toDouble fuel := by
  induction fuel with
  | zero => exact ⟨by omega, by omega, by omega, by omega⟩
  | succ fuel ih =>
    exact ⟨fun _ current _ => ih.readValue current, fun _ _ _ _ => ih.readObject, fun _ _ _ _ => ih.readComma,
      fun _ _ _ _ => ih.readArray⟩

end Loops

/-! ## Reading what was read -/

private theorem Value.asReadItems_eq_map (items : List Value) : Value.asReadItems items = items.map Value.asRead := by
  induction items with
  | nil => rfl
  | cons v items ih => rw [Value.asReadItems, ih, List.map_cons]

private theorem Value.asReadMembers_eq_map (members : List (Bytes × Value)) :
    Value.asReadMembers members = members.map fun e => (e.1, e.2.asRead) := by
  induction members with
  | nil => rfl
  | cons e members ih => rw [Value.asReadMembers, ih, List.map_cons]

private theorem Normal.height_le {n : Nat} {v : Value} (h : Normal n v) : v.height ≤ n := by
  induction h with
  | null | bool | int | uint | real | str => exact Nat.le_add_left 1 _
  | arr _ ih => exact Nat.succ_le_succ ((Value.heightItems_le_iff ..).2 ih)
  | obj _ _ _ ih => exact Nat.succ_le_succ ((Value.heightMembers_le_iff ..).2 ih)

private theorem Normal.asRead_eq {n : Nat} {v : Value} (h : Normal n v) : v.asRead = v := by
  induction h with
  | null | bool | int | real | str => rfl
  | uint hlow => rw [Value.asRead, if_neg (Nat.not_le.2 hlow)]
  | arr _ ih =>
    rw [Value.asRead, Value.asReadItems_eq_map, List.map_congr_left ih, List.map_id']
  | obj _ _ _ ih =>
    rw [Value.asRead, Value.asReadMembers_eq_map,
      List.map_congr_left (g := id) fun e he => by rw [ih e he]; rfl, List.map_id]

/-- Strings and keys are well-formed, and no number is a fraction. -/
inductive Legible : Value → Prop
  | null : Legible .null
  | bool (b : Bool) : Legible (.bool b)
  | int (k : Int) : Legible (.int k)
  | uint (k : Nat) : Legible (.uint k)
  | str (text : String) : Legible (.str (utf8 text))
  | arr {items : List Value} (hitems : ∀ v ∈ items, Legible v) : Legible (.arr items)
  | obj {members : List (Bytes × Value)} (hkeys : ∀ e ∈ members, ∃ text : String, e.1 = utf8 text)
      (hmembers : ∀ e ∈ members, Legible e.2) : Legible (.obj members)

private theorem Normal.writable {n : Nat} {v : Value} (h : Normal n v) (hlegible : Legible v) : v.Writable := by
  induction h with
  | null | bool => trivial
  | int hlow hhigh => exact ⟨hlow, hhigh⟩
  | uint _ hhigh => exact hhigh
  | real => cases hlegible
  | str hlength =>
    cases hlegible with
    | str text => exact ⟨⟨text, rfl⟩, hlength⟩
  | arr _ ih =>
    cases hlegible with
    | arr hitems => exact (Value.writableItems_iff _).2 fun v hv => ih v hv (hitems v hv)
  | obj hsorted hkeys _ ih =>
    cases hlegible with
    | obj hwords hmembers =>
      refine ⟨hsorted, (Value.writableMembers_iff _).2 fun e he => ?_⟩
      exact ⟨⟨hwords e he, hkeys e he⟩, ih e he (hmembers e he)⟩

/-- On every text the reader ends, with a value or with an exception: if there are at least `stackLimit` opening
brackets, or if the text is longer than the longest key or string. A value it accepts, with well-formed strings and
without fractions, is read again from the text that the writer makes of it. -/
theorem reader_on_any_text (toDouble : Bytes → Option Bytes) (doc : Bytes) :
    (parse toDouble doc = .error .stackLimit ∧ stackLimit ≤ openings doc) ∨
      (parse toDouble doc = .error .keyLength ∧ keyLengthLimit ≤ doc.length) ∨
      (parse toDouble doc = .error .stringLength ∧ maxStringLength < doc.length) ∨
      ∃ ok v, parse toDouble doc = .ok (ok, v) ∧
        (ok = true → Normal stackLimit v ∧
          (Legible v → parse toDouble (NodeTreeWriter.write v) = .ok (true, v))) := by
  have hbom : skipBom doc <:+ doc := by
    unfold skipBom
    split
    · exact List.drop_suffix ..
    · exact List.suffix_refl _
  have hlength := hbom.length_le
  have hread := ((readsWithin toDouble (2 * doc.length + 1)).value 1 .null (skipBom doc) (by omega)).further hbom
  rw [parse]
  generalize readValue toDouble (2 * doc.length + 1) 1 .null (skipBom doc) = out at hread
  cases out with
  | error x =>
    cases x with
    | stackLimit =>
      have hthrown := hread.stackLimit rfl
      exact .inl ⟨rfl, by omega⟩
    | keyLength => exact .inr (.inl ⟨rfl, hread.keyLength rfl⟩)
    | stringLength => exact .inr (.inr (.inl ⟨rfl, hread.stringLength rfl⟩))
    | diverged => exact absurd rfl hread.ends
  | ok r =>
    refine .inr (.inr (.inr ⟨r.successful, r.value, rfl, fun hok => ?_⟩))
    have hnormal : Normal stackLimit r.value := (hread.accepts r rfl hok).2
    refine ⟨hnormal, fun hlegible => ?_⟩
    rw [parse_write toDouble (hnormal.writable hlegible), if_pos hnormal.height_le, hnormal.asRead_eq]

end PinpointAgent.Jsoncpp
