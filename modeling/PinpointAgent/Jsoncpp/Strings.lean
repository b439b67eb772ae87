import PinpointAgent.Jsoncpp.Reader

/-!
# Strings between the writer and the reader

The writer escapes a string character by character, and each escaped character is a piece that the
reader takes for itself: `readString` passes over it and `decodeString` turns it into the bytes of the
character. So every string is read to its end, also one that is not well-formed UTF-8; it comes back as
`readBack`, which is the string itself when it is well-formed.
-/

namespace PinpointAgent.Jsoncpp

/-- A part of an escaped string, with the bytes it stands for. -/
structure Piece (text meaning : Bytes) : Prop where
  read : ∀ rest, readString (text ++ rest) = readString rest
  decode : ∀ rest, decodeChars 0 (text ++ rest) = (decodeChars 0 rest).map (meaning ++ ·)
  printable : ∀ c ∈ text, 0x20 ≤ c ∧ c ≤ 0x7F

/-! ## The steps of the two loops -/

private theorem readString_plain {c : UInt8} (hquote : c ≠ '"'.toUInt8) (hback : c ≠ '\\'.toUInt8) (text : Bytes) :
    readString (c :: text) = readString text := by
  rw [readString.eq_def]
  simp only [if_neg hback, if_neg hquote]

private theorem readString_escaped (c : UInt8) (text : Bytes) :
    readString ('\\'.toUInt8 :: c :: text) = readString text := by
  rw [readString.eq_def]
  simp only [if_true]

private theorem decodeChars_plain {c : UInt8} (hquote : c ≠ '"'.toUInt8) (hback : c ≠ '\\'.toUInt8) (text : Bytes) :
    decodeChars 0 (c :: text) = (decodeChars 0 text).map (c :: ·) := by
  rw [decodeChars.eq_def]
  simp only [if_neg hback, if_neg hquote]

private theorem decodeChars_short {c letter : UInt8} (hletter : unescape letter = some c)
    (hu : letter ≠ 'u'.toUInt8) (text : Bytes) :
    decodeChars 0 ('\\'.toUInt8 :: letter :: text) = (decodeChars 0 text).map (c :: ·) := by
  rw [decodeChars.eq_def]
  simp only [if_neg (show '\\'.toUInt8 ≠ '"'.toUInt8 by decide), if_true, if_neg hu, hletter]

private theorem decodeChars_unicode {text : Bytes} {unicode taken : Nat}
    (h : decodeUnicodeCodePoint text = some (unicode, taken)) :
    decodeChars 0 ('\\'.toUInt8 :: 'u'.toUInt8 :: text) =
      (decodeChars taken text).map (codePointToUTF8 unicode ++ ·) := by
  rw [decodeChars.eq_def]
  simp only [if_neg (show '\\'.toUInt8 ≠ '"'.toUInt8 by decide), if_true, h]

private theorem decodeChars_skip (front rest : Bytes) : decodeChars front.length (front ++ rest) = decodeChars 0 rest := by
  induction front with
  | nil => rfl
  | cons c front ih =>
    rw [List.length_cons, List.cons_append, decodeChars]
    exact ih

/-! ## Hexadecimal digits -/

private theorem hexDigit_facts : ∀ n < 16, hexValue (hexDigit n) = some n ∧ hexDigit n ≠ '"'.toUInt8 ∧
    hexDigit n ≠ '\\'.toUInt8 ∧ 0x20 ≤ hexDigit n ∧ hexDigit n ≤ 0x7F := by
  decide

private theorem low_byte (n : Nat) : n &&& 0xFF = n % 256 := Nat.and_two_pow_sub_one_eq_mod n 8

private theorem toHex16Bit_eq (x : Nat) : toHex16Bit x =
    [hexDigit (x / 4096 % 16), hexDigit (x / 256 % 16), hexDigit (x / 16 % 16), hexDigit (x % 16)] := by
  have hhi : x >>> 8 = x / 256 := Nat.shiftRight_eq_div_pow x 8
  have h₁ : x / 256 % 256 / 16 = x / 4096 % 16 := by omega
  have h₂ : x / 256 % 256 % 16 = x / 256 % 16 := by omega
  have h₃ : x % 256 / 16 = x / 16 % 16 := by omega
  have h₄ : x % 256 % 16 = x % 16 := by omega
  simp only [toHex16Bit, low_byte, hhi, h₁, h₂, h₃, h₄]

private theorem decodeUnicodeEscapeSequence_toHex16Bit {x : Nat} (h : x < 0x10000) (rest : Bytes) :
    decodeUnicodeEscapeSequence (toHex16Bit x ++ rest) = some x := by
  have hdigit (n : Nat) : hexValue (hexDigit (n % 16)) = some (n % 16) :=
    (hexDigit_facts _ (Nat.mod_lt _ (by decide))).1
  have hx : ((x / 4096 % 16 * 16 + x / 256 % 16) * 16 + x / 16 % 16) * 16 + x % 16 = x := by omega
  simp [toHex16Bit_eq, decodeUnicodeEscapeSequence, hdigit, hx]

private theorem hexEscape_eq (x : Nat) : hexEscape x = '\\'.toUInt8 :: 'u'.toUInt8 :: toHex16Bit x := rfl

private theorem readString_hexEscape (x : Nat) (rest : Bytes) : readString (hexEscape x ++ rest) = readString rest := by
  have hdigit (n : Nat) (rest : Bytes) : readString (hexDigit (n % 16) :: rest) = readString rest := by
    obtain ⟨-, hquote, hback, -⟩ := hexDigit_facts _ (Nat.mod_lt n (by decide))
    exact readString_plain hquote hback rest
  rw [hexEscape_eq, toHex16Bit_eq]
  simp only [List.cons_append, List.nil_append, readString_escaped, hdigit]

theorem printable_of_all {s : Bytes} (h : s.all (fun c => decide (0x20 ≤ c ∧ c ≤ 0x7F)) = true) :
    ∀ c ∈ s, 0x20 ≤ c ∧ c ≤ 0x7F :=
  fun c hc => of_decide_eq_true (List.all_eq_true.1 h c hc)

private theorem printable_hexEscape (x : Nat) : ∀ c ∈ hexEscape x, 0x20 ≤ c ∧ c ≤ 0x7F := by
  have hdigit (n : Nat) : 0x20 ≤ hexDigit (n % 16) ∧ hexDigit (n % 16) ≤ 0x7F := by
    obtain ⟨-, -, -, hlow, hhigh⟩ := hexDigit_facts _ (Nat.mod_lt n (by decide))
    exact ⟨hlow, hhigh⟩
  rw [hexEscape, toHex16Bit_eq, List.forall_mem_append]
  refine ⟨printable_of_all (by decide), ?_⟩
  simp only [List.forall_mem_cons, List.not_mem_nil, false_imp_iff, implies_true, and_true]
  exact ⟨hdigit _, hdigit _, hdigit _, hdigit _⟩

/-! ## The pieces of an escaped string -/

private theorem piece_plain {c : UInt8} (hquote : c ≠ '"'.toUInt8) (hback : c ≠ '\\'.toUInt8) (hlow : 0x20 ≤ c)
    (hhigh : c ≤ 0x7F) : Piece [c] [c] where
  read := readString_plain hquote hback
  decode := decodeChars_plain hquote hback
  printable d hd := by
    rw [List.mem_singleton.1 hd]
    exact ⟨hlow, hhigh⟩

private theorem shortEscape_cases {c letter : UInt8} (h : shortEscape c = some letter) :
    unescape letter = some c ∧ letter ≠ 'u'.toUInt8 ∧ 0x20 ≤ letter ∧ letter ≤ 0x7F ∧ c.toNat < 0x80 := by
  unfold shortEscape at h
  split at h
  · next hc => cases h; subst hc; decide
  split at h
  · next hc => cases h; subst hc; decide
  split at h
  · next hc => cases h; subst hc; decide
  split at h
  · next hc => cases h; subst hc; decide
  split at h
  · next hc => cases h; subst hc; decide
  split at h
  · next hc => cases h; subst hc; decide
  split at h
  · next hc => cases h; subst hc; decide
  · cases h

private theorem piece_short {c letter : UInt8} (h : shortEscape c = some letter) :
    Piece ['\\'.toUInt8, letter] [c] where
  read := readString_escaped letter
  decode := by
    obtain ⟨hletter, hu, -⟩ := shortEscape_cases h
    exact decodeChars_short hletter hu
  printable d hd := by
    obtain ⟨-, -, hlow, hhigh, -⟩ := shortEscape_cases h
    obtain rfl | hd := List.mem_cons.1 hd
    · decide
    · rw [List.mem_singleton.1 hd]
      exact ⟨hlow, hhigh⟩

private theorem piece_hexEscape {x : Nat} (h : x < 0x10000) (hsurrogate : ¬(0xD800 ≤ x ∧ x ≤ 0xDBFF)) :
    Piece (hexEscape x) (codePointToUTF8 x) where
  read := readString_hexEscape x
  decode rest := by
    have hcode : decodeUnicodeCodePoint (toHex16Bit x ++ rest) = some (x, 4) := by
      rw [decodeUnicodeCodePoint, decodeUnicodeEscapeSequence_toHex16Bit h]
      exact if_neg hsurrogate
    rw [hexEscape_eq, List.cons_append, List.cons_append, decodeChars_unicode hcode]
    exact congrArg (Option.map _) (decodeChars_skip (toHex16Bit x) rest)
  printable := printable_hexEscape x

private theorem piece_surrogates {high low : Nat} (hhigh : high < 1024) (hlow : low < 1024) :
    Piece (hexEscape (0xD800 + high) ++ hexEscape (0xDC00 + low))
      (codePointToUTF8 (0x10000 + high * 1024 + low)) where
  read rest := by rw [List.append_assoc, readString_hexEscape, readString_hexEscape]
  decode rest := by
    have hfirst : (0xD800 + high) &&& 0x3FF = high := by
      rw [show 0x3FF = 2 ^ 10 - 1 from rfl, Nat.and_two_pow_sub_one_eq_mod]
      omega
    have hsecond : (0xDC00 + low) &&& 0x3FF = low := by
      rw [show 0x3FF = 2 ^ 10 - 1 from rfl, Nat.and_two_pow_sub_one_eq_mod]
      omega
    have hdrop : (toHex16Bit (0xD800 + high) ++ (hexEscape (0xDC00 + low) ++ rest)).drop 4 =
        '\\'.toUInt8 :: 'u'.toUInt8 :: (toHex16Bit (0xDC00 + low) ++ rest) := rfl
    have hcode : decodeUnicodeCodePoint
        (toHex16Bit (0xD800 + high) ++ (hexEscape (0xDC00 + low) ++ rest)) =
        some (0x10000 + high * 1024 + low, 10) := by
      rw [decodeUnicodeCodePoint, decodeUnicodeEscapeSequence_toHex16Bit (by omega)]
      simp only [hdrop, decodeUnicodeEscapeSequence_toHex16Bit (show 0xDC00 + low < 0x10000 by omega)]
      rw [if_pos (by omega), if_pos (by decide), hfirst, Option.map_some, hsecond, Nat.shiftLeft_eq]
    rw [List.append_assoc, hexEscape_eq, List.cons_append, List.cons_append, decodeChars_unicode hcode,
      ← List.append_assoc]
    exact congrArg (Option.map _)
      (decodeChars_skip (toHex16Bit (0xD800 + high) ++ hexEscape (0xDC00 + low)) rest)
  printable := List.forall_mem_append.2 ⟨printable_hexEscape _, printable_hexEscape _⟩

/-- The code point that a reader gets back: the writer has twenty bits for those of the extended planes. -/
def wrapped (codepoint : Nat) : Nat :=
  if codepoint < 0x10000 then codepoint else 0x10000 + (codepoint - 0x10000) % 2 ^ 20

private theorem shortEscape_quote : shortEscape '"'.toUInt8 = some '"'.toUInt8 := rfl

private theorem shortEscape_backslash : shortEscape '\\'.toUInt8 = some '\\'.toUInt8 := rfl

private theorem piece_escapeCodepoint {first : UInt8} {r : Nat × Nat} (h : Codepoint first r)
    (hshort : shortEscape first = none) : Piece (escapeCodepoint r.1) (codePointToUTF8 (wrapped r.1)) := by
  have hquote : first ≠ '"'.toUInt8 := by
    rintro rfl
    cases shortEscape_quote.symm.trans hshort
  have hback : first ≠ '\\'.toUInt8 := by
    rintro rfl
    cases shortEscape_backslash.symm.trans hshort
  have hlt := h.lt
  have hsurrogate := h.no_surrogate
  rw [escapeCodepoint]
  split
  · rw [wrapped, if_pos (by omega)]
    exact piece_hexEscape (by omega) (by omega)
  · split
    · next hlow hhigh =>
      -- below 0x80 the code point is the byte itself
      have hbyte : toChar r.1 = first := by
        rw [h.ascii hhigh]
        exact UInt8.ofNat_toNat
      have hfirst : first.toNat = r.1 := by rw [h.ascii hhigh]
      rw [wrapped, if_pos (by omega), codePointToUTF8, if_pos (by omega), hbyte]
      refine piece_plain hquote hback ?_ ?_
      · rw [UInt8.le_iff_toNat_le, hfirst]
        exact Nat.le_of_not_lt hlow
      · rw [UInt8.le_iff_toNat_le, hfirst]
        exact Nat.le_of_lt_succ hhigh
    · split
      · next hbmp =>
        rw [wrapped, if_pos hbmp]
        exact piece_hexEscape hbmp (by omega)
      · next hbmp =>
        have hten (n : Nat) : n &&& 0x3FF = n % 1024 := Nat.and_two_pow_sub_one_eq_mod n 10
        have hhigh : (r.1 - 0x10000) >>> 10 = (r.1 - 0x10000) / 1024 := Nat.shiftRight_eq_div_pow _ 10
        have hbits : 0x10000 + (r.1 - 0x10000) % 2 ^ 20 =
            0x10000 + (r.1 - 0x10000) / 1024 % 1024 * 1024 + (r.1 - 0x10000) % 1024 := by omega
        rw [wrapped, if_neg hbmp, hbits, hten, hten, hhigh]
        exact piece_surrogates (Nat.mod_lt _ (by decide)) (Nat.mod_lt _ (by decide))

/-! ## Whole strings -/

def readBack : Nat → Bytes → Bytes
  | _, [] => []
  | skip + 1, _ :: text => readBack skip text
  | 0, c :: text =>
    if (shortEscape c).isSome then c :: readBack 0 text
    else codePointToUTF8 (wrapped (utf8ToCodepoint c text).1) ++ readBack (utf8ToCodepoint c text).2 text

private theorem Piece.append {text text' meaning meaning' : Bytes} (h : Piece text meaning) (h' : Piece text' meaning') :
    Piece (text ++ text') (meaning ++ meaning') where
  read rest := by rw [List.append_assoc, h.read, h'.read]
  decode rest := by
    rw [List.append_assoc, h.decode, h'.decode, Option.map_map]
    congr 1
    funext rest
    exact (List.append_assoc ..).symm
  printable := List.forall_mem_append.2 ⟨h.printable, h'.printable⟩

private theorem piece_nil : Piece [] [] where
  read _ := rfl
  decode rest := by simp
  printable := by simp

private theorem piece_escape (skip : Nat) (s : Bytes) : Piece (escape skip s) (readBack skip s) := by
  induction s generalizing skip with
  | nil =>
    cases skip <;> exact piece_nil
  | cons c s ih =>
    cases skip with
    | succ skip => exact ih skip
    | zero =>
      rw [escape, readBack]
      cases hshort : shortEscape c with
      | some letter => exact (piece_short hshort).append (ih 0)
      | none => exact (piece_escapeCodepoint (codepoint_utf8ToCodepoint c s) hshort).append (ih _)

/-- A string in which nothing is to be escaped is escaped to itself, so the shortcut of the writer does not
show. -/
theorem escape_of_plain {s : Bytes} (h : doesAnyCharRequireEscaping s = false) : escape 0 s = s := by
  induction s with
  | nil => rfl
  | cons c s ih =>
    rw [doesAnyCharRequireEscaping, List.any_cons, Bool.or_eq_false_iff] at h
    obtain ⟨hc, hs⟩ := h
    simp only [requiresEscaping, Bool.or_eq_false_iff, decide_eq_false_iff_not, UInt8.lt_iff_toNat_lt,
      UInt8.toNat_ofNat] at hc
    obtain ⟨⟨⟨hback, hquote⟩, hlow⟩, hhigh⟩ := hc
    have hne {d : UInt8} (hd : d.toNat < 32) : c ≠ d := by
      rintro rfl
      exact hlow hd
    have hshort : shortEscape c = none := by
      rw [shortEscape, if_neg hquote, if_neg hback, if_neg (hne (by decide)), if_neg (hne (by decide)),
        if_neg (hne (by decide)), if_neg (hne (by decide)), if_neg (hne (by decide))]
    have hcode : utf8ToCodepoint c s = (c.toNat, 0) := utf8ToCodepoint_ascii (by omega) s
    have hself : escapeCodepoint c.toNat = [c] := by
      rw [escapeCodepoint, if_neg hlow, if_pos (by omega), toChar, UInt8.ofNat_toNat]
    rw [escape, hshort, hcode]
    show escapeCodepoint c.toNat ++ escape 0 s = _
    rw [hself, ih hs, List.singleton_append]

theorem valueToQuotedStringN_eq (s : Bytes) :
    valueToQuotedStringN s = '"'.toUInt8 :: escape 0 s ++ ['"'.toUInt8] := by
  rw [valueToQuotedStringN]
  split
  · rfl
  · next h => rw [escape_of_plain (Bool.eq_false_iff.2 h)]

theorem decodeString_valueToQuotedStringN (s : Bytes) :
    decodeString (valueToQuotedStringN s) = some (readBack 0 s) := by
  have hpieces := (piece_escape 0 s).decode []
  rw [List.append_nil] at hpieces
  rw [valueToQuotedStringN_eq, decodeString, List.cons_append, List.tail_cons, List.dropLast_concat, hpieces]
  simp [decodeChars]

private theorem readString_escape (s rest : Bytes) : readString (escape 0 s ++ '"'.toUInt8 :: rest) = (true, rest) := by
  rw [(piece_escape 0 s).read, readString.eq_def]
  simp only [if_neg (show '"'.toUInt8 ≠ '\\'.toUInt8 by decide), if_true]

theorem textBetween_append (front rest : Bytes) : textBetween (front ++ rest) rest = front := by
  rw [textBetween, List.length_append, Nat.add_sub_cancel]
  exact List.take_left

theorem readToken_quoted (s rest : Bytes) :
    readToken (valueToQuotedStringN s ++ rest) = (⟨.string, valueToQuotedStringN s⟩, rest) := by
  have hshape : valueToQuotedStringN s ++ rest =
      '"'.toUInt8 :: (escape 0 s ++ '"'.toUInt8 :: rest) := by
    simp [valueToQuotedStringN_eq]
  have hscan : scanToken '"'.toUInt8 (escape 0 s ++ '"'.toUInt8 :: rest) = (.string, rest) := by
    show tokenType .string (readString _) = _
    rw [readString_escape]
    rfl
  have htext := textBetween_append (valueToQuotedStringN s) rest
  rw [hshape] at htext ⊢
  show (Token.mk (scanToken _ _).1 (textBetween _ (scanToken _ _).2), (scanToken _ _).2) = _
  rw [hscan, htext]

/-! ## Well-formed strings -/

private theorem readBack_skip (front rest : Bytes) : readBack front.length (front ++ rest) = readBack 0 rest := by
  induction front with
  | nil => rfl
  | cons c front ih =>
    rw [List.length_cons, List.cons_append, readBack]
    exact ih

private theorem readBack_char (c : Char) (rest : Bytes) :
    readBack 0 (String.utf8EncodeChar c ++ rest) = String.utf8EncodeChar c ++ readBack 0 rest := by
  obtain ⟨first, text, hencode, hcode⟩ := utf8ToCodepoint_char c rest
  have hmax : c.toNat < 0x110000 := c.valid.elim (fun h => Nat.lt_trans h (by decide)) And.right
  have hwrapped : wrapped c.toNat = c.toNat := by
    rw [wrapped]
    split
    · rfl
    · omega
  rw [hencode, List.cons_append, readBack, hcode]
  split
  · next hshort =>
    -- a character with a short escape sequence is a single byte
    obtain ⟨letter, hletter⟩ := Option.isSome_iff_exists.1 hshort
    obtain ⟨-, -, -, -, hascii⟩ := shortEscape_cases hletter
    rw [utf8ToCodepoint_ascii hascii] at hcode
    obtain rfl : text = [] := List.length_eq_zero_iff.1 (Prod.ext_iff.1 hcode).2.symm
    rfl
  · rw [hwrapped, codePointToUTF8_char, hencode, readBack_skip]

theorem readBack_utf8 (s : String) : readBack 0 (utf8 s) = utf8 s := by
  rw [utf8]
  induction s.toList with
  | nil => rfl
  | cons c chars ih => rw [List.flatMap_cons, readBack_char, ih]

private theorem exists_codePointToUTF8_eq {codepoint : Nat} (h : codepoint.isValidChar) :
    ∃ c : Char, codePointToUTF8 codepoint = String.utf8EncodeChar c :=
  ⟨Char.ofNatAux codepoint h, codePointToUTF8_char (Char.ofNatAux codepoint h)⟩

private theorem isValidChar_wrapped {first : UInt8} {r : Nat × Nat} (h : Codepoint first r) :
    (wrapped r.1).isValidChar := by
  have hsurrogate := h.no_surrogate
  rw [wrapped]
  split
  · rw [Nat.isValidChar]
    omega
  · exact .inr ⟨by omega, by omega⟩

private theorem exists_readBack_eq (skip : Nat) (s : Bytes) :
    ∃ chars : List Char, readBack skip s = chars.flatMap String.utf8EncodeChar := by
  induction s generalizing skip with
  | nil => exact ⟨[], by cases skip <;> rfl⟩
  | cons c s ih =>
    cases skip with
    | succ skip => exact ih skip
    | zero =>
      rw [readBack]
      split
      · next hshort =>
        obtain ⟨letter, hletter⟩ := Option.isSome_iff_exists.1 hshort
        obtain ⟨-, -, -, -, hascii⟩ := shortEscape_cases hletter
        have hvalid : c.toNat.isValidChar := .inl (by omega)
        obtain ⟨d, hd⟩ := exists_codePointToUTF8_eq hvalid
        obtain ⟨chars, hchars⟩ := ih 0
        rw [codePointToUTF8, if_pos (by omega), toChar, UInt8.ofNat_toNat] at hd
        exact ⟨d :: chars, by rw [hchars, List.flatMap_cons, ← hd, List.singleton_append]⟩
      · obtain ⟨d, hd⟩ := exists_codePointToUTF8_eq (isValidChar_wrapped (codepoint_utf8ToCodepoint c s))
        obtain ⟨chars, hchars⟩ := ih (utf8ToCodepoint c s).2
        exact ⟨d :: chars, by rw [hd, hchars, List.flatMap_cons]⟩

theorem printable_valueToQuotedStringN (s : Bytes) : ∀ c ∈ valueToQuotedStringN s, 0x20 ≤ c ∧ c ≤ 0x7F := by
  rw [valueToQuotedStringN_eq, List.forall_mem_append, List.forall_mem_cons]
  exact ⟨⟨by decide, (piece_escape 0 s).printable⟩, printable_of_all (by decide)⟩

/-- Every string, well-formed or not, is written as one token of ASCII characters that are no control
characters below the blank, which is decoded to a well-formed string; a well-formed string is decoded to itself. -/
theorem quoted_string_reads_back (s rest : Bytes) :
    readToken (valueToQuotedStringN s ++ rest) = (⟨.string, valueToQuotedStringN s⟩, rest) ∧
      (∀ c ∈ valueToQuotedStringN s, 0x20 ≤ c ∧ c ≤ 0x7F) ∧
      (∃ text : String, decodeString (valueToQuotedStringN s) = some (utf8 text)) ∧
      ∀ text : String, decodeString (valueToQuotedStringN (utf8 text)) = some (utf8 text) := by
  refine ⟨readToken_quoted s rest, printable_valueToQuotedStringN s, ?_, ?_⟩
  · obtain ⟨chars, hchars⟩ := exists_readBack_eq 0 s
    refine ⟨String.ofList chars, ?_⟩
    rw [decodeString_valueToQuotedStringN, hchars, utf8, String.toList_ofList]
  · intro text
    rw [decodeString_valueToQuotedStringN, readBack_utf8]

end PinpointAgent.Jsoncpp
