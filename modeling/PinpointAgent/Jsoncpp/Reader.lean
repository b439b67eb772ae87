import PinpointAgent.Framework.SortedMap
import PinpointAgent.Jsoncpp.Writer

/-!
# The reader of jsoncpp

`OurReader` with the settings of the agent: the defaults of `CharReaderBuilder`, comments not
collected. It reads tokens from the text, and values by recursive descent. An error leaves what has
been read so far in the value, and the caller may look at it; the reader throws when values are nested
beyond `stackLimit` and when a key or a string is longer than a value can hold. The texts of the errors,
which the agent does not ask for, are left out.

A position in the text is given by the text from there on; texts are shorter than 4 GiB, so that no index
overflows. The conversion of a decimal fraction is that of the standard library; `toDouble` stands for it.
-/

namespace PinpointAgent.Jsoncpp

open Framework

inductive TokenType where
  | endOfStream
  | objectBegin
  | objectEnd
  | arrayBegin
  | arrayEnd
  | string
  | number
  | true
  | false
  | null
  | arraySeparator
  | memberSeparator
  | comment
  | error
deriving DecidableEq, Repr

structure Token where
  type : TokenType
  text : Bytes
deriving DecidableEq

/-! ## Tokens -/

def isSpace (c : UInt8) : Bool := c = ' '.toUInt8 || c = 9 || c = 13 || c = 10

def skipSpaces (text : Bytes) : Bytes := text.dropWhile isSpace

def isDigit (c : UInt8) : Bool := '0'.toUInt8 ≤ c && c ≤ '9'.toUInt8

/-- `match` with a pattern: whether the text begins with it, and the text behind it. -/
def matchPattern (pattern text : Bytes) : Bool × Bytes :=
  if pattern <+: text then (true, text.drop pattern.length) else (false, text)

def readCStyleComment : Bytes → Bool × Bytes
  | [] => (false, [])
  -- the loop ends before the last character
  | [c] => (c = '/'.toUInt8, [])
  | c :: d :: text =>
    if c = '*'.toUInt8 ∧ d = '/'.toUInt8 then (true, text) else readCStyleComment (d :: text)

def readCppStyleComment : Bytes → Bool × Bytes
  | [] => (true, [])
  | c :: text =>
    if c = 10 then (true, text)
    else if c = 13 then (true, if text.head? = some 10 then text.tail else text)
    else readCppStyleComment text

def readComment : Bytes → Bool × Bytes
  | [] => (false, [])
  | c :: text =>
    if c = '*'.toUInt8 then readCStyleComment text
    else if c = '/'.toUInt8 then readCppStyleComment text
    else (false, text)

/-- The text behind a fraction and behind an exponent, if there are such. -/
def skipFraction (text : Bytes) : Bytes :=
  if text.head? = some '.'.toUInt8 then text.tail.dropWhile isDigit else text

def skipExponent (text : Bytes) : Bytes :=
  if text.head? = some 'e'.toUInt8 ∨ text.head? = some 'E'.toUInt8 then
    if text.tail.head? = some '+'.toUInt8 ∨ text.tail.head? = some '-'.toUInt8 then
      text.tail.tail.dropWhile isDigit
    else text.tail.dropWhile isDigit
  else text

def readNumber (checkInf : Bool) (text : Bytes) : Bool × Bytes :=
  if checkInf ∧ text.head? = some 'I'.toUInt8 then (false, text.tail)
  else (true, skipExponent (skipFraction (text.dropWhile isDigit)))

def readString : Bytes → Bool × Bytes
  | [] => (false, [])
  | c :: text =>
    if c = '\\'.toUInt8 then
      match text with
      | [] => (false, [])
      | _ :: text => readString text
    else if c = '"'.toUInt8 then (true, text)
    else readString text

def tokenType (type : TokenType) : Bool × Bytes → TokenType × Bytes
  | (true, text) => (type, text)
  | (false, text) => (.error, text)

/-- The `switch` on the first character of a token. -/
def scanToken (c : UInt8) (text : Bytes) : TokenType × Bytes :=
  if c = '\x7b'.toUInt8 then (.objectBegin, text)
  else if c = '\x7d'.toUInt8 then (.objectEnd, text)
  else if c = '['.toUInt8 then (.arrayBegin, text)
  else if c = ']'.toUInt8 then (.arrayEnd, text)
  else if c = '"'.toUInt8 then tokenType .string (readString text)
  else if c = '/'.toUInt8 then tokenType .comment (readComment text)
  else if isDigit c then (.number, (readNumber false text).2)
  else if c = '-'.toUInt8 ∨ c = '+'.toUInt8 then tokenType .number (readNumber true text)
  else if c = 't'.toUInt8 then tokenType .true (matchPattern (ascii "rue") text)
  else if c = 'f'.toUInt8 then tokenType .false (matchPattern (ascii "alse") text)
  else if c = 'n'.toUInt8 then tokenType .null (matchPattern (ascii "ull") text)
  else if c = ','.toUInt8 then (.arraySeparator, text)
  else if c = ':'.toUInt8 then (.memberSeparator, text)
  else if c = 0 then (.endOfStream, text)
  else (.error, text)

def textBetween (start stop : Bytes) : Bytes := start.take (start.length - stop.length)

def readToken (text : Bytes) : Token × Bytes :=
  match skipSpaces text with
  | [] => (⟨.endOfStream, []⟩, [])
  | c :: rest =>
    (⟨(scanToken c rest).1, textBetween (c :: rest) (scanToken c rest).2⟩, (scanToken c rest).2)

/-- The next token that is not a comment. Every comment takes some text. -/
def skipCommentsWithin : Nat → Bytes → Token × Bytes
  | 0, text => readToken text
  | n + 1, text =>
    if (readToken text).1.type = .comment then skipCommentsWithin n (readToken text).2 else readToken text

def skipCommentTokens (text : Bytes) : Token × Bytes := skipCommentsWithin text.length text

/-! ## Scalars -/

def maxLargestInt : Nat := 2 ^ 63 - 1

def maxLargestUInt : Nat := 2 ^ 64 - 1

/-- The loop of `decodeNumber`; `none` when the number is read as a fraction instead. -/
def decodeDigits (threshold maxLastDigit : Nat) : Nat → Bytes → Option Nat
  | value, [] => some value
  | value, c :: text =>
    if isDigit c then
      let digit := c.toNat - 48
      if threshold ≤ value ∧ (threshold < value ∨ text ≠ [] ∨ maxLastDigit < digit) then none
      else decodeDigits threshold maxLastDigit (value * 10 + digit) text
    else none

def decodeNumber (toDouble : Bytes → Option Bytes) (text : Bytes) : Option Value :=
  let isNegative := text.head? = some '-'.toUInt8
  let digits := if isNegative then text.tail else text
  let max := if isNegative then maxLargestInt + 1 else maxLargestUInt
  match decodeDigits (max / 10) (max % 10) 0 digits with
  | none => (toDouble text).map .real
  | some value =>
    if isNegative then some (.int (-(value / 10 : Nat) * 10 - (value % 10 : Nat)))
    else if value ≤ maxLargestInt then some (.int value)
    else some (.uint value)

def hexValue (c : UInt8) : Option Nat :=
  if isDigit c then some (c.toNat - 48)
  else if 'a'.toUInt8 ≤ c ∧ c ≤ 'f'.toUInt8 then some (c.toNat - 87)
  else if 'A'.toUInt8 ≤ c ∧ c ≤ 'F'.toUInt8 then some (c.toNat - 55)
  else none

def decodeUnicodeEscapeSequence : Bytes → Option Nat
  | a :: b :: c :: d :: _ => do
    let a ← hexValue a
    let b ← hexValue b
    let c ← hexValue c
    let d ← hexValue d
    pure (((a * 16 + b) * 16 + c) * 16 + d)
  | _ => none

/-- The code point of an escape sequence, with the number of characters behind the letter `u` that it
takes. -/
def decodeUnicodeCodePoint (text : Bytes) : Option (Nat × Nat) :=
  match decodeUnicodeEscapeSequence text with
  | none => none
  | some unicode =>
    if 0xD800 ≤ unicode ∧ unicode ≤ 0xDBFF then
      -- surrogate pairs
      match text.drop 4 with
      | c :: d :: text =>
        if c = '\\'.toUInt8 ∧ d = 'u'.toUInt8 then
          (decodeUnicodeEscapeSequence text).map fun surrogatePair =>
            (0x10000 + ((unicode &&& 0x3FF) <<< 10) + (surrogatePair &&& 0x3FF), 10)
        else none
      | _ => none
    else some (unicode, 4)

def unescape (letter : UInt8) : Option UInt8 :=
  if letter = '"'.toUInt8 then some '"'.toUInt8
  else if letter = '/'.toUInt8 then some '/'.toUInt8
  else if letter = '\\'.toUInt8 then some '\\'.toUInt8
  else if letter = 'b'.toUInt8 then some 8
  else if letter = 'f'.toUInt8 then some 12
  else if letter = 'n'.toUInt8 then some 10
  else if letter = 'r'.toUInt8 then some 13
  else if letter = 't'.toUInt8 then some 9
  else none

/-- The loop of `decodeString` over the text between the quotation marks; the first argument counts
characters of an escape sequence that are passed over. -/
def decodeChars : Nat → Bytes → Option Bytes
  | _, [] => some []
  | skip + 1, _ :: text => decodeChars skip text
  | 0, c :: text =>
    if c = '"'.toUInt8 then some []
    else if c = '\\'.toUInt8 then
      match text with
      | [] => none
      | letter :: text =>
        if letter = 'u'.toUInt8 then
          match decodeUnicodeCodePoint text with
          | none => none
          | some (unicode, taken) => (decodeChars taken text).map (codePointToUTF8 unicode ++ ·)
        else
          match unescape letter with
          | none => none
          | some d => (decodeChars 0 text).map (d :: ·)
    else (decodeChars 0 text).map (c :: ·)

def decodeString (text : Bytes) : Option Bytes := decodeChars 0 text.tail.dropLast

/-! ## Values -/

def stackLimit : Nat := 1000

def keyLengthLimit : Nat := 2 ^ 30

/-- The length of the longest string that `duplicateAndPrefixStringValue` takes. -/
def maxStringLength : Nat := 2 ^ 31 - 1 - 4 - 1

inductive Thrown where
  /-- `Exceeded stackLimit in readValue().` -/
  | stackLimit
  /-- `keylength >= 2^30` -/
  | keyLength
  /-- `length too big for prefixing` -/
  | stringLength
  /-- Not an exception: the reader has not come to its end. -/
  | diverged
deriving DecidableEq, Repr

/-- Whether a value was read without an error, what has been read, and the text behind it. -/
structure Read where
  successful : Bool
  value : Value
  current : Bytes

def memberOf (members : List (Bytes × Value)) (name : Bytes) : Value := (members.lookup name).getD .null

def readNumeral (current : Value) (rest : Bytes) : Option Value → Read
  | some v => ⟨true, v, rest⟩
  | none => ⟨false, current, rest⟩

/-- So does a string, for which the value has to allocate its own copy. -/
def readText (current : Value) (rest : Bytes) : Option Bytes → Except Thrown Read
  | some s => if maxStringLength < s.length then .error .stringLength else .ok ⟨true, .str s, rest⟩
  | none => .ok ⟨false, current, rest⟩

/-- `recoverFromError`: tokens are skipped up to the one given or the end of the stream. -/
def recoverFromError (skipUntilToken : TokenType) : Nat → Bytes → Except Thrown Bytes
  | 0, _ => .error .diverged
  | fuel + 1, text =>
    if (readToken text).1.type = skipUntilToken ∨ (readToken text).1.type = .endOfStream then
      .ok (readToken text).2
    else recoverFromError skipUntilToken fuel (readToken text).2

/-- The value stays as it was when the error was found. -/
def recovered (skipUntilToken : TokenType) (fuel : Nat) (value : Value) (text : Bytes) : Except Thrown Read :=
  (recoverFromError skipUntilToken fuel text).map fun rest => ⟨false, value, rest⟩

section Values

variable (toDouble : Bytes → Option Bytes)

mutual

/-- `readValue` with `depth` nodes on the stack. `current` is what the value was before. -/
def readValue : Nat → Nat → Value → Bytes → Except Thrown Read
  | 0, _, _, _ => .error .diverged
  | fuel + 1, depth, current, text =>
    if stackLimit < depth then .error .stackLimit
    else
      match (skipCommentTokens text).1.type with
      | .objectBegin => readObject fuel depth [] (skipCommentTokens text).2
      | .arrayBegin => readArray fuel depth [] (skipCommentTokens text).2
      | .number =>
        .ok (readNumeral current (skipCommentTokens text).2
          (decodeNumber toDouble (skipCommentTokens text).1.text))
      | .string => readText current (skipCommentTokens text).2 (decodeString (skipCommentTokens text).1.text)
      | .true => .ok ⟨true, .bool true, (skipCommentTokens text).2⟩
      | .false => .ok ⟨true, .bool false, (skipCommentTokens text).2⟩
      | .null => .ok ⟨true, .null, (skipCommentTokens text).2⟩
      | _ => .ok ⟨false, current, (skipCommentTokens text).2⟩

/-- The loop of `readObject` with the members read so far. -/
def readObject : Nat → Nat → List (Bytes × Value) → Bytes → Except Thrown Read
  | 0, _, _, _ => .error .diverged
  | fuel + 1, depth, members, text =>
    match (skipCommentTokens text).1.type with
    -- an empty object or a trailing comma
    | .objectEnd => .ok ⟨true, .obj members, (skipCommentTokens text).2⟩
    | .string =>
      match decodeString (skipCommentTokens text).1.text with
      | none => recovered .objectEnd fuel (.obj members) (skipCommentTokens text).2
      | some name =>
        if keyLengthLimit ≤ name.length then .error .keyLength
        else if (readToken (skipCommentTokens text).2).1.type = .memberSeparator then
          match readValue fuel (depth + 1) (memberOf members name)
              (readToken (skipCommentTokens text).2).2 with
          | .error x => .error x
          | .ok ⟨false, value, rest⟩ =>
            recovered .objectEnd fuel (.obj (SortedMap.insert members name value)) rest
          | .ok ⟨true, value, rest⟩ => readComma fuel depth (SortedMap.insert members name value) rest
        else recovered .objectEnd fuel (.obj members) (readToken (skipCommentTokens text).2).2
    | _ => recovered .objectEnd fuel (.obj members) (skipCommentTokens text).2

/-- What follows a member. Behind a comment any token is taken for a comma. -/
def readComma : Nat → Nat → List (Bytes × Value) → Bytes → Except Thrown Read
  | 0, _, _, _ => .error .diverged
  | fuel + 1, depth, members, text =>
    match (readToken text).1.type with
    | .objectEnd => .ok ⟨true, .obj members, (readToken text).2⟩
    | .arraySeparator => readObject fuel depth members (readToken text).2
    | .comment =>
      if (skipCommentTokens (readToken text).2).1.type = .objectEnd then
        .ok ⟨true, .obj members, (skipCommentTokens (readToken text).2).2⟩
      else readObject fuel depth members (skipCommentTokens (readToken text).2).2
    | _ => recovered .objectEnd fuel (.obj members) (readToken text).2

/-- The loop of `readArray` with the items read so far. -/
def readArray : Nat → Nat → List Value → Bytes → Except Thrown Read
  | 0, _, _, _ => .error .diverged
  | fuel + 1, depth, items, text =>
    -- an empty array or a trailing comma
    if (skipSpaces text).head? = some ']'.toUInt8 then .ok ⟨true, .arr items, (skipSpaces text).tail⟩
    else
      match readValue fuel (depth + 1) .null (skipSpaces text) with
      | .error x => .error x
      | .ok ⟨false, value, rest⟩ => recovered .arrayEnd fuel (.arr (items ++ [value])) rest
      | .ok ⟨true, value, rest⟩ =>
        match (skipCommentTokens rest).1.type with
        | .arrayEnd => .ok ⟨true, .arr (items ++ [value]), (skipCommentTokens rest).2⟩
        | .arraySeparator => readArray fuel depth (items ++ [value]) (skipCommentTokens rest).2
        | _ => recovered .arrayEnd fuel (.arr (items ++ [value])) (skipCommentTokens rest).2

end

def skipBom (doc : Bytes) : Bytes := if [0xEF, 0xBB, 0xBF] <+: doc then doc.drop 3 else doc

/-- The value that `parse` leaves in a null root, and whether there was no error. What follows the value in
the text is allowed, and so is a scalar at the root. -/
def parse (doc : Bytes) : Except Thrown (Bool × Value) :=
  (readValue toDouble (2 * doc.length + 1) 1 .null (skipBom doc)).map fun r => (r.successful, r.value)

end Values

end PinpointAgent.Jsoncpp
