import PinpointAgent.Framework.JsonTree
import PinpointAgent.Jsoncpp.Utf8

/-!
# The writer of jsoncpp

`NodeTreeWriter` turns a span into text with `BuiltStyledStreamWriter`, without indentation and
without comments. The writer is built for readable output: of an array it first finds out whether it
fits on a line, and to do so it writes the items into a buffer, from which they may be taken later.
Whichever way it takes, the text is the plain one, `Value.render`.
-/

namespace PinpointAgent.Jsoncpp

open Framework

def ascii (s : String) : Bytes := s.toList.map Char.toUInt8

/-- The values of jsoncpp; the members of an object are those of a `std::map`, in the order of their keys. -/
abbrev Value := JsonTree Bytes

/-! ## Strings -/

def requiresEscaping (c : UInt8) : Bool :=
  c = '\\'.toUInt8 || c = '"'.toUInt8 || c < 0x20 || c > 0x7F

def doesAnyCharRequireEscaping (s : Bytes) : Bool := s.any requiresEscaping

def hexDigit (n : Nat) : UInt8 := if n < 10 then toChar (n + 48) else toChar (n + 87)

def toHex16Bit (x : Nat) : Bytes :=
  let hi := (x >>> 8) &&& 0xFF
  let lo := x &&& 0xFF
  [hexDigit (hi / 16), hexDigit (hi % 16), hexDigit (lo / 16), hexDigit (lo % 16)]

def hexEscape (x : Nat) : Bytes := ascii "\\u" ++ toHex16Bit x

def shortEscape (c : UInt8) : Option UInt8 :=
  if c = '"'.toUInt8 then some '"'.toUInt8
  else if c = '\\'.toUInt8 then some '\\'.toUInt8
  else if c = 8 then some 'b'.toUInt8
  else if c = 12 then some 'f'.toUInt8
  else if c = 10 then some 'n'.toUInt8
  else if c = 13 then some 'r'.toUInt8
  else if c = 9 then some 't'.toUInt8
  else none

def escapeCodepoint (codepoint : Nat) : Bytes :=
  if codepoint < 0x20 then hexEscape codepoint
  else if codepoint < 0x80 then [toChar codepoint]
  -- Basic Multilingual Plane
  else if codepoint < 0x10000 then hexEscape codepoint
  -- Extended Unicode. Encode 20 bits as a surrogate pair.
  else hexEscape (0xD800 + (((codepoint - 0x10000) >>> 10) &&& 0x3FF)) ++
    hexEscape (0xDC00 + ((codepoint - 0x10000) &&& 0x3FF))

/-- The loop over the characters. The first argument counts the bytes that the last code point took and
that are passed over. -/
def escape : Nat → Bytes → Bytes
  | _, [] => []
  | skip + 1, _ :: text => escape skip text
  | 0, c :: text =>
    match shortEscape c with
    | some letter => '\\'.toUInt8 :: letter :: escape 0 text
    | none =>
      escapeCodepoint (utf8ToCodepoint c text).1 ++ escape (utf8ToCodepoint c text).2 text

def valueToQuotedStringN (s : Bytes) : Bytes :=
  if doesAnyCharRequireEscaping s then '"'.toUInt8 :: escape 0 s ++ ['"'.toUInt8]
  else '"'.toUInt8 :: s ++ ['"'.toUInt8]

/-! ## Numbers -/

def uintToString (value : Nat) : Bytes := (Nat.toDigits 10 value).map Char.toUInt8

def intToString (value : Int) : Bytes :=
  if value < 0 then '-'.toUInt8 :: uintToString value.natAbs else uintToString value.natAbs

/-! ## The plain text -/

namespace Value

def leafText : Value → Bytes
  | .null => ascii "null"
  | .bool b => ascii (if b then "true" else "false")
  | .int n => intToString n
  | .uint n => uintToString n
  | .real text => text
  | .str s => valueToQuotedStringN s
  | .arr _ => ascii "[]"
  | .obj _ => ascii "\x7b\x7d"

mutual

def render : Value → Bytes
  | .arr items => '['.toUInt8 :: renderItems items ++ [']'.toUInt8]
  | .obj members => '\x7b'.toUInt8 :: renderMembers members ++ ['\x7d'.toUInt8]
  | .null => leafText .null
  | .bool b => leafText (.bool b)
  | .int n => leafText (.int n)
  | .uint n => leafText (.uint n)
  | .real text => leafText (.real text)
  | .str s => leafText (.str s)

def renderItems : List Value → Bytes
  | [] => []
  | v :: items => render v ++ (if items.isEmpty then [] else [','.toUInt8]) ++ renderItems items

def renderMembers : List (Bytes × Value) → Bytes
  | [] => []
  | (key, v) :: members =>
    valueToQuotedStringN key ++ ':'.toUInt8 :: render v ++ (if members.isEmpty then [] else [','.toUInt8]) ++
      renderMembers members

end

/-- `(isArray() || isObject()) && !empty()` -/
def isNested : Value → Bool
  | .arr items => !items.isEmpty
  | .obj members => !members.isEmpty
  | _ => false

private theorem render_of_not_isNested {v : Value} (h : v.isNested = false) : v.render = v.leafText := by
  cases v with
  | arr items =>
    obtain rfl : items = [] := by simpa [isNested] using h
    rfl
  | obj members =>
    obtain rfl : members = [] := by simpa [isNested] using h
    rfl
  | _ => rfl

end Value

/-! ## The writer -/

/-- `BuiltStyledStreamWriter` with the comment style `None`; `sout` is what it has written. -/
structure StreamWriter where
  indentation : Bytes
  colonSymbol : Bytes
  childValues : List Bytes
  indentString : Bytes
  addChildValues : Bool
  indented : Bool
  sout : Bytes

namespace StreamWriter

def rightMargin : Nat := 74

def new (indentation : Bytes) : StreamWriter where
  indentation := indentation
  colonSymbol := if indentation.isEmpty then ascii ":" else ascii " : "
  childValues := []
  indentString := []
  addChildValues := false
  indented := true
  sout := []

def put (text : Bytes) (w : StreamWriter) : StreamWriter := { w with sout := w.sout ++ text }

def pushValue (text : Bytes) (w : StreamWriter) : StreamWriter :=
  if w.addChildValues then { w with childValues := w.childValues ++ [text] } else w.put text

def writeIndent (w : StreamWriter) : StreamWriter :=
  if w.indentation.isEmpty then w else w.put ('\n'.toUInt8 :: w.indentString)

/-- `if (!indented_) writeIndent();` -/
def startLine (w : StreamWriter) : StreamWriter := if w.indented then w else w.writeIndent

def writeWithIndent (text : Bytes) (w : StreamWriter) : StreamWriter :=
  { w.startLine.put text with indented := false }

def indent (w : StreamWriter) : StreamWriter := { w with indentString := w.indentString ++ w.indentation }

def unindent (w : StreamWriter) : StreamWriter :=
  { w with indentString := w.indentString.take (w.indentString.length - w.indentation.length) }

def separate (last : Bool) (w : StreamWriter) : StreamWriter := if last then w else w.put ([','.toUInt8])

/-- `isMultilineArray`; `push` is the loop that writes the items into `childValues_`. -/
def isMultilineArray (items : List Value) (push : StreamWriter → StreamWriter) (w : StreamWriter) :
    Bool × StreamWriter :=
  let w := { w with childValues := [] }
  if rightMargin ≤ items.length * 3 % 2 ^ 32 || items.any Value.isNested then (true, w)
  else
    let w := { push { w with addChildValues := true } with addChildValues := false }
    let lineLength := (4 + (items.length - 1) * 2 + (w.childValues.map List.length).sum) % 2 ^ 32
    (decide (rightMargin ≤ lineLength), w)

def writeChildValues : List Bytes → StreamWriter → StreamWriter
  | [], w => w
  | text :: texts, w => writeChildValues texts ((w.writeWithIndent text).separate texts.isEmpty)

def writeLines (write : StreamWriter → StreamWriter) (w : StreamWriter) : StreamWriter :=
  let w := (w.writeWithIndent (ascii "[")).indent
  let w := if w.childValues.isEmpty then write w else writeChildValues w.childValues w
  w.unindent.writeWithIndent (ascii "]")

def writeLine (w : StreamWriter) : StreamWriter :=
  let blank : Bytes := if w.indentation.isEmpty then [] else ascii " "
  w.put (ascii "[" ++ blank ++ (ascii "," ++ blank).intercalate w.childValues ++ blank ++ ascii "]")

def writeArrayValue (items : List Value) (push write : StreamWriter → StreamWriter) (w : StreamWriter) :
    StreamWriter :=
  if items.isEmpty then w.pushValue (ascii "[]")
  else
    let (isMultiLine, w) := isMultilineArray items push w
    if isMultiLine then writeLines write w else writeLine w

mutual

def writeValue : Value → StreamWriter → StreamWriter
  | .arr items, w => writeArrayValue items (fun w => pushItems items w) (fun w => writeItems items w) w
  | .obj members, w =>
    if members.isEmpty then w.pushValue (ascii "\x7b\x7d")
    else ((writeMembers members (w.writeWithIndent (ascii "\x7b")).indent).unindent).writeWithIndent (ascii "\x7d")
  | .null, w => w.pushValue (Value.leafText .null)
  | .bool b, w => w.pushValue (Value.leafText (.bool b))
  | .int n, w => w.pushValue (Value.leafText (.int n))
  | .uint n, w => w.pushValue (Value.leafText (.uint n))
  | .real text, w => w.pushValue (Value.leafText (.real text))
  | .str s, w => w.pushValue (Value.leafText (.str s))

def pushItems : List Value → StreamWriter → StreamWriter
  | [], w => w
  | v :: items, w => pushItems items (writeValue v w)

def writeItems : List Value → StreamWriter → StreamWriter
  | [], w => w
  | v :: items, w =>
    let w := { writeValue v { w.startLine with indented := true } with indented := false }
    writeItems items (w.separate items.isEmpty)

def writeMembers : List (Bytes × Value) → StreamWriter → StreamWriter
  | [], w => w
  | (name, v) :: members, w =>
    let w := writeValue v ((w.writeWithIndent (valueToQuotedStringN name)).put w.colonSymbol)
    writeMembers members (w.separate members.isEmpty)

end

end StreamWriter

def NodeTreeWriter.write (v : Value) : Bytes := (StreamWriter.writeValue v (.new [])).sout

namespace StreamWriter

/-- A writer without indentation, outside the loop of `isMultilineArray`. -/
structure Plain (w : StreamWriter) : Prop where
  indentation : w.indentation = []
  colonSymbol : w.colonSymbol = ascii ":"
  addChildValues : w.addChildValues = false

structure Writes (w w' : StreamWriter) (text : Bytes) : Prop where
  plain : w'.Plain
  sout : w'.sout = w.sout ++ text

section Steps

variable {w w₁ w₂ : StreamWriter} {text text' : Bytes}

private theorem Writes.trans (h : Writes w w₁ text) (h' : Writes w₁ w₂ text') : Writes w w₂ (text ++ text') :=
  ⟨h'.plain, by rw [h'.sout, h.sout, List.append_assoc]⟩

private theorem Writes.of_sout (h : Writes w w₂ text) (hsout : w.sout = w₁.sout) : Writes w₁ w₂ text :=
  ⟨h.plain, hsout ▸ h.sout⟩

private theorem writes_put (hw : w.Plain) (text : Bytes) : Writes w (w.put text) text :=
  ⟨⟨hw.indentation, hw.colonSymbol, hw.addChildValues⟩, rfl⟩

private theorem writes_pushValue (hw : w.Plain) (text : Bytes) : Writes w (w.pushValue text) text := by
  rw [pushValue, hw.addChildValues]
  exact writes_put hw text

private theorem startLine_of_plain (hw : w.Plain) : w.startLine = w := by
  rw [startLine, writeIndent, hw.indentation]
  exact ite_self w

private theorem writes_writeWithIndent (hw : w.Plain) (text : Bytes) : Writes w (w.writeWithIndent text) text := by
  rw [writeWithIndent, startLine_of_plain hw]
  exact ⟨⟨hw.indentation, hw.colonSymbol, hw.addChildValues⟩, rfl⟩

private theorem writes_separate (hw : w.Plain) (last : Bool) :
    Writes w (w.separate last) (if last then [] else [','.toUInt8]) := by
  cases last with
  | true => exact ⟨hw, (List.append_nil _).symm⟩
  | false => exact writes_put hw _

private theorem Plain.indent (hw : w.Plain) : w.indent.Plain := ⟨hw.indentation, hw.colonSymbol, hw.addChildValues⟩

private theorem Plain.unindent (hw : w.Plain) : w.unindent.Plain := ⟨hw.indentation, hw.colonSymbol, hw.addChildValues⟩

private theorem writes_block {inner : StreamWriter → StreamWriter} {front back : Bytes} (hw : w.Plain)
    (hinner : ∀ u : StreamWriter, u.Plain → u.childValues = w.childValues → Writes u (inner u) text) :
    Writes w ((inner (w.writeWithIndent front).indent).unindent.writeWithIndent back)
      (front ++ text ++ back) := by
  have hfront := writes_writeWithIndent hw front
  have hchild : (w.writeWithIndent front).indent.childValues = w.childValues := by
    rw [writeWithIndent, startLine_of_plain hw]
    rfl
  have htext := hinner _ hfront.plain.indent hchild
  have hback := writes_writeWithIndent htext.plain.unindent back
  refine ⟨hback.plain, ?_⟩
  rw [hback.sout]
  show (inner _).sout ++ back = _
  rw [htext.sout]
  show (w.writeWithIndent front).sout ++ text ++ back = _
  rw [hfront.sout]
  simp only [List.append_assoc]

end Steps

/-! ## The buffer of an array -/

section Buffer

variable {w : StreamWriter}

/-- Inside the loop of `isMultilineArray` a value without items goes to the buffer. -/
theorem writeValue_of_adding {v : Value} (hv : v.isNested = false) (hw : w.addChildValues = true) :
    writeValue v w = { w with childValues := w.childValues ++ [v.render] } := by
  have hpush (text : Bytes) : w.pushValue text = { w with childValues := w.childValues ++ [text] } := by
    rw [pushValue, if_pos hw]
  rw [Value.render_of_not_isNested hv]
  cases v with
  | arr items =>
    obtain rfl : items = [] := by simpa [Value.isNested] using hv
    exact hpush _
  | obj members =>
    obtain rfl : members = [] := by simpa [Value.isNested] using hv
    exact hpush _
  | _ => exact hpush _

private theorem pushItems_of_adding {items : List Value} (hitems : items.any Value.isNested = false)
    (hw : w.addChildValues = true) :
    pushItems items w = { w with childValues := w.childValues ++ items.map Value.render } := by
  induction items generalizing w with
  | nil => simp [pushItems]
  | cons v items ih =>
    rw [List.any_cons, Bool.or_eq_false_iff] at hitems
    rw [pushItems, writeValue_of_adding hitems.1 hw]
    have hrest := ih (w := { w with childValues := w.childValues ++ [v.render] }) hitems.2 hw
    rw [hrest]
    simp

private theorem renderItems_eq_intercalate (items : List Value) :
    Value.renderItems items = [','.toUInt8].intercalate (items.map Value.render) := by
  induction items with
  | nil => rfl
  | cons v items ih =>
    cases items with
    | nil => simp [Value.renderItems]
    | cons u items =>
      rw [Value.renderItems, ih]
      simp

theorem writes_writeChildValues (items : List Value) (hw : w.Plain) :
    Writes w (writeChildValues (items.map Value.render) w) (Value.renderItems items) := by
  induction items generalizing w with
  | nil => exact ⟨hw, (List.append_nil _).symm⟩
  | cons v items ih =>
    have htext := writes_writeWithIndent hw v.render
    have hcomma := writes_separate htext.plain items.isEmpty
    have hrest := ih hcomma.plain
    rw [List.map_cons, writeChildValues, Value.renderItems, List.isEmpty_map]
    exact (htext.trans hcomma).trans hrest

/-- In an array of several lines the items come from the loop if there are none in the buffer. -/
theorem writes_writeLines {items : List Value} {write : StreamWriter → StreamWriter} (hw : w.Plain)
    (hempty : w.childValues = [] →
      ∀ u : StreamWriter, u.Plain → Writes u (write u) (Value.renderItems items))
    (hfull : w.childValues ≠ [] → w.childValues = items.map Value.render) :
    Writes w (writeLines write w) (Value.render (.arr items)) := by
  let inner := fun u : StreamWriter =>
    if u.childValues.isEmpty then write u else writeChildValues u.childValues u
  have hinner : ∀ u : StreamWriter, u.Plain → u.childValues = w.childValues →
      Writes u (inner u) (Value.renderItems items) := by
    intro u hu hchild
    by_cases hnil : w.childValues = []
    · have : inner u = write u := by simp [inner, hchild, hnil]
      rw [this]
      exact hempty hnil u hu
    · have : inner u = writeChildValues (items.map Value.render) u := by
        simp only [inner, hchild, hfull hnil]
        rw [hfull hnil] at hnil
        rw [if_neg (by simpa using hnil)]
      rw [this]
      exact writes_writeChildValues items hu
  exact writes_block hw hinner

/-- After `isMultilineArray` the buffer has all items, or it has none and the array takes several lines. -/
theorem isMultilineArray_cases (items : List Value) (w : StreamWriter) :
    isMultilineArray items (fun w => pushItems items w) w = (true, { w with childValues := [] }) ∨
      ∃ isMultiLine, isMultilineArray items (fun w => pushItems items w) w =
        (isMultiLine, { w with childValues := items.map Value.render, addChildValues := false }) := by
  rw [isMultilineArray]
  split
  · exact .inl rfl
  · next hshort =>
    have hleaves : items.any Value.isNested = false := by
      rw [Bool.or_eq_true, not_or] at hshort
      exact Bool.eq_false_iff.2 hshort.2
    have hpushed := pushItems_of_adding (w := { w with childValues := [], addChildValues := true }) hleaves rfl
    simp only [hpushed, List.nil_append]
    exact .inr ⟨_, rfl⟩

theorem writes_writeArrayValue {items : List Value} (hw : w.Plain)
    (hitems : ∀ u : StreamWriter, u.Plain → Writes u (writeItems items u) (Value.renderItems items)) :
    Writes w (writeValue (.arr items) w) (Value.render (.arr items)) := by
  rw [writeValue, writeArrayValue]
  split
  · next hnil =>
    obtain rfl : items = [] := by simpa using hnil
    exact writes_pushValue hw _
  · obtain hlong | ⟨isMultiLine, hbuffered⟩ := isMultilineArray_cases items w
    · rw [hlong]
      refine Writes.of_sout (w := { w with childValues := [] }) ?_ rfl
      exact writes_writeLines ⟨hw.indentation, hw.colonSymbol, hw.addChildValues⟩ (fun _ => hitems)
        fun hne => absurd rfl hne
    · rw [hbuffered]
      refine Writes.of_sout (w := { w with childValues := items.map Value.render, addChildValues := false }) ?_ rfl
      cases isMultiLine with
      | true => exact writes_writeLines ⟨hw.indentation, hw.colonSymbol, rfl⟩ (fun _ => hitems) fun _ => rfl
      | false =>
        refine ⟨⟨hw.indentation, hw.colonSymbol, rfl⟩, ?_⟩
        rw [Value.render, renderItems_eq_intercalate]
        simp [writeLine, put, ascii, hw.indentation]

end Buffer

mutual

private theorem writes_writeValue (v : Value) {w : StreamWriter} (hw : w.Plain) :
    Writes w (writeValue v w) v.render := by
  cases v with
  | arr items => exact writes_writeArrayValue hw fun _ hu => writes_writeItems items hu
  | obj members =>
    cases members with
    | nil => exact writes_pushValue hw _
    | cons member members =>
      rw [writeValue, if_neg (by simp)]
      exact writes_block hw fun _ hu _ => writes_writeMembers (member :: members) hu
  | _ => exact writes_pushValue hw _

theorem writes_writeItems (items : List Value) {w : StreamWriter} (hw : w.Plain) :
    Writes w (writeItems items w) (Value.renderItems items) := by
  cases items with
  | nil => exact ⟨hw, (List.append_nil _).symm⟩
  | cons v items =>
    have hstart : ({ w.startLine with indented := true } : StreamWriter).Plain := by
      rw [startLine_of_plain hw]
      exact ⟨hw.indentation, hw.colonSymbol, hw.addChildValues⟩
    have htext := writes_writeValue v hstart
    have hcomma := writes_separate
      (w := { writeValue v { w.startLine with indented := true } with indented := false })
      ⟨htext.plain.indentation, htext.plain.colonSymbol, htext.plain.addChildValues⟩ items.isEmpty
    have hrest := writes_writeItems items hcomma.plain
    rw [writeItems, Value.renderItems]
    refine ⟨hrest.plain, ?_⟩
    rw [hrest.sout, hcomma.sout, htext.sout, startLine_of_plain hw]
    simp only [List.append_assoc]

theorem writes_writeMembers (members : List (Bytes × Value)) {w : StreamWriter} (hw : w.Plain) :
    Writes w (writeMembers members w) (Value.renderMembers members) := by
  cases members with
  | nil => exact ⟨hw, (List.append_nil _).symm⟩
  | cons member members =>
    obtain ⟨name, v⟩ := member
    have hname := writes_writeWithIndent hw (valueToQuotedStringN name)
    have hcolon := writes_put hname.plain w.colonSymbol
    have htext := writes_writeValue v hcolon.plain
    have hcomma := writes_separate htext.plain members.isEmpty
    have hrest := writes_writeMembers members hcomma.plain
    rw [writeMembers, Value.renderMembers]
    refine ⟨hrest.plain, ?_⟩
    rw [hrest.sout, hcomma.sout, htext.sout, hcolon.sout, hname.sout, hw.colonSymbol]
    simp [ascii]

end

end StreamWriter

/-- The writer of the agent writes the plain text of a span, whichever layout it finds for its arrays. -/
theorem NodeTreeWriter.write_eq_render (v : Value) : NodeTreeWriter.write v = v.render :=
  (StreamWriter.writes_writeValue v ⟨rfl, rfl, rfl⟩).sout

end PinpointAgent.Jsoncpp
