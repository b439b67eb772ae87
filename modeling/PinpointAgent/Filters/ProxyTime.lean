import PinpointAgent.Filters.SpanMessage

/-!
# The time in a proxy's header

nginx sends its header as fields `key=value` with spaces between them; the field `t` has the time as
seconds, a dot and three digits of milliseconds. `ParseStringField` and `ParseDotFormatToTime` take it
apart again. The fields come out as they went in, whatever their order, but each number goes through
`strconv.ParseInt` with a size of 32 bits.
-/

namespace PinpointAgent.Filters

/-! ## Headers -/

/-- A field that can stand in a header: its texts do not contain what separates them. -/
structure HeaderField where
  key : String
  value : String
  space_notMem_key : ' ' ∉ key.toList
  eq_notMem_key : '=' ∉ key.toList
  space_notMem_value : ' ' ∉ value.toList

def HeaderField.text (f : HeaderField) : String := f.key ++ "=" ++ f.value

def headerText (fields : List HeaderField) : String :=
  " ".intercalate (fields.map HeaderField.text)

def threeDigits (ms : Nat) : List Char :=
  [Nat.digitChar (ms / 100), Nat.digitChar (ms / 10 % 10), Nat.digitChar (ms % 10)]

def timeText (sec ms : Nat) : String := sec.repr ++ "." ++ String.ofList (threeDigits ms)

/-! ## Fields -/

private theorem HeaderField.toList_text (f : HeaderField) :
    f.text.toList = f.key.toList ++ '=' :: f.value.toList := by
  simp [HeaderField.text]

private theorem HeaderField.space_notMem_text (f : HeaderField) : ' ' ∉ f.text.toList := by
  rw [f.toList_text, List.mem_append, List.mem_cons]
  rintro (hkey | heq | hvalue)
  · exact f.space_notMem_key hkey
  · cases heq
  · exact f.space_notMem_value hvalue

private theorem stringsCut_text (f : HeaderField) : stringsCut f.text '=' = some (f.key, f.value) := by
  have hspan : f.text.toList.span (· ≠ '=') = (f.key.toList, '=' :: f.value.toList) := by
    have hkey : ∀ c ∈ f.key.toList, decide (c ≠ '=') = true := fun c hc =>
      decide_eq_true fun h => f.eq_notMem_key (h ▸ hc)
    rw [List.span_eq_takeWhile_dropWhile, f.toList_text, List.takeWhile_append_of_pos hkey,
      List.dropWhile_append_of_pos hkey]
    simp
  rw [stringsCut, hspan]
  simp

private theorem stringsSplit_headerText {fields : List HeaderField} (hne : fields ≠ []) :
    stringsSplit (headerText fields) ' ' = fields.map HeaderField.text := by
  have hparts : ∀ part ∈ fields.map (fun f => f.text.toList), ' ' ∉ part := by
    intro part hpart
    obtain ⟨f, -, rfl⟩ := List.mem_map.1 hpart
    exact f.space_notMem_text
  have hheader : (headerText fields).toList =
      [' '].intercalate (fields.map fun f => f.text.toList) := by
    rw [headerText, String.toList_intercalate, List.map_map]
    rfl
  rw [stringsSplit, hheader, List.splitOn_intercalate ' ' hparts (by simpa using hne), List.map_map]
  exact List.map_congr_left fun f _ => String.ofList_toList

def putField (ret : String → Option String) (f : HeaderField) : String → Option String :=
  Function.update ret f.key (some f.value)

private theorem foldl_putField_of_notMem {fields : List HeaderField} {key : String}
    (hkey : key ∉ fields.map HeaderField.key) (ret : String → Option String) :
    fields.foldl putField ret key = ret key := by
  induction fields generalizing ret with
  | nil => rfl
  | cons f fields ih =>
    rw [List.map_cons, List.mem_cons, not_or] at hkey
    rw [List.foldl_cons, ih hkey.2, putField, Function.update_of_ne hkey.1]

private theorem parseStringField_eq {fields : List HeaderField} (hne : fields ≠ []) :
    parseStringField (headerText fields) = fields.foldl putField fun _ => none := by
  rw [parseStringField, stringsSplit_headerText hne, List.foldl_map]
  simp only [stringsCut_text]
  rfl

private theorem parseStringField_headerText {fields : List HeaderField}
    (hdistinct : (fields.map HeaderField.key).Nodup) {f : HeaderField} (hmem : f ∈ fields) :
    parseStringField (headerText fields) f.key = some f.value := by
  rw [parseStringField_eq (List.ne_nil_of_mem hmem)]
  obtain ⟨before, after, rfl⟩ := List.append_of_mem hmem
  rw [List.map_append, List.map_cons, List.nodup_append] at hdistinct
  -- no later field has the same key
  have hafter : f.key ∉ after.map HeaderField.key := (List.nodup_cons.1 hdistinct.2.1).1
  rw [List.foldl_append, List.foldl_cons, foldl_putField_of_notMem hafter, putField,
    Function.update_self]

/-! ## Numbers -/

private theorem decimal_of_digits {cs : List Char} (hne : cs ≠ []) (hdigits : ∀ c ∈ cs, c.isDigit = true) :
    decimal cs = some (Nat.ofDigitChars 10 cs 0) := by
  rw [decimal, if_pos ⟨hne, List.all_eq_true.2 hdigits⟩]
  rfl

private theorem parseInt_of_digits {cs : List Char} (hne : cs ≠ []) (hdigits : ∀ c ∈ cs, c.isDigit = true)
    (bits : Nat) : parseInt (String.ofList cs) bits =
      if Nat.ofDigitChars 10 cs 0 < 2 ^ (bits - 1) then some (Nat.ofDigitChars 10 cs 0 : Int)
      else none := by
  have hdecimal := decimal_of_digits hne hdigits
  rw [parseInt, String.toList_ofList]
  -- a digit is not a sign
  split
  · exact absurd (hdigits '-' List.mem_cons_self) (by decide)
  · exact absurd (hdigits '+' List.mem_cons_self) (by decide)
  · rw [hdecimal, Option.bind_some]
    refine if_congr ?_ rfl rfl
    omega

private theorem parseInt_repr (n bits : Nat) :
    parseInt n.repr bits = if n < 2 ^ (bits - 1) then some (n : Int) else none := by
  rw [Nat.repr_eq_ofList_toDigits, parseInt_of_digits Nat.toDigits_ne_nil
    (fun c hc => Nat.isDigit_of_mem_toDigits (by decide) (by decide) hc),
    Nat.ofDigitChars_toDigits (by decide) (by decide)]

private theorem isDigit_digitChar {n : Nat} (hn : n < 10) : n.digitChar.isDigit = true :=
  Nat.isDigit_of_mem_toDigits (b := 10) (n := n) (by decide) (by decide)
    (by rw [Nat.toDigits_of_lt_base hn]; exact List.mem_singleton_self _)

private theorem isDigit_threeDigits {ms : Nat} (hms : ms < 1000) :
    ∀ c ∈ threeDigits ms, c.isDigit = true := by
  intro c hc
  simp only [threeDigits, List.mem_cons, List.not_mem_nil, or_false] at hc
  rcases hc with rfl | rfl | rfl
  · exact isDigit_digitChar (by omega)
  · exact isDigit_digitChar (by omega)
  · exact isDigit_digitChar (by omega)

private theorem ofDigitChars_threeDigits {ms : Nat} (hms : ms < 1000) :
    Nat.ofDigitChars 10 (threeDigits ms) 0 = ms := by
  rw [threeDigits, Nat.ofDigitChars_cons_digitChar_of_lt_ten (by omega),
    Nat.ofDigitChars_cons_digitChar_of_lt_ten (by omega),
    Nat.ofDigitChars_cons_digitChar_of_lt_ten (by omega), Nat.ofDigitChars_nil]
  omega

private theorem dot_notMem_of_digits {cs : List Char} (hdigits : ∀ c ∈ cs, c.isDigit = true) :
    '.' ∉ cs := fun hdot => absurd (hdigits '.' hdot) (by decide)

private theorem stringsSplit_timeText (sec : Nat) {ms : Nat} (hms : ms < 1000) :
    stringsSplit (timeText sec ms) '.' = [sec.repr, String.ofList (threeDigits ms)] := by
  have hsec : '.' ∉ sec.repr.toList := by
    rw [Nat.toList_repr]
    exact dot_notMem_of_digits fun c hc => Nat.isDigit_of_mem_toDigits (by decide) (by decide) hc
  have htext : (timeText sec ms).toList = sec.repr.toList ++ '.' :: threeDigits ms := by
    simp [timeText]
  rw [stringsSplit, htext, List.splitOn_append_cons_self_of_not_mem hsec,
    List.splitOn_eq_singleton (dot_notMem_of_digits (isDigit_threeDigits hms)), List.map_cons,
    String.ofList_toList]
  rfl

private theorem parseDotFormatToTime_timeText (sec : Nat) {ms : Nat} (hms : ms < 1000) :
    parseDotFormatToTime (timeText sec ms) =
      if sec < 2 ^ 31 then some (sec * 1000 + ms : Int) else none := by
  have hmilli : parseInt (String.ofList (threeDigits ms)) 32 = some (ms : Int) := by
    rw [parseInt_of_digits (by simp [threeDigits]) (isDigit_threeDigits hms),
      ofDigitChars_threeDigits hms, if_pos (by omega)]
  rw [parseDotFormatToTime, stringsSplit_timeText sec hms]
  dsimp only
  rw [hmilli, parseInt_repr]
  split <;> rfl

/-- The time of the field `t` comes out exactly for seconds below `2 ^ 31`. -/
theorem proxy_time_decodes_iff {sec ms : Nat} (hms : ms < 1000)
    {fields : List HeaderField} (hdistinct : (fields.map HeaderField.key).Nodup)
    {t : HeaderField} (hmem : t ∈ fields) (hkey : t.key = "t") (hvalue : t.value = timeText sec ms) :
    (parseStringField (headerText fields) "t").bind parseDotFormatToTime =
      some (sec * 1000 + ms : Int) ↔ sec < 2 ^ 31 := by
  rw [← hkey, parseStringField_headerText hdistinct hmem, hvalue, Option.bind_some,
    parseDotFormatToTime_timeText sec hms]
  simp

private theorem space_notMem_timeText (sec : Nat) {ms : Nat} (hms : ms < 1000) :
    ' ' ∉ (timeText sec ms).toList := by
  have htext : (timeText sec ms).toList = Nat.toDigits 10 sec ++ '.' :: threeDigits ms := by
    simp [timeText]
  rw [htext, List.mem_append, List.mem_cons]
  rintro (hspace | hspace | hspace)
  · exact absurd (Nat.isDigit_of_mem_toDigits (by decide) (by decide) hspace) (by decide)
  · cases hspace
  · exact absurd (isDigit_threeDigits hms ' ' hspace) (by decide)

def timeField (sec ms : Nat) (hms : ms < 1000) : HeaderField :=
  ⟨"t", timeText sec ms, by decide, by decide, space_notMem_timeText sec hms⟩

def durationField : HeaderField := ⟨"D", "0.000", by decide, by decide, by decide⟩

theorem proxy_time_decodes_iff_today :
    headerText [durationField, timeField 1700000000 7 (by decide)] = "D=0.000 t=1700000000.007" ∧
      (parseStringField (headerText [durationField, timeField 1700000000 7 (by decide)]) "t").bind
        parseDotFormatToTime = some 1700000000007 :=
  ⟨by decide +kernel,
    (@proxy_time_decodes_iff 1700000000 7 (by decide)
      [durationField, timeField 1700000000 7 (by decide)] (by decide)
      (timeField 1700000000 7 (by decide)) (by simp) rfl rfl).2 (by decide)⟩

/-- In 2038 the seconds stop fitting. -/
theorem late_time_refused :
    headerText [durationField, timeField 2147483648 123 (by decide)] = "D=0.000 t=2147483648.123" ∧
      (parseStringField "D=0.000 t=2147483648.123" "t").bind parseDotFormatToTime = none := by
  decide +kernel

end PinpointAgent.Filters
