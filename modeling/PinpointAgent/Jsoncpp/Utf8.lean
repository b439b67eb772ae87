import Mathlib.Data.List.Basic
import Mathlib.Data.Nat.Bitwise

/-!
# Code points and their bytes

`codePointToUTF8` of jsoncpp's reader writes a code point in UTF-8, `utf8ToCodepoint` of its writer
takes one back out of a text. Neither checks that the bytes behind the first one are continuation
bytes, so the writer gets a code point out of every text; of a well-formed text it gets the code
points that the text was made of.
-/

namespace PinpointAgent.Jsoncpp

abbrev Bytes := List UInt8

def utf8 (s : String) : Bytes := s.toList.flatMap String.utf8EncodeChar

abbrev toChar (n : Nat) : UInt8 := UInt8.ofNat n

def codePointToUTF8 (cp : Nat) : Bytes :=
  if cp ≤ 0x7F then [toChar cp]
  else if cp ≤ 0x7FF then [toChar (0xC0 ||| (0x1F &&& (cp >>> 6))), toChar (0x80 ||| (0x3F &&& cp))]
  else if cp ≤ 0xFFFF then
    [toChar (0xE0 ||| (0xF &&& (cp >>> 12))), toChar (0x80 ||| (0x3F &&& (cp >>> 6))),
      toChar (0x80 ||| (0x3F &&& cp))]
  else if cp ≤ 0x10FFFF then
    [toChar (0xF0 ||| (0x7 &&& (cp >>> 18))), toChar (0x80 ||| (0x3F &&& (cp >>> 12))),
      toChar (0x80 ||| (0x3F &&& (cp >>> 6))), toChar (0x80 ||| (0x3F &&& cp))]
  else []

def replacementCharacter : Nat := 0xFFFD

abbrev tailBits (b : UInt8) (shift : Nat) : Nat := (b.toNat &&& 0x3F) <<< shift

/-- The code point at `first`, with the number of bytes behind it that were taken. -/
def utf8ToCodepoint (first : UInt8) (text : Bytes) : Nat × Nat :=
  let firstByte := first.toNat
  if firstByte < 0x80 then (firstByte, 0)
  else if firstByte < 0xE0 then
    match text with
    | b :: _ =>
      let calculated := (firstByte &&& 0x1F) <<< 6 ||| tailBits b 0
      -- oversized encoded characters are invalid
      (if calculated < 0x80 then replacementCharacter else calculated, 1)
    | [] => (replacementCharacter, 0)
  else if firstByte < 0xF0 then
    match text with
    | b :: c :: _ =>
      let calculated := (firstByte &&& 0xF) <<< 12 ||| tailBits b 6 ||| tailBits c 0
      -- surrogates aren't valid codepoints itself
      (if 0xD800 ≤ calculated ∧ calculated ≤ 0xDFFF then replacementCharacter
        else if calculated < 0x800 then replacementCharacter else calculated, 2)
    | _ => (replacementCharacter, 0)
  else if firstByte < 0xF8 then
    match text with
    | b :: c :: d :: _ =>
      let calculated := (firstByte &&& 0x7) <<< 18 ||| tailBits b 12 ||| tailBits c 6 ||| tailBits d 0
      (if calculated < 0x10000 then replacementCharacter else calculated, 3)
    | _ => (replacementCharacter, 0)
  else (replacementCharacter, 0)

/-! ## The bit operations as arithmetic -/

private theorem low_six (n : Nat) : n &&& 0x3F = n % 64 := Nat.and_two_pow_sub_one_eq_mod n 6

private theorem tail_byte (n : Nat) : 0x80 ||| (0x3F &&& n) = n % 64 + 128 := by
  rw [Nat.and_comm, low_six, Nat.add_comm]
  exact (Nat.two_pow_add_eq_or_of_lt (i := 7) (by omega) 1).symm

private theorem low_five (n : Nat) : n &&& 0x1F = n % 32 := Nat.and_two_pow_sub_one_eq_mod n 5

private theorem low_four (n : Nat) : n &&& 0xF = n % 16 := Nat.and_two_pow_sub_one_eq_mod n 4

private theorem low_three (n : Nat) : n &&& 0x7 = n % 8 := Nat.and_two_pow_sub_one_eq_mod n 3

private theorem head_two (n : Nat) : 0xC0 ||| (0x1F &&& n) = n % 32 + 192 := by
  rw [Nat.and_comm, low_five, Nat.add_comm]
  exact (Nat.two_pow_add_eq_or_of_lt (i := 5) (by omega) 6).symm

private theorem head_three (n : Nat) : 0xE0 ||| (0xF &&& n) = n % 16 + 224 := by
  rw [Nat.and_comm, low_four, Nat.add_comm]
  exact (Nat.two_pow_add_eq_or_of_lt (i := 4) (by omega) 14).symm

private theorem head_four (n : Nat) : 0xF0 ||| (0x7 &&& n) = n % 8 + 240 := by
  rw [Nat.and_comm, low_three, Nat.add_comm]
  exact (Nat.two_pow_add_eq_or_of_lt (i := 3) (by omega) 30).symm

theorem codePointToUTF8_char (c : Char) : codePointToUTF8 c.toNat = String.utf8EncodeChar c := by
  have hmax : c.toNat ≤ 0x10FFFF := by
    have hvalid := c.valid
    simp only [UInt32.isValidChar, Nat.isValidChar] at hvalid
    have : c.toNat = c.val.toNat := rfl
    omega
  rw [codePointToUTF8, String.utf8EncodeChar, if_pos hmax]
  simp only [tail_byte, head_two, head_three, head_four, Nat.shiftRight_eq_div_pow]
  rfl

private theorem shift_or {low k : Nat} (high : Nat) (h : low < 2 ^ k) :
    high <<< k ||| low = high * 2 ^ k + low := by
  rw [← Nat.shiftLeft_add_eq_or_of_lt h, Nat.shiftLeft_eq]

private theorem tailBits_eq (b : UInt8) (shift : Nat) :
    tailBits b shift = b.toNat % 64 * 2 ^ shift := by
  rw [tailBits, low_six, Nat.shiftLeft_eq]

private theorem next_byte (high : Nat) (b : UInt8) (shift : Nat) :
    high <<< (shift + 6) ||| tailBits b shift = (high * 64 + b.toNat % 64) <<< shift := by
  have hfits : b.toNat % 64 * 2 ^ shift < 2 ^ (shift + 6) := by
    rw [Nat.pow_add, Nat.mul_comm]
    exact Nat.mul_lt_mul_of_pos_left (Nat.mod_lt _ (by decide)) (Nat.two_pow_pos shift)
  have hhigh : high * 2 ^ (shift + 6) = high * 64 * 2 ^ shift := by
    rw [Nat.pow_add, Nat.mul_comm (2 ^ shift), Nat.mul_assoc]
  rw [tailBits_eq, shift_or _ hfits, Nat.shiftLeft_eq, Nat.add_mul, hhigh]

private theorem calculated_two (a : Nat) (b : UInt8) :
    (a &&& 0x1F) <<< 6 ||| tailBits b 0 = a % 32 * 64 + b.toNat % 64 := by
  rw [low_five]
  exact next_byte _ b 0

private theorem calculated_three (a : Nat) (b c : UInt8) :
    (a &&& 0xF) <<< 12 ||| tailBits b 6 ||| tailBits c 0 =
      (a % 16 * 64 + b.toNat % 64) * 64 + c.toNat % 64 := by
  rw [low_four]
  calc (a % 16) <<< 12 ||| tailBits b 6 ||| tailBits c 0
      = (a % 16 * 64 + b.toNat % 64) <<< 6 ||| tailBits c 0 := by rw [next_byte _ b 6]
    _ = _ := next_byte _ c 0

private theorem calculated_four (a : Nat) (b c d : UInt8) :
    (a &&& 0x7) <<< 18 ||| tailBits b 12 ||| tailBits c 6 ||| tailBits d 0 =
      ((a % 8 * 64 + b.toNat % 64) * 64 + c.toNat % 64) * 64 + d.toNat % 64 := by
  rw [low_three]
  calc (a % 8) <<< 18 ||| tailBits b 12 ||| tailBits c 6 ||| tailBits d 0
      = (a % 8 * 64 + b.toNat % 64) <<< 12 ||| tailBits c 6 ||| tailBits d 0 := by rw [next_byte _ b 12]
    _ = ((a % 8 * 64 + b.toNat % 64) * 64 + c.toNat % 64) <<< 6 ||| tailBits d 0 := by
      rw [next_byte _ c 6]
    _ = _ := next_byte _ d 0

/-! ## What the writer takes out of a text -/

private theorem toNat_byte {n : Nat} (h : n < 256) : (UInt8.ofNat n).toNat = n := UInt8.toNat_ofNat_of_lt' h

theorem utf8ToCodepoint_char (c : Char) (rest : Bytes) :
    ∃ first text, String.utf8EncodeChar c = first :: text ∧
      utf8ToCodepoint first (text ++ rest) = (c.toNat, text.length) := by
  have hvalid : c.toNat < 0xD800 ∨ 0xDFFF < c.toNat ∧ c.toNat < 0x110000 := c.valid
  have hval : c.val.toNat = c.toNat := rfl
  generalize c.toNat = n at *
  simp only [String.utf8EncodeChar, hval]
  split
  · refine ⟨_, _, rfl, ?_⟩
    simp only [utf8ToCodepoint, toNat_byte (show n < 256 by omega)]
    rw [if_pos (by omega)]
    rfl
  · split
    · have hcalc : (n / 64 % 32 + 192) % 32 * 64 + (n % 64 + 128) % 64 = n := by omega
      refine ⟨_, _, rfl, ?_⟩
      simp only [utf8ToCodepoint, List.cons_append, List.nil_append, calculated_two]
      rw [toNat_byte (by omega), toNat_byte (by omega), hcalc, if_neg (by omega), if_pos (by omega),
        if_neg (by omega)]
      rfl
    · split
      · have hcalc : ((n / 4096 % 16 + 224) % 16 * 64 + (n / 64 % 64 + 128) % 64) * 64 +
            (n % 64 + 128) % 64 = n := by omega
        refine ⟨_, _, rfl, ?_⟩
        simp only [utf8ToCodepoint, List.cons_append, List.nil_append, calculated_three]
        rw [toNat_byte (by omega), toNat_byte (by omega), toNat_byte (by omega), hcalc, if_neg (by omega),
          if_neg (by omega), if_pos (by omega), if_neg (by omega), if_neg (by omega)]
        rfl
      · have hcalc : (((n / 262144 % 8 + 240) % 8 * 64 + (n / 4096 % 64 + 128) % 64) * 64 +
            (n / 64 % 64 + 128) % 64) * 64 + (n % 64 + 128) % 64 = n := by omega
        refine ⟨_, _, rfl, ?_⟩
        simp only [utf8ToCodepoint, List.cons_append, List.nil_append, calculated_four]
        rw [toNat_byte (by omega), toNat_byte (by omega), toNat_byte (by omega), toNat_byte (by omega),
          hcalc, if_neg (by omega), if_neg (by omega), if_neg (by omega), if_pos (by omega),
          if_neg (by omega)]
        rfl

theorem utf8ToCodepoint_ascii {first : UInt8} (h : first.toNat < 0x80) (text : Bytes) :
    utf8ToCodepoint first text = (first.toNat, 0) := if_pos h

/-- What the writer can take out of any text: no surrogate, and nothing below 0x80 but a single byte. -/
structure Codepoint (first : UInt8) (r : Nat × Nat) : Prop where
  lt : r.1 < 0x200000
  no_surrogate : ¬(0xD800 ≤ r.1 ∧ r.1 ≤ 0xDFFF)
  ascii : r.1 < 0x80 → r = (first.toNat, 0)

theorem codepoint_utf8ToCodepoint (first : UInt8) (text : Bytes) :
    Codepoint first (utf8ToCodepoint first text) := by
  have hreplaced (taken : Nat) : Codepoint first (replacementCharacter, taken) := by
    exact ⟨show 0xFFFD < 0x200000 by decide, show ¬(0xD800 ≤ 0xFFFD ∧ 0xFFFD ≤ 0xDFFF) by decide,
      fun h => absurd h (show ¬0xFFFD < 0x80 by decide)⟩
  have hfirst : first.toNat < 256 := first.toNat_lt
  simp only [utf8ToCodepoint, calculated_two, calculated_three, calculated_four]
  split
  · exact ⟨by simp only; omega, by simp only; omega, fun _ => rfl⟩
  · split
    · split
      · split
        · exact hreplaced 1
        · exact ⟨by simp only; omega, by simp only; omega, fun h => by simp only at h; omega⟩
      · exact hreplaced 0
    · split
      · split
        · split
          · exact hreplaced 2
          · split
            · exact hreplaced 2
            · next hsurrogate hsize =>
              exact ⟨by simp only; omega, hsurrogate, fun h => by simp only at h; omega⟩
        · exact hreplaced 0
      · split
        · split
          · split
            · exact hreplaced 3
            · exact ⟨by simp only; omega, by simp only; omega, fun h => by simp only at h; omega⟩
          · exact hreplaced 0
        · exact hreplaced 0

end PinpointAgent.Jsoncpp
