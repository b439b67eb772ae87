import Mathlib.Data.List.Basic

/-!
# Offset-addressed buffers

A buffer is a list of cells. `writeAt` is a copy into it at an offset and `slice` reads the
half-open range `[lo, hi)`. The lemmas describe how the slices of a buffer change when it is
written just behind them, which is how every queue over such a buffer grows.
-/

namespace PinpointAgent.Framework

variable {α : Type*}

def writeAt (buf : List α) (ofs : Nat) (src : List α) : List α :=
  buf.take ofs ++ src ++ buf.drop (ofs + src.length)

def slice (buf : List α) (lo hi : Nat) : List α := (buf.take hi).drop lo

theorem length_writeAt {buf src : List α} {ofs : Nat} (h : ofs + src.length ≤ buf.length) :
    (writeAt buf ofs src).length = buf.length := by
  simp only [writeAt, List.length_append, List.length_take, List.length_drop]
  omega

theorem le_length_writeAt {buf src : List α} {ofs : Nat} (h : ofs ≤ buf.length) :
    ofs + src.length ≤ (writeAt buf ofs src).length := by
  simp only [writeAt, List.length_append, List.length_take, List.length_drop]
  omega

theorem length_slice {buf : List α} {lo hi : Nat} (h : hi ≤ buf.length) :
    (slice buf lo hi).length = hi - lo := by
  simp only [slice, List.length_drop, List.length_take]
  omega

@[simp] theorem slice_self (buf : List α) (lo : Nat) : slice buf lo lo = [] := by
  simp [slice]

theorem slice_drop (buf : List α) (lo hi k : Nat) :
    (slice buf lo hi).drop k = slice buf (lo + k) hi := by
  simp [slice, List.drop_drop]

theorem slice_take {buf : List α} {lo hi k : Nat} (h : lo + k ≤ hi) :
    (slice buf lo hi).take k = slice buf lo (lo + k) := by
  simp only [slice, List.take_drop, List.take_take]
  congr 2
  omega

theorem drop_eq_slice_append {buf : List α} {lo hi : Nat} (hlo : lo ≤ hi)
    (hhi : hi ≤ buf.length) : buf.drop lo = slice buf lo hi ++ buf.drop hi := by
  have hsplit : buf.drop lo = (buf.take hi ++ buf.drop hi).drop lo := by
    rw [List.take_append_drop]
  rw [hsplit, List.drop_append_of_le_length (by simp only [List.length_take]; omega)]
  rfl

theorem slice_append_slice {buf : List α} {a b c : Nat} (hab : a ≤ b) (hbc : b ≤ c)
    (hc : c ≤ buf.length) : slice buf a b ++ slice buf b c = slice buf a c := by
  have htake : b ≤ (buf.take c).length := by
    rw [List.length_take]
    omega
  have hsplit := drop_eq_slice_append hab htake
  rw [slice, List.take_take, Nat.min_eq_left hbc] at hsplit
  exact hsplit.symm

theorem slice_of_suffix {buf t : List α} {hi : Nat} (hhi : hi ≤ buf.length)
    (h : t <:+ slice buf 0 hi) : slice buf (hi - t.length) hi = t := by
  obtain ⟨front, hfront⟩ := h
  have hlen : front.length + t.length = hi := by
    rw [← List.length_append, hfront, length_slice hhi, Nat.sub_zero]
  have hstart : hi - t.length = 0 + front.length := by omega
  rw [hstart, ← slice_drop, ← hfront, List.drop_left]

theorem slice_zero_length (buf : List α) : slice buf 0 buf.length = buf := by
  simp [slice]

theorem slice_writeAt {buf src : List α} {lo ofs : Nat} (hlo : lo ≤ ofs)
    (hofs : ofs ≤ buf.length) :
    slice (writeAt buf ofs src) lo (ofs + src.length) = slice buf lo ofs ++ src := by
  have hlen : (buf.take ofs ++ src).length = ofs + src.length := by
    simp only [List.length_append, List.length_take]
    omega
  have htake : (writeAt buf ofs src).take (ofs + src.length) = buf.take ofs ++ src := by
    rw [writeAt, ← hlen, List.take_left]
  rw [slice, htake, List.drop_append_of_le_length (by simp only [List.length_take]; omega)]
  rfl

theorem slice_writeAt_zero (buf src : List α) : slice (writeAt buf 0 src) 0 src.length = src := by
  simp [slice, writeAt]

end PinpointAgent.Framework
