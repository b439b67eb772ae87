import Mathlib.Data.List.TakeWhile
import PinpointAgent.Agent.HelloMsg
import PinpointAgent.Framework.LexSequence
import PinpointAgent.Framework.Lists

/-!
# The order of versions

`compare_version` walks over two texts with one cursor each. What it compares are sequences of numbers:
the parts between the dots, each read by `strtoul`, with zeros behind the last one. That holds because
`strtoul` never reads past a dot, a dot being neither a space nor a sign nor a digit, so that the number
at a cursor is the number of the part that begins there, whatever follows it.
-/

namespace PinpointAgent.Agent

open Framework NodePool

def partNumbers (version : List Char) : Nat → Nat :=
  fun i => ((version.splitOn '.').map fun part => (strtoul part).1).getD i 0

/-- What a version stands for: one leading `v` or `V` does not count. -/
def versionSequence (version : String) : Nat → Nat := partNumbers (skipV (cStr version))

/-- The loop of `compare_version`, which has no result when the turns are too few. -/
def compareTurns : Nat → List Char → List Char → Option Int
  | 0, _, _ => none
  | turns + 1, lhs, rhs =>
      if lhs = [] ∧ rhs = [] then some 0
      else if (nextVersionPart lhs).1 ≠ (nextVersionPart rhs).1 then
        some (if (nextVersionPart lhs).1 < (nextVersionPart rhs).1 then -1 else 1)
      else compareTurns turns (nextVersionPart lhs).2 (nextVersionPart rhs).2

/-! ## Numbers in front of a dot -/

private theorem splitSign_append_dot (text rest : List Char) :
    splitSign (text ++ '.' :: rest) = ((splitSign text).1, (splitSign text).2 ++ '.' :: rest) := by
  cases text with
  | nil => rfl
  | cons c text =>
    rw [List.cons_append]
    unfold splitSign
    split <;> simp_all

private theorem strtoul_append_dot (text rest : List Char) :
    strtoul (text ++ '.' :: rest) = ((strtoul text).1, (strtoul text).2 ++ '.' :: rest) := by
  unfold strtoul
  rw [dropWhile_append_stop (by decide), splitSign_append_dot]
  dsimp only
  rw [takeWhile_append_stop (by decide), dropWhile_append_stop (by decide)]
  split <;> rfl

private theorem suffix_splitSign (text : List Char) : (splitSign text).2 <:+ text := by
  unfold splitSign
  split
  · exact List.suffix_cons _ _
  · exact List.suffix_cons _ _
  · exact List.suffix_refl _

private theorem suffix_strtoul (text : List Char) : (strtoul text).2 <:+ text := by
  unfold strtoul
  dsimp only
  split
  · exact List.suffix_refl text
  · exact ((List.dropWhile_suffix _).trans (suffix_splitSign _)).trans (List.dropWhile_suffix _)

/-! ## One turn -/

private theorem dropWhile_strtoul {part : List Char} (hdot : '.' ∉ part) :
    (strtoul part).2.dropWhile (· ≠ '.') = [] := by
  rw [List.dropWhile_eq_nil_iff]
  intro c hc
  have hne : c ≠ '.' := fun h => hdot (h ▸ (suffix_strtoul part).mem hc)
  simpa using hne

private theorem nextVersionPart_of_no_dot {part : List Char} (hdot : '.' ∉ part) :
    nextVersionPart part = ((strtoul part).1, []) := by
  rw [nextVersionPart, dropWhile_strtoul hdot]
  rfl

private theorem nextVersionPart_append_dot {part : List Char} (hdot : '.' ∉ part) (rest : List Char) :
    nextVersionPart (part ++ '.' :: rest) = ((strtoul part).1, rest) := by
  rw [nextVersionPart, strtoul_append_dot, dropWhile_append_stop (by decide),
    dropWhile_strtoul hdot]
  rfl

private theorem partNumbers_of_no_dot {part : List Char} (hdot : '.' ∉ part) (i : Nat) :
    partNumbers part i = if i = 0 then (strtoul part).1 else 0 := by
  rw [partNumbers, List.splitOn_eq_singleton hdot]
  cases i <;> rfl

private theorem partNumbers_append_dot {part : List Char} (hdot : '.' ∉ part) (rest : List Char)
    (i : Nat) : partNumbers (part ++ '.' :: rest) i =
      if i = 0 then (strtoul part).1 else partNumbers rest (i - 1) := by
  rw [partNumbers, List.splitOn_append_cons_self_of_not_mem hdot]
  cases i <;> rfl

private theorem dot_cases (text : List Char) :
    '.' ∉ text ∨ ∃ part rest, '.' ∉ part ∧ text = part ++ '.' :: rest := by
  by_cases hdot : '.' ∈ text
  · obtain ⟨part, rest, htext, hpart⟩ := List.eq_append_cons_of_mem hdot
    exact .inr ⟨part, rest, hpart, htext⟩
  · exact .inl hdot

private theorem fst_nextVersionPart (version : List Char) :
    (nextVersionPart version).1 = partNumbers version 0 := by
  rcases dot_cases version with hdot | ⟨part, rest, hdot, rfl⟩
  · rw [nextVersionPart_of_no_dot hdot, partNumbers_of_no_dot hdot, if_pos rfl]
  · rw [nextVersionPart_append_dot hdot, partNumbers_append_dot hdot, if_pos rfl]

private theorem snd_nextVersionPart (version : List Char) :
    partNumbers (nextVersionPart version).2 = tailSeq (partNumbers version) := by
  funext i
  rw [tailSeq]
  rcases dot_cases version with hdot | ⟨part, rest, hdot, rfl⟩
  · rw [nextVersionPart_of_no_dot hdot, partNumbers_of_no_dot hdot,
      partNumbers_of_no_dot (List.not_mem_nil), if_neg (Nat.succ_ne_zero i)]
    exact ite_self 0
  · rw [nextVersionPart_append_dot hdot, partNumbers_append_dot hdot,
      if_neg (Nat.succ_ne_zero i), Nat.add_sub_cancel]

/-! ## Whole comparisons -/

theorem compareTurns_eq {turns : Nat} {lhs rhs : List Char}
    (hturns : lhs.length + rhs.length < turns) :
    compareTurns turns lhs rhs = some (lexSign (partNumbers lhs) (partNumbers rhs)) := by
  induction turns generalizing lhs rhs with
  | zero => omega
  | succ turns ih =>
    rw [compareTurns]
    by_cases hempty : lhs = [] ∧ rhs = []
    · rw [if_pos hempty, hempty.1, hempty.2, lexSign_self]
    · rw [if_neg hempty, fst_nextVersionPart, fst_nextVersionPart]
      rcases lt_trichotomy (partNumbers lhs 0) (partNumbers rhs 0) with hlt | heq | hgt
      · rw [if_pos hlt.ne, if_pos hlt, lexSign_of_head_lt hlt]
      · rw [if_neg (not_not_intro heq), ih, snd_nextVersionPart, snd_nextVersionPart,
          lexSign_of_head_eq heq]
        have hshorter := length_turn hempty
        omega
      · rw [if_pos hgt.ne', if_neg hgt.not_gt, lexSign_of_head_gt hgt]

theorem compareLoop_of_compareTurns {turns : Nat} {lhs rhs : List Char} {sign : Int}
    (hend : compareTurns turns lhs rhs = some sign) : compareLoop turns lhs rhs = sign := by
  induction turns generalizing lhs rhs with
  | zero => cases hend
  | succ turns ih =>
    rw [compareTurns] at hend
    rw [compareLoop]
    split at hend
    · rw [if_pos ‹_›, Option.some.inj hend]
    · rw [if_neg ‹_›]
      split at hend
      · rw [if_pos ‹_›, Option.some.inj hend]
      · rw [if_neg ‹_›, ih hend]

private theorem length_skipV (version : List Char) : (skipV version).length ≤ version.length := by
  unfold skipV
  split
  · exact (List.drop_suffix 1 version).length_le
  · exact Nat.le_refl _

private theorem compareVersion_eq (lhs rhs : String) :
    compareVersion lhs rhs = lexSign (versionSequence lhs) (versionSequence rhs) := by
  have hl := length_skipV (cStr lhs)
  have hr := length_skipV (cStr rhs)
  rw [compareVersion]
  apply compareLoop_of_compareTurns
  apply compareTurns_eq
  omega

/-! ## Trailing zeros -/

private theorem partNumbers_append_zero (version : List Char) :
    partNumbers (version ++ ['.', '0']) = partNumbers version := by
  have hzero : (['0'].splitOn '.').map (fun part => (strtoul part).1) = [0] := by
    rw [List.splitOn_eq_singleton (by decide)]
    rfl
  funext i
  rw [partNumbers, List.splitOn_append_cons_self, List.map_append, hzero, partNumbers]
  grind

private theorem skipV_append_zero (version : List Char) :
    skipV (version ++ ['.', '0']) = skipV version ++ ['.', '0'] := by
  cases version with
  | nil => rfl
  | cons c version =>
    rw [List.cons_append, skipV, skipV, List.head?_cons, List.head?_cons]
    split <;> rfl

private theorem cStr_append (s t : String) :
    cStr (s ++ t) = cStr s ++ cStr t ∨ cStr (s ++ t) = cStr s := by
  rw [cStr, String.toList_append, List.takeWhile_append]
  split
  · rename_i hwhole
    have hself : cStr s = s.toList := (List.takeWhile_prefix _).eq_of_length hwhole
    exact .inl (by rw [hself, cStr])
  · exact .inr rfl

private theorem versionSequence_append_zero (version : String) :
    versionSequence (version ++ ".0") = versionSequence version := by
  rw [versionSequence, versionSequence]
  rcases cStr_append version ".0" with happend | hcut
  · have hzero : cStr ".0" = ['.', '0'] := by decide
    rw [happend, hzero, skipV_append_zero, partNumbers_append_zero]
  · rw [hcut]

/-- Versions are ordered as the sequences of their numbers are, and the order is total. -/
theorem compare_version_lexicographic :
    (∀ a b : String, ∃ turns, ∀ n, turns ≤ n →
      compareTurns n (skipV (cStr a)) (skipV (cStr b)) = some (compareVersion a b)) ∧
    (∀ a b, compareVersion a b = lexSign (versionSequence a) (versionSequence b)) ∧
    (∀ a b, compareVersion a b = -compareVersion b a) ∧
    (∀ a b c, compareVersion a b ≤ 0 → compareVersion b c ≤ 0 → compareVersion a c ≤ 0) ∧
    ∀ a b, a ≠ "" → compareVersion (a ++ ".0") b = compareVersion a b ∧
      compareVersion b (a ++ ".0") = compareVersion b a := by
  refine ⟨?_, compareVersion_eq, ?_, ?_, ?_⟩
  · intro a b
    refine ⟨(skipV (cStr a)).length + (skipV (cStr b)).length + 1, fun n hn => ?_⟩
    rw [compareTurns_eq hn, compareVersion_eq]
    rfl
  · intro a b
    rw [compareVersion_eq, compareVersion_eq, lexSign_swap]
  · intro a b c hab hbc
    rw [compareVersion_eq] at hab hbc ⊢
    exact lexSign_nonpos_trans hab hbc
  · intro a b _
    rw [compareVersion_eq, compareVersion_eq, compareVersion_eq b, compareVersion_eq b,
      versionSequence_append_zero]
    exact ⟨rfl, rfl⟩

/-- A missing part counts as zero, and `v` does not count. -/
theorem compare_version_lexicographic_hello :
    compareVersion "v0.7" "V0.10" ≤ 0 ∧ compareVersion "V0.10" "0.10-rc1" ≤ 0 ∧
      compareVersion "v0.7" "0.10-rc1" ≤ 0 ∧
      compareVersion ("v0.7" ++ ".0") "v0.7.0" = compareVersion "v0.7" "v0.7.0" :=
  have hle₁ : compareVersion "v0.7" "V0.10" ≤ 0 := by decide +kernel
  have hle₂ : compareVersion "V0.10" "0.10-rc1" ≤ 0 := by decide +kernel
  ⟨hle₁, hle₂, compare_version_lexicographic.2.2.2.1 _ _ _ hle₁ hle₂,
    (compare_version_lexicographic.2.2.2.2 "v0.7" "v0.7.0" (by decide)).1⟩

-- the comparisons of the source's own tests
example : compareVersion "v0.7" "v0.7.0" = 0 ∧ compareVersion "0.7.1" "v0.7.0" = 1 ∧
    compareVersion "v0.10.0" "v0.7.0" = 1 ∧ compareVersion "v0.6.9" "v0.7.0" = -1 ∧
    compareVersion "" "v0.7.0" = -1 := by
  decide +kernel

end PinpointAgent.Agent
