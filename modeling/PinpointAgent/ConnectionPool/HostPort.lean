import PinpointAgent.ConnectionPool.Address

/-!
# Host and port of a TCP address

`connect_stream_remote` looks for the last colon of its argument, from the end of the text to its
beginning. The loop tests a character before it checks the index, and it leaves index zero out unless
it begins there, so the empty text and the text `:` take paths of their own: the first one reads the
byte in front of the text, the second one is split into two empty parts. The index is an `int`, which a
length of `2 ^ 31` or more does not fit.
-/

namespace PinpointAgent.ConnectionPool

open Framework

structure CString where
  bytes : List UInt8
  nul_notMem : 0 ∉ bytes

def colon : UInt8 := 58

namespace CString

variable {remote : CString}

/-- Memory that has the string at address zero; nothing is known about the other addresses. -/
structure StoredIn (remote : CString) (mem : Int → UInt8) : Prop where
  text : ∀ (i : Nat) b, remote.bytes[i]? = some b → mem i = b
  nul : mem remote.bytes.length = 0

def intLength (remote : CString) : Int := toSigned 32 remote.bytes.length

/-- What the loop has read when it ends, and where it found a colon; without one it has reported an
invalid remote. -/
structure Scan where
  reads : List Int
  found : Option Int

/-- The loop, which has no result when the turns are too few. -/
def scan (mem : Int → UInt8) : Nat → Int → Option Scan
  | 0, _ => none
  | turns + 1, offset =>
    if mem offset = colon then some ⟨[offset], some offset⟩
    else if offset - 1 ≤ 0 then some ⟨[offset], none⟩
    else (scan mem turns (offset - 1)).map fun s => ⟨offset :: s.reads, s.found⟩

/-- `std::string hostname(remote, offset)` and `remote + offset + 1`; a negative offset becomes a
length that no string has. -/
def hostPort (remote : CString) (offset : Int) : Option (List UInt8 × List UInt8) :=
  if 0 ≤ offset then some (remote.bytes.take offset.toNat, remote.bytes.drop (offset.toNat + 1))
  else none

def LastColon (remote : CString) (i : Nat) : Prop :=
  remote.bytes[i]? = some colon ∧ ∀ j, i < j → remote.bytes[j]? ≠ some colon

/-- The scan ends, stays inside the text, and splits it at the last colon when there is a host in
front of it. -/
structure SplitsAtLastColon (remote : CString) (s : Scan) : Prop where
  inside : ∀ i ∈ s.reads, 0 ≤ i ∧ i ≤ remote.bytes.length
  exact : ∀ offset, s.found = some offset → ∃ i, remote.LastColon i ∧
    remote.hostPort offset = some (remote.bytes.take i, remote.bytes.drop (i + 1)) ∧
      remote.bytes.take i ≠ []
  splits_iff : (∃ offset, s.found = some offset) ↔ ∃ i, 1 ≤ i ∧ remote.LastColon i

def SafelySplit (remote : CString) : Prop :=
  ∀ mem, remote.StoredIn mem → ∃ s bound,
    (∀ turns, bound ≤ turns → scan mem turns (remote.intLength - 1) = some s) ∧
      remote.SplitsAtLastColon s

/-! ## The loop -/

private theorem scan_at_colon {mem : Int → UInt8} {offset : Int} (hcolon : mem offset = colon) {turns : Nat}
    (hturns : 1 ≤ turns) : scan mem turns offset = some ⟨[offset], some offset⟩ := by
  obtain ⟨turns, rfl⟩ : ∃ k, turns = k + 1 := ⟨turns - 1, by omega⟩
  rw [scan, if_pos hcolon]

private theorem scan_at_front {mem : Int → UInt8} {offset : Int} (hother : mem offset ≠ colon)
    (hfront : offset ≤ 1) {turns : Nat} (hturns : 1 ≤ turns) :
    scan mem turns offset = some ⟨[offset], none⟩ := by
  obtain ⟨turns, rfl⟩ : ∃ k, turns = k + 1 := ⟨turns - 1, by omega⟩
  rw [scan, if_neg hother, if_pos (by omega)]

/-- The colon at which a scan that begins at `k` stops: the last one up to there, and not the one at
the front unless the scan begins there. -/
def StopsAt (mem : Int → UInt8) (k h : Nat) : Prop :=
  h ≤ k ∧ mem h = colon ∧ (∀ j : Nat, h < j → j ≤ k → mem j ≠ colon) ∧ (1 ≤ h ∨ k = 0)

private theorem stopsAt_self {mem : Int → UInt8} {k h : Nat} (hcolon : mem k = colon)
    (hfront : 1 ≤ k ∨ k = 0) : StopsAt mem k h ↔ h = k := by
  constructor
  · rintro ⟨hle, -, hlast, -⟩
    by_contra hne
    exact hlast k (by omega) le_rfl hcolon
  · rintro rfl
    exact ⟨le_rfl, hcolon, fun j hj hle => by omega, hfront⟩

private theorem stopsAt_succ {mem : Int → UInt8} {k h : Nat} (hother : mem (k + 1 : Nat) ≠ colon) :
    StopsAt mem (k + 1) h ↔ StopsAt mem k h ∧ k ≠ 0 := by
  constructor
  · rintro ⟨hle, hcolon, hlast, hfront⟩
    have hne : h ≠ k + 1 := by
      rintro rfl
      exact hother hcolon
    refine ⟨⟨by omega, hcolon, fun j hj hjk => hlast j hj (by omega), by omega⟩, by omega⟩
  · rintro ⟨⟨hle, hcolon, hlast, hfront⟩, hpos⟩
    refine ⟨by omega, hcolon, fun j hj hjk => ?_, by omega⟩
    rcases Nat.le_succ_iff.1 hjk with hjk | rfl
    · exact hlast j hj hjk
    · exact hother

theorem scan_inside (mem : Int → UInt8) (k : Nat) :
    ∃ s : Scan, (∀ turns, k < turns → scan mem turns k = some s) ∧
      (∀ i ∈ s.reads, 0 ≤ i ∧ i ≤ k) ∧
      ∀ offset, s.found = some offset ↔ ∃ h : Nat, offset = h ∧ StopsAt mem k h := by
  induction k with
  | zero =>
    by_cases hcolon : mem (0 : Nat) = colon
    · refine ⟨⟨[0], some 0⟩, fun turns hturns => scan_at_colon hcolon hturns, by simp, ?_⟩
      intro offset
      simp only [stopsAt_self hcolon (.inr rfl), exists_eq_right, Option.some.injEq]
      exact eq_comm
    · refine ⟨⟨[0], none⟩, fun turns hturns => scan_at_front hcolon (by decide) hturns, by simp, ?_⟩
      intro offset
      refine iff_of_false (fun hfound => by cases hfound) ?_
      rintro ⟨h, -, hle, hh, -⟩
      obtain rfl : h = 0 := by omega
      exact hcolon hh
  | succ k ih =>
    by_cases hcolon : mem (k + 1 : Nat) = colon
    · refine ⟨⟨[((k + 1 : Nat) : Int)], some (k + 1 : Nat)⟩,
        fun turns hturns => scan_at_colon hcolon (by omega), by simp; omega, ?_⟩
      intro offset
      simp only [stopsAt_self hcolon (.inl (by omega)), exists_eq_right, Option.some.injEq]
      exact eq_comm
    · simp only [stopsAt_succ hcolon]
      rcases Nat.eq_zero_or_pos k with rfl | hpos
      · refine ⟨⟨[((0 + 1 : Nat) : Int)], none⟩,
          fun turns hturns => scan_at_front hcolon (by decide) (by omega), by simp, ?_⟩
        simp
      · obtain ⟨s, hscan, hreads, hfound⟩ := ih
        refine ⟨⟨((k + 1 : Nat) : Int) :: s.reads, s.found⟩, ?_, ?_, ?_⟩
        · intro turns hturns
          obtain ⟨turns, rfl⟩ : ∃ n, turns = n + 1 := ⟨turns - 1, by omega⟩
          have hnext : ((k + 1 : Nat) : Int) - 1 = k := by omega
          rw [scan, if_neg hcolon, hnext, if_neg (by omega), hscan turns (by omega), Option.map_some]
        · intro i hi
          rcases List.mem_cons.1 hi with rfl | hi
          · omega
          · have hbounds := hreads i hi
            omega
        · simp only [hfound, Nat.pos_iff_ne_zero.1 hpos, ne_eq, not_false_eq_true, and_true,
            implies_true]

theorem scan_start {mem : Int → UInt8} {turns : Nat} {offset : Int} {s : Scan}
    (hscan : scan mem turns offset = some s) :
    offset ∈ s.reads ∧ ∀ o, s.found = some o → o ≤ offset := by
  induction turns generalizing offset s with
  | zero => cases hscan
  | succ turns ih =>
    rw [scan] at hscan
    split at hscan
    · obtain rfl := Option.some.inj hscan
      exact ⟨List.mem_singleton_self _, fun o ho => (Option.some.inj ho).ge⟩
    · split at hscan
      · obtain rfl := Option.some.inj hscan
        exact ⟨List.mem_singleton_self _, fun o ho => by cases ho⟩
      · obtain ⟨rest, hrest, rfl⟩ := Option.map_eq_some_iff.1 hscan
        refine ⟨List.mem_cons_self, fun o ho => ?_⟩
        have hle := (ih hrest).2 o ho
        omega

/-! ## The last colon -/

private theorem LastColon.unique {i j : Nat} (hi : remote.LastColon i) (hj : remote.LastColon j) : i = j := by
  rcases lt_trichotomy i j with hlt | heq | hgt
  · exact absurd hj.1 (hi.2 j hlt)
  · exact heq
  · exact absurd hi.1 (hj.2 i hgt)

private theorem LastColon.lt {i : Nat} (h : remote.LastColon i) : i < remote.bytes.length :=
  (List.getElem?_eq_some_iff.1 h.1).1

private theorem exists_lastColon {n : Nat} (hmem : colon ∈ remote.bytes.drop n) :
    ∃ i, n ≤ i ∧ remote.LastColon i := by
  obtain ⟨d, hd, heq⟩ := List.mem_iff_getElem.1 hmem
  have hlt : n + d < remote.bytes.length := by
    rw [List.length_drop] at hd
    omega
  have hsome : remote.bytes[n + d]? = some colon := by
    rw [← List.getElem?_drop, List.getElem?_eq_getElem hd, heq]
  let IsColon : Nat → Prop := fun i => remote.bytes[i]? = some colon
  refine ⟨Nat.findGreatest IsColon remote.bytes.length, ?_, ?_, ?_⟩
  · exact (Nat.le_add_right n d).trans (Nat.le_findGreatest hlt.le hsome)
  · exact Nat.findGreatest_spec (P := IsColon) hlt.le hsome
  · intro j hj hcolon
    have hjlt := (List.getElem?_eq_some_iff.1 hcolon).1
    exact Nat.findGreatest_is_greatest (P := IsColon) hj hjlt.le hcolon

theorem stopsAt_iff {mem : Int → UInt8} (hstored : remote.StoredIn mem) {k : Nat}
    (hk : k < remote.bytes.length) (hbehind : colon ∉ remote.bytes.drop (k + 1)) {h : Nat} :
    StopsAt mem k h ↔ remote.LastColon h ∧ (1 ≤ h ∨ k = 0) := by
  have hread : ∀ j ≤ k, (mem j = colon ↔ remote.bytes[j]? = some colon) := by
    intro j hj
    have hget := List.getElem?_eq_getElem (show j < remote.bytes.length by omega)
    rw [hstored.text j _ hget, hget, Option.some.injEq]
  have hnone : ∀ j, k < j → remote.bytes[j]? ≠ some colon := by
    intro j hj hcolon
    refine hbehind (List.mem_of_getElem? (i := j - (k + 1)) ?_)
    rwa [List.getElem?_drop, Nat.add_sub_cancel' hj]
  constructor
  · rintro ⟨hle, hcolon, hlast, hfront⟩
    refine ⟨⟨(hread h hle).1 hcolon, fun j hj => ?_⟩, hfront⟩
    by_cases hjk : j ≤ k
    · exact fun hsome => hlast j hj hjk ((hread j hjk).2 hsome)
    · exact hnone j (by omega)
  · rintro ⟨hlast, hfront⟩
    have hle : h ≤ k := by
      by_contra hgt
      exact hnone h (by omega) hlast.1
    exact ⟨hle, (hread h hle).2 hlast.1, fun j hj hjk hcolon => hlast.2 j hj ((hread j hjk).1 hcolon),
      hfront⟩

private theorem hostPort_natCast (remote : CString) (h : Nat) :
    remote.hostPort h = some (remote.bytes.take h, remote.bytes.drop (h + 1)) := by
  rw [hostPort, if_pos (Int.natCast_nonneg h), Int.toNat_natCast]

private theorem hostPort_le {offset : Int} {i : Nat} (hi : i < remote.bytes.length)
    (hsplit : remote.hostPort offset = some (remote.bytes.take i, remote.bytes.drop (i + 1))) :
    (i : Int) ≤ offset := by
  rw [hostPort] at hsplit
  split at hsplit
  · have htake := congrArg List.length (Prod.mk.inj (Option.some.inj hsplit)).1
    rw [List.length_take, List.length_take] at htake
    omega
  · cases hsplit

/-! ## Whole texts -/

private theorem intLength_le (remote : CString) : remote.intLength ≤ remote.bytes.length :=
  toSigned_32_le (Int.natCast_nonneg _)

def alone (remote : CString) : Int → UInt8 :=
  fun i => if 0 ≤ i then remote.bytes.getD i.toNat 0 else 0

private theorem storedIn_alone (remote : CString) : remote.StoredIn remote.alone := by
  constructor
  · intro i b hb
    rw [alone, if_pos (Int.natCast_nonneg i), Int.toNat_natCast, List.getD_eq_getElem?_getD, hb]
    rfl
  · rw [alone, if_pos (Int.natCast_nonneg _), Int.toNat_natCast, List.getD_eq_getElem?_getD,
      List.getElem?_eq_none le_rfl]
    rfl

private theorem safelySplit_of {k : Nat} (hlength : remote.intLength = k + 1)
    (hbehind : colon ∉ remote.bytes.drop (k + 1)) (hlone : remote.bytes.take (k + 1) ≠ [colon]) :
    remote.SafelySplit := by
  intro mem hstored
  have hk : k < remote.bytes.length := by
    have := remote.intLength_le
    omega
  have hstart : remote.intLength - 1 = k := by omega
  obtain ⟨s, hscan, hreads, hfound⟩ := scan_inside mem k
  have hfront : ∀ h, StopsAt mem k h ↔ 1 ≤ h ∧ remote.LastColon h := by
    intro h
    rw [stopsAt_iff hstored hk hbehind, and_comm]
    refine and_congr_left fun hlast => or_iff_left_of_imp fun hzero => ?_
    -- a colon alone in the scanned part is excluded
    by_contra hpos
    obtain rfl : h = 0 := by omega
    subst hzero
    obtain ⟨b, bs, hbytes⟩ := List.exists_cons_of_length_pos hk
    have hhead := hlast.1
    rw [hbytes] at hlone hhead
    exact hlone (by simpa using hhead)
  refine ⟨s, k + 1, fun turns hturns => by rw [hstart]; exact hscan turns hturns, ?_, ?_, ?_⟩
  · intro i hi
    have hbounds := hreads i hi
    omega
  · intro offset hoffset
    obtain ⟨h, rfl, hstop⟩ := (hfound offset).1 hoffset
    obtain ⟨hpos, hlast⟩ := (hfront h).1 hstop
    refine ⟨h, hlast, remote.hostPort_natCast h, ?_⟩
    rw [← List.length_pos_iff, List.length_take]
    omega
  · simp only [hfound]
    constructor
    · rintro ⟨offset, h, -, hstop⟩
      exact ⟨h, (hfront h).1 hstop⟩
    · rintro ⟨h, hh⟩
      exact ⟨h, h, rfl, (hfront h).2 hh⟩

/-- Host and port are told apart safely and exactly when the length is positive as an `int`, the part
that it covers has the last colon and is not a colon alone. For texts of fewer than `2 ^ 31` bytes that
leaves out the empty text and `:`. -/
theorem safely_split_iff (remote : CString) :
    remote.SafelySplit ↔
      0 < remote.intLength ∧ colon ∉ remote.bytes.drop remote.intLength.toNat ∧
        remote.bytes.take remote.intLength.toNat ≠ [colon] := by
  have hle := remote.intLength_le
  constructor
  · intro h
    obtain ⟨s, bound, hscan, hsplit⟩ := h remote.alone remote.storedIn_alone
    have hstart := scan_start (hscan bound le_rfl)
    have hpos : 0 < remote.intLength := by
      have := (hsplit.inside _ hstart.1).1
      omega
    refine ⟨hpos, fun hmem => ?_, fun hlone => ?_⟩
    · obtain ⟨i, hi, hlast⟩ := exists_lastColon hmem
      obtain ⟨offset, hoffset⟩ := hsplit.splits_iff.2 ⟨i, by omega, hlast⟩
      obtain ⟨j, hj, hparts, -⟩ := hsplit.exact offset hoffset
      obtain rfl := hlast.unique hj
      have hreach := hostPort_le hlast.lt hparts
      have hlimit := hstart.2 offset hoffset
      omega
    · have hone : remote.intLength = 1 := by
        have hlength := congrArg List.length hlone
        rw [List.length_take, List.length_singleton] at hlength
        omega
      have hcolon : remote.alone 0 = colon := by
        obtain ⟨b, bs, hbytes⟩ := List.exists_cons_of_length_pos
          (show 0 < remote.bytes.length by omega)
        rw [hone, hbytes] at hlone
        simpa [alone, hbytes] using hlone
      have hfound : s.found = some 0 := by
        have hend := hscan (bound + 1) (by omega)
        rw [hone, Int.sub_self, scan_at_colon hcolon (by omega)] at hend
        rw [← Option.some.inj hend]
      obtain ⟨i, -, hparts, hhost⟩ := hsplit.exact 0 hfound
      have hempty : [] = remote.bytes.take i := (Prod.mk.inj (Option.some.inj hparts)).1
      exact hhost hempty.symm
  · rintro ⟨hpos, hbehind, hlone⟩
    have hlength : remote.intLength.toNat = (remote.intLength.toNat - 1) + 1 := by omega
    rw [hlength] at hbehind hlone
    exact safelySplit_of (by omega) hbehind hlone

/-- The memory behind the scheme of the address `tcp:`. -/
def afterTcp : Int → UInt8 := fun i => if i = -1 then colon else 0

/-- The address `tcp:` leaves an empty text. The byte in front of it is the colon of the scheme, so the
scan takes it for the one between host and port, at index -1. -/
theorem empty_remote_reads_in_front :
    dialFor "tcp:".toList = some (.stream []) ∧
      StoredIn ⟨[], List.not_mem_nil⟩ afterTcp ∧
      scan afterTcp 1 (intLength ⟨[], List.not_mem_nil⟩ - 1) = some ⟨[-1], some (-1)⟩ ∧
      hostPort ⟨[], List.not_mem_nil⟩ (-1) = none ∧ ¬SafelySplit ⟨[], List.not_mem_nil⟩ := by
  have hstored : StoredIn ⟨[], List.not_mem_nil⟩ afterTcp := ⟨by simp, by decide⟩
  have hlength : intLength ⟨[], List.not_mem_nil⟩ = 0 := toSigned_32_natCast (by decide)
  have hscan : scan afterTcp 1 (intLength ⟨[], List.not_mem_nil⟩ - 1) = some ⟨[-1], some (-1)⟩ := by
    rw [hlength]
    rfl
  refine ⟨by decide, hstored, hscan, rfl, fun h => ?_⟩
  obtain ⟨s, bound, hend, hsplit⟩ := h afterTcp hstored
  have hread := (scan_start (hend bound le_rfl)).1
  rw [hlength] at hread
  exact absurd (hsplit.inside _ hread).1 (by decide)

end CString

end PinpointAgent.ConnectionPool
