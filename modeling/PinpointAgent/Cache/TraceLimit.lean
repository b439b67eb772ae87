import Mathlib.Data.List.Count
import Mathlib.Data.List.Induction
import PinpointAgent.Cache.State

/-!
# The trace limit per second

`CheckTraceLimit` counts the traces of one second, the one of the last call, and starts again from
one when the second changes. Timestamps that never go back do not return to a second that was left,
so the count is that of all calls with the timestamp, cut off at the limit.
-/

namespace PinpointAgent.Cache.ProcessState

/-- A call of `CheckTraceLimit`; the clock is read when the timestamp is `-1`. -/
structure LimitCall where
  timestamp : Int
  time : Int := 0

def checkAll (s : ProcessState) : List LimitCall → List Bool × ProcessState
  | [] => ([], s)
  | call :: calls =>
    let r := s.checkTraceLimit call.timestamp call.time
    let rest := r.2.checkAll calls
    (r.1 :: rest.1, rest.2)

def verdictsAt (sec : Int) (calls : List LimitCall) (results : List Bool) : List Bool :=
  ((calls.zip results).filter fun entry => entry.1.timestamp = sec).map Prod.snd

def callsAt (sec : Int) (calls : List LimitCall) : Nat := (calls.map LimitCall.timestamp).count sec

/-- The counter after `calls`: the calls of the current second, cut off at the limit. -/
structure Counting (limit : Nat) (calls : List LimitCall) (s : ProcessState) : Prop where
  traceLimit : s.traceLimit = limit
  current : s.timestamp = 0 ∨ ∃ call ∈ calls, call.timestamp = s.timestamp
  latest : ∀ call ∈ calls, call.timestamp ≤ s.timestamp
  tick : s.tick = (min (callsAt s.timestamp calls) limit : Nat)

variable {s : ProcessState} {calls : List LimitCall} {call : LimitCall} {limit : Nat}

private theorem checkAll_append (s : ProcessState) (calls : List LimitCall) (call : LimitCall) :
    s.checkAll (calls ++ [call]) =
      ((s.checkAll calls).1 ++ [((s.checkAll calls).2.checkTraceLimit call.timestamp call.time).1],
        ((s.checkAll calls).2.checkTraceLimit call.timestamp call.time).2) := by
  induction calls generalizing s with
  | nil => rfl
  | cons first calls ih => simp only [List.cons_append, checkAll, ih]

private theorem length_checkAll (s : ProcessState) (calls : List LimitCall) :
    (s.checkAll calls).1.length = calls.length := by
  induction calls generalizing s with
  | nil => rfl
  | cons call calls ih => simp only [checkAll, List.length_cons, ih]

private theorem verdictsAt_append {results : List Bool} (h : results.length = calls.length) (sec : Int)
    (call : LimitCall) (result : Bool) :
    verdictsAt sec (calls ++ [call]) (results ++ [result]) =
      verdictsAt sec calls results ++ if call.timestamp = sec then [result] else [] := by
  unfold verdictsAt
  rw [List.zip_append h.symm, List.filter_append, List.map_append]
  by_cases hsec : call.timestamp = sec <;> simp [hsec]

private theorem callsAt_append (sec : Int) (calls : List LimitCall) (call : LimitCall) :
    callsAt sec (calls ++ [call]) = callsAt sec calls + if call.timestamp = sec then 1 else 0 := by
  unfold callsAt
  by_cases hsec : call.timestamp = sec <;> simp [hsec]

private theorem callsAt_eq_zero {sec : Int} (h : ∀ call ∈ calls, call.timestamp < sec) : callsAt sec calls = 0 := by
  apply List.count_eq_zero_of_not_mem
  intro hmem
  obtain ⟨call, hcall, heq⟩ := List.mem_map.1 hmem
  have hlt := h call hcall
  omega

private theorem counting_new (limit unixTimeMs : Nat) : Counting limit [] (new limit unixTimeMs) where
  traceLimit := rfl
  current := .inl rfl
  latest := fun _ h => absurd h List.not_mem_nil
  tick := by simp [new, callsAt]

/-- One call. A timestamp other than the current one is later than all before it, so it has not been
counted yet. -/
theorem Counting.check (h : Counting limit calls s) (hlimit : 1 ≤ limit) (hnonneg : 0 ≤ call.timestamp)
    (hlast : ∀ earlier ∈ calls, earlier.timestamp ≤ call.timestamp) :
    (s.checkTraceLimit call.timestamp call.time).1 = decide (limit ≤ callsAt call.timestamp calls) ∧
      Counting limit (calls ++ [call]) (s.checkTraceLimit call.timestamp call.time).2 := by
  obtain ⟨htraceLimit, hcurrent, hlatest, htick⟩ := h
  have hmem : call ∈ calls ++ [call] := List.mem_append_right _ List.mem_cons_self
  have hle : ∀ other ∈ calls ++ [call], other.timestamp ≤ call.timestamp := by
    intro other hother
    rcases List.mem_append.1 hother with hold | hnew
    · exact hlast other hold
    · rw [List.mem_singleton.1 hnew]
  have hnow : (if call.timestamp ≠ -1 then call.timestamp else call.time) = call.timestamp :=
    if_pos (by omega)
  have hcount := callsAt_append call.timestamp calls call
  rw [if_pos rfl] at hcount
  simp only [checkTraceLimit, hnow]
  rw [if_neg (by omega : s.traceLimit ≠ -1), if_neg (by omega : s.traceLimit ≠ 0)]
  by_cases hsame : s.timestamp = call.timestamp
  · rw [if_neg (not_not.2 hsame)]
    rw [hsame] at htick
    by_cases hfull : limit ≤ callsAt call.timestamp calls
    · rw [if_pos (by omega : s.tick ≥ s.traceLimit)]
      exact ⟨by simp [hfull], htraceLimit, .inr ⟨call, hmem, hsame.symm⟩, hsame ▸ hle,
        by rw [hsame, htick]; omega⟩
    · rw [if_neg (by omega : ¬ s.tick ≥ s.traceLimit)]
      refine ⟨by simp [hfull], htraceLimit, .inr ⟨call, hmem, hsame.symm⟩, hsame ▸ hle, ?_⟩
      change s.tick + 1 = (min (callsAt s.timestamp (calls ++ [call])) limit : Nat)
      rw [hsame, htick]
      omega
  · rw [if_pos hsame]
    have hlater : s.timestamp < call.timestamp := by
      rcases hcurrent with hzero | ⟨earlier, hearlier, heq⟩
      · omega
      · have hle' := hlast earlier hearlier
        omega
    have hfresh : callsAt call.timestamp calls = 0 :=
      callsAt_eq_zero fun earlier hearlier => (hlatest earlier hearlier).trans_lt hlater
    refine ⟨by simp [hfresh]; omega, htraceLimit, .inr ⟨call, hmem, rfl⟩, hle, ?_⟩
    change (1 : Int) = (min (callsAt call.timestamp (calls ++ [call])) limit : Nat)
    omega

def admitFirst (limit count : Nat) : List Bool :=
  List.replicate (min count limit) false ++ List.replicate (count - limit) true

private theorem admitFirst_succ (limit count : Nat) :
    admitFirst limit (count + 1) = admitFirst limit count ++ [decide (limit ≤ count)] := by
  unfold admitFirst
  by_cases h : limit ≤ count
  · rw [min_eq_right h, min_eq_right (h.trans (Nat.le_succ count)), Nat.succ_sub h,
      List.replicate_succ', List.append_assoc]
    simp [h]
  · rw [min_eq_left (by omega), min_eq_left (by omega), Nat.sub_eq_zero_of_le (by omega : count ≤ limit),
      Nat.sub_eq_zero_of_le (by omega), List.replicate_succ']
    simp [h]

private theorem counting_checkAll (hlimit : 1 ≤ limit) (unixTimeMs : Nat)
    (hnonneg : ∀ call ∈ calls, 0 ≤ call.timestamp)
    (hsorted : (calls.map LimitCall.timestamp).Pairwise (· ≤ ·)) :
    Counting limit calls ((new limit unixTimeMs).checkAll calls).2 ∧
      ∀ sec, verdictsAt sec calls ((new limit unixTimeMs).checkAll calls).1 =
        admitFirst limit (callsAt sec calls) := by
  -- the run is taken apart at its last call, whose verdict depends on all calls before it
  induction calls using List.reverseRecOn with
  | nil => exact ⟨counting_new limit unixTimeMs, fun _ => by simp [verdictsAt, callsAt, admitFirst]⟩
  | append_singleton calls call ih =>
    rw [List.map_append, List.pairwise_append] at hsorted
    obtain ⟨hcounting, hverdicts⟩ :=
      ih (fun other h => hnonneg other (List.mem_append_left _ h)) hsorted.1
    obtain ⟨hresult, hnext⟩ := hcounting.check hlimit
      (hnonneg call (List.mem_append_right _ List.mem_cons_self))
      (fun earlier h => hsorted.2.2 _ (List.mem_map_of_mem h) _ List.mem_cons_self)
    rw [checkAll_append]
    refine ⟨hnext, fun sec => ?_⟩
    rw [verdictsAt_append (length_checkAll _ _), hverdicts, callsAt_append, hresult]
    by_cases hsec : call.timestamp = sec
    · rw [if_pos hsec, if_pos hsec, hsec, admitFirst_succ]
    · rw [if_neg hsec, if_neg hsec, List.append_nil, Nat.add_zero]

private theorem checkAll_unlimited (unixTimeMs : Nat) (calls : List LimitCall) :
    (new (-1) unixTimeMs).checkAll calls = (List.replicate calls.length false, new (-1) unixTimeMs) := by
  induction calls with
  | nil => rfl
  | cons call calls ih =>
    have hcheck : (new (-1) unixTimeMs).checkTraceLimit call.timestamp call.time =
        (false, new (-1) unixTimeMs) := by simp [checkTraceLimit, new]
    simp only [checkAll, hcheck, ih, List.length_cons, List.replicate_succ]

private theorem checkAll_none (unixTimeMs : Nat) (calls : List LimitCall) :
    (new 0 unixTimeMs).checkAll calls = (List.replicate calls.length true, new 0 unixTimeMs) := by
  induction calls with
  | nil => rfl
  | cons call calls ih =>
    have hcheck : (new 0 unixTimeMs).checkTraceLimit call.timestamp call.time =
        (true, new 0 unixTimeMs) := by simp [checkTraceLimit, new]
    simp only [checkAll, hcheck, ih, List.length_cons, List.replicate_succ]

/-- The limit is exact in every second, `0` admits no trace and `-1` admits all of them. -/
theorem trace_limit_exact (unixTimeMs : Nat) (calls : List LimitCall) :
    (∀ limit : Nat, 1 ≤ limit → (∀ call ∈ calls, 0 ≤ call.timestamp) →
      (calls.map LimitCall.timestamp).Pairwise (· ≤ ·) →
      ∀ sec, verdictsAt sec calls ((new limit unixTimeMs).checkAll calls).1 =
        List.replicate (min (callsAt sec calls) limit) false ++
          List.replicate (callsAt sec calls - limit) true) ∧
      ((new 0 unixTimeMs).checkAll calls).1 = List.replicate calls.length true ∧
      ((new (-1) unixTimeMs).checkAll calls).1 = List.replicate calls.length false := by
  refine ⟨fun limit hlimit hnonneg hsorted => (counting_checkAll hlimit unixTimeMs hnonneg hsorted).2, ?_, ?_⟩
  · rw [checkAll_none]
  · rw [checkAll_unlimited]

/-- Two traces a second: the third call of second 7 is refused, and second 9 starts anew. -/
theorem trace_limit_exact_two :
    verdictsAt 7 [⟨7, 0⟩, ⟨7, 0⟩, ⟨7, 0⟩, ⟨9, 0⟩]
        ((new 2 0).checkAll [⟨7, 0⟩, ⟨7, 0⟩, ⟨7, 0⟩, ⟨9, 0⟩]).1 = [false, false, true] :=
  (trace_limit_exact 0 [⟨7, 0⟩, ⟨7, 0⟩, ⟨7, 0⟩, ⟨9, 0⟩]).1 2 (by decide) (by decide) (by decide) 7

end PinpointAgent.Cache.ProcessState
