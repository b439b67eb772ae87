import PinpointAgent.Router.GrpcAgent

/-!
# The response times of the current window

`RequestCounter` keeps the maximum, the sum and the number of the elapsed times of one window. A
window starts with the first span at or after the end of the one before it and lasts a second longer
than the interval of the statistics; `GetMaxAvg` tests with the same bound whether it has ended. The
sum is a `uint32`, which three long requests exceed.
-/

namespace PinpointAgent.Router

open Framework

def RequestCounter.getMaxAvg (statIntervalSec now : Int) (r : RequestCounter) : Nat × Nat :=
  if now < r.reqTop1LastTime + statIntervalSec + 1 ∧ 0 < r.times then (r.max, r.total / r.times)
  else (0, 0)

/-- A call of `Interceptor`, with the reading of the clock. -/
structure Observation where
  time : Int
  span : TSpan

def RequestCounter.observe (statIntervalSec : Int) (r : RequestCounter) (obs : List Observation) :
    RequestCounter :=
  obs.foldl (fun r o => r.interceptor statIntervalSec o.time o.span) r

structure Window where
  start : Int
  elapsed : List Nat
deriving DecidableEq

namespace Window

def max (w : Window) : Nat := w.elapsed.foldr Nat.max 0

def total (w : Window) : Nat := w.elapsed.sum

def mean (w : Window) : Nat := w.total / w.elapsed.length

end Window

def addSpan (k : Nat) (ws : List Window) (o : Observation) : List Window :=
  match ws with
  | [] => [⟨o.time, [o.span.getElapsedTime.toNat]⟩]
  | w :: ws =>
    if w.start + (k + 1) ≤ o.time then ⟨o.time, [o.span.getElapsedTime.toNat]⟩ :: w :: ws
    else ⟨w.start, o.span.getElapsedTime.toNat :: w.elapsed⟩ :: ws

def windows (k : Nat) (obs : List Observation) : List Window := obs.foldl (addSpan k) []

/-- The counter has the statistics of the latest window, as far as 32 bits hold them. -/
def Summarises (r : RequestCounter) : List Window → Prop
  | [] => r.reqTop1LastTime = 0 ∧ r.times = 0
  | w :: _ => r.reqTop1LastTime = w.start ∧ r.max = w.max ∧ w.elapsed ≠ [] ∧
      r.total = w.total % 4294967296 ∧ r.times = w.elapsed.length % 4294967296

variable {k : Nat} {r : RequestCounter} {ws : List Window} {o : Observation}

private theorem interceptor_within (hplain : o.span.localAsyncId = none)
    (hwindow : o.time < r.reqTop1LastTime + k + 1) :
    (r.interceptor k o.time o.span).reqTop1LastTime = r.reqTop1LastTime ∧
      (r.interceptor k o.time o.span).max = Nat.max r.max (RequestCounter.toUint32 o.span.getElapsedTime) ∧
      (r.interceptor k o.time o.span).total = wordAdd 32 r.total (RequestCounter.toUint32 o.span.getElapsedTime) ∧
      (r.interceptor k o.time o.span).times = wordAdd 32 r.times 1 := by
  unfold RequestCounter.interceptor
  rw [hplain, Option.isSome_none, if_neg Bool.false_ne_true]
  simp only [RequestCounter.updateReqTimeProfile, RequestCounter.updateReqTop1TimeSummary]
  rw [if_neg (not_le.2 hwindow)]
  refine ⟨rfl, ?_, rfl, rfl⟩
  simp only [Nat.max_def]
  split <;> split <;> omega

private theorem interceptor_starts (hplain : o.span.localAsyncId = none)
    (hwindow : r.reqTop1LastTime + k + 1 ≤ o.time) :
    (r.interceptor k o.time o.span).reqTop1LastTime = o.time ∧
      (r.interceptor k o.time o.span).max = RequestCounter.toUint32 o.span.getElapsedTime ∧
      (r.interceptor k o.time o.span).total = wordAdd 32 0 (RequestCounter.toUint32 o.span.getElapsedTime) ∧
      (r.interceptor k o.time o.span).times = wordAdd 32 0 1 := by
  unfold RequestCounter.interceptor
  rw [hplain, Option.isSome_none, if_neg Bool.false_ne_true]
  simp only [RequestCounter.updateReqTimeProfile, RequestCounter.updateReqTop1TimeSummary]
  rw [if_pos hwindow]
  refine ⟨rfl, ?_, rfl, rfl⟩
  simp only
  split <;> omega

private theorem toUint32_of_range {n : Int} (hlo : 0 ≤ n) (hhi : n < 2147483648) :
    RequestCounter.toUint32 n = n.toNat := by
  unfold RequestCounter.toUint32
  rw [Int.emod_eq_of_lt hlo (by omega)]

private theorem summarises_starts (ws : List Window) (hplain : o.span.localAsyncId = none)
    (hlo : 0 ≤ o.span.getElapsedTime) (hhi : o.span.getElapsedTime < 2147483648)
    (hwindow : r.reqTop1LastTime + k + 1 ≤ o.time) :
    Summarises (r.interceptor k o.time o.span) (⟨o.time, [o.span.getElapsedTime.toNat]⟩ :: ws) := by
  obtain ⟨hstart, hmax, htotal, htimes⟩ := interceptor_starts hplain hwindow
  rw [toUint32_of_range hlo hhi] at hmax htotal
  rw [wordAdd_32] at htotal htimes
  refine ⟨hstart, ?_, by simp, ?_, ?_⟩
  · simp [hmax, Window.max]
  · simpa [Window.total] using htotal
  · simpa using htimes

private theorem Summarises.interceptor (h : Summarises r ws) (hplain : o.span.localAsyncId = none)
    (hlo : 0 ≤ o.span.getElapsedTime) (hhi : o.span.getElapsedTime < 2147483648) (hlate : (k : Int) < o.time) :
    Summarises (r.interceptor k o.time o.span) (addSpan k ws o) := by
  cases ws with
  | nil =>
    obtain ⟨hlast, -⟩ := h
    exact summarises_starts [] hplain hlo hhi (by omega)
  | cons w ws =>
    obtain ⟨hlast, hmax, -, htotal, htimes⟩ := h
    by_cases hnew : w.start + (k + 1) ≤ o.time
    · rw [addSpan, if_pos hnew]
      exact summarises_starts (w :: ws) hplain hlo hhi (by omega)
    · rw [addSpan, if_neg hnew]
      obtain ⟨hstart, hmax', htotal', htimes'⟩ := interceptor_within (k := k) (r := r) hplain (by omega)
      rw [toUint32_of_range hlo hhi] at hmax' htotal'
      rw [wordAdd_32] at htotal' htimes'
      refine ⟨hstart.trans hlast, ?_, by simp, ?_, ?_⟩
      · rw [hmax', hmax]
        exact Nat.max_comm _ _
      · rw [htotal', htotal]
        simp only [Window.total, List.sum_cons]
        omega
      · rw [htimes', htimes]
        simp only [List.length_cons]
        omega

private theorem summarises_observe {obs : List Observation} (h : Summarises r ws)
    (hplain : ∀ o ∈ obs, o.span.localAsyncId = none)
    (helapsed : ∀ o ∈ obs, 0 ≤ o.span.getElapsedTime ∧ o.span.getElapsedTime < 2147483648)
    (hlate : ∀ o ∈ obs, (k : Int) < o.time) :
    Summarises (r.observe k obs) (obs.foldl (addSpan k) ws) := by
  induction obs generalizing r ws with
  | nil => exact h
  | cons o obs ih =>
    obtain ⟨hlo, hhi⟩ := helapsed o List.mem_cons_self
    apply ih (h.interceptor (hplain o List.mem_cons_self) hlo hhi (hlate o List.mem_cons_self))
    · exact fun other hother => hplain other (List.mem_cons_of_mem _ hother)
    · exact fun other hother => helapsed other (List.mem_cons_of_mem _ hother)
    · exact fun other hother => hlate other (List.mem_cons_of_mem _ hother)

private theorem mean_mod_eq_iff {total times : Nat} (hpos : 0 < times) (htimes : times < 4294967296) :
    total % 4294967296 / times = total / times ↔ total < 4294967296 := by
  constructor
  · intro heq
    by_contra hbig
    have hle : total % 4294967296 + times ≤ total := by omega
    have hdiv := Nat.div_le_div_right (c := times) hle
    rw [Nat.add_div_right _ hpos] at hdiv
    omega
  · intro hsmall
    rw [Nat.mod_eq_of_lt hsmall]

/-- In the current window `GetMaxAvg` returns the maximum and the mean of its spans if and only if
their sum fits into 32 bits; after it, zeros. -/
theorem max_avg_exact_iff (k : Nat) (created : Int) (obs : List Observation)
    (hplain : ∀ o ∈ obs, o.span.localAsyncId = none)
    (helapsed : ∀ o ∈ obs, 0 ≤ o.span.getElapsedTime ∧ o.span.getElapsedTime < 2147483648)
    (hlate : ∀ o ∈ obs, (k : Int) < o.time) :
    (∀ w ∈ (windows k obs).head?, w.elapsed.length < 4294967296 →
      ∀ now, w.start ≤ now → now < w.start + (k + 1) →
        (((RequestCounter.create created).observe k obs).getMaxAvg k now = (w.max, w.mean) ↔
          w.total < 4294967296)) ∧
      ∀ now, (∀ w ∈ (windows k obs).head?, w.start + (k + 1) ≤ now) →
        ((RequestCounter.create created).observe k obs).getMaxAvg k now = (0, 0) := by
  have hsum : Summarises ((RequestCounter.create created).observe k obs) (windows k obs) :=
    summarises_observe ⟨rfl, rfl⟩ hplain helapsed hlate
  cases hws : windows k obs with
  | nil =>
    rw [hws] at hsum
    refine ⟨fun w hw => absurd hw (by simp), fun now _ => ?_⟩
    rw [RequestCounter.getMaxAvg, if_neg fun h => absurd h.2 (by rw [hsum.2]; exact lt_irrefl 0)]
  | cons w ws =>
    rw [hws] at hsum
    obtain ⟨hlast, hmax, hne, htotal, htimes⟩ := hsum
    constructor
    · intro w' hw' hcount now _ hnow
      obtain rfl : w = w' := Option.some.inj hw'
      have hpos : 0 < w.elapsed.length := List.length_pos_iff.2 hne
      rw [Nat.mod_eq_of_lt hcount] at htimes
      rw [RequestCounter.getMaxAvg, if_pos ⟨by omega, by omega⟩, hmax, htotal, htimes, Prod.mk.injEq,
        and_iff_right rfl]
      exact mean_mod_eq_iff hpos hcount
    · intro now hended
      have hend : w.start + (k + 1) ≤ now := hended w rfl
      rw [RequestCounter.getMaxAvg, if_neg fun h => absurd h.1 (by omega)]

def tookMs (elapsed : Int) : Observation := ⟨10, { elapsedTimeV2 := elapsed }⟩

theorem max_avg_exact_iff_two :
    ((RequestCounter.create 0).observe 5 [tookMs 300, tookMs 101]).getMaxAvg 5 12 = (300, 200) :=
  ((max_avg_exact_iff 5 0 [tookMs 300, tookMs 101] (by decide) (by decide) (by decide)).1
    ⟨10, [101, 300]⟩ rfl (by decide) 12 (by decide) (by decide)).2 (by decide)

/-- Three spans of the greatest length: the sum wraps, and the mean is a third of what it should be. -/
theorem three_long_spans_wrap :
    windows 5 [tookMs 2147483647, tookMs 2147483647, tookMs 2147483647] =
        [⟨10, [2147483647, 2147483647, 2147483647]⟩] ∧
      (Window.mk 10 [2147483647, 2147483647, 2147483647]).mean = 2147483647 ∧
      ((RequestCounter.create 0).observe 5
        [tookMs 2147483647, tookMs 2147483647, tookMs 2147483647]).getMaxAvg 5 12 =
        (2147483647, 715827881) := by
  refine ⟨by decide, by decide, ?_⟩
  simp [RequestCounter.observe, RequestCounter.interceptor, RequestCounter.create, tookMs,
    TSpan.getElapsedTime, RequestCounter.toUint32, RequestCounter.updateReqTimeProfile,
    RequestCounter.updateReqTop1TimeSummary, RequestCounter.getMaxAvg, wordAdd_32]

end PinpointAgent.Router
