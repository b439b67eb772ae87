import Mathlib.Algebra.BigOperators.Fin
import Mathlib.Data.List.Induction
import PinpointAgent.Filters.TSpan
import PinpointAgent.Framework.Interleaving
import PinpointAgent.Framework.Lists

/-!
# Statistics by URL template

`UrlTemplateReport` keeps a pair of histograms for every template. `MoveUtReport` hands out what has
been counted and starts with an empty map. The report does not copy the histograms: it has slices of
the arrays of the very objects that `Interceptor` updates in place, and is safe only because the
objects of a report are in no later map. So the model has a heap, and a report refers to its objects.

Both calls run under the mutex of the report, so an interleaving is a list of calls.
-/

namespace PinpointAgent.Filters

open Framework

structure UriStatHistogram where
  /-- an `int64`, as is `max` -/
  total : Int
  max : Int
  /-- `int32` counts -/
  timestampHistogram : Fin 8 → Int

namespace UriStatHistogram

def zero : UriStatHistogram := ⟨0, 0, fun _ => 0⟩

def update (ust : UriStatHistogram) (span : TSpan) : UriStatHistogram :=
  let elapseTime := span.getElapsedTime
  let level := span.findHistogramLevel
  { total := toSigned 64 (ust.total + elapseTime)
    max := if elapseTime > ust.max then elapseTime else ust.max
    timestampHistogram :=
      Function.update ust.timestampHistogram level (toSigned 32 (ust.timestampHistogram level + 1)) }

end UriStatHistogram

structure StatHistograms where
  totalHistogram : UriStatHistogram
  failedHistogram : UriStatHistogram

namespace StatHistograms

def zero : StatHistograms := ⟨.zero, .zero⟩

def update (st : StatHistograms) (span : TSpan) : StatHistograms :=
  { totalHistogram := st.totalHistogram.update span
    failedHistogram := if span.isFailed then st.failedHistogram.update span else st.failedHistogram }

end StatHistograms

structure PUriHistogram where
  total : Int
  max : Int
  histogram : Nat

structure PEachUriStat where
  uri : String
  totalHistogram : PUriHistogram
  failedHistogram : PUriHistogram
  timestamp : Int

structure PAgentUriStat where
  bucketVersion : Int
  eachUriStat : List PEachUriStat

/-- The objects allocated so far, and the map to those that are being counted in. -/
structure UrlTemplateReport where
  heap : Nat → StatHistograms
  allocated : Nat
  uriMap : List (String × Nat)

namespace UrlTemplateReport

def create : UrlTemplateReport := ⟨fun _ => .zero, 0, []⟩

def updateUriSnapshot (utr : UrlTemplateReport) (span : TSpan) : UrlTemplateReport :=
  match utr.uriMap.lookup span.ut with
  | some st => { utr with heap := Function.update utr.heap st ((utr.heap st).update span) }
  | none =>
    { heap := Function.update utr.heap utr.allocated (StatHistograms.zero.update span)
      allocated := utr.allocated + 1
      uriMap := (span.ut, utr.allocated) :: utr.uriMap }

def interceptor (utr : UrlTemplateReport) (span : TSpan) : UrlTemplateReport :=
  if 0 < span.ut.utf8ByteSize then utr.updateUriSnapshot span else utr

def eachUriStat (heap : Nat → StatHistograms) (clock : String → Int) (entry : String × Nat) :
    PEachUriStat where
  uri := entry.1
  totalHistogram :=
    ⟨(heap entry.2).totalHistogram.total, (heap entry.2).totalHistogram.max, entry.2⟩
  failedHistogram :=
    ⟨(heap entry.2).failedHistogram.total, (heap entry.2).failedHistogram.max, entry.2⟩
  timestamp := clock entry.1

/-- `order` is the order in which `range` goes through the map. -/
def moveUtReport (utr : UrlTemplateReport) (order : List (String × Nat)) (clock : String → Int) :
    PAgentUriStat × UrlTemplateReport :=
  (⟨0, order.map (eachUriStat utr.heap clock)⟩, { utr with uriMap := [] })

end UrlTemplateReport

/-- The report and what it has handed out, the oldest first. -/
structure Reporting where
  utr : UrlTemplateReport
  taken : List PAgentUriStat

inductive ReportCall where
  | interceptor (span : TSpan)
  | moveUtReport (order : List (String × Nat)) (clock : String → Int)

namespace Reporting

def new : Reporting := ⟨.create, []⟩

def step (w : Reporting) : ReportCall → Option Reporting
  | .interceptor span => some { w with utr := w.utr.interceptor span }
  | .moveUtReport order clock =>
    if order.Perm w.utr.uriMap then
      let r := w.utr.moveUtReport order clock
      some ⟨r.2, w.taken ++ [r.1]⟩
    else none

end Reporting

def ReportCall.span? : ReportCall → Option TSpan
  | .interceptor span => some span
  | .moveUtReport .. => none

def intercepted (calls : List ReportCall) : List TSpan := calls.filterMap ReportCall.span?

structure UriStat where
  uri : String
  total : UriStatHistogram
  failed : UriStatHistogram

def PEachUriStat.read (heap : Nat → StatHistograms) (entry : PEachUriStat) : UriStat where
  uri := entry.uri
  total := ⟨entry.totalHistogram.total, entry.totalHistogram.max,
    (heap entry.totalHistogram.histogram).totalHistogram.timestampHistogram⟩
  failed := ⟨entry.failedHistogram.total, entry.failedHistogram.max,
    (heap entry.failedHistogram.histogram).failedHistogram.timestampHistogram⟩

def PAgentUriStat.read (heap : Nat → StatHistograms) (report : PAgentUriStat) : List UriStat :=
  report.eachUriStat.map (PEachUriStat.read heap)

/-- The current map, as a report that was taken now would show it. -/
def UrlTemplateReport.current (utr : UrlTemplateReport) : PAgentUriStat :=
  (utr.moveUtReport utr.uriMap fun _ => 0).1

/-- The entries for a template, in all reports taken and in the current map. -/
def Reporting.statsOf (w : Reporting) (u : String) : List UriStat :=
  ((w.taken ++ [w.utr.current]).flatMap (PAgentUriStat.read w.utr.heap)).filter fun s => s.uri = u

/-- The statistics in `stats` are those of `spans`. -/
structure Conserved (spans : List TSpan) (stats : List UriStat) : Prop where
  bucket : ∀ b, (stats.map fun s => s.total.timestampHistogram b).sum =
    spans.countP fun span => span.findHistogramLevel = b
  count : ∑ b, (stats.map fun s => s.total.timestampHistogram b).sum = (spans.length : Int)
  total : (stats.map fun s => s.total.total).sum = (spans.map fun span => span.getElapsedTime).sum
  failed : ∀ b, (stats.map fun s => s.failed.timestampHistogram b).sum =
    spans.countP fun span => span.isFailed && (span.findHistogramLevel = b)
  failed_le : ∀ s ∈ stats, ∀ b, s.failed.timestampHistogram b ≤ s.total.timestampHistogram b
  max : (stats.map fun s => s.total.max).foldr Max.max 0 =
    (spans.map fun span => span.getElapsedTime).foldr Max.max 0

def TSpan.ElapsedFits (span : TSpan) : Prop :=
  -2147483648 ≤ span.getElapsedTime ∧ span.getElapsedTime < 2147483648

instance TSpan.decidableElapsedFits (span : TSpan) : Decidable span.ElapsedFits :=
  inferInstanceAs (Decidable (_ ∧ _))

/-! ## One histogram -/

private theorem elapsed_sum_bounds {spans : List TSpan} (h : ∀ span ∈ spans, span.ElapsedFits) :
    -(2147483648 * (spans.length : Int)) ≤ (spans.map fun span => span.getElapsedTime).sum ∧
      (spans.map fun span => span.getElapsedTime).sum ≤ 2147483648 * (spans.length : Int) := by
  induction spans with
  | nil => simp
  | cons span spans ih =>
    obtain ⟨hlo, hhi⟩ := h span List.mem_cons_self
    obtain ⟨hlo', hhi'⟩ := ih fun other hother => h other (List.mem_cons_of_mem _ hother)
    rw [List.map_cons, List.sum_cons, List.length_cons]
    push_cast
    omega

namespace UriStatHistogram

def tally (spans : List TSpan) : UriStatHistogram := spans.foldl update zero

private theorem tally_append (spans : List TSpan) (span : TSpan) :
    tally (spans ++ [span]) = (tally spans).update span := by
  rw [tally, List.foldl_append]
  rfl

/-- The histogram says how many of the spans are in each bucket, what their sum is and which is the
longest; with fewer than `2 ^ 31` spans nothing wraps. -/
structure Tells (ust : UriStatHistogram) (spans : List TSpan) : Prop where
  bucket : ∀ b, ust.timestampHistogram b = spans.countP fun span => span.findHistogramLevel = b
  total : ust.total = (spans.map fun span => span.getElapsedTime).sum
  max : ust.max = (spans.map fun span => span.getElapsedTime).foldr Max.max 0

private theorem Tells.update {ust : UriStatHistogram} {spans : List TSpan} {span : TSpan} (h : ust.Tells spans)
    (hfits : ∀ other ∈ spans ++ [span], other.ElapsedFits)
    (hfew : (spans ++ [span]).length < 2147483648) : (ust.update span).Tells (spans ++ [span]) := by
  obtain ⟨hlo, hhi⟩ := elapsed_sum_bounds hfits
  have hlength : ((spans ++ [span]).length : Int) < 2147483648 := by exact_mod_cast hfew
  rw [List.map_append, List.map_singleton, List.sum_append, List.sum_singleton] at hlo hhi
  constructor
  · intro b
    rw [List.countP_append, List.countP_singleton]
    change Function.update ust.timestampHistogram span.findHistogramLevel _ b = _
    by_cases hb : span.findHistogramLevel = b
    · subst hb
      have hle : (spans.countP fun other => decide (other.findHistogramLevel = span.findHistogramLevel)) ≤
          spans.length := List.countP_le_length
      rw [List.length_append, List.length_singleton] at hfew
      rw [Function.update_self, h.bucket, if_pos (decide_eq_true rfl),
        toSigned_32_eq (by omega) (by omega)]
      push_cast
      rfl
    · rw [Function.update_of_ne (Ne.symm hb), if_neg (by simpa using hb), h.bucket, Nat.add_zero]
  · rw [List.map_append, List.map_singleton, List.sum_append, List.sum_singleton]
    change toSigned 64 (ust.total + span.getElapsedTime) = _
    rw [h.total]
    exact toSigned_of_range (by decide) (by omega) (by omega)
  · rw [List.map_append, foldr_max_append, ← h.max]
    change (if span.getElapsedTime > ust.max then span.getElapsedTime else ust.max) =
      Max.max ust.max (Max.max span.getElapsedTime 0)
    have hnonneg : 0 ≤ ust.max := by
      rw [h.max, ← List.append_nil (spans.map _), foldr_max_append]
      exact le_max_right _ _
    split <;> omega

theorem tells_tally {spans : List TSpan} (hfits : ∀ span ∈ spans, span.ElapsedFits)
    (hfew : spans.length < 2147483648) : (tally spans).Tells spans := by
  induction spans using List.reverseRecOn with
  | nil => exact ⟨fun _ => rfl, rfl, rfl⟩
  | append_singleton spans span ih =>
    rw [tally_append]
    refine (ih (fun other hother => hfits other (List.mem_append_left _ hother)) ?_).update hfits hfew
    rw [List.length_append] at hfew
    omega

end UriStatHistogram

namespace StatHistograms

def tally (spans : List TSpan) : StatHistograms := spans.foldl update zero

theorem tally_append (spans : List TSpan) (span : TSpan) :
    tally (spans ++ [span]) = (tally spans).update span := by
  rw [tally, List.foldl_append]
  rfl

theorem tally_eq (spans : List TSpan) :
    tally spans = ⟨.tally spans, .tally (spans.filter TSpan.isFailed)⟩ := by
  induction spans using List.reverseRecOn with
  | nil => rfl
  | append_singleton spans span ih =>
    rw [tally_append, ih, UriStatHistogram.tally_append, List.filter_append, update]
    by_cases hfailed : span.isFailed = true
    · rw [if_pos hfailed, List.filter_cons_of_pos hfailed, List.filter_nil, UriStatHistogram.tally_append]
    · rw [if_neg hfailed, List.filter_cons_of_neg hfailed, List.filter_nil, List.append_nil]

end StatHistograms

end PinpointAgent.Filters
