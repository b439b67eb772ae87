import PinpointAgent.Filters.UrlTemplate
import PinpointAgent.Framework.Dict

/-!
# Every span is counted once

Between two reports the map has the spans since the last one: for every template an object that has
counted them, and no two templates share it. When a report is taken its objects leave the map, so
nothing writes to them again. Hence the reports and the map together have the statistics of all
spans, whatever the interleaving.
-/

namespace PinpointAgent.Filters

open Framework

/-! ## The objects of the current map and those of the reports -/

def withTemplate (u : String) (spans : List TSpan) : List TSpan := spans.filter fun span => span.ut = u

private theorem withTemplate_append (u : String) (spans others : List TSpan) :
    withTemplate u (spans ++ others) = withTemplate u spans ++ withTemplate u others := List.filter_append ..

private theorem withTemplate_singleton_self (span : TSpan) : withTemplate span.ut [span] = [span] := by
  simp [withTemplate]

private theorem withTemplate_singleton_of_ne {u : String} {span : TSpan} (h : span.ut ≠ u) :
    withTemplate u [span] = [] := by
  simp [withTemplate, h]

/-- The entries of a report, or of the map, are for the templates of `spans`, and their objects have
counted exactly the spans of the template. -/
structure Counts (heap : Nat → StatHistograms) (spans : List TSpan) (entries : List (String × Nat)) : Prop where
  keys : (entries.map Prod.fst).Nodup
  template : ∀ entry ∈ entries, entry.1 ≠ ""
  tally : ∀ entry ∈ entries, heap entry.2 = .tally (withTemplate entry.1 spans)
  complete : ∀ span ∈ spans, span.ut ≠ "" → span.ut ∈ entries.map Prod.fst

/-- A report that was taken of `entries`, whose objects are not written to any more. -/
structure Frozen (utr : UrlTemplateReport) (spans : List TSpan) (report : PAgentUriStat)
    (entries : List (String × Nat)) : Prop where
  counts : Counts utr.heap spans entries
  report : ∃ clock, report.eachUriStat = entries.map (UrlTemplateReport.eachUriStat utr.heap clock)
  old : ∀ entry ∈ entries, entry.2 < utr.allocated
  separate : ∀ entry ∈ entries, ∀ other ∈ utr.uriMap, entry.2 ≠ other.2

/-- The reports have the spans of `segments`, one after the other, and the map those of `current`. -/
structure Reporting.Sound (w : Reporting) (segments : List (List TSpan)) (current : List TSpan) : Prop where
  counts : Counts w.utr.heap current w.utr.uriMap
  objects : (w.utr.uriMap.map Prod.snd).Nodup
  allocated : ∀ entry ∈ w.utr.uriMap, entry.2 < w.utr.allocated
  taken : List.Forall₂ (fun spans report => ∃ entries, Frozen w.utr spans report entries) segments w.taken

private theorem sound_new : Reporting.new.Sound [] [] where
  counts := ⟨List.nodup_nil, fun _ h => absurd h List.not_mem_nil, fun _ h => absurd h List.not_mem_nil,
    fun _ h => absurd h List.not_mem_nil⟩
  objects := List.nodup_nil
  allocated := fun _ h => absurd h List.not_mem_nil
  taken := .nil

variable {utr utr' : UrlTemplateReport} {spans : List TSpan} {span : TSpan} {entries : List (String × Nat)}

private theorem Counts.congr {heap heap' : Nat → StatHistograms} (h : Counts heap spans entries)
    (heq : ∀ entry ∈ entries, heap' entry.2 = heap entry.2) : Counts heap' spans entries where
  keys := h.keys
  template := h.template
  tally := fun entry hentry => (heq entry hentry).trans (h.tally entry hentry)
  complete := h.complete

theorem Frozen.mono {report : PAgentUriStat} (h : Frozen utr spans report entries)
    (heap : ∀ entry ∈ entries, utr'.heap entry.2 = utr.heap entry.2) (hallocated : utr.allocated ≤ utr'.allocated)
    (hmap : ∀ other ∈ utr'.uriMap, other ∈ utr.uriMap ∨ other.2 = utr.allocated) :
    Frozen utr' spans report entries where
  counts := h.counts.congr heap
  report := by
    obtain ⟨clock, hreport⟩ := h.report
    refine ⟨clock, hreport.trans (List.map_congr_left fun entry hentry => ?_)⟩
    simp only [UrlTemplateReport.eachUriStat, heap entry hentry]
  old := fun entry hentry => (h.old entry hentry).trans_le hallocated
  separate := fun entry hentry other hother => by
    rcases hmap other hother with hold | hnew
    · exact h.separate entry hentry other hold
    · rw [hnew]
      exact (h.old entry hentry).ne

private theorem Counts.skip {heap : Nat → StatHistograms} (h : Counts heap spans entries) (hempty : span.ut = "") :
    Counts heap (spans ++ [span]) entries where
  keys := h.keys
  template := h.template
  tally := fun entry hentry => by
    have hne : span.ut ≠ entry.1 := fun heq => h.template entry hentry (heq ▸ hempty)
    rw [withTemplate_append, withTemplate_singleton_of_ne hne, List.append_nil]
    exact h.tally entry hentry
  complete := fun other hother hne => by
    rcases List.mem_append.1 hother with hold | hnew
    · exact h.complete other hold hne
    · exact absurd (List.mem_singleton.1 hnew ▸ hempty) hne

theorem Counts.update {heap : Nat → StatHistograms} (h : Counts heap spans entries)
    (hobjects : (entries.map Prod.snd).Nodup) {st : Nat} (hst : (span.ut, st) ∈ entries) :
    Counts (Function.update heap st ((heap st).update span)) (spans ++ [span]) entries where
  keys := h.keys
  template := h.template
  tally := fun entry hentry => by
    by_cases hobject : entry.2 = st
    · obtain rfl : entry = (span.ut, st) := List.inj_on_of_nodup_map hobjects hentry hst hobject
      rw [Function.update_self, h.tally _ hst, withTemplate_append, withTemplate_singleton_self,
        StatHistograms.tally_append]
    · have hne : span.ut ≠ entry.1 := fun heq =>
        hobject (congrArg Prod.snd (List.inj_on_of_nodup_map h.keys hentry hst heq.symm))
      rw [Function.update_of_ne hobject, withTemplate_append, withTemplate_singleton_of_ne hne,
        List.append_nil]
      exact h.tally entry hentry
  complete := fun other hother hne => by
    rcases List.mem_append.1 hother with hold | hnew
    · exact h.complete other hold hne
    · rw [List.mem_singleton.1 hnew]
      exact List.mem_map_of_mem hst

private theorem Counts.insert {heap : Nat → StatHistograms} (h : Counts heap spans entries) {st : Nat}
    (hfresh : ∀ entry ∈ entries, entry.2 ≠ st) (hne : span.ut ≠ "") (hnew : span.ut ∉ entries.map Prod.fst) :
    Counts (Function.update heap st (StatHistograms.zero.update span)) (spans ++ [span])
      ((span.ut, st) :: entries) where
  keys := List.nodup_cons.2 ⟨hnew, h.keys⟩
  template := fun entry hentry => by
    rcases List.mem_cons.1 hentry with rfl | hold
    · exact hne
    · exact h.template entry hold
  tally := fun entry hentry => by
    rcases List.mem_cons.1 hentry with rfl | hold
    · have hnone : withTemplate span.ut spans = [] := by
        refine List.filter_eq_nil_iff.2 fun other hother heq => hnew ?_
        have hut : other.ut = span.ut := of_decide_eq_true heq
        exact hut ▸ h.complete other hother (hut ▸ hne)
      rw [Function.update_self, withTemplate_append, hnone, withTemplate_singleton_self]
      rfl
    · have hut : span.ut ≠ entry.1 := fun heq => hnew (heq ▸ List.mem_map_of_mem hold)
      rw [Function.update_of_ne (hfresh entry hold), withTemplate_append,
        withTemplate_singleton_of_ne hut, List.append_nil]
      exact h.tally entry hold
  complete := fun other hother hut => by
    rcases List.mem_append.1 hother with hold | hlast
    · exact List.mem_cons_of_mem _ (h.complete other hold hut)
    · rw [List.mem_singleton.1 hlast]
      exact List.mem_cons_self

private theorem not_mem_of_lookup {u : String} (h : entries.lookup u = none) : u ∉ entries.map Prod.fst := by
  intro hmem
  obtain ⟨entry, hentry, heq⟩ := List.mem_map.1 hmem
  have hkey := List.lookup_eq_none_iff.1 h entry hentry
  simp [heq] at hkey

private theorem Frozen.interceptor {report : PAgentUriStat} (h : Frozen utr spans report entries) (span : TSpan) :
    Frozen (utr.interceptor span) spans report entries := by
  unfold UrlTemplateReport.interceptor
  by_cases hut : 0 < span.ut.utf8ByteSize
  · rw [if_pos hut, UrlTemplateReport.updateUriSnapshot]
    cases hlookup : utr.uriMap.lookup span.ut with
    | some st =>
      refine h.mono (fun entry hentry => ?_) le_rfl fun other hother => .inl hother
      exact Function.update_of_ne (h.separate entry hentry _ (Dict.mem_of_lookup hlookup)) ..
    | none =>
      refine h.mono (fun entry hentry => ?_) (Nat.le_succ _) fun other hother => ?_
      · exact Function.update_of_ne (h.old entry hentry).ne ..
      · rcases List.mem_cons.1 hother with rfl | hold
        · exact .inr rfl
        · exact .inl hold
  · rw [if_neg hut]
    exact h

private theorem Frozen.moveUtReport {report : PAgentUriStat} (h : Frozen utr spans report entries)
    (order : List (String × Nat)) (clock : String → Int) :
    Frozen (utr.moveUtReport order clock).2 spans report entries :=
  h.mono (fun _ _ => rfl) le_rfl fun _ hother => absurd hother List.not_mem_nil

variable {w w' : Reporting} {segments : List (List TSpan)} {current : List TSpan}

private theorem Reporting.Sound.interceptor (h : w.Sound segments current) (span : TSpan) :
    Reporting.Sound { w with utr := w.utr.interceptor span } segments (current ++ [span]) := by
  have htaken : List.Forall₂ (fun spans report => ∃ entries, Frozen (w.utr.interceptor span) spans report entries)
      segments w.taken :=
    h.taken.imp fun _ _ ⟨entries, hfrozen⟩ => ⟨entries, hfrozen.interceptor span⟩
  unfold UrlTemplateReport.interceptor at htaken ⊢
  by_cases hut : 0 < span.ut.utf8ByteSize
  · have hne : span.ut ≠ "" := fun heq => absurd hut (by rw [heq]; decide)
    rw [if_pos hut, UrlTemplateReport.updateUriSnapshot] at htaken ⊢
    cases hlookup : w.utr.uriMap.lookup span.ut with
    | some st =>
      simp only [hlookup] at htaken
      exact ⟨h.counts.update h.objects (Dict.mem_of_lookup hlookup), h.objects, h.allocated, htaken⟩
    | none =>
      simp only [hlookup] at htaken
      have hfresh : ∀ entry ∈ w.utr.uriMap, entry.2 ≠ w.utr.allocated :=
        fun entry hentry => (h.allocated entry hentry).ne
      refine ⟨h.counts.insert hfresh hne (not_mem_of_lookup hlookup), List.nodup_cons.2 ⟨?_, h.objects⟩, ?_, htaken⟩
      · intro hmem
        obtain ⟨entry, hentry, heq⟩ := List.mem_map.1 hmem
        exact hfresh entry hentry heq
      · intro entry hentry
        rcases List.mem_cons.1 hentry with rfl | hold
        · exact Nat.lt_succ_self _
        · exact (h.allocated entry hold).trans (Nat.lt_succ_self _)
  · rw [if_neg hut] at htaken ⊢
    have hempty : span.ut = "" := String.utf8ByteSize_eq_zero_iff.1 (Nat.eq_zero_of_not_pos hut)
    exact ⟨h.counts.skip hempty, h.objects, h.allocated, htaken⟩

private theorem Counts.perm {heap : Nat → StatHistograms} {order : List (String × Nat)} (h : Counts heap spans entries)
    (hperm : order.Perm entries) : Counts heap spans order where
  keys := (hperm.map Prod.fst).nodup_iff.2 h.keys
  template := fun entry hentry => h.template entry (hperm.mem_iff.1 hentry)
  tally := fun entry hentry => h.tally entry (hperm.mem_iff.1 hentry)
  complete := fun span hspan hne => (hperm.map Prod.fst).mem_iff.2 (h.complete span hspan hne)

theorem Reporting.Sound.moveUtReport (h : w.Sound segments current) {order : List (String × Nat)}
    (hperm : order.Perm w.utr.uriMap) (clock : String → Int) :
    Reporting.Sound ⟨(w.utr.moveUtReport order clock).2, w.taken ++ [(w.utr.moveUtReport order clock).1]⟩
      (segments ++ [current]) [] where
  counts := sound_new.counts.congr fun _ hentry => absurd hentry List.not_mem_nil
  objects := List.nodup_nil
  allocated := fun _ hentry => absurd hentry List.not_mem_nil
  taken := by
    have hnew : Frozen (w.utr.moveUtReport order clock).2 current (w.utr.moveUtReport order clock).1 order := {
      counts := h.counts.perm hperm
      report := ⟨clock, rfl⟩
      old := fun entry hentry => h.allocated entry (hperm.mem_iff.1 hentry)
      separate := fun _ _ _ hother => absurd hother List.not_mem_nil }
    exact List.rel_append
      (h.taken.imp fun _ _ ⟨entries, hfrozen⟩ => ⟨entries, hfrozen.moveUtReport order clock⟩)
      (.cons ⟨order, hnew⟩ .nil)

/-! ## Runs -/

private theorem Reporting.Sound.step {call : ReportCall} (h : w.Sound segments current) (hstep : w.step call = some w') :
    ∃ segments' current', w'.Sound segments' current' ∧
      segments'.flatten ++ current' = segments.flatten ++ current ++ intercepted [call] := by
  cases call with
  | interceptor span =>
    obtain rfl := Option.some.inj hstep
    exact ⟨segments, current ++ [span], h.interceptor span, (List.append_assoc ..).symm⟩
  | moveUtReport order clock =>
    rw [Reporting.step] at hstep
    split at hstep
    · rename_i hperm
      obtain rfl := Option.some.inj hstep
      refine ⟨segments ++ [current], [], h.moveUtReport hperm clock, ?_⟩
      rw [List.flatten_append, List.flatten_singleton]
      rfl
    · cases hstep

private theorem sound_exec {calls : List ReportCall} (h : w.Sound segments current)
    (hrun : exec Reporting.step w calls = some w') :
    ∃ segments' current', w'.Sound segments' current' ∧
      segments'.flatten ++ current' = segments.flatten ++ current ++ intercepted calls := by
  induction calls generalizing w segments current with
  | nil =>
    obtain rfl := Option.some.inj hrun
    exact ⟨segments, current, h, (List.append_nil _).symm⟩
  | cons call calls ih =>
    obtain ⟨v, hstep, hrest⟩ := Option.bind_eq_some_iff.1 hrun
    obtain ⟨segments₁, current₁, hsound, hspans⟩ := h.step hstep
    obtain ⟨segments₂, current₂, hsound', hspans'⟩ := ih hsound hrest
    refine ⟨segments₂, current₂, hsound', hspans'.trans ?_⟩
    rw [hspans, List.append_assoc]
    congr 1
    rw [intercepted, intercepted, intercepted, ← List.filterMap_append, List.singleton_append]

private theorem Frozen.exec {report : PAgentUriStat} {calls : List ReportCall}
    (h : Frozen w.utr spans report entries) (hrun : Framework.exec Reporting.step w calls = some w') :
    Frozen w'.utr spans report entries := by
  refine exec_invariant (P := fun w => Frozen w.utr spans report entries) ?_ h hrun
  intro v call v' hv hstep
  cases call with
  | interceptor span =>
    obtain rfl := Option.some.inj hstep
    exact hv.interceptor span
  | moveUtReport order clock =>
    rw [Reporting.step] at hstep
    split at hstep
    · obtain rfl := Option.some.inj hstep
      exact hv.moveUtReport order clock
    · cases hstep

private theorem taken_exec {calls : List ReportCall} (hrun : exec Reporting.step w calls = some w') :
    w.taken <+: w'.taken := by
  refine exec_invariant (P := fun v => w.taken <+: v.taken) ?_ (List.prefix_refl _) hrun
  intro v call v' hv hstep
  cases call with
  | interceptor span =>
    obtain rfl := Option.some.inj hstep
    exact hv
  | moveUtReport order clock =>
    rw [Reporting.step] at hstep
    split at hstep
    · obtain rfl := Option.some.inj hstep
      exact hv.trans (List.prefix_append _ _)
    · cases hstep

/-! ## What the reports say -/

/-- The entry for a template after `spans`. -/
def statOf (u : String) (spans : List TSpan) : UriStat :=
  ⟨u, .tally (withTemplate u spans), .tally ((withTemplate u spans).filter TSpan.isFailed)⟩

private theorem Counts.read {heap : Nat → StatHistograms} {report : PAgentUriStat} {clock : String → Int}
    (h : Counts heap spans entries) (hreport : report.eachUriStat = entries.map (UrlTemplateReport.eachUriStat heap clock)) :
    report.read heap = entries.map fun entry => statOf entry.1 spans := by
  rw [PAgentUriStat.read, hreport, List.map_map]
  refine List.map_congr_left fun entry hentry => ?_
  simp only [Function.comp_apply, PEachUriStat.read, UrlTemplateReport.eachUriStat, h.tally entry hentry,
    StatHistograms.tally_eq]
  rfl

private theorem Frozen.read {report : PAgentUriStat} (h : Frozen utr spans report entries) :
    report.read utr.heap = entries.map fun entry => statOf entry.1 spans := by
  obtain ⟨clock, hreport⟩ := h.report
  exact h.counts.read hreport

private theorem Counts.filter_stats {heap : Nat → StatHistograms} (h : Counts heap spans entries) {u : String} (hu : u ≠ "") :
    (entries.map fun entry => statOf entry.1 spans).filter (fun s => s.uri = u) = [statOf u spans] ∨
      (entries.map fun entry => statOf entry.1 spans).filter (fun s => s.uri = u) = [] ∧
        withTemplate u spans = [] := by
  have hfilter : (entries.map fun entry => statOf entry.1 spans).filter (fun s => s.uri = u) =
      ((entries.map Prod.fst).filter fun key => key = u).map fun key => statOf key spans := by
    rw [List.filter_map, List.filter_map, List.map_map]
    rfl
  rw [hfilter, List.filter_eq]
  by_cases hmem : u ∈ entries.map Prod.fst
  · left
    rw [List.count_eq_one_of_mem h.keys hmem]
    rfl
  · right
    rw [List.count_eq_zero_of_not_mem hmem]
    refine ⟨rfl, List.filter_eq_nil_iff.2 fun span hspan heq => hmem ?_⟩
    have hut : span.ut = u := of_decide_eq_true heq
    exact hut ▸ h.complete span hspan (hut ▸ hu)

private theorem sum_buckets (spans : List TSpan) :
    ∑ b, ((spans.countP fun span => span.findHistogramLevel = b : Nat) : Int) = spans.length := by
  induction spans with
  | nil => simp
  | cons span spans ih =>
    have hcons : ∀ b, (((span :: spans).countP fun other => other.findHistogramLevel = b : Nat) : Int) =
        ((spans.countP fun other => other.findHistogramLevel = b : Nat) : Int) +
          if span.findHistogramLevel = b then 1 else 0 := by
      intro b
      by_cases hb : span.findHistogramLevel = b <;> simp [hb]
    rw [Finset.sum_congr rfl fun b _ => hcons b, Finset.sum_add_distrib, ih, Finset.sum_ite_eq,
      if_pos (Finset.mem_univ _), List.length_cons]
    push_cast
    rfl

private theorem conserved_nil : Conserved [] [] where
  bucket := fun _ => rfl
  count := by simp
  total := rfl
  failed := fun _ => rfl
  failed_le := fun _ h => absurd h List.not_mem_nil
  max := rfl

private theorem conserved_statOf {u : String} (hfits : ∀ span ∈ spans, span.ElapsedFits) (hfew : spans.length < 2147483648) :
    Conserved (withTemplate u spans) [statOf u spans] := by
  have htells : (UriStatHistogram.tally (withTemplate u spans)).Tells (withTemplate u spans) :=
    UriStatHistogram.tells_tally (fun span hspan => hfits span (List.mem_of_mem_filter hspan))
      ((List.length_filter_le ..).trans_lt hfew)
  have hfailed : (UriStatHistogram.tally ((withTemplate u spans).filter TSpan.isFailed)).Tells
      ((withTemplate u spans).filter TSpan.isFailed) :=
    UriStatHistogram.tells_tally
      (fun span hspan => hfits span (List.mem_of_mem_filter (List.mem_of_mem_filter hspan)))
      ((List.length_filter_le ..).trans_lt ((List.length_filter_le ..).trans_lt hfew))
  refine {
    bucket := fun b => ?_
    count := ?_
    total := ?_
    failed := fun b => ?_
    failed_le := ?_
    max := ?_ }
  · rw [List.map_singleton, List.sum_singleton]
    exact htells.bucket b
  · simp only [List.map_singleton, List.sum_singleton]
    exact (Finset.sum_congr rfl fun b _ => htells.bucket b).trans (sum_buckets _)
  · rw [List.map_singleton, List.sum_singleton]
    exact htells.total
  · rw [List.map_singleton, List.sum_singleton]
    refine (hfailed.bucket b).trans ?_
    rw [List.countP_filter]
    simp only [Bool.and_comm]
  · intro s hs b
    rw [List.mem_singleton.1 hs]
    refine (hfailed.bucket b).trans_le (le_trans ?_ (htells.bucket b).ge)
    exact_mod_cast List.Sublist.countP_le List.filter_sublist
  · simp only [List.map_singleton, List.foldr_cons, List.foldr_nil]
    refine (max_eq_left ?_).trans htells.max
    rw [statOf, htells.max, ← List.append_nil (List.map _ _), foldr_max_append]
    exact le_max_right _ _

private theorem Conserved.append {others : List TSpan} {stats stats' : List UriStat} (h : Conserved spans stats)
    (h' : Conserved others stats') : Conserved (spans ++ others) (stats ++ stats') where
  bucket := fun b => by
    rw [List.map_append, List.sum_append, h.bucket, h'.bucket, List.countP_append]
    push_cast
    rfl
  count := by
    simp only [List.map_append, List.sum_append, Finset.sum_add_distrib, h.count, h'.count, List.length_append]
    push_cast
    rfl
  total := by rw [List.map_append, List.sum_append, h.total, h'.total, List.map_append, List.sum_append]
  failed := fun b => by
    rw [List.map_append, List.sum_append, h.failed, h'.failed, List.countP_append]
    push_cast
    rfl
  failed_le := fun s hs => by
    rcases List.mem_append.1 hs with hleft | hright
    · exact h.failed_le s hleft
    · exact h'.failed_le s hright
  max := by rw [List.map_append, foldr_max_append, h.max, h'.max, List.map_append, foldr_max_append]

private theorem Counts.conserved {heap : Nat → StatHistograms} {report : PAgentUriStat} {clock : String → Int}
    (h : Counts heap spans entries)
    (hreport : report.eachUriStat = entries.map (UrlTemplateReport.eachUriStat heap clock)) {u : String}
    (hu : u ≠ "") (hfits : ∀ span ∈ spans, span.ElapsedFits) (hfew : spans.length < 2147483648) :
    Conserved (withTemplate u spans) ((report.read heap).filter fun s => s.uri = u) := by
  rw [h.read hreport]
  rcases h.filter_stats hu with hone | ⟨hnone, hempty⟩
  · rw [hone]
    exact conserved_statOf hfits hfew
  · rw [hnone, hempty]
    exact conserved_nil

theorem conserved_taken {reports : List PAgentUriStat} {u : String} (hu : u ≠ "")
    (h : List.Forall₂ (fun spans report => ∃ entries, Frozen utr spans report entries) segments reports)
    (hfits : ∀ span ∈ segments.flatten, span.ElapsedFits) (hfew : segments.flatten.length < 2147483648) :
    Conserved (withTemplate u segments.flatten)
      ((reports.flatMap (PAgentUriStat.read utr.heap)).filter fun s => s.uri = u) := by
  induction h with
  | nil => exact conserved_nil
  | @cons spans report segments reports hfrozen _ ih =>
    obtain ⟨entries, hfrozen⟩ := hfrozen
    obtain ⟨clock, hreport⟩ := hfrozen.report
    rw [List.flatten_cons] at hfits hfew ⊢
    rw [List.length_append] at hfew
    rw [List.flatMap_cons, withTemplate_append, List.filter_append]
    refine (hfrozen.counts.conserved hreport hu ?_ ?_).append (ih ?_ ?_)
    · exact fun span hspan => hfits span (List.mem_append_left _ hspan)
    · omega
    · exact fun span hspan => hfits span (List.mem_append_right _ hspan)
    · omega

private theorem Reporting.Sound.conserved (h : w.Sound segments current) {u : String} (hu : u ≠ "")
    (hfits : ∀ span ∈ segments.flatten ++ current, span.ElapsedFits)
    (hfew : (segments.flatten ++ current).length < 2147483648) :
    Conserved (withTemplate u (segments.flatten ++ current)) (w.statsOf u) := by
  rw [List.length_append] at hfew
  rw [Reporting.statsOf, List.flatMap_append, List.flatMap_singleton, List.filter_append, withTemplate_append]
  refine (conserved_taken hu h.taken ?_ ?_).append (h.counts.conserved rfl hu ?_ ?_)
  · exact fun span hspan => hfits span (List.mem_append_left _ hspan)
  · omega
  · exact fun span hspan => hfits span (List.mem_append_right _ hspan)
  · omega

private theorem exists_frozen {reports : List PAgentUriStat} {report : PAgentUriStat}
    (h : List.Forall₂ (fun spans report => ∃ entries, Frozen utr spans report entries) segments reports)
    (hreport : report ∈ reports) : ∃ spans entries, Frozen utr spans report entries := by
  induction h with
  | nil => exact absurd hreport List.not_mem_nil
  | @cons spans _ _ _ hfrozen _ ih =>
    rcases List.mem_cons.1 hreport with rfl | hrest
    · obtain ⟨entries, hfrozen⟩ := hfrozen
      exact ⟨spans, entries, hfrozen⟩
    · exact ih hrest

/-- The statistics of every template are those of the spans that have it, a report that was taken
reads the same ever after, and no report names a template twice. -/
theorem url_statistics_conserved {earlier later : List ReportCall} {w w' : Reporting}
    (hrun : exec Reporting.step .new earlier = some w) (hrun' : exec Reporting.step w later = some w')
    (hfits : ∀ span ∈ intercepted (earlier ++ later), span.ElapsedFits)
    (hfew : (intercepted (earlier ++ later)).length < 2147483648) :
    (∀ u, u ≠ "" → Conserved (withTemplate u (intercepted (earlier ++ later))) (w'.statsOf u)) ∧
      w.taken <+: w'.taken ∧
      (∀ report ∈ w.taken, report.read w'.utr.heap = report.read w.utr.heap) ∧
      ∀ report ∈ w.taken, (report.eachUriStat.map PEachUriStat.uri).Nodup := by
  obtain ⟨segments, current, hsound, hspans⟩ := sound_exec sound_new hrun
  obtain ⟨segments', current', hsound', hspans'⟩ := sound_exec hsound hrun'
  have hall : segments'.flatten ++ current' = intercepted (earlier ++ later) := by
    rw [hspans', hspans, intercepted, intercepted, intercepted, List.filterMap_append]
    rfl
  refine ⟨fun u hu => ?_, taken_exec hrun', fun report hreport => ?_, fun report hreport => ?_⟩
  · rw [← hall] at hfits hfew ⊢
    exact hsound'.conserved hu hfits hfew
  · obtain ⟨spans, entries, hfrozen⟩ := exists_frozen hsound.taken hreport
    rw [hfrozen.read, (hfrozen.exec hrun').read]
  · obtain ⟨spans, entries, hfrozen⟩ := exists_frozen hsound.taken hreport
    obtain ⟨clock, heq⟩ := hfrozen.report
    rw [heq, List.map_map]
    exact hfrozen.counts.keys

/-- A span of `/a` that took `elapsed` milliseconds. -/
def visited (elapsed : Int) : TSpan := { ut := "/a", elapsedTimeV2 := elapsed }

/-- One span is in the report that was taken, the next one in the current map. -/
theorem url_statistics_conserved_two :
    ∃ w w', exec Reporting.step .new
          [.interceptor (visited 90), .moveUtReport [("/a", 0)] fun _ => 0] = some w ∧
        exec Reporting.step w [.interceptor (visited 200)] = some w' ∧
        Conserved [visited 90, visited 200] (w'.statsOf "/a") := by
  have hfits : ∀ span ∈ intercepted
      ([.interceptor (visited 90), .moveUtReport [("/a", 0)] fun _ => 0] ++
        [.interceptor (visited 200)]), span.ElapsedFits := by
    decide
  exact ⟨_, _, rfl, rfl, (url_statistics_conserved rfl rfl hfits (by decide)).1 "/a" (by decide)⟩

end PinpointAgent.Filters
