import PinpointAgent.Cache.State
import PinpointAgent.Framework.Interleaving
import Mathlib.Data.List.Nodup

/-!
# Transaction identifiers of forked workers

PHP constructs the agent in the master process and forks the workers afterwards, so every worker
begins with a copy of one `ProcessState`. A transaction identifier is the pair of
`pinpoint_start_time` and `generate_unique_id`. The counter is not shared between processes; what
keeps the pairs of two workers apart is the start time that a worker gets in its first hello
message, and that message is read only when the worker sends a span.
-/


namespace PinpointAgent.Agent

open Framework Cache

structure TransactionId (ι : Type) where
  worker : ι
  startTime : Nat
  uniqueId : Int
deriving DecidableEq

def TransactionId.pair {ι : Type} (x : TransactionId ι) : Nat × Int := (x.startTime, x.uniqueId)

/-- A master process, its workers, the start times the collector has given away and the pairs
generated so far, the latest first. -/
structure Host (ι : Type) where
  master : ProcessState
  /-- `none` before the fork -/
  worker : ι → Option ProcessState
  given : List (Nat × ι)
  ids : List (TransactionId ι)

inductive HostEvent (ι : Type) where
  | fork (w : ι)
  /-- the pair for a new transaction; `unixTimeMs` is the reading of the clock -/
  | generate (w : ι) (unixTimeMs : Nat)
  /-- a hello message with a start time of its own -/
  | hello (w : ι) (startTime : Nat)

namespace Host

variable {ι : Type}

def init (traceLimit : Int) (unixTimeMs : Nat) : Host ι :=
  ⟨.new traceLimit unixTimeMs, fun _ => none, [], []⟩

def setWorker [DecidableEq ι] (h : Host ι) (w : ι) (s : ProcessState) : Host ι :=
  { h with worker := Function.update h.worker w (some s) }

def step [DecidableEq ι] (h : Host ι) : HostEvent ι → Option (Host ι)
  | .fork w =>
    match h.worker w with
    | none => some (h.setWorker w h.master)
    | some _ => none
  | .generate w unixTimeMs =>
    match h.worker w with
    | none => none
    | some s =>
      some { h.setWorker w s.getUniqueId.2 with
        ids := ⟨w, s.pinpointStartTime unixTimeMs, s.getUniqueId.1⟩ :: h.ids }
  | .hello w startTime =>
    match h.worker w with
    | none => none
    | some s =>
      -- the collector has given this time to no other connection
      if startTime ∈ h.given.map Prod.fst then none
      else some { h.setWorker w (s.setStartTime startTime) with given := (startTime, w) :: h.given }

/-- A worker that has had no hello yet generates a pair only if no other one did so, no worker has
a start time of zero or a counter at its end, and the collector gives nobody the start time of
the master. -/
def OneEarlyWorker (h : Host ι) : HostEvent ι → Prop
  | .fork _ => True
  | .generate w _ => ∀ s ∈ h.worker w, s.startTime ≠ 0 ∧ s.uuid < 9223372036854775807 ∧
      (s.ready = true ∨ ∀ x ∈ h.ids, x.startTime = h.master.startTime → x.worker = w)
  | .hello _ startTime => startTime ≠ h.master.startTime

instance decidableOneEarlyWorker [DecidableEq ι] (h : Host ι) : (e : HostEvent ι) → Decidable (h.OneEarlyWorker e)
  | .fork _ => inferInstanceAs (Decidable True)
  | .generate w _ =>
    match hw : h.worker w with
    | none => isTrue (by simp [OneEarlyWorker, hw])
    | some s =>
      decidable_of_iff (s.startTime ≠ 0 ∧ s.uuid < 9223372036854775807 ∧
        (s.ready = true ∨ ∀ x ∈ h.ids, x.startTime = h.master.startTime → x.worker = w))
        (by simp [OneEarlyWorker, hw])
  | .hello _ startTime => inferInstanceAs (Decidable (startTime ≠ h.master.startTime))

/-- What is true of one worker: before its hello it has the master's start time, afterwards one
of its own, and its pairs have lower counters than its next one. -/
structure WorkerOk (h : Host ι) (w : ι) (s : ProcessState) : Prop where
  early : s.ready = false → s.startTime = h.master.startTime
  late : s.ready = true → (s.startTime, w) ∈ h.given
  uuid_range : 0 ≤ s.uuid ∧ s.uuid ≤ 9223372036854775807
  below : ∀ x ∈ h.ids, x.worker = w → x.uniqueId < s.uuid

structure Separate (h : Host ι) : Prop where
  master : h.master.ready = false ∧ h.master.uuid = 0
  worker : ∀ w s, h.worker w = some s → h.WorkerOk w s
  unforked : ∀ x ∈ h.ids, (h.worker x.worker).isSome = true
  /-- No start time was given twice, and none of them is the master's. -/
  given : (h.given.map Prod.fst).Nodup
  fresh : ∀ g ∈ h.given, g.1 ≠ h.master.startTime
  source : ∀ x ∈ h.ids, x.startTime = h.master.startTime ∨ (x.startTime, x.worker) ∈ h.given
  early : ∀ x ∈ h.ids, ∀ y ∈ h.ids, x.startTime = h.master.startTime →
    y.startTime = h.master.startTime → x.worker = y.worker
  distinct : (h.ids.map TransactionId.pair).Nodup

variable {h t : Host ι} {w : ι} {s s' : ProcessState}

private theorem separate_init (traceLimit : Int) (unixTimeMs : Nat) :
    (init traceLimit unixTimeMs : Host ι).Separate where
  master := ⟨rfl, rfl⟩
  worker w s hw := by cases hw
  unforked x hx := by cases hx
  given := List.nodup_nil
  fresh g hg := by cases hg
  source x hx := by cases hx
  early x hx := by cases hx
  distinct := List.nodup_nil

private theorem Separate.owner (hsep : h.Separate) {time : Nat} {v : ι} (hw : (time, w) ∈ h.given)
    (hv : (time, v) ∈ h.given) : w = v :=
  congrArg Prod.snd (List.inj_on_of_nodup_map hsep.given hw hv rfl)

theorem Separate.new_pair (hsep : h.Separate) (hw : h.worker w = some s)
    (hearly : s.ready = true ∨ ∀ x ∈ h.ids, x.startTime = h.master.startTime → x.worker = w) :
    ∀ x ∈ h.ids, x.pair ≠ (s.startTime, s.uuid) := by
  intro x hx hpair
  have hok := hsep.worker w s hw
  have htime : x.startTime = s.startTime := congrArg Prod.fst hpair
  have huuid : x.uniqueId = s.uuid := congrArg Prod.snd hpair
  have hsame : x.worker = w := by
    cases hready : s.ready with
    | false =>
      have hx₀ : x.startTime = h.master.startTime := htime.trans (hok.early hready)
      rcases hearly with htrue | hearly
      · rw [hready] at htrue
        cases htrue
      · exact hearly x hx hx₀
    | true =>
      have hmine := hok.late hready
      rcases hsep.source x hx with hmaster | hgiven
      · exact absurd (htime.symm.trans hmaster) (hsep.fresh _ hmine)
      · rw [htime] at hgiven
        exact hsep.owner hgiven hmine
  have hbelow := hok.below x hx hsame
  omega

variable [DecidableEq ι]

private theorem setWorker_self : (h.setWorker w s).worker w = some s := Function.update_self ..

private theorem setWorker_of_ne {v : ι} (hv : v ≠ w) : (h.setWorker w s).worker v = h.worker v :=
  Function.update_of_ne hv ..

private theorem worker_setWorker {v : ι} {r : ProcessState} (hv : (h.setWorker w s).worker v = some r) :
    (v = w ∧ r = s) ∨ (v ≠ w ∧ h.worker v = some r) := by
  by_cases hvw : v = w
  · left
    rw [hvw, setWorker_self] at hv
    exact ⟨hvw, (Option.some.inj hv).symm⟩
  · right
    rw [setWorker_of_ne hvw] at hv
    exact ⟨hvw, hv⟩

private theorem isSome_setWorker {v : ι} (hv : (h.worker v).isSome = true) :
    ((h.setWorker w s).worker v).isSome = true := by
  by_cases hvw : v = w
  · rw [hvw, setWorker_self]
    rfl
  · rw [setWorker_of_ne hvw]
    exact hv

private theorem Separate.setWorker (hsep : h.Separate) (hw : h.WorkerOk w s) :
    (h.setWorker w s).Separate := by
  refine ⟨hsep.master, fun v r hv => ?_, fun x hx => isSome_setWorker (hsep.unforked x hx),
    hsep.given, hsep.fresh, hsep.source, hsep.early, hsep.distinct⟩
  obtain ⟨rfl, rfl⟩ | ⟨-, hold⟩ := worker_setWorker hv
  · exact ⟨hw.early, hw.late, hw.uuid_range, hw.below⟩
  · have hokv := hsep.worker v r hold
    exact ⟨hokv.early, hokv.late, hokv.uuid_range, hokv.below⟩

private theorem Separate.fork (hsep : h.Separate) (hw : h.worker w = none) :
    (h.setWorker w h.master).Separate := by
  apply hsep.setWorker
  refine ⟨fun _ => rfl, fun hready => ?_, ?_, fun x hx hxw => ?_⟩
  · rw [hsep.master.1] at hready
    cases hready
  · rw [hsep.master.2]
    decide
  · have hforked := hsep.unforked x hx
    rw [hxw, hw] at hforked
    cases hforked

private theorem Separate.generate (hsep : h.Separate) (hw : h.worker w = some s)
    (huuid : s.uuid < 9223372036854775807)
    (hearly : s.ready = true ∨ ∀ x ∈ h.ids, x.startTime = h.master.startTime → x.worker = w) :
    Separate { h.setWorker w s.getUniqueId.2 with
      ids := ⟨w, s.startTime, s.getUniqueId.1⟩ :: h.ids } := by
  have hok := hsep.worker w s hw
  have hnext : s.getUniqueId.2.uuid = s.uuid + 1 :=
    toSigned_of_range (by decide) (by have := hok.uuid_range; omega) (by omega)
  have hnew := hsep.new_pair hw hearly
  refine ⟨hsep.master, fun v r hv => ?_, fun x hx => ?_, hsep.given, hsep.fresh, fun x hx => ?_,
    ?_, ?_⟩
  · obtain ⟨rfl, rfl⟩ | ⟨hvw, hold⟩ := worker_setWorker hv
    · refine ⟨hok.early, hok.late, ?_, fun x hx hxw => ?_⟩
      · rw [hnext]
        have := hok.uuid_range
        omega
      · rw [hnext]
        rcases List.mem_cons.1 hx with rfl | hx
        · exact Int.lt_succ s.uuid
        · have := hok.below x hx hxw
          omega
    · have hokv := hsep.worker v r hold
      refine ⟨hokv.early, hokv.late, hokv.uuid_range, fun x hx hxv => ?_⟩
      rcases List.mem_cons.1 hx with rfl | hx
      · exact absurd hxv.symm hvw
      · exact hokv.below x hx hxv
  · rcases List.mem_cons.1 hx with rfl | hx
    · simp [Host.setWorker]
    · exact isSome_setWorker (hsep.unforked x hx)
  · rcases List.mem_cons.1 hx with rfl | hx
    · cases hready : s.ready with
      | false => exact .inl (hok.early hready)
      | true => exact .inr (hok.late hready)
    · exact hsep.source x hx
  · -- the new pair has the master's start time only if its worker was early
    have hwith : s.startTime = h.master.startTime → ∀ x ∈ h.ids,
        x.startTime = h.master.startTime → x.worker = w := by
      intro htime x hx hxtime
      rcases hearly with hready | hearly
      · exact absurd htime (hsep.fresh _ (hok.late hready))
      · exact hearly x hx hxtime
    intro x hx y hy hxtime hytime
    rcases List.mem_cons.1 hx with rfl | hx <;> rcases List.mem_cons.1 hy with rfl | hy
    · rfl
    · exact (hwith hxtime y hy hytime).symm
    · exact hwith hytime x hx hxtime
    · exact hsep.early x hx y hy hxtime hytime
  · refine List.nodup_cons.2 ⟨fun hmem => ?_, hsep.distinct⟩
    obtain ⟨x, hx, hpair⟩ := List.mem_map.1 hmem
    exact hnew x hx hpair

private theorem Separate.hello (hsep : h.Separate) (hw : h.worker w = some s) {startTime : Nat}
    (hmaster : startTime ≠ h.master.startTime) (hnew : startTime ∉ h.given.map Prod.fst) :
    Separate { h.setWorker w (s.setStartTime startTime) with
      given := (startTime, w) :: h.given } := by
  have hok := hsep.worker w s hw
  refine ⟨hsep.master, fun v r hv => ?_, fun x hx => isSome_setWorker (hsep.unforked x hx),
    List.nodup_cons.2 ⟨hnew, hsep.given⟩, fun g hg => ?_, fun x hx => ?_, hsep.early,
    hsep.distinct⟩
  · obtain ⟨rfl, rfl⟩ | ⟨-, hold⟩ := worker_setWorker hv
    · unfold ProcessState.setStartTime
      cases hready : s.ready with
      | true =>
        rw [if_pos rfl]
        exact ⟨hok.early, fun h => List.mem_cons_of_mem _ (hok.late h), hok.uuid_range, hok.below⟩
      | false =>
        rw [if_neg (by decide)]
        exact ⟨(fun h => by cases h), fun _ => List.mem_cons_self, hok.uuid_range, hok.below⟩
    · have hokv := hsep.worker v r hold
      exact ⟨hokv.early, fun h => List.mem_cons_of_mem _ (hokv.late h), hokv.uuid_range, hokv.below⟩
  · rcases List.mem_cons.1 hg with rfl | hg
    · exact hmaster
    · exact hsep.fresh g hg
  · exact (hsep.source x hx).imp_right (List.mem_cons_of_mem _)

private theorem Separate.step (hsep : h.Separate) {e : HostEvent ι} (hcond : h.OneEarlyWorker e)
    (hstep : h.step e = some t) : t.Separate := by
  cases e with
  | fork w =>
    simp only [Host.step] at hstep
    split at hstep <;> cases hstep
    rename_i hw
    exact hsep.fork hw
  | generate w unixTimeMs =>
    simp only [Host.step] at hstep
    split at hstep <;> cases hstep
    rename_i s hw
    obtain ⟨hzero, huuid, hearly⟩ := hcond s hw
    rw [ProcessState.pinpointStartTime, if_pos hzero]
    exact hsep.generate hw huuid hearly
  | hello w startTime =>
    simp only [Host.step] at hstep
    split at hstep
    · cases hstep
    · rename_i s hw
      split at hstep <;> cases hstep
      rename_i hnew
      exact hsep.hello hw hcond hnew

/-- As long as at most one worker generates pairs before its first hello, all pairs of all workers
are distinct. -/
theorem transaction_ids_distinct (traceLimit : Int) (unixTimeMs : Nat)
    (events : List (HostEvent ι)) (h : Host ι)
    (hcond : Along step OneEarlyWorker (init traceLimit unixTimeMs) events)
    (hrun : exec step (init traceLimit unixTimeMs) events = some h) :
    (h.ids.map TransactionId.pair).Nodup :=
  (hcond.invariant (fun _ _ _ hsep hc hs => hsep.step hc hs)
    (separate_init traceLimit unixTimeMs) hrun).distinct

/-- One worker generates two pairs before its hello and one after it, the other one waits. -/
def oneWaits : List (HostEvent Bool) :=
  [.fork false, .fork true, .generate false 1000, .generate false 1001, .hello true 2000,
    .generate true 1002, .hello false 2001, .generate false 1003]

theorem transaction_ids_distinct_one_waits :
    ∃ h : Host Bool, exec step (init (-1) 1000) oneWaits = some h ∧
      h.ids.map TransactionId.pair = [(2001, 2), (2000, 0), (1000, 1), (1000, 0)] ∧
      (h.ids.map TransactionId.pair).Nodup :=
  ⟨_, rfl, by decide +kernel,
    transaction_ids_distinct (-1) 1000 oneWaits _ (by decide +kernel) rfl⟩

/-- Two workers that generate a pair each before their first span is sent: the pairs are equal. -/
theorem early_workers_collide :
    ∃ h : Host Bool, exec step (init (-1) 1000)
        [.fork false, .fork true, .generate false 1005, .generate true 1007, .hello false 2000,
          .hello true 2001] = some h ∧
      h.ids = [⟨true, 1000, 0⟩, ⟨false, 1000, 0⟩] :=
  ⟨_, rfl, rfl⟩

end Host

end PinpointAgent.Agent
