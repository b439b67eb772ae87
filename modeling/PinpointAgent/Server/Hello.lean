import Mathlib.Data.Fintype.Basic
import Mathlib.Tactic.Set
import PinpointAgent.Framework.Interleaving
/-!
# The start times of the handshake

Every `handleClient` goroutine sends a hello message whose start time `genHello` takes from
the wall clock. To keep the start times of one server apart, `genHello` compares its reading
with `lastTime` and tries again when they are equal; reading the clock, `lastTime.Load` and
`lastTime.Store` are separate steps, between which other goroutines run.
-/

namespace PinpointAgent.Server

open Framework

/-- `ServerInfo`, the body of the hello message. -/
structure ServerInfo where
  appId : String
  appName : String
  startTime : String
  version : String
deriving DecidableEq

/-- The message for a reading of the clock; `StartTime` is the reading in decimal. -/
def ServerInfo.hello (version : String) (nowInMs : Int) : ServerInfo :=
  { appId := "no", appName := "no", startTime := nowInMs.repr, version }

/-- How far a call of `genHello` has come. -/
inductive HelloPc where
  /-- At the head of the loop. -/
  | looping
  /-- `now_in_ms` is read. -/
  | read (nowInMs : Int)
  /-- The reading differed from `lastTime`. -/
  | tested (nowInMs : Int)
  | returned (info : ServerInfo)
deriving DecidableEq

def HelloPc.reading : HelloPc → Option Int
  | .read now => some now
  | _ => none

/-- The call is between its test of `lastTime` and its store. -/
def HelloPc.inWindow : HelloPc → Bool
  | .tested _ => true
  | _ => false

/-- The server's `lastTime` and its calls of `genHello`. -/
structure HelloState (ι : Type) where
  /-- `time.Now().UnixMilli()` -/
  clock : Int
  lastTime : Int
  pc : ι → HelloPc

inductive HelloEvent (ι : Type) where
  /-- The clock moves on by some milliseconds. -/
  | tick (ms : Nat)
  | readClock (i : ι)
  | load (i : ι)
  | store (i : ι)

namespace HelloState

variable {ι : Type} [DecidableEq ι]

def init (clock : Int) : HelloState ι := { clock, lastTime := 0, pc := fun _ => .looping }

def setPc (s : HelloState ι) (i : ι) (pc : HelloPc) : HelloState ι :=
  { s with pc := Function.update s.pc i pc }

@[simp] theorem setPc_self (s : HelloState ι) (i : ι) (pc : HelloPc) :
    (s.setPc i pc).pc i = pc := Function.update_self ..

private theorem setPc_of_ne (s : HelloState ι) {i j : ι} (pc : HelloPc) (h : j ≠ i) :
    (s.setPc i pc).pc j = s.pc j := Function.update_of_ne h ..

def step (version : String) (s : HelloState ι) : HelloEvent ι → Option (HelloState ι)
  | .tick ms => some { s with clock := s.clock + ms }
  | .readClock i =>
    match s.pc i with
    | .looping => some (s.setPc i (.read s.clock))
    | _ => none
  | .load i =>
    match s.pc i with
    -- on equality the call sleeps and starts its loop again
    | .read now => some (s.setPc i (if now = s.lastTime then .looping else .tested now))
    | _ => none
  | .store i =>
    match s.pc i with
    | .tested now => some ({ s with lastTime := now }.setPc i (.returned (.hello version now)))
    | _ => none

/-- A call tests `lastTime` with a reading that is not older than `lastTime`, and while no
call is between its test and its store. -/
def TestsAlone (s : HelloState ι) : HelloEvent ι → Prop
  | .load i => (∀ now ∈ (s.pc i).reading, s.lastTime ≤ now) ∧ ∀ j, (s.pc j).inWindow = false
  | _ => True

instance [Fintype ι] (s : HelloState ι) : (e : HelloEvent ι) → Decidable (s.TestsAlone e)
  | .load _ => inferInstanceAs (Decidable (_ ∧ _))
  | .tick _ | .readClock _ | .store _ => inferInstanceAs (Decidable True)

/-- What holds between the steps of schedules of that kind: start times are handed out in
increasing order, the newest one is `lastTime`. -/
structure Increasing (s : HelloState ι) : Prop where
  /-- The start times handed out are readings up to `lastTime`. -/
  returned : ∀ i info, s.pc i = .returned info → ∃ now ≤ s.lastTime, info.startTime = now.repr
  /-- A reading that passed the test is newer. -/
  newer : ∀ i now, s.pc i = .tested now → s.lastTime < now
  /-- At most one call is between its test and its store. -/
  alone : ∀ i j, (s.pc i).inWindow → (s.pc j).inWindow → i = j
  distinct : ∀ i j info info', s.pc i = .returned info → s.pc j = .returned info' →
    info.startTime = info'.startTime → i = j

omit [DecidableEq ι] in
private theorem increasing_init (clock : Int) : (init clock : HelloState ι).Increasing where
  returned i info h := by simp [init] at h
  newer i now h := by simp [init] at h
  alone i j h := by simp [init, HelloPc.inWindow] at h
  distinct i j info info' h := by simp [init] at h

variable {s t : HelloState ι}

private theorem Increasing.setPc (h : s.Increasing) (i : ι) (pc : HelloPc)
    (hwindow : pc.inWindow = false) (hreturned : ∀ info, pc ≠ .returned info) :
    (s.setPc i pc).Increasing := by
  have hpc : ∀ j, (s.setPc i pc).pc j = s.pc j ∨ (s.setPc i pc).pc j = pc := by
    intro j
    by_cases hj : j = i
    · exact .inr (by rw [hj, setPc_self])
    · exact .inl (setPc_of_ne s pc hj)
  have hback : ∀ j info, (s.setPc i pc).pc j = .returned info → s.pc j = .returned info := by
    intro j info hj
    rcases hpc j with hsame | hnew
    · rw [← hsame, hj]
    · exact absurd (hnew ▸ hj) (hreturned info)
  have hin : ∀ j, ((s.setPc i pc).pc j).inWindow → (s.setPc i pc).pc j = s.pc j := by
    intro j hj
    rcases hpc j with hsame | hnew
    · exact hsame
    · rw [hnew, hwindow] at hj
      contradiction
  refine ⟨fun j info hj => h.returned j info (hback j info hj), ?_, ?_, ?_⟩
  · intro j now hj
    exact h.newer j now (hin j (by rw [hj]; rfl) ▸ hj)
  · intro j k hj hk
    exact h.alone j k (hin j hj ▸ hj) (hin k hk ▸ hk)
  · intro j k info info' hj hk heq
    exact h.distinct j k info info' (hback j info hj) (hback k info' hk) heq

private theorem Increasing.tested (h : s.Increasing) (i : ι) {now : Int} (hnow : s.lastTime < now)
    (halone : ∀ j, (s.pc j).inWindow = false) : (s.setPc i (.tested now)).Increasing := by
  have hother : ∀ j, j ≠ i → (s.setPc i (.tested now)).pc j = s.pc j :=
    fun j hj => setPc_of_ne s _ hj
  have hself : (s.setPc i (.tested now)).pc i = .tested now := setPc_self ..
  have honly : ∀ j, ((s.setPc i (.tested now)).pc j).inWindow → j = i := by
    intro j hj
    by_contra hne
    rw [hother j hne, halone j] at hj
    contradiction
  have hback : ∀ j info, (s.setPc i (.tested now)).pc j = .returned info →
      s.pc j = .returned info := by
    intro j info hj
    by_cases hne : j = i
    · rw [hne, hself] at hj
      contradiction
    · rwa [hother j hne] at hj
  refine ⟨fun j info hj => h.returned j info (hback j info hj), ?_, ?_, ?_⟩
  · intro j now' hj
    have hji := honly j (by rw [hj]; rfl)
    rw [hji, hself] at hj
    exact HelloPc.tested.inj hj ▸ hnow
  · intro j k hj hk
    rw [honly j hj, honly k hk]
  · intro j k info info' hj hk heq
    exact h.distinct j k info info' (hback j info hj) (hback k info' hk) heq

private theorem head?_repr_ne (n : Nat) : n.repr.toList.head? ≠ some '-' := by
  intro h
  have hdigit := Nat.isDigit_of_mem_toDigits (b := 10) (n := n) (by decide) (by decide)
    (Nat.toList_repr ▸ List.mem_of_mem_head? h)
  exact absurd hdigit (by decide)

private theorem eq_of_repr_eq {m n : Int} (h : m.repr = n.repr) : m = n := by
  have hnat {a b : Nat} (hab : a.repr.toList = b.repr.toList) : a = b := by
    have hvalue := congrArg (Nat.ofDigitChars 10 · 0) hab
    simpa only [Nat.toList_repr, Nat.ofDigitChars_toDigits (by decide : 1 < 10) (by decide : 10 ≤ 10)] using hvalue
  have hlist := congrArg String.toList h
  rw [Int.repr_eq_if, Int.repr_eq_if] at hlist
  split at hlist <;> split at hlist
  · have := hnat hlist
    omega
  · rw [String.toList_append] at hlist
    exact absurd (by rw [hlist]; rfl) (head?_repr_ne m.toNat)
  · rw [String.toList_append] at hlist
    exact absurd (by rw [← hlist]; rfl) (head?_repr_ne n.toNat)
  · rw [String.toList_append, String.toList_append] at hlist
    have := hnat (List.append_cancel_left hlist)
    omega

theorem Increasing.stored (version : String) (h : s.Increasing) (i : ι) {now : Int}
    (hi : s.pc i = .tested now) :
    ({ s with lastTime := now }.setPc i (.returned (.hello version now))).Increasing := by
  set t := { s with lastTime := now }.setPc i (.returned (.hello version now))
  have hother : ∀ j, j ≠ i → t.pc j = s.pc j := fun j hj => setPc_of_ne _ _ hj
  have hself : t.pc i = .returned (.hello version now) := setPc_self ..
  have hlast : s.lastTime < now := h.newer i now hi
  have hnone : ∀ j, (t.pc j).inWindow → False := by
    intro j hj
    by_cases hne : j = i
    · rw [hne, hself] at hj
      exact absurd hj (by simp [HelloPc.inWindow])
    · rw [hother j hne] at hj
      exact hne (h.alone j i hj (by rw [hi]; rfl))
  -- a start time handed out before is a reading below the one stored now
  have hold : ∀ j info, j ≠ i → t.pc j = .returned info → info.startTime ≠ now.repr := by
    intro j info hne hj heq
    obtain ⟨before, hbefore, hinfo⟩ := h.returned j info (hother j hne ▸ hj)
    have := eq_of_repr_eq (hinfo.symm.trans heq)
    omega
  refine ⟨?_, fun j now' hj => (hnone j (by rw [hj]; rfl)).elim,
    fun j _ hj => (hnone j hj).elim, ?_⟩
  · intro j info hj
    by_cases hne : j = i
    · rw [hne, hself] at hj
      exact ⟨now, le_rfl, HelloPc.returned.inj hj ▸ rfl⟩
    · obtain ⟨before, hbefore, hinfo⟩ := h.returned j info (hother j hne ▸ hj)
      exact ⟨before, hbefore.trans hlast.le, hinfo⟩
  · intro j k info info' hj hk heq
    by_cases hji : j = i <;> by_cases hki : k = i
    · rw [hji, hki]
    · rw [hji, hself] at hj
      exact absurd (heq.symm.trans (HelloPc.returned.inj hj ▸ rfl)) (hold k info' hki hk)
    · rw [hki, hself] at hk
      exact absurd (heq.trans (HelloPc.returned.inj hk ▸ rfl)) (hold j info hji hj)
    · exact h.distinct j k info info' (hother j hji ▸ hj) (hother k hki ▸ hk) heq

private theorem Increasing.step (version : String) (h : s.Increasing) {e : HelloEvent ι}
    (hcond : s.TestsAlone e) (hstep : s.step version e = some t) : t.Increasing := by
  cases e with
  | tick ms =>
    cases hstep
    exact ⟨h.returned, h.newer, h.alone, h.distinct⟩
  | readClock i =>
    simp only [HelloState.step] at hstep
    split at hstep <;> cases hstep
    exact h.setPc i _ rfl (fun _ => by simp)
  | load i =>
    simp only [HelloState.step] at hstep
    split at hstep <;> cases hstep
    rename_i now hi
    have hle : s.lastTime ≤ now := hcond.1 now (by rw [hi]; rfl)
    by_cases heq : now = s.lastTime
    · rw [if_pos heq]
      exact h.setPc i _ rfl (fun _ => by simp)
    · rw [if_neg heq]
      exact h.tested i (by omega) hcond.2
  | store i =>
    simp only [HelloState.step] at hstep
    split at hstep <;> cases hstep
    rename_i now hi
    exact h.stored version i hi

/-- Whenever every call tests `lastTime` alone and with a reading that is not out of date, no
two calls of `genHello` return the same start time. -/
theorem hello_start_times_distinct (version : String) (clock : Int)
    (events : List (HelloEvent ι)) (s : HelloState ι)
    (hcond : Along (step version) TestsAlone (init clock) events)
    (hrun : exec (step version) (init clock) events = some s)
    (i j : ι) (info info' : ServerInfo) (hi : s.pc i = .returned info)
    (hj : s.pc j = .returned info') (hij : i ≠ j) : info.startTime ≠ info'.startTime := by
  have h : s.Increasing :=
    hcond.invariant (fun _ _ _ h hcond hstep => h.step version hcond hstep)
      (increasing_init clock) hrun
  exact fun heq => hij (h.distinct i j info info' hi hj heq)

def oneAfterTheOther : List (HelloEvent Bool) :=
  [.readClock false, .load false, .store false, .readClock true, .load true, .tick 1,
    .readClock true, .load true, .store true]

theorem hello_start_times_distinct_one_after_the_other :
    ∃ s, exec (step "v0.7.0") (init 5000) oneAfterTheOther = some s ∧
      s.pc false = .returned (.hello "v0.7.0" 5000) ∧ s.pc true = .returned (.hello "v0.7.0" 5001) ∧
      (ServerInfo.hello "v0.7.0" 5000).startTime ≠ (ServerInfo.hello "v0.7.0" 5001).startTime :=
  ⟨_, rfl, rfl, rfl, hello_start_times_distinct "v0.7.0" 5000 oneAfterTheOther _
    (by decide +kernel) rfl false true _ _ rfl rfl (by decide)⟩

/-- Two calls that both test before either stores hand out the same start time. -/
theorem simultaneous_hellos_collide :
    ∃ s, exec (step "v0.7.0") (init 5000)
        [.readClock false, .readClock true, .load false, .load true, .store false,
          .store true] = some s ∧
      s.pc false = .returned (.hello "v0.7.0" 5000) ∧ s.pc true = .returned (.hello "v0.7.0" 5000) :=
  ⟨_, rfl, rfl, rfl⟩

-- A call that was held up between its reading and its test hands out a start time of the
-- past again, although each test and the store after it are adjacent.
example :
    ∃ s, exec (step "v0.7.0") (init 5000)
        [.readClock (0 : Fin 3), .readClock 1, .load 1, .store 1, .tick 1, .readClock 2, .load 2,
          .store 2, .load 0, .store 0] = some s ∧
      s.pc 0 = .returned (.hello "v0.7.0" 5000) ∧ s.pc 1 = .returned (.hello "v0.7.0" 5000) :=
  ⟨_, rfl, rfl, rfl⟩

end HelloState

end PinpointAgent.Server
