import PinpointAgent.Framework.ByteBuffer
import Mathlib.Data.List.Infix

/-!
# Draining a queue through a sink

A sink is offered a piece from the front of a queue and answers how much of it it took; an answer
of zero or less ends the round and takes nothing. `Drains` is the whole round on the abstract
queue, whatever pieces are offered. `tee` records what a sink took.
-/

namespace PinpointAgent.Framework

variable {σ α : Type*}

abbrev Sink (σ α : Type*) := σ → List α → Int × σ

def Sink.Honest (sink : Sink σ α) : Prop := ∀ st piece, (sink st piece).1 ≤ piece.length

/-- One round of draining: from sink state and queue to answer, sink state and queue. -/
inductive Drains (sink : Sink σ α) : σ → List α → Int → σ → List α → Prop where
  | empty (st : σ) : Drains sink st [] 0 st []
  | refused {st : σ} {queue piece : List α} (hne : piece ≠ []) (hpre : piece <+: queue)
      (hret : (sink st piece).1 ≤ 0) :
      Drains sink st queue (sink st piece).1 (sink st piece).2 queue
  | took {st st' : σ} {queue queue' piece : List α} {ret : Int} (hne : piece ≠ [])
      (hpre : piece <+: queue) (hret : 0 < (sink st piece).1)
      (hle : (sink st piece).1 ≤ piece.length)
      (hrest : Drains sink (sink st piece).2 (queue.drop (sink st piece).1.toNat) ret st' queue') :
      Drains sink st queue ret st' queue'

def Sink.tee (sink : Sink σ α) : Sink (σ × List α) α :=
  fun st piece =>
    ((sink st.1 piece).1, ((sink st.1 piece).2, st.2 ++ piece.take (sink st.1 piece).1.toNat))

theorem Sink.Honest.tee {sink : Sink σ α} (h : sink.Honest) : sink.tee.Honest :=
  fun st piece => h st.1 piece

private theorem piece_take_eq {piece queue : List α} (hpre : piece <+: queue) {n : Nat}
    (hn : n ≤ piece.length) : piece.take n = queue.take n := by
  obtain ⟨rest, rfl⟩ := hpre
  rw [List.take_append_of_le_length hn]

theorem Drains.tee_conserves {sink : Sink σ α} {st st' : σ × List α} {queue queue' : List α}
    {ret : Int} (h : Drains sink.tee st queue ret st' queue') :
    st'.2 ++ queue' = st.2 ++ queue := by
  induction h with
  | empty => rfl
  | @refused st queue piece hne hpre hret =>
      have htake : (sink st.1 piece).1.toNat = 0 := Int.toNat_of_nonpos hret
      simp [Sink.tee, htake]
  | @took st st' queue queue' piece ret hne hpre hret hle _ ih =>
      have hle' : (sink st.1 piece).1.toNat ≤ piece.length := by
        have : (sink st.1 piece).1 ≤ piece.length := hle
        omega
      rw [ih]
      simp only [Sink.tee]
      rw [piece_take_eq hpre hle', List.append_assoc, List.take_append_drop]

theorem Drains.ret_eq {sink : Sink σ α} {st st' : σ} {queue queue' : List α} {ret : Int}
    (h : Drains sink st queue ret st' queue') : ret = 0 ∨ ∃ st piece, ret = (sink st piece).1 := by
  induction h with
  | empty st => exact .inl rfl
  | refused hne hpre hret => exact .inr ⟨_, _, rfl⟩
  | took hne hpre hret hle hrest ih => exact ih

theorem Drains.ends {sink : Sink σ α} {st st' : σ} {queue queue' : List α} {ret : Int}
    (h : Drains sink st queue ret st' queue') :
    queue' = [] ∨ ∃ st₀ piece, piece ≠ [] ∧ (ret, st') = sink st₀ piece ∧ ret ≤ 0 := by
  induction h with
  | empty st => exact .inl rfl
  | refused hne hpre hret => exact .inr ⟨_, _, hne, rfl, hret⟩
  | took hne hpre hret hle hrest ih => exact ih

/-- `log` grows by what the sink takes from each piece. A sink that answers with an error may have
taken a part that it does not report. -/
def Sink.Records (sink : Sink σ α) (log : σ → List α) : Prop :=
  ∀ st piece, ∃ taken, log (sink st piece).2 = log st ++ taken ∧ taken <+: piece ∧
    (0 ≤ (sink st piece).1 → taken.length = (sink st piece).1.toNat)

/-- What a round puts on the log comes from the front of the queue, and unless the round ends with
an error it is what has left the queue. -/
theorem Drains.records {sink : Sink σ α} {log : σ → List α} (hsink : sink.Records log)
    {st st' : σ} {queue queue' : List α} {ret : Int} (h : Drains sink st queue ret st' queue') :
    ∃ taken, log st' = log st ++ taken ∧ taken <+: queue ∧ (0 ≤ ret → taken ++ queue' = queue) := by
  induction h with
  | empty st => exact ⟨[], by simp, List.nil_prefix, by simp⟩
  | @refused st queue piece hne hpre hret =>
      obtain ⟨taken, hlog, htaken, hlen⟩ := hsink st piece
      refine ⟨taken, hlog, htaken.trans hpre, ?_⟩
      intro hpos
      have hnil : taken = [] := by
        rw [← List.length_eq_zero_iff, hlen hpos]
        omega
      rw [hnil, List.nil_append]
  | @took st st' queue queue' piece ret hne hpre hret hle _ ih =>
      obtain ⟨taken, hlog, htaken, hlen⟩ := hsink st piece
      obtain ⟨later, hlog', hlater, hrest⟩ := ih
      have hfront : taken = queue.take (sink st piece).1.toNat := by
        rw [← hlen (by omega)]
        exact List.prefix_iff_eq_take.mp (htaken.trans hpre)
      refine ⟨taken ++ later, by rw [hlog', hlog, List.append_assoc], ?_, ?_⟩
      · rw [hfront]
        conv_rhs => rw [← List.take_append_drop (sink st piece).1.toNat queue]
        exact (List.prefix_append_right_inj _).mpr hlater
      · intro hpos
        rw [List.append_assoc, hrest hpos, hfront, List.take_append_drop]

end PinpointAgent.Framework
