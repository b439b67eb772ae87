import Mathlib.Logic.IsEmpty.Basic
import Mathlib.Tactic.Common

/-!
# Channels

A channel of Go. A value that is sent goes to the receiver that has waited longest, or into the
buffer; a sender that finds neither waits with its value, or leaves it if its `select` has another
case. A receiver takes the oldest value, and the sender that has waited longest goes on. Nobody waits
for what could be done at once, which is part of the structure.

`κ` are the goroutines that may wait to send and `ι` those that may wait to receive; where nobody
does, the type is empty.
-/

namespace PinpointAgent.Framework

structure Channel (κ ι α : Type) where
  capacity : Nat
  buffer : List α
  /-- the senders that wait, with their values, the one that has waited longest first -/
  sendq : List (κ × α)
  /-- the receivers that wait, the one that has waited longest first -/
  recvq : List ι
  bounded : buffer.length ≤ capacity
  full : sendq ≠ [] → buffer.length = capacity
  idle : recvq ≠ [] → buffer = [] ∧ sendq = []

namespace Channel

variable {κ ι α : Type}

def new (capacity : Nat) : Channel κ ι α :=
  ⟨capacity, [], [], [], Nat.zero_le _, fun h => absurd rfl h, fun _ => ⟨rfl, rfl⟩⟩

def contents (c : Channel κ ι α) : List α := c.buffer ++ c.sendq.map Prod.snd

def waiting (c : Channel κ ι α) : List κ := c.sendq.map Prod.fst

def HasRoom (c : Channel κ ι α) : Prop := c.recvq ≠ [] ∨ c.buffer.length < c.capacity

instance decidableHasRoom (c : Channel κ ι α) : Decidable c.HasRoom :=
  match h : c.recvq with
  | [] => decidable_of_iff (c.buffer.length < c.capacity) (by simp [HasRoom, h])
  | _ :: _ => isTrue (.inl (by simp [h]))

/-- A send in a `select` with another case: `none` when it would block, otherwise the receiver, if one
waited. -/
def offer (c : Channel κ ι α) (a : α) : Option (Option ι × Channel κ ι α) :=
  match h : c.recvq with
  | i :: rest =>
    some (some i, { c with recvq := rest, idle := fun _ => c.idle (by simp [h]) })
  | [] =>
    if hroom : c.buffer.length < c.capacity then
      some (none, { c with
        buffer := c.buffer ++ [a]
        bounded := by rw [List.length_append]; exact hroom
        full := fun hne => absurd (c.full hne) (Nat.ne_of_lt hroom)
        idle := fun hne => absurd h hne })
    else none

theorem offer_eq_none_iff (c : Channel κ ι α) (a : α) : c.offer a = none ↔ ¬c.HasRoom := by
  unfold offer HasRoom
  split
  · rename_i h
    simp [h]
  · rename_i h
    split <;> simp [*]

def send (c : Channel κ ι α) (k : κ) (a : α) : Option ι × Channel κ ι α :=
  match h : c.offer a with
  | some sent => sent
  | none =>
    have hroom := not_or.1 ((c.offer_eq_none_iff a).1 h)
    (none, { c with
      sendq := c.sendq ++ [(k, a)]
      full := fun _ => Nat.le_antisymm c.bounded (Nat.not_lt.1 hroom.2)
      idle := fun hne => absurd hne hroom.1 })

def poll (c : Channel κ ι α) : Option (α × Channel κ ι α) :=
  match hbuffer : c.buffer, hsendq : c.sendq with
  | a :: rest, [] =>
    some (a, { c with
      buffer := rest
      bounded := by have := c.bounded; rw [hbuffer] at this; exact Nat.le_of_succ_le this
      full := fun hne => absurd hsendq hne
      idle := fun hne => absurd (c.idle hne).1 (by simp [hbuffer]) })
  | a :: rest, (_, b) :: others =>
    have hlength : (rest ++ [b]).length = c.capacity := by
      rw [← c.full (by rw [hsendq]; exact List.cons_ne_nil _ _), hbuffer, List.length_append]
      rfl
    some (a, { c with
      buffer := rest ++ [b]
      sendq := others
      bounded := Nat.le_of_eq hlength
      full := fun _ => hlength
      idle := fun hne => absurd (c.idle hne).1 (by simp [hbuffer]) })
  | [], (_, b) :: others =>
    have hlength : c.buffer.length = c.capacity := c.full (by rw [hsendq]; exact List.cons_ne_nil _ _)
    some (b, { c with
      sendq := others
      full := fun _ => hlength
      idle := fun hne => absurd (c.idle hne).2 (by simp [hsendq]) })
  | [], [] => none

theorem poll_eq_none_iff (c : Channel κ ι α) : c.poll = none ↔ c.buffer = [] ∧ c.sendq = [] := by
  unfold poll
  split <;> simp [*]

def receive (c : Channel κ ι α) (i : ι) : Option α × Channel κ ι α :=
  match h : c.poll with
  | some (a, rest) => (some a, rest)
  | none => (none, { c with recvq := c.recvq ++ [i], idle := fun _ => c.poll_eq_none_iff.1 h })

def leave [DecidableEq ι] (c : Channel κ ι α) (i : ι) : Channel κ ι α :=
  { c with
    recvq := c.recvq.erase i
    idle := fun hne => c.idle fun hnil => hne (by rw [hnil, List.erase_nil]) }

variable {c c' : Channel κ ι α} {a : α}

/-! ## Senders -/

theorem offer_cases {i : Option ι} (h : c.offer a = some (i, c')) :
    c'.capacity = c.capacity ∧ c'.sendq = c.sendq ∧ i = c.recvq.head? ∧ c'.recvq = c.recvq.tail ∧
      (i.isSome = true ∧ c'.buffer = c.buffer ∧ c.contents = [] ∨
        i = none ∧ c'.buffer = c.buffer ++ [a] ∧ c.sendq = [] ∧ c.buffer.length < c.capacity) := by
  unfold offer at h
  split at h
  · next hq =>
    cases h
    obtain ⟨hbuffer, hsendq⟩ := c.idle (by simp [hq])
    exact ⟨rfl, rfl, by simp [hq], by simp [hq],
      .inl ⟨rfl, rfl, by simp [contents, hbuffer, hsendq]⟩⟩
  · next hq =>
    split at h
    · next hroom =>
      cases h
      have hsendq : c.sendq = [] := by
        by_contra hne
        exact absurd (c.full hne) (Nat.ne_of_lt hroom)
      exact ⟨rfl, rfl, by simp [hq], by simp [hq], .inr ⟨rfl, rfl, hsendq, hroom⟩⟩
    · cases h

theorem capacity_offer {r : Option ι × Channel κ ι α} (h : c.offer a = some r) : r.2.capacity = c.capacity :=
  (offer_cases h).1

theorem hasRoom_of_offer {r : Option ι × Channel κ ι α} (h : c.offer a = some r) : c.HasRoom := by
  by_contra hnot
  rw [(c.offer_eq_none_iff a).2 hnot] at h
  cases h

theorem buffer_offer [IsEmpty ι] {r : Option ι × Channel κ ι α} (h : c.offer a = some r) :
    r.2.buffer = c.buffer ++ [a] := by
  obtain ⟨-, -, -, -, ⟨hsome, -, -⟩ | ⟨-, hbuffer, -, -⟩⟩ := offer_cases h
  · exact isEmptyElim (r.1.get hsome)
  · exact hbuffer

/-- What is handed to a receiver and what stays in the channel are the old values and the new one. -/
theorem offer_conserves {i : Option ι} (h : c.offer a = some (i, c')) :
    (if i.isSome then [a] else []) ++ c'.contents = c.contents ++ [a] := by
  obtain ⟨-, hsendq, -, -, ⟨hsome, hbuffer, hempty⟩ | ⟨rfl, hbuffer, hnone, -⟩⟩ := offer_cases h
  · have hsame : c'.contents = c.contents := by rw [contents, contents, hbuffer, hsendq]
    rw [if_pos hsome, hsame, hempty]
    rfl
  · rw [contents, contents, hbuffer, hsendq, hnone]
    simp

private theorem recvq_eq_nil [IsEmpty ι] (c : Channel κ ι α) : c.recvq = [] := by
  cases h : c.recvq with
  | nil => rfl
  | cons i rest => exact isEmptyElim i

theorem hasRoom_iff [IsEmpty ι] (c : Channel κ ι α) : c.HasRoom ↔ c.buffer.length < c.capacity := by
  simp [HasRoom, c.recvq_eq_nil]

private theorem send_cases [IsEmpty ι] (c : Channel κ ι α) (k : κ) (a : α) :
    (c.buffer.length < c.capacity ∧ c.offer a = some (none, (c.send k a).2)) ∨
      ¬c.buffer.length < c.capacity ∧ (c.send k a).2.buffer = c.buffer ∧
        (c.send k a).2.sendq = c.sendq ++ [(k, a)] := by
  unfold send
  split
  · next sent hsent =>
    obtain ⟨i, ch⟩ := sent
    cases i with
    | none => exact .inl ⟨c.hasRoom_iff.1 (hasRoom_of_offer hsent), hsent⟩
    | some i => exact isEmptyElim i
  · next hnone => exact .inr ⟨mt c.hasRoom_iff.2 ((c.offer_eq_none_iff a).1 hnone), rfl, rfl⟩

theorem contents_send [IsEmpty ι] (c : Channel κ ι α) (k : κ) (a : α) :
    (c.send k a).2.contents = c.contents ++ [a] := by
  rcases c.send_cases k a with ⟨-, hoffer⟩ | ⟨-, hbuffer, hsendq⟩
  · exact offer_conserves hoffer
  · rw [contents, contents, hbuffer, hsendq]
    simp

theorem contents_poll (h : c.poll = some (a, c')) :
    c.contents = a :: c'.contents ∧ c'.waiting = c.waiting.tail ∧ c'.recvq = c.recvq ∧
      c'.capacity = c.capacity := by
  unfold poll at h
  split at h
  · next hbuffer hsendq =>
    cases h
    exact ⟨by simp [contents, hbuffer], by simp [waiting, hsendq], rfl, rfl⟩
  · next hbuffer hsendq =>
    cases h
    exact ⟨by simp [contents, hbuffer, hsendq], by simp [waiting, hsendq], rfl, rfl⟩
  · next hbuffer hsendq =>
    cases h
    exact ⟨by simp [contents, hbuffer, hsendq], by simp [waiting, hsendq], rfl, rfl⟩
  · cases h

theorem receive_conserves (c : Channel κ ι α) (i : ι) :
    (c.receive i).1.toList ++ (c.receive i).2.contents = c.contents := by
  unfold receive
  split
  · next hpoll =>
    rw [(contents_poll hpoll).1]
    rfl
  · rfl

theorem recvq_receive (c : Channel κ ι α) (i : ι) :
    if (c.receive i).1.isSome then (c.receive i).2.recvq = c.recvq ∧ c.recvq = []
    else (c.receive i).2.recvq = c.recvq ++ [i] := by
  unfold receive
  split
  · next hpoll =>
    refine ⟨(contents_poll hpoll).2.2.1, ?_⟩
    by_contra hne
    rw [c.poll_eq_none_iff.2 (c.idle hne)] at hpoll
    cases hpoll
  · rfl

theorem contents_eq_buffer [IsEmpty κ] (c : Channel κ ι α) : c.contents = c.buffer := by
  cases h : c.sendq with
  | nil => simp [contents, h]
  | cons first rest => exact isEmptyElim first.1

theorem buffer_poll [IsEmpty κ] {r : α × Channel κ ι α} (h : c.poll = some r) : c.buffer = r.1 :: r.2.buffer := by
  rw [← contents_eq_buffer, ← contents_eq_buffer]
  exact (contents_poll h).1

end Channel

end PinpointAgent.Framework
