import Mathlib.Data.List.Nodup
import Mathlib.Logic.Function.Basic

/-!
# Overridden places and the way back

A program replaces the values at some places by one marked value and keeps a log of what was there.
The overlay says that the log and the current values belong together, so that writing the log back, in
the order in which it was kept, gives the values from before.
-/

namespace PinpointAgent.Framework

variable {α β : Type*} {mark : β} {base now : α → β} {log : List (α × β)} {a : α}

/-- `now` is `base` with the mark at the places of the log. -/
structure Overlay (mark : β) (base now : α → β) (log : List (α × β)) : Prop where
  nodup : (log.map Prod.fst).Nodup
  logged : ∀ p ∈ log, now p.1 = mark ∧ p.2 = base p.1
  rest : ∀ a, a ∉ log.map Prod.fst → now a = base a

namespace Overlay

theorem start (mark : β) (base : α → β) : Overlay mark base base [] :=
  ⟨List.nodup_nil, fun _ hp => absurd hp List.not_mem_nil, fun _ _ => rfl⟩

private theorem eq_mark_of_mem (h : Overlay mark base now log) (ha : a ∈ log.map Prod.fst) :
    now a = mark := by
  obtain ⟨p, hp, rfl⟩ := List.mem_map.1 ha
  exact (h.logged p hp).1

theorem eq_mark_iff (h : Overlay mark base now log) (hbase : base a ≠ mark) :
    now a = mark ↔ a ∈ log.map Prod.fst := by
  refine ⟨fun hmark => ?_, h.eq_mark_of_mem⟩
  by_contra ha
  rw [h.rest a ha] at hmark
  exact hbase hmark

variable [DecidableEq α]

theorem push (h : Overlay mark base now log) (ha : now a ≠ mark) :
    Overlay mark base (Function.update now a mark) (log ++ [(a, now a)]) := by
  have hfresh : a ∉ log.map Prod.fst := fun hmem => ha (h.eq_mark_of_mem hmem)
  refine ⟨?_, ?_, ?_⟩
  · rw [List.map_append, List.map_singleton, List.nodup_append]
    refine ⟨h.nodup, List.nodup_singleton a, ?_⟩
    rintro b hb _ hc rfl
    obtain rfl : b = a := List.mem_singleton.1 hc
    exact hfresh hb
  · intro p hp
    rcases List.mem_append.1 hp with hold | hnew
    · have hne : p.1 ≠ a := fun heq => hfresh (heq ▸ List.mem_map_of_mem hold)
      rw [Function.update_of_ne hne]
      exact h.logged p hold
    · rw [List.mem_singleton.1 hnew]
      exact ⟨Function.update_self .., h.rest a hfresh⟩
  · intro b hb
    rw [List.map_append, List.mem_append, not_or] at hb
    have hne : b ≠ a := fun heq => hb.2 (heq ▸ List.mem_singleton_self b)
    rw [Function.update_of_ne hne]
    exact h.rest b hb.1

def undo (now : α → β) (log : List (α × β)) : α → β :=
  log.foldl (fun f p => Function.update f p.1 p.2) now

private theorem undo_of_notMem (ha : a ∉ log.map Prod.fst) : undo now log a = now a := by
  induction log generalizing now with
  | nil => rfl
  | cons p log ih =>
    rw [List.map_cons, List.mem_cons, not_or] at ha
    rw [undo, List.foldl_cons]
    exact (ih ha.2).trans (Function.update_of_ne ha.1 ..)

private theorem undo_of_mem {p : α × β} (hnodup : (log.map Prod.fst).Nodup) (hp : p ∈ log) :
    undo now log p.1 = p.2 := by
  induction log generalizing now with
  | nil => cases hp
  | cons q log ih =>
    rw [List.map_cons, List.nodup_cons] at hnodup
    rw [undo, List.foldl_cons]
    rcases List.mem_cons.1 hp with rfl | hp
    · exact (undo_of_notMem hnodup.1).trans (Function.update_self ..)
    · exact ih hnodup.2 hp

theorem undo_eq (h : Overlay mark base now log) : undo now log = base := by
  funext a
  by_cases ha : a ∈ log.map Prod.fst
  · obtain ⟨p, hp, rfl⟩ := List.mem_map.1 ha
    rw [undo_of_mem h.nodup hp, (h.logged p hp).2]
  · rw [undo_of_notMem ha, h.rest a ha]

end Overlay

end PinpointAgent.Framework
