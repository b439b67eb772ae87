import Mathlib.Data.List.Basic
import Mathlib.Data.List.Count
/-!
# Reference counts

Owners hold references to resources, possibly several to one resource. `counts` gives the count
that each live resource stores, and `held` the references of each owner. The counts are right
when one can list, for every resource, the owners that hold it, once for each reference, so that
the stored count is the length of that list; a dead resource is held by nobody.
-/

namespace PinpointAgent.Framework

universe u v

variable {κ : Type u} {ι : Type v} [DecidableEq κ] [DecidableEq ι]

def Counted (counts : κ → Option Int) (held : ι → List κ) : Prop :=
  ∃ holders : κ → List ι, (∀ i n, (holders n).count i = (held i).count n) ∧
    (∀ n c, counts n = some c → c = (holders n).length) ∧ ∀ n, counts n = none → holders n = []

variable {counts : κ → Option Int} {held : ι → List κ} {i : ι} {n : κ} {refs : List κ} {c : Int}

theorem Counted.of_mem (h : Counted counts held) (hn : n ∈ held i) : ∃ c, counts n = some c ∧ c ≠ 0 := by
  obtain ⟨holders, hcount, hlive, hdead⟩ := h
  have hmem : i ∈ holders n := by
    rw [← List.count_pos_iff, hcount, List.count_pos_iff]
    exact hn
  cases hc : counts n with
  | none =>
    rw [hdead n hc] at hmem
    cases hmem
  | some c =>
    have hlen := List.length_pos_of_mem hmem
    exact ⟨c, rfl, by have := hlive n c hc; omega⟩

theorem counted_of_empty (hdead : ∀ n, counts n = none) (hheld : ∀ i, held i = []) :
    Counted counts held := by
  refine ⟨fun _ => [], ?_, ?_, fun _ _ => rfl⟩
  · intro i n
    rw [hheld]
    rfl
  · intro n c hc
    rw [hdead] at hc
    cases hc

omit [DecidableEq ι] in
private theorem dead_of_update {x : Int} {holders : κ → List ι} (hdead : ∀ n, counts n = none → holders n = [])
    (m : κ) (hm : Function.update counts n (some x) m = none) : m ≠ n ∧ holders m = [] := by
  have hne : m ≠ n := by
    rintro rfl
    simp at hm
  rw [Function.update_of_ne hne] at hm
  exact ⟨hne, hdead m hm⟩

theorem Counted.acquire (h : Counted counts held) (hn : counts n = some c) (hrefs : refs = n :: held i) :
    Counted (Function.update counts n (some (c + 1))) (Function.update held i refs) := by
  obtain ⟨holders, hcount, hlive, hdead⟩ := h
  subst hrefs
  refine ⟨Function.update holders n (i :: holders n), ?_, ?_, ?_⟩
  · intro j m
    have hold := hcount j m
    by_cases hm : m = n <;> by_cases hj : j = i <;>
      simp_all [Function.update_of_ne, List.count_cons]
    · exact fun heq => hj heq.symm
    · exact fun heq => hm heq.symm
  · intro m k hk
    by_cases hm : m = n
    · subst hm
      rw [Function.update_self] at hk ⊢
      cases hk
      simp [hlive m c hn]
    · rw [Function.update_of_ne hm] at hk ⊢
      exact hlive m k hk
  · intro m hm
    obtain ⟨hne, hnone⟩ := dead_of_update hdead m hm
    rwa [Function.update_of_ne hne]

theorem Counted.drop (h : Counted counts held) (hn : counts n = some c) (hrefs : held i = n :: refs) :
    Counted (Function.update counts n (some (c - 1))) (Function.update held i refs) := by
  obtain ⟨holders, hcount, hlive, hdead⟩ := h
  have hmem : i ∈ holders n := by
    rw [← List.count_pos_iff, hcount, hrefs, List.count_cons_self]
    omega
  refine ⟨Function.update holders n ((holders n).erase i), ?_, ?_, ?_⟩
  · intro j m
    have hold := hcount j m
    by_cases hm : m = n <;> by_cases hj : j = i <;>
      simp_all [Function.update_of_ne, List.count_cons, List.count_erase_self, List.count_erase_of_ne]
    · exact fun heq => hm heq.symm
  · intro m k hk
    by_cases hm : m = n
    · subst hm
      rw [Function.update_self] at hk ⊢
      cases hk
      have hpos := List.length_pos_of_mem hmem
      rw [List.length_erase_of_mem hmem, hlive m c hn]
      omega
    · rw [Function.update_of_ne hm] at hk ⊢
      exact hlive m k hk
  · intro m hm
    obtain ⟨hne, hnone⟩ := dead_of_update hdead m hm
    rwa [Function.update_of_ne hne]

theorem Counted.add (h : Counted counts held) (hn : counts n = none) :
    Counted (Function.update counts n (some 0)) held := by
  obtain ⟨holders, hcount, hlive, hdead⟩ := h
  refine ⟨holders, hcount, ?_, fun m hm => (dead_of_update hdead m hm).2⟩
  intro m k hk
  by_cases hm : m = n
  · subst hm
    rw [Function.update_self] at hk
    cases hk
    simp [hdead m hn]
  · rw [Function.update_of_ne hm] at hk
    exact hlive m k hk

theorem Counted.free (h : Counted counts held) (hn : counts n = some 0) :
    Counted (Function.update counts n none) held := by
  obtain ⟨holders, hcount, hlive, hdead⟩ := h
  refine ⟨holders, hcount, ?_, ?_⟩
  · intro m k hk
    have hne : m ≠ n := by
      rintro rfl
      simp at hk
    rw [Function.update_of_ne hne] at hk
    exact hlive m k hk
  · intro m hm
    by_cases heq : m = n
    · have hlen := hlive n 0 hn
      rw [heq]
      exact List.length_eq_zero_iff.1 (by omega)
    · rw [Function.update_of_ne heq] at hm
      exact hdead m hm

end PinpointAgent.Framework
