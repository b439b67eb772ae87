import Mathlib.Data.Finset.Card

/-!
# Walks from a node to its root

Nodes that name their parents, each on a smaller level than the node itself. Among finitely many of
them a walk from parent to parent does not come back to where it was, so it arrives at the root.
-/

namespace PinpointAgent.Framework

variable {α : Type} {parent : α → α} {root : α}

/-- The walk from a node to the root passes the nodes of the list, and then the root. -/
def Ascends (parent : α → α) (root : α) : α → List α → Prop
  | x, [] => x = root
  | x, y :: path => x = y ∧ y ≠ root ∧ Ascends parent root (parent y) path

def below [DecidableEq α] (nodes : List α) (level : α → Int) (x : α) : Nat :=
  (nodes.toFinset.filter fun y => level y < level x).card

variable [DecidableEq α] {nodes : List α} {level : α → Int} {x y : α}

private theorem below_lt (hy : y ∈ nodes) (hlt : level y < level x) : below nodes level y < below nodes level x := by
  apply Finset.card_lt_card
  rw [Finset.ssubset_iff_of_subset]
  · refine ⟨y, ?_, ?_⟩
    · simpa using ⟨hy, hlt⟩
    · simp
  · intro z hz
    simp only [Finset.mem_filter] at hz ⊢
    exact ⟨hz.1, hz.2.trans hlt⟩

private theorem below_le_length (nodes : List α) (level : α → Int) (x : α) : below nodes level x ≤ nodes.length :=
  (Finset.card_filter_le _ _).trans (List.toFinset_card_le nodes)

theorem exists_ascent (hup : ∀ x ∈ nodes, x ≠ root → parent x ∈ nodes ∧ level (parent x) < level x)
    (hx : x ∈ nodes) :
    ∃ path, Ascends parent root x path ∧ (∀ y ∈ path, y ∈ nodes) ∧ path.length ≤ nodes.length := by
  suffices hwalk : ∀ n x, x ∈ nodes → below nodes level x ≤ n →
      ∃ path, Ascends parent root x path ∧ (∀ y ∈ path, y ∈ nodes) ∧ path.length ≤ n from
    hwalk nodes.length x hx (below_le_length nodes level x)
  intro n
  induction n with
  | zero =>
    intro x hx hzero
    refine ⟨[], ?_, nofun, Nat.le_refl _⟩
    by_contra hne
    obtain ⟨hmem, hlt⟩ := hup x hx hne
    have := below_lt hmem hlt
    omega
  | succ n ih =>
    intro x hx hle
    by_cases hroot : x = root
    · exact ⟨[], hroot, nofun, Nat.zero_le _⟩
    · obtain ⟨hmem, hlt⟩ := hup x hx hroot
      have hless := below_lt hmem hlt
      obtain ⟨path, hascends, hsub, hlength⟩ := ih (parent x) hmem (by omega)
      refine ⟨x :: path, ⟨rfl, hroot, hascends⟩, ?_, Nat.succ_le_succ hlength⟩
      intro y hy
      obtain rfl | hin := List.mem_cons.1 hy
      · exact hx
      · exact hsub y hin

end PinpointAgent.Framework
