import Mathlib.Data.Set.Card

/-!
# Descents

A sequence of natural numbers that never rises falls at most as often as its first value says.
-/

namespace Descent

theorem encard_le {r : ℕ → ℕ} (h : Antitone r) : {n | r (n + 1) < r n}.encard ≤ r 0 := by
  have hmaps : Set.MapsTo (fun n => r (n + 1)) {n | r (n + 1) < r n} (Finset.range (r 0)) := by
    intro n hn
    exact Finset.mem_coe.2 (Finset.mem_range.2 (lt_of_lt_of_le hn (h (Nat.zero_le n))))
  -- Two falls to the same value have none of them in between.
  have hinj : Set.InjOn (fun n => r (n + 1)) {n | r (n + 1) < r n} := by
    intro m hm n hn hmn
    have hm : r (m + 1) < r m := hm
    have hn : r (n + 1) < r n := hn
    have hmn : r (m + 1) = r (n + 1) := hmn
    rcases lt_trichotomy m n with hlt | heq | hlt
    · have : r n ≤ r (m + 1) := h hlt
      omega
    · exact heq
    · have : r m ≤ r (n + 1) := h hlt
      omega
  calc {n | r (n + 1) < r n}.encard ≤ ((Finset.range (r 0) : Finset ℕ) : Set ℕ).encard :=
        Set.encard_le_encard_of_injOn hmaps hinj
    _ = r 0 := by rw [Set.encard_coe_eq_coe_finsetCard, Finset.card_range]

/-- A sequence of states whose rank falls with every change has only so many changes. -/
theorem encard_changes_le {σ : Type*} {s : ℕ → σ} (rank : σ → ℕ)
    (h : ∀ n, s (n + 1) ≠ s n → rank (s (n + 1)) < rank (s n)) :
    {n | s (n + 1) ≠ s n}.encard ≤ rank (s 0) := by
  have hle : ∀ n, rank (s (n + 1)) ≤ rank (s n) := by
    intro n
    by_cases hn : s (n + 1) = s n
    · rw [hn]
    · exact (h n hn).le
  calc {n | s (n + 1) ≠ s n}.encard ≤ {n | rank (s (n + 1)) < rank (s n)}.encard :=
        Set.encard_le_encard fun n hn => h n hn
    _ ≤ rank (s 0) := encard_le (r := fun n => rank (s n)) (antitone_nat_of_succ_le hle)

end Descent
