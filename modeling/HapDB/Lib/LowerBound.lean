import Mathlib.Data.List.Basic
import Mathlib.Data.Nat.Notation

/-!
# The halving loop of `lower_bound`

`search p a fuel i j` is the loop of `std::lower_bound` over the positions
`[i, j)` of `a`: while the range is not empty, it looks at the middle element
and keeps the half after it when `p` holds there, the half up to it otherwise.
It runs on fuel; `j - i` rounds are always enough, since every round shrinks
the range.

When `p` holds on a prefix of `[i, j)` and fails on the rest (as "the element
is below the key" does on a sorted range), the loop finds where the prefix ends
(`search_spec`): `p` holds before the result and fails from it on.
-/

namespace LowerBound

variable {α : Type*}

/-- The halving loop over `[i, j)`, on fuel. -/
def search (p : α → Bool) (a : List α) : ℕ → ℕ → ℕ → ℕ
  | 0, i, _ => i
  | fuel + 1, i, j =>
      if i < j then
        if (a[(i + j) / 2]?.map p).getD false then search p a fuel ((i + j) / 2 + 1) j
        else search p a fuel i ((i + j) / 2)
      else i

/-- `p` holds on a prefix of the positions `[i, j)` of `a` and fails after it. -/
def PrefixOn (p : α → Bool) (a : List α) (i j : ℕ) : Prop :=
  ∀ k₁ k₂, i ≤ k₁ → k₁ ≤ k₂ → k₂ < j → (a[k₂]?.map p).getD false = true →
    (a[k₁]?.map p).getD false = true

theorem PrefixOn.mono {p : α → Bool} {a : List α} {i j i' j' : ℕ} (h : PrefixOn p a i j)
    (hi : i ≤ i') (hj : j' ≤ j) : PrefixOn p a i' j' :=
  fun k₁ k₂ h₁ h₁₂ h₂ hp => h k₁ k₂ (Nat.le_trans hi h₁) h₁₂ (Nat.lt_of_lt_of_le h₂ hj) hp

/-- The answer of the loop: in the range, with `p` before it and not from it
on, as long as there is fuel for every round. -/
theorem search_spec {p : α → Bool} {a : List α} :
    ∀ (fuel i j : ℕ), i ≤ j → j - i ≤ fuel → PrefixOn p a i j →
      i ≤ search p a fuel i j ∧ search p a fuel i j ≤ j ∧
      (∀ k, i ≤ k → k < search p a fuel i j → (a[k]?.map p).getD false = true) ∧
      (∀ k, search p a fuel i j ≤ k → k < j → (a[k]?.map p).getD false = false)
  | 0, i, j, hij, hfuel, _ => by
      have hji : j = i := by omega
      subst hji
      refine ⟨Nat.le_refl _, Nat.le_refl _, fun k h₁ h₂ => ?_, fun k h₁ h₂ => ?_⟩ <;>
        simp only [search] at * <;> omega
  | fuel + 1, i, j, hij, hfuel, hpre => by
      by_cases hlt : i < j
      · have hmid₁ : i ≤ (i + j) / 2 := by omega
        have hmid₂ : (i + j) / 2 < j := by omega
        by_cases hp : (a[(i + j) / 2]?.map p).getD false = true
        · -- `p` holds at the middle, so on everything before it: search the upper half
          rw [search, if_pos hlt, if_pos hp]
          obtain ⟨h₁, h₂, hbefore, hafter⟩ :=
            search_spec fuel ((i + j) / 2 + 1) j (by omega) (by omega)
              (hpre.mono (by omega) (Nat.le_refl j))
          refine ⟨by omega, h₂, fun k hk₁ hk₂ => ?_, hafter⟩
          by_cases hk : k ≤ (i + j) / 2
          · exact hpre k ((i + j) / 2) hk₁ hk hmid₂ hp
          · exact hbefore k (by omega) hk₂
        · -- `p` fails at the middle, so on everything after it: search the lower half
          rw [search, if_pos hlt, if_neg hp]
          obtain ⟨h₁, h₂, hbefore, hafter⟩ :=
            search_spec fuel i ((i + j) / 2) hmid₁ (by omega) (hpre.mono (Nat.le_refl i) (Nat.le_of_lt hmid₂))
          refine ⟨h₁, by omega, hbefore, fun k hk₁ hk₂ => ?_⟩
          by_cases hk : k < (i + j) / 2
          · exact hafter k hk₁ hk
          · cases hpk : (a[k]?.map p).getD false
            · rfl
            · exact absurd (hpre ((i + j) / 2) k hmid₁ (by omega) hk₂ hpk) hp
      · have hji : j = i := by omega
        subst hji
        rw [search, if_neg hlt]
        refine ⟨Nat.le_refl _, Nat.le_refl _, fun k h₁ h₂ => absurd h₂ (by omega),
          fun k h₁ h₂ => absurd h₂ (by omega)⟩

end LowerBound
