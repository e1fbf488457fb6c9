import RootFinding.Convergence

namespace RootFinding

open Scalar

class LawfulScalar (α : Type) [Scalar α] : Prop where
  isNaN_add : ∀ a b : α, isNaN a ∨ isNaN b → isNaN (a + b)
  isNaN_sub : ∀ a b : α, isNaN a ∨ isNaN b → isNaN (a - b)
  isNaN_mul : ∀ a b : α, isNaN a ∨ isNaN b → isNaN (a * b)
  isNaN_sqrt : ∀ a : α, isNaN a → isNaN (sqrt a)
  isNaN_magnitude : ∀ a : α, isNaN (magnitude a) = isNaN a
  isNaN_zero : isNaN (0 : α) = false
  isNaN_of_isFinite : ∀ a : α, isFinite a → isNaN a = false
  not_lt_of_isNaN : ∀ a b : α, isNaN a ∨ isNaN b → ¬ a < b
  le_of_not_lt : ∀ a b : α, isNaN a = false → isNaN b = false → ¬ a < b → b ≤ a
  le_of_lt : ∀ a b : α, a < b → a ≤ b
  le_trans : ∀ a b c : α, a ≤ b → b ≤ c → a ≤ c
  lt_of_le_of_lt : ∀ a b c : α, a ≤ b → b < c → a < c

variable {α : Type} [Scalar α] [LawfulScalar α] {n : Nat}

open LawfulScalar

theorem isNaN_foldl_add {entries : List α} {start : α}
    (undefined : isNaN start ∨ ∃ a ∈ entries, isNaN a) :
    isNaN (entries.foldl (· + ·) start) := by
  induction entries generalizing start with
  | nil =>
    rcases undefined with undefined | ⟨a, member, _⟩
    · exact undefined
    · cases member
  | cons entry entries ih =>
    refine ih ?_
    rcases undefined with undefined | ⟨a, member, undefined⟩
    · exact .inl (isNaN_add _ _ (.inl undefined))
    · cases member with
      | head => exact .inl (isNaN_add _ _ (.inr undefined))
      | tail _ member => exact .inr ⟨a, member, undefined⟩

namespace Vec

theorem isNaN_sum {v : Vec α n} {i : Nat} (h : i < n) (undefined : isNaN v[i]) :
    isNaN v.sum := by
  rw [sum, ← Vector.foldl_toList]
  exact isNaN_foldl_add (.inr ⟨v[i], by simp, undefined⟩)

theorem isNaN_norm {v : Vec α n} {i : Nat} (h : i < n) (undefined : isNaN v[i]) :
    isNaN v.norm := by
  refine isNaN_sqrt _ (isNaN_sum h ?_)
  rw [Vector.getElem_zipWith]
  exact isNaN_mul _ _ (.inl undefined)

theorem anyNaN_of_distance_lt {u v : Vec α n} {bound : α} (near : (u - v).norm < bound) :
    v.anyNaN = false := by
  rw [anyNaN, Vector.any_eq_false]
  intro i h undefined
  refine not_lt_of_isNaN _ _ (.inl (isNaN_norm h ?_)) near
  rw [Vector.getElem_sub]
  exact isNaN_sub _ _ (.inr undefined)

theorem foldl_larger_le {entries : List α} {best bound : α} (known : isNaN best = false)
    (defined : ∀ a ∈ entries, isNaN a = false) :
    entries.foldl (fun best a => if best < magnitude a || isNaN a then magnitude a else best) best ≤
      bound ↔ best ≤ bound ∧ ∀ a ∈ entries, magnitude a ≤ bound := by
  induction entries generalizing best with
  | nil => simp
  | cons entry entries ih =>
    have here : isNaN entry = false := defined entry List.mem_cons_self
    have there : ∀ a ∈ entries, isNaN a = false := fun a h => defined a (List.mem_cons_of_mem _ h)
    have same : isNaN (magnitude entry) = false := (isNaN_magnitude entry).trans here
    rw [List.foldl_cons, List.forall_mem_cons, here, Bool.or_false]
    by_cases larger : best < magnitude entry
    · rw [if_pos (decide_eq_true larger), ih same there]
      constructor
      · rintro ⟨bounded, rest⟩
        exact ⟨le_trans _ _ _ (le_of_lt _ _ larger) bounded, bounded, rest⟩
      · rintro ⟨_, bounded, rest⟩
        exact ⟨bounded, rest⟩
    · rw [if_neg (by simpa using larger), ih known there]
      constructor
      · rintro ⟨bounded, rest⟩
        exact ⟨bounded, le_trans _ _ _ (le_of_not_lt _ _ known same larger) bounded, rest⟩
      · rintro ⟨bounded, _, rest⟩
        exact ⟨bounded, rest⟩

theorem maxNorm_le {v : Vec α n} (finite : v.allFinite) {bound : α} :
    v.maxNorm ≤ bound ↔ 0 ≤ bound ∧ ∀ a ∈ v.toList, magnitude a ≤ bound := by
  rw [maxNorm, ← Vector.foldl_toList]
  refine foldl_larger_le isNaN_zero fun a member => isNaN_of_isFinite a ?_
  rw [allFinite, Vector.all_eq_true] at finite
  obtain ⟨i, h, rfl⟩ := List.mem_iff_getElem.mp member
  rw [Vector.getElem_toList]
  exact finite i (by simpa using h)

end Vec

theorem Convergence.stepTest_iff {x previous : Vec α n} {xtol : α} :
    stepTest x previous xtol ↔ 0 < xtol ∧ (x - previous).norm < xtol := by
  simp only [stepTest, Bool.and_eq_true, Bool.not_eq_true', decide_eq_true_eq, and_assoc]
  constructor
  · rintro ⟨positive, _, near⟩
    exact ⟨positive, near⟩
  · rintro ⟨positive, near⟩
    exact ⟨positive, Vec.anyNaN_of_distance_lt near, near⟩

end RootFinding
