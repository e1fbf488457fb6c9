import RootFinding.Proofs.Binary64.Rounding
import RootFinding.TrustRegion.Radius

namespace RootFinding

open Float.Model Float.Model.UnpackedFloat

namespace Binary64

variable {x y : Float}

theorem isNaN_normalize (m e : ℤ) (s : Sign) :
    (UnpackedFloat.normalize Format.binary64 m e s).isNaN = false := by
  rw [isNaN_eq_sign?]
  simp only [UnpackedFloat.normalize]
  split
  · rw [UnpackedFloat.round, sign?_roundWithAccuracy]
    rfl
  · rfl
  · rw [UnpackedFloat.round, sign?_roundWithAccuracy]
    rfl

theorem isNaN_sub_of_isFinite (finite : x.isFinite) (defined : y.isNaN = false) :
    (x - y).isNaN = false := by
  change (stored (UnpackedFloat.sub Format.binary64 (decoded x) (decoded y))).isNaN = false
  change (decoded x).isFinite = true at finite
  rw [isNaN_eq] at defined
  rw [isNaN_stored]
  cases left : decoded x with
  | notANumber | infinity s => rw [left] at finite; cases finite
  | zero s =>
    cases right : decoded y with
    | notANumber => rw [right] at defined; cases defined
    | zero s' => cases s <;> cases s' <;> rfl
    | infinity s' | finite s' k f pos' => rfl
  | finite s m e pos =>
    cases right : decoded y with
    | notANumber => rw [right] at defined; cases defined
    | infinity s' | zero s' => rfl
    | finite s' k f pos' => exact isNaN_normalize _ _ _

theorem isNaN_div_of_isFinite (defined : x.isNaN = false) (finite : y.isFinite)
    (positive : 0 < y) : (x / y).isNaN = false := by
  change (stored (UnpackedFloat.div Format.binary64 (decoded x) (decoded y))).isNaN = false
  change (decoded y).isFinite = true at finite
  rw [isNaN_eq] at defined
  rw [isNaN_stored]
  cases right : decoded y with
  | notANumber | infinity s => rw [right] at finite; cases finite
  | zero s =>
    obtain ⟨_, _, ranked⟩ := lt_iff.mp positive
    rw [right] at ranked
    exact absurd ranked (lt_irrefl _)
  | finite s k f pos =>
    cases left : decoded x with
    | notANumber => rw [left] at defined; cases defined
    | infinity s' | zero s' => rfl
    | finite s' m e pos' =>
      rw [isNaN_eq_sign?]
      simp only [UnpackedFloat.div, sign?_roundWithAccuracy]
      rfl

theorem NotNegative.decoded_isInf (known : NotNegative x) (infinite : x.isInf) :
    decoded x = .infinity .positive := by
  change (decoded x).isInf = true at infinite
  simp only [NotNegative] at known
  cases value : decoded x with
  | infinity s =>
    rw [value] at known
    cases known
    rfl
  | notANumber | zero s | finite s m e pos => rw [value] at infinite; cases infinite

theorem isInf_of_not_isFinite (defined : x.isNaN = false) (large : ¬ x.isFinite) : x.isInf := by
  change ¬ (decoded x).isFinite = true at large
  rw [isNaN_eq] at defined
  change (decoded x).isInf = true
  cases value : decoded x with
  | infinity s => rfl
  | notANumber => rw [value] at defined; cases defined
  | zero s | finite s m e pos => rw [value] at large; exact absurd rfl large

def quotient (now trial model : Float) : Float :=
  if 0 < now - model then (now - trial) / (now - model) else 0

theorem isNaN_quotient_of_isInf {now trial model : Float} (hn : NotNegative now)
    (ht : NotNegative trial) (infinite : now.isInf) (finite : model.isFinite) :
    (quotient now trial model).isNaN := by
  have first := hn.decoded_isInf infinite
  have predicted : decoded (now - model) = .infinity .positive := by
    change stored (UnpackedFloat.sub Format.binary64 (decoded now) (decoded model)) = _
    change (decoded model).isFinite = true at finite
    rw [first]
    cases value : decoded model with
    | notANumber | infinity s => rw [value] at finite; cases finite
    | zero s | finite s m e pos => exact stored_infinity .positive
  have positive : 0 < now - model := by
    rw [lt_iff, isNaN_eq (now - model), predicted]
    exact ⟨rfl, rfl, by decide⟩
  rw [quotient, if_pos positive]
  change (stored (UnpackedFloat.div Format.binary64 (decoded (now - trial))
    (decoded (now - model)))).isNaN
  have actual : decoded (now - trial) = .infinity .positive ∨
      decoded (now - trial) = .notANumber := by
    change stored (UnpackedFloat.sub Format.binary64 (decoded now) (decoded trial)) = _ ∨
      stored (UnpackedFloat.sub Format.binary64 (decoded now) (decoded trial)) = _
    rw [first]
    simp only [NotNegative] at ht
    cases value : decoded trial with
    | notANumber => exact .inr stored_notANumber
    | infinity s =>
      rw [value] at ht
      cases ht
      exact .inr stored_notANumber
    | zero s | finite s m e pos => exact .inl (stored_infinity .positive)
  rw [predicted, isNaN_stored]
  rcases actual with actual | actual <;> rw [actual] <;> rfl

theorem isFinite_of_sub_positive {now model : Float} (hn : NotNegative now)
    (hm : model.isNaN ∨ NotNegative model) (positive : 0 < now - model) : model.isFinite := by
  obtain ⟨_, defined, ranked⟩ := lt_iff.mp positive
  rcases hm with undefined | known
  · rw [isNaN_sub (.inr undefined)] at defined
    cases defined
  · -- The difference from an infinite value is undefined or negative.
    by_contra large
    have infinite := known.decoded_isInf (isInf_of_not_isFinite known.isNaN large)
    rw [isNaN_eq] at defined
    change (stored (UnpackedFloat.sub Format.binary64 (decoded now) (decoded model))).isNaN =
      false at defined
    change _ < rank (stored (UnpackedFloat.sub Format.binary64 (decoded now) (decoded model)))
      at ranked
    rw [infinite] at defined ranked
    simp only [NotNegative] at hn
    cases value : decoded now with
    | notANumber => rw [value] at hn; cases hn
    | infinity s =>
      rw [value] at hn defined
      cases hn
      cases defined
    | zero s | finite s m e pos =>
      rw [value] at ranked
      have below : ¬ rank (decoded 0) < rank (stored (.infinity .negative)) := by decide
      exact below ranked

theorem isNaN_quotient {now trial model : Float} (hn : NotNegative now)
    (ht : NotNegative trial) (hm : model.isNaN ∨ NotNegative model) :
    (quotient now trial model).isNaN ↔ now.isInf ∧ model.isFinite := by
  constructor
  · intro undefined
    -- Without a positive difference the quotient is zero; with one, both differences are finite
    -- unless the minuend is not.
    by_cases positive : 0 < now - model
    · have finite := isFinite_of_sub_positive hn hm positive
      refine ⟨?_, finite⟩
      by_contra notInf
      have small : now.isFinite := by
        by_contra large
        exact notInf (isInf_of_not_isFinite hn.isNaN large)
      have known : NotNegative model := hm.resolve_left fun undefined => by
        rw [isNaN_of_isFinite finite] at undefined
        cases undefined
      have predicted := isFinite_sub hn known small finite
      have actual := isNaN_sub_of_isFinite small ht.isNaN
      rw [quotient, if_pos positive, isNaN_div_of_isFinite actual predicted positive] at undefined
      cases undefined
    · rw [quotient, if_neg positive] at undefined
      cases undefined
  · rintro ⟨infinite, finite⟩
    exact isNaN_quotient_of_isInf hn ht infinite finite

end Binary64

open Binary64

namespace Vec

variable {n : Nat}

theorem notNegative_foldl {entries : List Float} {start : Float} (known : NotNegative start)
    (all : ∀ a ∈ entries, NotNegative a) : NotNegative (entries.foldl (· + ·) start) := by
  induction entries generalizing start with
  | nil => exact known
  | cons entry entries ih =>
    exact ih (notNegative_add known (all entry List.mem_cons_self))
      fun a member => all a (List.mem_cons_of_mem _ member)

theorem notNegative_dot {v : Vec Float n} (defined : ∀ i, (h : i < n) → v[i].isNaN = false) :
    NotNegative (dot v v) := by
  rw [dot, sum, ← Vector.foldl_toList]
  refine notNegative_foldl notNegative_zero fun a member => ?_
  obtain ⟨i, h, rfl⟩ := List.mem_iff_getElem.mp member
  have bound : i < n := by simpa using h
  rw [Vector.getElem_toList, Vector.getElem_zipWith]
  exact notNegative_mul_self (defined i bound)

theorem notNegative_dot_of_allFinite {v : Vec Float n} (finite : v.allFinite) :
    NotNegative (dot v v) := by
  rw [allFinite, Vector.all_eq_true] at finite
  exact notNegative_dot fun i h => isNaN_of_isFinite (finite i h)

theorem isNaN_or_notNegative_dot (v : Vec Float n) : (dot v v).isNaN ∨ NotNegative (dot v v) := by
  by_cases defined : ∀ i, (h : i < n) → v[i].isNaN = false
  · exact .inr (notNegative_dot defined)
  · simp only [not_forall, Bool.not_eq_false] at defined
    obtain ⟨i, h, undefined⟩ := defined
    have product : Scalar.isNaN (Vector.zipWith (· * ·) v v)[i] := by
      rw [Vector.getElem_zipWith]
      exact isNaN_mul (.inl undefined)
    exact .inl (isNaN_sum h product)

end Vec

def Overflows {n : Nat} (fx model : Vec Float n) : Bool :=
  (Vec.dot fx fx).isInf && (Vec.dot model model).isFinite

theorem isNaN_reductionRatio {n : Nat} {fx trial model : Vec Float n} (finite : fx.allFinite)
    (finiteToo : trial.allFinite) :
    (reductionRatio fx trial model).isNaN ↔ Overflows fx model := by
  rw [Overflows, Bool.and_eq_true]
  exact isNaN_quotient (Vec.notNegative_dot_of_allFinite finite)
    (Vec.notNegative_dot_of_allFinite finiteToo) (Vec.isNaN_or_notNegative_dot model)

theorem updateRadius_of_poor {delta rho stepnorm : Float} (poor : ¬ acceptRatio < rho) :
    updateRadius delta rho stepnorm = if rho.isNaN then delta else 0.5 * delta := by
  rw [updateRadius]
  by_cases undefined : rho.isNaN
  · have short : ¬ rho < 0.1 := LawfulScalar.not_lt_of_isNaN _ _ (.inl undefined)
    have long : ¬ 0.5 ≤ rho := fun le => by
      obtain ⟨_, defined, _⟩ := le_iff.mp le
      exact Bool.false_ne_true (defined.symm.trans undefined)
    rw [if_neg short, if_neg long, if_pos undefined]
  · rw [Bool.not_eq_true] at undefined
    have bound : rho ≤ acceptRatio := LawfulScalar.le_of_not_lt _ _ rfl undefined poor
    have order : (acceptRatio : Float) < 0.1 := by decide +kernel
    rw [if_pos (LawfulScalar.lt_of_le_of_lt _ _ _ bound order), undefined]
    rfl

end RootFinding
