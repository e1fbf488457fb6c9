import RootFinding.Json.Basic
import RootFinding.Limits

namespace RootFinding

theorem Limits.exists_of_not_admits {limit : Option Nat} {k : Nat} (refused : ¬ admits limit k) :
    ∃ most, limit = some most ∧ most < k := by
  cases limit with
  | none => exact absurd rfl refused
  | some most => exact ⟨most, rfl, Nat.lt_of_not_le (refused ∘ decide_eq_true)⟩

namespace Json

section Limited

variable [Limits]

def intFits (i : Int) : Bool := Limits.admitsDigits (Nat.toDigits 10 i.natAbs).length

mutual

def fits (level : Nat) : Json → Bool
  | int i => intFits i
  | arr items => Limits.admitsLevel level && itemsFit (level + 1) items
  | obj members => Limits.admitsLevel level && membersFit (level + 1) members
  | null | bool _ | float _ | str _ => true

def itemsFit (level : Nat) : List Json → Bool
  | [] => true
  | item :: items => fits level item && itemsFit level items

def memberFits (level : Nat) : String × Json → Bool
  | (_, value) => fits level value

def membersFit (level : Nat) : List (String × Json) → Bool
  | [] => true
  | member :: members => memberFits level member && membersFit level members

end

variable {level : Nat}

theorem itemsFit_iff {items : List Json} : itemsFit level items ↔ ∀ j ∈ items, j.fits level := by
  induction items with
  | nil => exact ⟨fun _ => nofun, fun _ => rfl⟩
  | cons item items ih => rw [itemsFit, Bool.and_eq_true, ih, List.forall_mem_cons]

theorem membersFit_iff {members : List (String × Json)} :
    membersFit level members ↔ ∀ m ∈ members, m.2.fits level := by
  induction members with
  | nil => exact ⟨fun _ => nofun, fun _ => rfl⟩
  | cons member members ih =>
    rw [membersFit, Bool.and_eq_true, ih, List.forall_mem_cons, memberFits]

theorem fits_arr {items : List Json} :
    (arr items).fits level ↔ Limits.admitsLevel level ∧ ∀ j ∈ items, j.fits (level + 1) := by
  rw [fits, Bool.and_eq_true, itemsFit_iff]

theorem fits_obj {members : List (String × Json)} :
    (obj members).fits level ↔
      Limits.admitsLevel level ∧ ∀ m ∈ members, m.2.fits (level + 1) := by
  rw [fits, Bool.and_eq_true, membersFit_iff]

end Limited

mutual

theorem fits_unlimited (level : Nat) : (j : Json) → @fits .unlimited level j
  | null | bool _ | float _ | str _ | int _ => rfl
  | arr items => itemsFit_unlimited (level + 1) items
  | obj members => membersFit_unlimited (level + 1) members

theorem itemsFit_unlimited (level : Nat) : (items : List Json) → @itemsFit .unlimited level items
  | [] => rfl
  | item :: items =>
    Bool.and_eq_true_iff.mpr ⟨fits_unlimited level item, itemsFit_unlimited level items⟩

theorem membersFit_unlimited (level : Nat) :
    (members : List (String × Json)) → @membersFit .unlimited level members
  | [] => rfl
  | (_, value) :: members =>
    Bool.and_eq_true_iff.mpr ⟨fits_unlimited level value, membersFit_unlimited level members⟩

end

end Json

end RootFinding
