import RootFinding.Proofs.Solver.Replies
import RootFinding.LineSearch.Merit

namespace RootFinding

variable {α : Type}

/-- The value and the slope at each step length, where there is one. -/
structure MeritFunction (α : Type) where
  value : α → Except (Failure α) α
  slope : α → Except (Failure α) α

def MeritFunction.reply (φ : MeritFunction α) : (q : MeritRequest α) → Except (Failure α) q.Answer
  | .value alpha => φ.value alpha
  | .slope alpha => φ.slope alpha
  | .note _ => .ok ()

section Requests

variable {φ : MeritFunction α}

@[simp] theorem Search.value_value (alpha : α) :
    Plan.value φ.reply (Search.value alpha) = φ.value alpha := Plan.value_request _

@[simp] theorem Search.value_slope (alpha : α) :
    Plan.value φ.reply (Search.slope alpha) = φ.slope alpha := Plan.value_request _

@[simp] theorem Search.value_note (n : Notice α) :
    Plan.value φ.reply (Search.note n) = .ok () := Plan.value_request _

end Requests

namespace Merit

variable [Scalar α] {n : Nat}

def function (merit : Merit α n) (s : SquareSystem α) : MeritFunction α where
  value alpha := (merit.value alpha).value s.reply
  slope alpha := (merit.slope alpha).value s.reply

theorem search_value (merit : Merit α n) (s : SquareSystem α) (strategy : LineSearch α)
    (slope : α) :
    (merit.search strategy slope).value s.reply =
      Plan.value (merit.function s).reply
        (strategy.search merit.phi0 slope merit.direction.norm) := by
  rw [search, Plan.value_serve]
  congr 1
  funext q
  cases q with
  | value alpha => rfl
  | slope alpha => rfl
  | note m => exact Plan.value_request _

end Merit

namespace StrongWolfe

variable [Scalar α] {w : Conditions α}

def IsEvaluation : MeritRequest α → Prop
  | .value _ | .slope _ => True
  | .note _ => False

theorem zoom_asks (rounds : Nat) (first : Bool) (z : Bracket α) :
    (zoom w rounds first z).AsksOnly IsEvaluation := by
  induction rounds generalizing first z with
  | zero => exact Plan.asksOnly_pure _
  | succ rounds ih =>
    refine (Plan.asksOnly_request trivial).bind fun phi => ?_
    split
    · exact ih _ _
    · refine (Plan.asksOnly_request trivial).bind fun slope => ?_
      split
      · exact Plan.asksOnly_pure _
      · exact ih _ _

theorem widen_asks (rounds : Nat) (first : Bool) (a0 phi0 slope0 a1 phi1 : α) :
    (widen w rounds first a0 phi0 slope0 a1 phi1).AsksOnly IsEvaluation := by
  induction rounds generalizing first a0 phi0 slope0 a1 phi1 with
  | zero => exact Plan.asksOnly_pure _
  | succ rounds ih =>
    simp only [widen]
    split
    · exact Plan.asksOnly_pure _
    split
    · exact zoom_asks _ _ _
    refine (Plan.asksOnly_request trivial).bind fun slope => ?_
    split
    · exact Plan.asksOnly_pure _
    split
    · exact zoom_asks _ _ _
    · exact (Plan.asksOnly_request trivial).bind fun phi => ih _ _ _ _ _ _

theorem search_asks (maxiter : Count) : (search w maxiter).AsksOnly IsEvaluation := by
  refine (Plan.asksOnly_request trivial).bind fun phi => ?_
  cases maxiter with
  | whole n => exact widen_asks _ _ _ _ _ _ _
  | real limit => trivial

end StrongWolfe

def MeritRequest.Quiet : MeritRequest α → Prop
  | .note (.traced _) => False
  | _ => True

variable [Scalar α]

namespace Backtracking

theorem reduce_quiet (b : Backtracking α) (phi0 slope : α) (left : Nat) (first : Bool)
    (older newer : Trial α) :
    (b.reduce phi0 slope left first older newer).AsksOnly MeritRequest.Quiet := by
  induction left generalizing first older newer with
  | zero =>
    unfold reduce
    split
    · exact (Plan.asksOnly_request trivial).bind fun _ => Plan.asksOnly_pure _
    · exact Plan.asksOnly_pure _
  | succ left ih =>
    unfold reduce
    split
    · apply Plan.AsksOnly.bind
      · cases b.proposal phi0 slope first older newer <;> trivial
      · exact fun proposed => (Plan.asksOnly_request trivial).bind fun phi => ih _ _ _
    · exact Plan.asksOnly_pure _

end Backtracking

theorem LineSearch.search_quiet (strategy : LineSearch α) (phi0 slope length : α) :
    (strategy.search phi0 slope length).AsksOnly MeritRequest.Quiet := by
  induction strategy with
  | fixed alpha => exact Plan.asksOnly_pure _
  | backtracking b =>
    apply Plan.AsksOnly.bind
    · exact (Plan.asksOnly_request trivial).bind fun phi => b.reduce_quiet _ _ _ _ _ _
    · exact fun alpha => Plan.asksOnly_pure _
  | strongWolfe c1 c2 maxiter fallback ih =>
    apply Plan.AsksOnly.bind
    · apply (StrongWolfe.search_asks maxiter).weaken
      intro q evaluation
      cases q with
      | value alpha | slope alpha => trivial
      | note m => exact evaluation.elim
    · intro found
      cases found with
      | some alpha => exact Plan.asksOnly_pure _
      | none =>
        apply (Plan.asksOnly_request trivial).bind
        exact fun _ => ih.bind fun found => Plan.asksOnly_pure _
  | sequence upcoming =>
    cases upcoming with
    | nil => exact Plan.asksOnly_pure _
    | cons alpha upcoming => exact Plan.asksOnly_pure _

end RootFinding
