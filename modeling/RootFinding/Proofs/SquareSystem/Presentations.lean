import RootFinding.Proofs.SquareSystem.Failures

namespace RootFinding

variable {α : Type} {m n : Nat}

theorem commonStart_self (extents : List Nat) : commonStart extents extents = extents := by
  induction extents with
  | nil => rfl
  | cons n extents ih => rw [commonStart, if_pos rfl, ih]

theorem vecOfList?_toList {n : Nat} (v : Vector α n) : vecOfList? n v.toList = some v := by
  rw [vecOfList?, dif_pos v.length_toList]
  rfl

theorem mapM_map_of_forall {β γ : Type} {f : β → γ} {g : γ → Option β}
    (inverse : ∀ b, g (f b) = some b) (items : List β) : (items.map f).mapM g = some items := by
  induction items with
  | nil => rfl
  | cons item items ih =>
    rw [List.map_cons, List.mapM_cons, inverse, ih]
    rfl

namespace Nested

theorem ofItems_even {items : List Extents} {shared : List Nat} (some' : items ≠ [])
    (each : ∀ e ∈ items, e = ⟨shared, true⟩) :
    Extents.ofItems items = ⟨items.length :: shared, true⟩ := by
  obtain ⟨first, rest, rfl⟩ := List.exists_cons_of_ne_nil some'
  have same : rest.foldl (fun acc e => commonStart acc e.shared) first.shared = shared := by
    rw [each first List.mem_cons_self]
    have later : ∀ e ∈ rest, e = ⟨shared, true⟩ := fun e member =>
      each e (List.mem_cons_of_mem _ member)
    clear some' each
    induction rest with
    | nil => rfl
    | cons e rest ih =>
      rw [List.foldl_cons, later e List.mem_cons_self, commonStart_self]
      exact ih fun e member => later e (List.mem_cons_of_mem _ member)
  rw [Extents.ofItems, same, Extents.mk.injEq]
  refine ⟨rfl, List.all_eq_true.mpr fun e member => ?_⟩
  rw [each e member]
  simp only [BEq.rfl, Bool.and_self]

theorem ofBlock_extents : (target : List Nat) → (∀ n ∈ target, 0 < n) → (b : Block α target) →
    (ofBlock target b).extents = ⟨target, true⟩
  | [], _, _ => rfl
  | n :: target, positive, rows => by
    have some' : rows.toList ≠ [] := by
      have here := positive n List.mem_cons_self
      intro none
      have length := congrArg List.length none
      rw [Vector.length_toList, List.length_nil] at length
      omega
    have each : ∀ e ∈ (rows.toList.map (ofBlock target)).map extents, e = ⟨target, true⟩ := by
      intro e member
      obtain ⟨item, within, rfl⟩ := List.mem_map.mp member
      obtain ⟨row, _, rfl⟩ := List.mem_map.mp within
      exact ofBlock_extents target (fun n member => positive n (List.mem_cons_of_mem _ member)) row
    rw [ofBlock, extents, itemExtents_eq_map, ofItems_even (by simpa using some') each]
    simp only [List.length_map, Vector.length_toList]

theorem toBlock?_ofBlock : (target : List Nat) → (b : Block α target) →
    (ofBlock target b).toBlock? target = some b
  | [], _ => rfl
  | n :: target, rows => by
    rw [ofBlock, toBlock?, mapM_map_of_forall (toBlock?_ofBlock target), Option.bind_some]
    exact vecOfList?_toList rows

theorem spread?_ofBlock : (target : List Nat) → (b : Block α target) →
    spread? target target.length (ofBlock target b) = some b
  | [], _ => rfl
  | n :: target, rows => by
    have deeper : ¬ target.length + 1 ≤ target.length := by omega
    simp only [ofBlock, spread?, List.length_cons, if_neg deeper, List.length_map,
      Vector.length_toList, if_true, Nat.add_sub_cancel]
    rw [mapM_map_of_forall (spread?_ofBlock target), Option.bind_some]
    exact vecOfList?_toList rows

theorem fills_self (target : List Nat) : fills target target = true := by
  simp only [fills, Nat.sub_self, List.drop_zero, Nat.le_refl, decide_true, Bool.true_and,
    List.all_eq_true]
  rintro ⟨a, b⟩ member
  obtain ⟨i, bound, same⟩ := List.mem_iff_getElem.mp member
  rw [List.getElem_zip, Prod.mk.injEq] at same
  rw [← same.1, ← same.2, BEq.rfl, Bool.true_or]

variable {target : List Nat}

theorem rectangular_ofBlock (positive : ∀ n ∈ target, 0 < n) (b : Block α target) :
    (ofBlock target b).rectangular = .ok target :=
  rectangular_ok.mpr (by simp only [ofBlock_extents target positive b, and_self])

theorem fill_ofBlock (positive : ∀ n ∈ target, 0 < n) (b : Block α target) :
    (ofBlock target b).fill target = .ok b := by
  have whole : dropOnes 0 target = target := by rw [dropOnes]; nofun
  have closed : unwrap 0 (ofBlock target b) = ofBlock target b := by rw [unwrap]; nofun
  rw [fill, rectangular_ofBlock positive]
  change (if _ then _ else _) = _
  simp only [Nat.sub_self, whole, fills_self, if_true, closed, spread?_ofBlock]

end Nested

theorem copied_ofBlock {target : List Nat} (positive : ∀ n ∈ target, 0 < n) (what : Quantity)
    (b : Block α target) : copied what target (.ofBlock target b) = .ok b := by
  simp only [copied, Nested.rectangular_ofBlock positive, Nested.toBlock?_ofBlock, BEq.rfl]

def Mat.columnsFrom (k : Nat) (column : Fin n → Vec α m) (a : Mat α m n) : Mat α m n :=
  Vector.ofFn fun i => Vector.ofFn fun j => if j.val < k then (a.get i).get j else (column j).get i

theorem Mat.columnsFrom_all (column : Fin n → Vec α m) (a : Mat α m n) :
    a.columnsFrom n column = a := by
  ext i hi k hk
  simp [columnsFrom, Vector.get_eq_getElem]

theorem Mat.columnsFrom_zero (column : Fin n → Vec α m) (a : Mat α m n) :
    a.columnsFrom 0 column = Vector.ofFn fun i => Vector.ofFn fun j => (column j).get i := by
  simp only [columnsFrom, Nat.not_lt_zero, if_false]

theorem Mat.columnsFrom_setColumn (column : Fin n → Vec α m) (a : Mat α m n) (j : Fin n) :
    (a.setColumn j (column j)).columnsFrom (j + 1) column = a.columnsFrom j column := by
  ext i hi k hk
  have entry : (a.setColumn j (column j))[i][k] =
      if j = ⟨k, hk⟩ then (column j)[i] else a[i][k] := setColumn_get (k := ⟨k, hk⟩) hi
  simp only [columnsFrom, Vector.getElem_ofFn, Vector.get_eq_getElem, entry]
  by_cases here : j = ⟨k, hk⟩
  · subst here
    simp
  · have other : k ≠ j.val := fun same => here (Fin.ext same.symm)
    have before : k < j.val + 1 ↔ k < j.val := by omega
    simp only [before, if_neg here]

/-- Callables for a map and its Jacobian, apart and in one. At points of another length they may do
anything. -/
structure Callables (α : Type) (n : Nat) where
  map : Vec α n → Vec α n
  derivative : Vec α n → Mat α n n
  f : Callable α
  j : Callable α
  fj : PairCallable α
  f_eq : ∀ (x : Vec α n) separate, f ⟨x.toArray, separate⟩ = .ok (.ofVec (map x))
  j_eq : ∀ (x : Vec α n) separate, j ⟨x.toArray, separate⟩ = .ok (.ofMat (derivative x))
  fj_eq : ∀ (x : Vec α n) separate,
    fj ⟨x.toArray, separate⟩ = .ok (.list [.ofVec (map x), .ofMat (derivative x)])

def Callables.of (map : Vec α n → Vec α n) (derivative : Vec α n → Mat α n n) : Callables α n where
  map := map
  derivative := derivative
  f p := if h : p.entries.size = n then .ok (.ofVec (map ⟨p.entries, h⟩)) else .error .noArgument
  j p :=
    if h : p.entries.size = n then .ok (.ofMat (derivative ⟨p.entries, h⟩))
    else .error .noArgument
  fj p :=
    if h : p.entries.size = n then
      .ok (.list [.ofVec (map ⟨p.entries, h⟩), .ofMat (derivative ⟨p.entries, h⟩)])
    else .error .noArgument
  f_eq x _ := dif_pos x.size_toArray
  j_eq x _ := dif_pos x.size_toArray
  fj_eq x _ := dif_pos x.size_toArray

/-- The ways to present callables: with which of them, and whether the dimension is declared. Beside
the residual a Jacobian alone may be given as such or in the callable for both. -/
inductive Presentation where
  | plain (jacobian : Bool)
  | inPlace (jacobian both declared : Bool)
  | outOfPlace (jacobian both declared : Bool)
  | separateArguments (jacobian : Bool)
  | onlyBoth (inPlace declared : Bool)

namespace Presentation

def analytic : Presentation → Bool
  | plain jacobian | separateArguments jacobian => jacobian
  | inPlace jacobian both _ | outOfPlace jacobian both _ => jacobian || both
  | onlyBoth .. => true

def given {β : Type} (present : Bool) (b : β) : Option β := if present then some b else none

def equations (w : Presentation) (c : Callables α n) :
    Except (Failure α) (Equations α × Option (Callable α)) :=
  match w with
  | plain jacobian => .ok (.callable (some c.f), given jacobian c.j)
  | inPlace jacobian both declared =>
    (SquareSystem.inPlace (some c.f) (given jacobian c.j) (given both c.fj)
      (given declared (n : Int))).map fun s => (.system s, none)
  | outOfPlace jacobian both declared =>
    (SquareSystem.outOfPlace (some c.f) (given jacobian c.j) (given both c.fj)
      (given declared (n : Int))).map fun s => (.system s, none)
  | separateArguments jacobian =>
    (SquareSystem.separateArguments (some c.f) (some n) (given jacobian c.j)).map fun s =>
      (.system s, none)
  | onlyBoth place declared =>
    (SquareSystem.onlyBoth (some c.fj) place (given declared (n : Int))).map fun s =>
      (.system s, none)

def system (w : Presentation) (c : Callables α n) : Except (Failure α) (SquareSystem α) := do
  let (e, jacobian) ← w.equations c
  e.toSystem jacobian

end Presentation

inductive Callables.Supply (c : Callables α n) : Sources α → Prop where
  | residual : c.Supply (.residualOnly (some c.f))
  | separate : c.Supply (.separate (some c.f) c.j)
  | withBoth : c.Supply (.withBoth (some c.f) none c.fj)
  | all : c.Supply (.withBoth (some c.f) (some c.j) c.fj)
  | bothOnly : c.Supply (.bothOnly (some c.fj))

namespace Presentation

theorem supply_withPair (c : Callables α n) (jacobian both : Bool) :
    c.Supply (.withPair (some c.f) (given jacobian c.j) (given both c.fj)) := by
  cases jacobian <;> cases both
  · exact .residual
  · exact .withBoth
  · exact .separate
  · exact .all

theorem analytic_withPair (c : Callables α n) (jacobian both : Bool) :
    (Sources.withPair (some c.f) (given jacobian c.j) (given both c.fj)).analytic =
      (jacobian || both) := by
  cases jacobian <;> cases both <;> rfl

theorem build_given (positive : 0 < n) (convention : Convention) (sources : Sources α)
    (declared : Bool) :
    ∃ s, SquareSystem.build convention sources (given declared (n : Int)) = .ok s ∧
      s.sources = sources ∧ ∀ d ∈ s.dimension, n = d := by
  cases declared with
  | false => exact ⟨_, rfl, rfl, fun d none => by cases none⟩
  | true =>
    have large : ¬ (n : Int) < 1 := by omega
    refine ⟨⟨convention, sources, some n⟩, ?_, rfl, fun d member => Option.mem_some.mp member⟩
    change (if (n : Int) < 1 then _ else _) = _
    rw [if_neg large]
    rfl

theorem equations_ok (positive : 0 < n) (w : Presentation) (c : Callables α n) :
    ∃ e jacobian s, w.equations c = .ok (e, jacobian) ∧ e.toSystem jacobian = .ok s ∧
      s.analytic = w.analytic ∧ (∀ d ∈ s.dimension, n = d) ∧ c.Supply s.sources := by
  -- Whatever is built of these sources, with a dimension or without.
  have wrapped (convention : Convention) {sources : Sources α} (declared : Bool)
      (supply : c.Supply sources) (analytic : sources.analytic = w.analytic)
      (built : w.equations c = (SquareSystem.build convention sources
        (given declared (n : Int))).map fun s => (.system s, none)) :
      ∃ e jacobian s, w.equations c = .ok (e, jacobian) ∧ e.toSystem jacobian = .ok s ∧
        s.analytic = w.analytic ∧ (∀ d ∈ s.dimension, n = d) ∧ c.Supply s.sources := by
    obtain ⟨s, made, rfl, suits⟩ := build_given positive convention sources declared
    rw [made] at built
    exact ⟨.system s, none, s, built, rfl, analytic, suits, supply⟩
  cases w with
  | plain jacobian =>
    exact ⟨_, _, _, rfl, rfl, (analytic_withPair c jacobian false).trans (Bool.or_false _),
      fun d member => (nomatch member), supply_withPair c jacobian false⟩
  | inPlace jacobian both declared =>
    exact wrapped .inPlace declared (supply_withPair c jacobian both)
      (analytic_withPair c jacobian both) rfl
  | outOfPlace jacobian both declared =>
    exact wrapped .outOfPlace declared (supply_withPair c jacobian both)
      (analytic_withPair c jacobian both) rfl
  | separateArguments jacobian =>
    exact wrapped .separateArguments true (supply_withPair c jacobian false)
      ((analytic_withPair c jacobian false).trans (Bool.or_false _)) rfl
  | onlyBoth place declared => exact wrapped _ declared .bothOnly rfl rfl

end Presentation

namespace SquareSystem

variable {s : SquareSystem α}

theorem received_ofVec (positive : 0 < n) (s : SquareSystem α) (caller what : Quantity)
    (x : Array α) (v : Vec α n) : Evaluation.received s caller what x [n] (.ofVec v) = .ok v := by
  have extents : ∀ k ∈ [n], 0 < k := by simpa using positive
  simp only [Evaluation.received]
  split
  · rw [Nested.ofVec, Nested.fill_ofBlock extents]
    rfl
  · exact copied_ofBlock extents what v

theorem received_ofMat (positive : 0 < n) (s : SquareSystem α) (caller what : Quantity)
    (x : Array α) (a : Mat α n n) :
    Evaluation.received s caller what x [n, n] (.ofMat a) = .ok a := by
  have extents : ∀ k ∈ [n, n], 0 < k := by simpa using positive
  simp only [Evaluation.received]
  split
  · rw [Nested.ofMat, Nested.fill_ofBlock extents]
    rfl
  · exact copied_ofBlock extents what a

theorem unpacked_pair (s : SquareSystem α) (x : Array α) (v w : Nested α) :
    Evaluation.unpacked s x (.list [v, w]) = .ok (v, w) := by
  simp only [Evaluation.unpacked]
  split <;> rfl

theorem returned_of_suits {β : Type} (suits : ∀ d ∈ s.dimension, n = d) (what : Quantity)
    (x : Vec α n) {f : Point α → Except Fault β} {b : β}
    (computes : ∀ separate, f ⟨x.toArray, separate⟩ = .ok b) :
    s.returned what x.toArray (some f) = .ok b := by
  simp only [returned]
  rw [passed_of_suits suits x.size_toArray]
  change (f (s.handed x.toArray)).mapError _ = _
  rw [handed, computes]
  rfl

variable (positive : 0 < n) (suits : ∀ d ∈ s.dimension, n = d)
include positive suits

theorem ownResidualValue_eq (c : Callables α n) (x : Vec α n) :
    s.ownResidualValue (some c.f) x.toArray n = .ok (c.map x) := by
  rw [ownResidualValue, returned_of_suits suits .residual x (c.f_eq x)]
  exact received_ofVec positive s _ _ _ _

theorem ownJacobianValue_eq (c : Callables α n) (x : Vec α n) :
    s.ownJacobianValue c.j x.toArray [n, n] = .ok (c.derivative x) := by
  rw [ownJacobianValue, returned_of_suits suits .jacobian x (c.j_eq x)]
  exact received_ofMat positive s _ _ _ _

theorem ownPairValue_eq (c : Callables α n) (x : Vec α n) :
    s.ownPairValue (some c.fj) x.toArray n [n, n] = .ok (c.map x, c.derivative x) := by
  rw [ownPairValue, returned_of_suits suits .both x (c.fj_eq x)]
  change (Evaluation.unpacked s x.toArray (.list [_, _]) >>= _) = _
  rw [unpacked_pair]
  change (Evaluation.received s .both .residual x.toArray [n] (.ofVec _) >>= _) = _
  rw [received_ofVec positive]
  change (Evaluation.received s .both .jacobian x.toArray [n, n] (.ofMat _) >>= _) = _
  rw [received_ofMat positive]
  rfl

end SquareSystem

variable [Scalar α]

namespace Callables

def quotient (c : Callables α n) (x : Vec α n) (j : Fin n) : Vec α n :=
  differenceColumn (c.map x) (c.map (x.set j (stepped (x.get j)) j.isLt)) (takenStep (x.get j))

def quotients (c : Callables α n) (x : Vec α n) : Mat α n n :=
  Vector.ofFn fun i => Vector.ofFn fun j => (c.quotient x j).get i

def jacobian (c : Callables α n) (analytic : Bool) (x : Vec α n) : Mat α n n :=
  if analytic then c.derivative x else c.quotients x

end Callables

namespace SquareSystem

theorem differencesFrom_eq {residual : Array α → Except (Failure α) (Vec α m)} {x : Vec α n}
    {moved : Fin n → Vec α m} (computes : ∀ j, residual (steppedPoint x j) = .ok (moved j))
    (base : Vec α m) (count : Nat) (bound : count ≤ n) (a : Mat α m n) :
    differencesFrom residual base x count bound a = .ok (a.columnsFrom (n - count) fun j =>
      differenceColumn base (moved j) (takenStep (x.get j))) := by
  induction count generalizing a with
  | zero =>
    rw [Nat.sub_zero, Mat.columnsFrom_all]
    rfl
  | succ count ih =>
    have place : n - count = (Fin.rev ⟨count, bound⟩ : Fin n).val + 1 := by
      simp only [Fin.val_rev]
      omega
    rw [differencesFrom]
    simp only [computes]
    refine (ih _ _).trans (congrArg _ ?_)
    rw [place]
    exact Mat.columnsFrom_setColumn _ a _

theorem differencesFrom_columns {residual : Array α → Except (Failure α) (Vec α m)} {x : Vec α n}
    {moved : Fin n → Vec α m} (computes : ∀ j, residual (steppedPoint x j) = .ok (moved j))
    (base : Vec α m) (a : Mat α m n) :
    differencesFrom residual base x n (Nat.le_refl n) a = .ok (Vector.ofFn fun i =>
      Vector.ofFn fun j => (differenceColumn base (moved j) (takenStep (x.get j))).get i) := by
  rw [differencesFrom_eq computes, Nat.sub_self, Mat.columnsFrom_zero]

theorem differencesValue_eq {s : SquareSystem α} (positive : 0 < n)
    (suits : ∀ d ∈ s.dimension, n = d) (c : Callables α n) (x : Vec α n) :
    s.differencesValue (some c.f) x (c.map x) = .ok (c.quotients x) :=
  differencesFrom_columns (fun j =>
    ownResidualValue_eq positive suits c (x.set j (stepped (x.get j)) j.isLt)) _ _

end SquareSystem

structure SquareSystem.Presents (s : SquareSystem α) (c : Callables α n) : Prop where
  residual : ∀ x : Vec α n, s.residualValue x.toArray n = .ok (c.map x)
  jacobian : ∀ x : Vec α n, s.jacobianValue x = .ok (c.jacobian s.analytic x)
  both : ∀ x : Vec α n, s.bothValue x = .ok (c.map x, c.jacobian s.analytic x)

theorem Callables.Supply.presents {c : Callables α n} {s : SquareSystem α}
    (supply : c.Supply s.sources) (positive : 0 < n) (suits : ∀ d ∈ s.dimension, n = d) :
    s.Presents c := by
  have residual := SquareSystem.ownResidualValue_eq positive suits c
  have matrix := SquareSystem.ownJacobianValue_eq positive suits c
  have pair := SquareSystem.ownPairValue_eq positive suits c
  have quotients := SquareSystem.differencesValue_eq positive suits c
  obtain ⟨convention, sources, dimension⟩ := s
  cases supply with
  | residual =>
    refine ⟨residual, fun x => ?_, fun x => ?_⟩
    · simp only [SquareSystem.jacobianValue, residual]
      exact quotients x
    · simp only [SquareSystem.bothValue, residual]
      change (SquareSystem.differencesValue _ _ _ _ >>= _) = _
      rw [quotients]
      rfl
  | separate =>
    refine ⟨residual, matrix, fun x => ?_⟩
    simp only [SquareSystem.bothValue, residual, matrix]
    rfl
  | withBoth => exact ⟨residual, fun x => congrArg (Except.map Prod.snd) (pair x), pair⟩
  | all => exact ⟨residual, matrix, pair⟩
  | bothOnly =>
    refine ⟨fun x => ?_, fun x => congrArg (Except.map Prod.snd) (pair x), pair⟩
    obtain ⟨entries, rfl⟩ := x
    exact congrArg (Except.map Prod.fst) (pair ⟨entries, rfl⟩)

/-- The three evaluations at a point put this residual and this Jacobian. -/
structure SquareSystem.Evaluates (s : SquareSystem α) (x fx : Vec α n) (jac : Mat α n n) :
    Prop where
  residual : (s.residual x.toArray : Evaluation α n [n, n] Unit).Puts (.ok fx) Desk.withResidual
    (s.residualCalls x.toArray)
  jacobian : (s.jacobian x.toArray : Evaluation α n [n, n] Unit).Puts (.ok jac)
    (fun a desk => desk.withJacobian a) (s.jacobianCalls x)
  both : (s.both x.toArray : Evaluation α n [n, n] Unit).Puts (.ok (fx, jac))
    (fun p desk => desk.withBoth p) (s.bothCalls x)

theorem SquareSystem.Presents.evaluates {s : SquareSystem α} {c : Callables α n}
    (presents : s.Presents c) (x : Vec α n) :
    s.Evaluates x (c.map x) (c.jacobian s.analytic x) := by
  refine ⟨?_, ?_, ?_⟩
  · rw [← presents.residual]
    exact s.residual_puts x.toArray
  · rw [← presents.jacobian]
    exact s.jacobian_puts x
  · rw [← presents.both]
    exact s.both_puts x

end RootFinding
