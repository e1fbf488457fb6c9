import RootFinding.Proofs.Solver.Replies

namespace RootFinding

variable {α : Type} {n : Nat}

theorem mapM_of_isSome {β γ : Type} {f : β → Option γ} {items : List β}
    (each : ∀ item ∈ items, (f item).isSome) :
    ∃ found, items.mapM f = some found ∧ found.length = items.length := by
  induction items with
  | nil => exact ⟨[], rfl, rfl⟩
  | cons item items ih =>
    obtain ⟨first, here⟩ := Option.isSome_iff_exists.mp (each item List.mem_cons_self)
    obtain ⟨rest, later, length⟩ := ih fun other member => each other (List.mem_cons_of_mem _ member)
    refine ⟨first :: rest, ?_, congrArg (· + 1) length⟩
    rw [List.mapM_cons, here, later]
    rfl

namespace Nested

theorem itemExtents_eq_map (items : List (Nested α)) : itemExtents items = items.map extents := by
  induction items with
  | nil => rfl
  | cons item items ih => rw [itemExtents, ih, List.map_cons]

theorem extents_of_even {items : List (Nested α)} (even : (list items).extents.even) :
    ∃ shared, (list items).extents.shared = items.length :: shared ∧
      ∀ item ∈ items, item.extents.even ∧ item.extents.shared = shared := by
  rw [extents, itemExtents_eq_map] at even ⊢
  cases items with
  | nil => exact ⟨[], rfl, fun item member => by cases member⟩
  | cons first rest =>
    simp only [List.map_cons, Extents.ofItems, List.length_map, List.length_cons] at even ⊢
    refine ⟨_, rfl, fun item member => ?_⟩
    have one := List.all_eq_true.mp even item.extents (List.mem_map_of_mem member)
    rw [Bool.and_eq_true, beq_iff_eq] at one
    exact one

theorem toBlock?_isSome : (v : Nested α) → v.extents.even →
    (v.toBlock? v.extents.shared).isSome
  | leaf a, _ => rfl
  | list items, even => by
    -- Each item is rectangular with the same extents, so the items are blocks of one type.
    obtain ⟨shared, same, each⟩ := extents_of_even even
    have blocks : ∀ item ∈ items, (item.toBlock? shared).isSome := fun item member => by
      obtain ⟨evenToo, sameToo⟩ := each item member
      rw [← sameToo]
      exact toBlock?_isSome item evenToo
    obtain ⟨found, here, length⟩ := mapM_of_isSome blocks
    rw [same, toBlock?, here, Option.bind_some, vecOfList?, dif_pos length]
    rfl
termination_by v => sizeOf v
decreasing_by
  have smaller := List.sizeOf_lt_of_mem member
  rw [list.sizeOf_spec]
  omega

theorem rectangular_ok {v : Nested α} {shared : List Nat} :
    v.rectangular = .ok shared ↔ v.extents.even ∧ v.extents.shared = shared := by
  simp only [rectangular]
  split <;> simp_all

theorem rectangular_error {v : Nested α} {f : Fault} (failed : v.rectangular = .error f) :
    f.kind = .value := by
  simp only [rectangular] at failed
  split at failed
  · cases failed
  · cases failed
    rfl

theorem fill_error {v : Nested α} {target : List Nat} {f : Fault}
    (failed : v.fill target = .error f) : f.kind = .value := by
  simp only [fill] at failed
  cases measured : v.rectangular with
  | error f' =>
    rw [measured] at failed
    cases failed
    exact rectangular_error measured
  | ok value =>
    rw [measured] at failed
    change (if _ then _ else _) = _ at failed
    split at failed
    · split at failed
      · cases failed
      · cases failed
        rfl
    · cases failed
      rfl

theorem pair_error {v : Nested α} {f : Fault} (failed : v.pair = .error f) :
    f.kind.isOwn = false := by
  rw [pair.eq_def] at failed
  split at failed
  · cases failed
  · cases failed
    rfl
  · cases failed
    rfl

end Nested

def Quantity.extents (n : Nat) : Quantity → List Nat
  | residual => [n]
  | _ => [n, n]

def CallableName.quantity : CallableName → Quantity
  | f => .residual
  | j => .jacobian
  | fj => .both

/-- The parts of what a callable yields, each with the buffer that it is for. -/
def CallableName.parts : CallableName → Nested α → Except Fault (List (Quantity × Nested α))
  | f, v => .ok [(.residual, v)]
  | j, v => .ok [(.jacobian, v)]
  | fj, v => v.pair.map fun (fx, jac) => [(.residual, fx), (.jacobian, jac)]

def Convention.Accepts (convention : Convention) (target : List Nat) (v : Nested α) : Prop :=
  match convention with
  | .inPlace => ∃ block, v.fill target = .ok block
  | _ => v.rectangular = .ok target

namespace Sources

def residual? : Sources α → Option (Callable α)
  | residualOnly f | separate f _ | withBoth f _ _ => f
  | bothOnly _ => none

def jacobian? : Sources α → Option (Callable α)
  | separate _ j => some j
  | withBoth _ j _ => j
  | _ => none

def pair? : Sources α → Option (PairCallable α)
  | withBoth _ _ fj => some fj
  | bothOnly fj => fj
  | _ => none

def callable? (sources : Sources α) : CallableName → Option (Callable α)
  | .f => sources.residual?
  | .j => sources.jacobian?
  | .fj => sources.pair?

end Sources

namespace SquareSystem

def handed (s : SquareSystem α) (x : Array α) : Point α :=
  ⟨x, s.convention == .separateArguments && s.dimension.isSome⟩

def produced (s : SquareSystem α) (c : Call α) : Except Fault (Nested α) :=
  match s.sources.callable? c.callable with
  | some f => f (s.handed c.point)
  | none => .error .noCallable

def Consists (s : SquareSystem α) (c : Call α) (parts : List (Quantity × Nested α)) : Prop :=
  ∃ v, s.produced c = .ok v ∧ c.callable.parts v = .ok parts

/-- All parts of what a call yields get into their buffers. -/
def Fits (s : SquareSystem α) (n : Nat) (c : Call α) : Prop :=
  ∃ parts, s.Consists c parts ∧ ∀ part ∈ parts, s.convention.Accepts (part.1.extents n) part.2

/-- What the call returns is no pair where it should be one, or a part of it is ragged. -/
def ReturnsMalformed (s : SquareSystem α) (c : Call α) (f : Fault) : Prop :=
  s.convention ≠ .inPlace ∧
    ((∃ v, s.produced c = .ok v ∧ c.callable.parts v = .error f) ∨
      ∃ parts, s.Consists c parts ∧ ∃ part ∈ parts, part.2.rectangular = .error f)

inductive Blames (s : SquareSystem α) (n : Nat) (c : Call α) : Failure α → Prop where
  | raised {f : Fault} : s.produced c = .error f → f.kind.isOwn = false →
    Blames s n c (.raised c.callable.quantity f c.point)
  | raisedOwn {f : Fault} : s.produced c = .error f → f.kind.isOwn → Blames s n c (.fault f)
  | inseparable {v : Nested α} {f : Fault} : s.convention = .inPlace → s.produced c = .ok v →
    c.callable.parts v = .error f → Blames s n c (.raised c.callable.quantity f c.point)
  | unwritable {parts : List (Quantity × Nested α)} {part : Quantity × Nested α} {f : Fault} :
    s.convention = .inPlace → s.Consists c parts → part ∈ parts →
      part.2.fill (part.1.extents n) = .error f →
        Blames s n c (.raised c.callable.quantity f c.point)
  | shape {parts : List (Quantity × Nested α)} {part : Quantity × Nested α} {found : List Nat} :
    s.convention ≠ .inPlace → s.Consists c parts → part ∈ parts →
      part.2.rectangular = .ok found → found ≠ part.1.extents n →
        Blames s n c (.returnedShape part.1 found (part.1.extents n))
  | malformed {f : Fault} : s.ReturnsMalformed c f → Blames s n c (.fault f)

/-- Why an evaluation failed, by the calls made until then, latest first. -/
inductive Explains [Scalar α] (s : SquareSystem α) (n : Nat) : List (Call α) → Failure α → Prop where
  | last {c : Call α} {earlier : List (Call α)} {failure : Failure α} :
    s.Blames n c failure → (∀ c ∈ earlier, s.Fits n c) → Explains s n (c :: earlier) failure
  | missing {calls : List (Call α)} {name : CallableName} {x : Array α} :
    s.sources.callable? name = none → (∀ c ∈ calls, s.Fits n c) →
      Explains s n calls (.raised name.quantity .noCallable x)
  | residual {calls : List (Call α)} {x fx : Vec α n} : (∃ c ∈ calls, c.point = x.toArray) →
    (s.residualValue x.toArray n = .ok fx ∨ ∃ jac, s.bothValue x = .ok (fx, jac)) →
      fx.allFinite = false → (∀ c ∈ calls, s.Fits n c) →
        Explains s n calls (.nonFinite Quantity.residual.label x.toArray)
  | jacobian {calls : List (Call α)} {x : Vec α n} {jac : Mat α n n} :
    (∃ c ∈ calls, c.point = x.toArray) →
    (s.jacobianValue x = .ok jac ∨ ∃ fx, s.bothValue x = .ok (fx, jac)) →
      jac.allFinite = false → (∀ c ∈ calls, s.Fits n c) →
        Explains s n calls (.nonFinite Quantity.jacobian.label x.toArray)

/-- The callable itself raises a fault that is as general as the solver's own ones get, or that is
Newton's. -/
def RaisesForeign (s : SquareSystem α) (c : Call α) (f : Fault) : Prop :=
  s.produced c = .error f ∧ f.kind ∈ [.solver, .singularJacobian]

theorem Blames.className {s : SquareSystem α} {c : Call α} {failure : Failure α}
    (blames : s.Blames n c failure) : failure.className ∈ ["ShapeError", "EvaluationError"] ∨
      ∃ f, (s.ReturnsMalformed c f ∨ s.RaisesForeign c f) ∧ failure = .fault f := by
  cases blames with
  | malformed returns => exact .inr ⟨_, .inl returns, rfl⟩
  | @raisedOwn f produced own =>
    by_cases foreign : f.kind ∈ [.solver, .singularJacobian]
    · exact .inr ⟨f, .inr ⟨produced, foreign⟩, rfl⟩
    · refine .inl ?_
      rw [Failure.className]
      generalize f.kind = kind at own foreign ⊢
      revert own foreign
      cases kind <;> decide
  | shape => exact .inl List.mem_cons_self
  | raised | inseparable | unwritable => exact .inl (List.mem_cons_of_mem _ List.mem_cons_self)

/-- All failures of evaluations are of these two classes, but for malformed values and what a
callable raises on its own account. -/
theorem Explains.className [Scalar α] {s : SquareSystem α} {calls : List (Call α)}
    {failure : Failure α} (explains : s.Explains n calls failure) :
    failure.className ∈ ["ShapeError", "EvaluationError"] ∨
      ∃ c ∈ calls, ∃ f, (s.ReturnsMalformed c f ∨ s.RaisesForeign c f) ∧ failure = .fault f := by
  cases explains with
  | last blames _ =>
    rcases blames.className with usual | unusual
    · exact .inl usual
    · exact .inr ⟨_, List.mem_cons_self, unusual⟩
  | missing | residual | jacobian => exact .inl (List.mem_cons_of_mem _ List.mem_cons_self)

theorem passed_of_suits {s : SquareSystem α} (suits : ∀ d ∈ s.dimension, n = d) {x : Array α}
    (size : x.size = n) : s.passed x = .ok (s.handed x) := by
  obtain ⟨convention, sources, dimension⟩ := s
  cases convention <;> cases dimension <;> try rfl
  rename_i d
  simp only [passed, handed]
  rw [if_pos (size.trans (suits d rfl))]
  rfl

end SquareSystem

namespace Evaluation

variable {m : Nat} {extents : List Nat} {s : SquareSystem α}

theorem copied_cases (what : Quantity) (target : List Nat) (v : Nested α) :
    (∃ block, copied what target v = .ok block ∧ v.rectangular = .ok target) ∨
      (∃ f, copied what target v = .error (.fault f) ∧ v.rectangular = .error f) ∨
      ∃ found, copied what target v = .error (.returnedShape what found target) ∧
        v.rectangular = .ok found ∧ found ≠ target := by
  simp only [copied]
  cases measured : v.rectangular with
  | error f => exact .inr (.inl ⟨f, rfl, rfl⟩)
  | ok found =>
    by_cases same : found = target
    · obtain ⟨even, shared⟩ := Nested.rectangular_ok.mp measured
      have block := Nested.toBlock?_isSome v even
      rw [shared, same] at block
      obtain ⟨b, here⟩ := Option.isSome_iff_exists.mp block
      refine .inl ⟨b, ?_, congrArg _ same⟩
      simp only [here, beq_iff_eq.mpr same]
    · refine .inr (.inr ⟨found, ?_, rfl, same⟩)
      have different : (found == target) = false := beq_eq_false_iff_ne.mpr same
      simp only [different]
      cases v.toBlock? target <;> rfl

theorem received_cases {c : Call α} {parts : List (Quantity × Nested α)}
    {part : Quantity × Nested α} (consists : s.Consists c parts) (member : part ∈ parts) :
    (∃ block, received s c.callable.quantity part.1 c.point (part.1.extents n) part.2 =
        .ok block ∧ s.convention.Accepts (part.1.extents n) part.2) ∨
      ∃ failure, received s c.callable.quantity part.1 c.point (part.1.extents n) part.2 =
        .error failure ∧ s.Blames n c failure := by
  by_cases place : s.convention = .inPlace
  · simp only [received, place, Convention.Accepts]
    cases filled : part.2.fill (part.1.extents n) with
    | ok block => exact .inl ⟨block, rfl, block, rfl⟩
    | error f =>
      refine .inr ⟨_, rfl, ?_⟩
      rw [guarded, Nested.fill_error filled]
      exact .unwritable place consists member filled
  · have copies : received s c.callable.quantity part.1 c.point (part.1.extents n) part.2 =
        copied part.1 (part.1.extents n) part.2 := by
      simp only [received]
    have accepts : s.convention.Accepts (part.1.extents n) part.2 ↔
        part.2.rectangular = .ok (part.1.extents n) := by
      simp only [Convention.Accepts]
    rw [copies, accepts]
    obtain ⟨block, here, exact'⟩ | ⟨f, here, ragged⟩ | ⟨found, here, measured, other⟩ :=
      copied_cases part.1 (part.1.extents n) part.2
    · exact .inl ⟨block, here, exact'⟩
    · exact .inr ⟨_, here, .malformed ⟨place, .inr ⟨parts, consists, part, member, ragged⟩⟩⟩
    · exact .inr ⟨_, here, .shape place consists member measured other⟩

theorem unpacked_cases {x : Array α} {v : Nested α} (produced : s.produced ⟨.fj, x⟩ = .ok v) :
    (∃ fx jac, unpacked s x v = .ok (fx, jac) ∧
        s.Consists ⟨.fj, x⟩ [(.residual, fx), (.jacobian, jac)]) ∨
      ∃ failure, unpacked s x v = .error failure ∧ s.Blames n ⟨.fj, x⟩ failure := by
  have taken : CallableName.fj.parts v =
      v.pair.map fun (fx, jac) => [(.residual, fx), (.jacobian, jac)] := rfl
  cases paired : v.pair with
  | ok pair =>
    rw [paired] at taken
    refine .inl ⟨pair.1, pair.2, ?_, v, produced, taken⟩
    simp only [unpacked, paired]
    split <;> rfl
  | error f =>
    rw [paired] at taken
    by_cases place : s.convention = .inPlace
    · refine .inr ⟨_, ?_, .inseparable place produced taken⟩
      simp only [unpacked, place, paired, Except.mapError]
      rw [guarded, Nested.pair_error paired]
      rfl
    · refine .inr ⟨_, ?_, .malformed ⟨place, .inl ⟨v, produced, taken⟩⟩⟩
      simp only [unpacked, paired, Except.mapError]

def Decides (s : SquareSystem α) (n : Nat) (c : Call α) (e : Evaluation α m extents Unit) : Prop :=
  ∀ desk, (e.run desk).2.calls = desk.calls ∧
    match (e.run desk).1 with
    | .ok _ => s.Fits n c
    | .error failure => s.Blames n c failure

/-- From calls that fit, an evaluation goes on to more of them or to a failure that they explain. -/
def Explained [Scalar α] {β : Type} (s : SquareSystem α) (n : Nat)
    (e : Evaluation α m extents β) : Prop :=
  ∀ desk, (∀ c ∈ desk.calls, s.Fits n c) →
    match e.run desk with
    | (.ok _, after) => ∀ c ∈ after.calls, s.Fits n c
    | (.error failure, after) => s.Explains n after.calls failure

section Explained

variable [Scalar α]

theorem Explained.bind {β γ : Type} {e : Evaluation α m extents β}
    {f : β → Evaluation α m extents γ} (first : Explained s n e)
    (rest : ∀ b, Explained s n (f b)) : Explained s n (e >>= f) := by
  intro desk fits
  have start := first desk fits
  rw [run_bind]
  generalize e.run desk = outcome at start ⊢
  obtain ⟨_ | b, after⟩ := outcome
  · exact start
  · exact rest b after start

theorem call_explained (name : CallableName) {f : Option (Callable α)}
    (found : s.sources.callable? name = f) (suits : ∀ d ∈ s.dimension, n = d) {x : Array α}
    (size : x.size = n) {k : Nested α → Evaluation α m extents Unit}
    (rest : ∀ v, s.produced ⟨name, x⟩ = .ok v → Decides s n ⟨name, x⟩ (k v)) :
    Explained s n (call s name name.quantity x f >>= k) := by
  intro desk fits
  have passed := SquareSystem.passed_of_suits suits size
  rw [run_bind]
  -- A missing callable is no call; otherwise this call is on record, whatever becomes of it.
  cases f with
  | none =>
    simp only [call, run_bind, point_run, passed]
    exact .missing found fits
  | some f =>
    rw [call_run_some passed]
    have produced : s.produced ⟨name, x⟩ = f (s.handed x) := by
      simp only [SquareSystem.produced, found]
    cases result : f (s.handed x) with
    | error fault =>
      rw [result] at produced
      refine .last ?_ fits
      rw [guarded]
      split
      · rename_i own
        exact .raisedOwn produced own
      · rename_i usual
        exact .raised produced (Bool.eq_false_iff.mpr usual)
    | ok v =>
      rw [result] at produced
      obtain ⟨same, decided⟩ := rest v produced { desk with calls := ⟨name, x⟩ :: desk.calls }
      simp only [Except.mapError]
      generalize (k v).run _ = outcome at same decided ⊢
      obtain ⟨failure | _, after⟩ := outcome
      · change after.calls = _ at same
        change s.Explains n after.calls failure
        rw [same]
        exact .last decided fits
      · change after.calls = _ at same
        change ∀ c ∈ after.calls, s.Fits n c
        rw [same]
        intro c member
        rcases List.mem_cons.mp member with rfl | earlier
        · exact decided
        · exact fits c earlier

theorem single_explained (name : CallableName) (what : Quantity)
    (single : ∀ v : Nested α, name.parts v = .ok [(what, v)]) {f : Option (Callable α)}
    (found : s.sources.callable? name = f)
    (suits : ∀ d ∈ s.dimension, n = d) {x : Array α} (size : x.size = n)
    {put : Block α (what.extents n) → Evaluation α m extents Unit}
    (kept : ∀ block desk, ∃ after, (put block).run desk = (.ok (), after) ∧
      after.calls = desk.calls) :
    Explained s n (call s name name.quantity x f >>= fun v =>
      liftExcept (received s name.quantity what x (what.extents n) v) >>= put) := by
  refine call_explained name found suits size fun v produced desk => ?_
  have consists : s.Consists ⟨name, x⟩ [(what, v)] := ⟨v, produced, single v⟩
  obtain ⟨block, here, accepts⟩ | ⟨failure, here, blames⟩ :=
    received_cases (n := n) consists (List.mem_singleton_self _)
  · obtain ⟨after, ran, same⟩ := kept block desk
    change received s name.quantity what x (what.extents n) v = _ at here
    have whole : (liftExcept (.ok block) >>= put).run desk = (.ok (), after) := ran
    rw [here, whole]
    refine ⟨same, _, consists, fun part member => ?_⟩
    rw [List.mem_singleton.mp member]
    exact accepts
  · change received s name.quantity what x (what.extents n) v = _ at here
    rw [here]
    exact ⟨rfl, blames⟩

theorem ownResidual_explained {f : Option (Callable α)} (found : s.sources.residual? = f)
    (suits : ∀ d ∈ s.dimension, n = d) {x : Array α} (size : x.size = n) :
    Explained s n (ownResidual s f x : Evaluation α n extents Unit) :=
  single_explained .f .residual (fun _ => rfl) found suits size fun _ _ => ⟨_, rfl, rfl⟩

theorem ownJacobian_explained {j : Callable α} (found : s.sources.jacobian? = some j)
    (suits : ∀ d ∈ s.dimension, n = d) {x : Array α} (size : x.size = n) :
    Explained s n (ownJacobian s j x : Evaluation α m [n, n] Unit) :=
  single_explained .j .jacobian (fun _ => rfl) found suits size fun _ _ => ⟨_, rfl, rfl⟩

omit [Scalar α] in
theorem received_both_decides {x : Array α} {v w : Nested α}
    (consists : s.Consists ⟨.fj, x⟩ [(.residual, v), (.jacobian, w)]) :
    Decides s n ⟨.fj, x⟩ (do
      putResidual (← liftExcept (received s .both .residual x [n] v))
      putJacobian (← liftExcept (received s .both .jacobian x [n, n] w)) :
        Evaluation α n [n, n] Unit) := by
  intro desk
  obtain ⟨fx, here, accepts⟩ | ⟨failure, here, blames⟩ :=
    received_cases (n := n) consists List.mem_cons_self
  · obtain ⟨jac, there, acceptsToo⟩ | ⟨failure, there, blames⟩ :=
      received_cases (n := n) consists (List.mem_cons_of_mem _ (List.mem_singleton_self _))
    · change received s .both .residual x [n] v = _ at here
      change received s .both .jacobian x [n, n] w = _ at there
      rw [here, there]
      refine ⟨rfl, _, consists, fun part member => ?_⟩
      rcases List.mem_cons.mp member with rfl | later
      · exact accepts
      · rw [List.mem_singleton.mp later]
        exact acceptsToo
    · change received s .both .residual x [n] v = _ at here
      change received s .both .jacobian x [n, n] w = _ at there
      rw [here, there]
      exact ⟨rfl, blames⟩
  · change received s .both .residual x [n] v = _ at here
    rw [here]
    exact ⟨rfl, blames⟩

theorem ownBoth_explained {fj : Option (PairCallable α)} (found : s.sources.pair? = fj)
    (suits : ∀ d ∈ s.dimension, n = d) {x : Array α} (size : x.size = n) :
    Explained s n (ownBoth s fj x : Evaluation α n [n, n] Unit) := by
  refine call_explained .fj found suits size fun value produced desk => ?_
  obtain ⟨v, w, apart, consists⟩ | ⟨failure, joined, blames⟩ := unpacked_cases (n := n) produced
  · rw [apart]
    exact received_both_decides consists desk
  · rw [joined]
    exact ⟨rfl, blames⟩

theorem intoBuffer_explained {k : Nat} {e : Evaluation α k extents Unit}
    (explained : Explained s n e) (buffer : Vec α k) :
    Explained s n (intoBuffer buffer e : Evaluation α m extents (Vec α k)) := by
  intro desk fits
  have own := explained ⟨buffer, desk.jacobian, desk.calls⟩ fits
  rw [intoBuffer_run]
  generalize e.run _ = outcome at own ⊢
  obtain ⟨_ | b, after⟩ := outcome <;> exact own

theorem intoResidual_explained {k : Nat} {e : Evaluation α k extents Unit}
    (explained : Explained s n e) :
    Explained s n (intoResidual k e : Evaluation α m extents (Vec α k)) :=
  intoBuffer_explained explained _

theorem intoJacobian_explained {target : List Nat} {e : Evaluation α m target Unit}
    (explained : Explained s n e) :
    Explained s n (intoJacobian target e : Evaluation α m extents (Block α target)) := by
  intro desk fits
  have own := explained ⟨desk.residual, Block.constant 0 target, desk.calls⟩ fits
  rw [intoJacobian_run]
  generalize e.run _ = outcome at own ⊢
  obtain ⟨_ | b, after⟩ := outcome <;> exact own

theorem fillColumns_explained {residual : {k : Nat} → Array α → Evaluation α k extents Unit}
    (explained : ∀ y, y.size = n → Explained s n (residual y : Evaluation α m extents Unit))
    (base : Vec α m) (h : extents = [m, n]) (count : Nat) (bound : count ≤ n) (x : Vec α n)
    (buffer : Vec α m) : Explained s n (fillColumns residual base h count bound x buffer) := by
  induction count generalizing x buffer with
  | zero => exact fun desk fits => fits
  | succ count ih =>
    rw [fillColumns, fillColumn]
    refine Explained.bind ?_ fun _ => ih _ _ _
    refine (intoBuffer_explained (explained _ (Vector.size_toArray _)) _).bind fun _ => ?_
    exact Explained.bind (fun desk fits => fits) fun _ desk fits => fits

theorem differences_explained {residual : {k : Nat} → Array α → Evaluation α k [n, n] Unit}
    (explained : ∀ y, y.size = n → Explained s n (residual y : Evaluation α n [n, n] Unit))
    (base x : Vec α n) :
    Explained s n (differences residual x.toArray base : Evaluation α n [n, n] Unit) := by
  obtain ⟨entries, rfl⟩ := x
  rw [differences, dif_pos rfl]
  exact fillColumns_explained explained base rfl _ _ ⟨entries, rfl⟩ _

end Explained

end Evaluation

namespace SquareSystem

variable [Scalar α] {s : SquareSystem α}

open Evaluation

theorem residual_explained (suits : ∀ d ∈ s.dimension, n = d) (x : Vec α n) :
    Explained s n (s.residual x.toArray : Evaluation α n [n, n] Unit) := by
  have size := Vector.size_toArray x
  obtain ⟨convention, sources, dimension⟩ := s
  cases sources with
  | residualOnly f | separate f _ | withBoth f _ _ => exact ownResidual_explained rfl suits size
  | bothOnly fj =>
    obtain ⟨entries, rfl⟩ := x
    refine (intoJacobian_explained (ownBoth_explained rfl suits size)).bind fun _ => ?_
    exact fun desk fits => fits

theorem jacobian_explained (suits : ∀ d ∈ s.dimension, n = d) (x : Vec α n) :
    Explained s n (s.jacobian x.toArray : Evaluation α n [n, n] Unit) := by
  have size := Vector.size_toArray x
  have dropped (e : Evaluation α n [n, n] Unit) (explained : Explained s n e) :
      Explained s n (intoResidual n e >>= fun _ => pure () : Evaluation α n [n, n] Unit) :=
    (intoResidual_explained explained).bind fun _ desk fits => fits
  rcases s with ⟨convention, sources, dimension⟩
  cases sources with
  | residualOnly f =>
    refine (intoResidual_explained (ownResidual_explained rfl suits size)).bind fun base => ?_
    exact dropped _ (differences_explained (fun y => ownResidual_explained rfl suits) base x)
  | separate f j => exact ownJacobian_explained rfl suits size
  | withBoth f j fj =>
    cases j with
    | none => exact dropped _ (ownBoth_explained rfl suits size)
    | some j => exact ownJacobian_explained rfl suits size
  | bothOnly fj => exact dropped _ (ownBoth_explained rfl suits size)

theorem both_explained (suits : ∀ d ∈ s.dimension, n = d) (x : Vec α n) :
    Explained s n (s.both x.toArray : Evaluation α n [n, n] Unit) := by
  have size := Vector.size_toArray x
  rcases s with ⟨convention, sources, dimension⟩
  cases sources with
  | residualOnly f =>
    refine Explained.bind (ownResidual_explained rfl suits size) fun _ => ?_
    have looked : Explained ⟨convention, .residualOnly f, dimension⟩ n
        (get : Evaluation α n [n, n] (Desk α n [n, n])) := fun desk fits => fits
    exact looked.bind fun desk =>
      differences_explained (fun y => ownResidual_explained rfl suits) desk.residual x
  | separate f j =>
    refine Explained.bind (ownResidual_explained rfl suits size) fun _ => ?_
    exact ownJacobian_explained rfl suits size
  | withBoth f j fj => exact ownBoth_explained rfl suits size
  | bothOnly fj => exact ownBoth_explained rfl suits size

omit [Scalar α] in
theorem residualCalls_point (s : SquareSystem α) (x : Array α) :
    ∃ c ∈ s.residualCalls x, c.point = x := by
  simp only [residualCalls]
  split
  all_goals exact ⟨_, List.mem_singleton_self _, rfl⟩

theorem jacobianCalls_point (s : SquareSystem α) (x : Vec α n) :
    ∃ c ∈ s.jacobianCalls x, c.point = x.toArray := by
  simp only [jacobianCalls]
  split
  · exact ⟨_, List.mem_append_right _ (List.mem_singleton_self _), rfl⟩
  all_goals exact ⟨_, List.mem_singleton_self _, rfl⟩

theorem bothCalls_point (s : SquareSystem α) (x : Vec α n) :
    ∃ c ∈ s.bothCalls x, c.point = x.toArray := by
  simp only [bothCalls]
  split
  · exact ⟨_, List.mem_append_right _ (List.mem_singleton_self _), rfl⟩
  · exact ⟨_, List.mem_cons_self, rfl⟩
  · exact ⟨_, List.mem_singleton_self _, rfl⟩

end SquareSystem

namespace Session

variable [Scalar α] {s : SquareSystem α}

def Checks (s : SquareSystem α) (session : Session α n) (check : SessionM α n Unit) : Prop :=
  match check.run session with
  | (.ok _, after) => after = session
  | (.error failure, after) => s.Explains n after.desk.calls failure

theorem checkResidual_checks {x : Vec α n} {session : Session α n}
    (fits : ∀ c ∈ session.desk.calls, s.Fits n c)
    (called : ∃ c ∈ session.desk.calls, c.point = x.toArray)
    (value : s.residualValue x.toArray n = .ok session.desk.residual ∨
      ∃ jac, s.bothValue x = .ok (session.desk.residual, jac)) :
    Checks s session (checkResidual x.toArray) := by
  rw [Checks, checkResidual_run, Vec.required]
  cases finite : session.desk.residual.allFinite with
  | true => rfl
  | false => exact .residual called value finite fits

theorem checkJacobian_checks {x : Vec α n} {session : Session α n}
    (fits : ∀ c ∈ session.desk.calls, s.Fits n c)
    (called : ∃ c ∈ session.desk.calls, c.point = x.toArray)
    (value : s.jacobianValue x = .ok session.desk.jacobian ∨
      ∃ fx, s.bothValue x = .ok (fx, session.desk.jacobian)) :
    Checks s session (checkJacobian x.toArray) := by
  rw [Checks, checkJacobian_run, Mat.required]
  cases finite : @Mat.allFinite α n n _ session.desk.jacobian with
  | true => rfl
  | false => exact .jacobian called value finite fits

theorem Checks.bind {session : Session α n} {check next : SessionM α n Unit}
    (first : Checks s session check) (second : Checks s session next) :
    Checks s session (check >>= fun _ => next) := by
  simp only [Checks] at first ⊢
  rw [Evaluation.run_bind]
  generalize check.run session = outcome at first ⊢
  obtain ⟨_ | _, after⟩ := outcome
  · exact first
  · change after = session at first
    rw [first]
    exact second

end Session

namespace Ledger

variable [Scalar α] {s : SquareSystem α}

def Fits (s : SquareSystem α) (ledger : Ledger α n) : Prop :=
  ∀ c ∈ ledger.session.desk.calls, s.Fits n c

def Explained {β : Type} (s : SquareSystem α) : Except (Failure α) β × Ledger α n → Prop
  | (.ok _, after) => after.Fits s
  | (.error failure, after) => s.Explains n after.session.desk.calls failure

theorem evaluated_explained {γ δ : Type} {e : Evaluation α n [n, n] Unit}
    (explained : Evaluation.Explained s n e) {v : Except (Failure α) γ}
    {put : γ → Desk α n [n, n] → Desk α n [n, n]} {made : List (Call α)} (puts : e.Puts v put made)
    (f j : Nat) {check : SessionM α n Unit} (look : Desk α n [n, n] → δ) (ledger : Ledger α n)
    (checks : ∀ c, v = .ok c → ∀ session : Session α n,
      session.desk = put c { ledger.session.desk with calls := made ++ ledger.session.desk.calls } →
        (∀ c ∈ session.desk.calls, s.Fits n c) → session.Checks s check)
    (fits : ledger.Fits s) :
    Explained s (ledger.evaluated (do
      Session.count f j
      Session.evaluate e
      check) look) := by
  have own := explained ledger.session.desk fits
  simp only [evaluated, Session.counted_run]
  obtain ⟨c, known, ended⟩ | ⟨failure, after, _, ended⟩ := puts.ends ledger.session.desk
  · rw [ended] at own ⊢
    have checked := checks c known ⟨_, ledger.session.fCalls + f, ledger.session.jCalls + j⟩ rfl own
    rw [Session.Checks] at checked
    dsimp only
    generalize check.run _ = outcome at checked ⊢
    obtain ⟨_ | _, session⟩ := outcome
    · exact checked
    · change session = _ at checked
      rw [checked]
      exact own
  · rw [ended] at own ⊢
    exact own

theorem answer_explained (suits : ∀ d ∈ s.dimension, n = d) (q : Request α n) (ledger : Ledger α n)
    (fits : ledger.Fits s) :
    Explained s (answer s q ledger) := by
  cases q with
  | note m => exact fits
  | residual x =>
    refine evaluated_explained (SquareSystem.residual_explained suits x)
      (s.residual_puts x.toArray) 1 0 _ ledger (fun fx known session same fits => ?_) fits
    obtain ⟨c, member, here⟩ := s.residualCalls_point x.toArray
    refine Session.checkResidual_checks fits ⟨c, ?_, here⟩ (.inl ?_)
    · rw [same]
      exact List.mem_append_left _ member
    · rw [same]
      exact known
  | jacobian x =>
    refine evaluated_explained (SquareSystem.jacobian_explained suits x)
      (s.jacobian_puts x) _ 1 _ ledger (fun jac known session same fits => ?_) fits
    obtain ⟨c, member, here⟩ := s.jacobianCalls_point x
    refine Session.checkJacobian_checks fits ⟨c, ?_, here⟩ (.inl ?_)
    · rw [same]
      exact List.mem_append_left _ member
    · rw [same]
      exact known
  | both x =>
    refine evaluated_explained (SquareSystem.both_explained suits x)
      (s.both_puts x) (if s.analytic then 1 else n + 1) 1
      (fun desk => (desk.residual, desk.jacobian)) ledger
      (fun pair known session same fits => ?_) fits
    obtain ⟨c, member, here⟩ := s.bothCalls_point x
    have called : ∃ c ∈ session.desk.calls, c.point = x.toArray := by
      refine ⟨c, ?_, here⟩
      rw [same]
      exact List.mem_append_left _ member
    have value : s.bothValue x = .ok (session.desk.residual, session.desk.jacobian) := by
      rw [same]
      exact known
    exact (Session.checkResidual_checks fits called (.inr ⟨_, value⟩)).bind
      (Session.checkJacobian_checks fits called (.inr ⟨_, value⟩))

end Ledger

end RootFinding
