import RootFinding.Proofs.Plan
import RootFinding.CommandLine.Invocation

namespace RootFinding.CommandLine

variable {β : Type}

def leading : List Word → List String
  | .value s :: words => s :: leading words
  | _ => []

def sections : List Word → List (Flag × List String)
  | [] => []
  | .flag f own :: words => (f, own.toList ++ leading words) :: sections words
  | _ :: words => sections words

def Stands (given : List (Flag × List String)) (flag : Flag) (standard : β)
    (means : List String → β → Prop) (v : β) : Prop :=
  match given.reverse.lookup flag with
  | none => v = standard
  | some texts => means texts v

def MeansFloat (texts : List String) (v : Float) : Prop :=
  ∃ s, texts = [s] ∧ Decimal.readFloat? s = some v

namespace Draft

theorem float_ok {flag : Flag} {s : String} {v : Float} :
    float flag s = .ok v ↔ Decimal.readFloat? s = some v := by
  rw [float]
  cases Decimal.readFloat? s <;> simp

theorem choice_ok {flag : Flag} {choices : List β} {name : β → String} {s : String} {b : β}
    (chosen : choice flag choices name s = .ok b) : b ∈ choices ∧ name b = s := by
  rw [choice] at chosen
  split at chosen
  · rename_i found
    cases chosen
    have same := List.find?_some found
    exact ⟨List.mem_of_find?_eq_some found, of_decide_eq_true same⟩
  · cases chosen

theorem mapM_float_ok {flag : Flag} {texts : List String} {x : List Float}
    (read : texts.mapM (float flag) = .ok x) : texts.mapM Decimal.readFloat? = some x := by
  induction texts generalizing x with
  | nil =>
    cases read
    rfl
  | cons s texts ih =>
    rw [List.mapM_cons] at read ⊢
    obtain ⟨v, first, read⟩ := Except.bind_ok.mp read
    obtain ⟨later, rest, read⟩ := Except.bind_ok.mp read
    cases read
    rw [float_ok.mp first, ih rest]
    rfl

end Draft

variable [Limits]

structure Says (given : List (Flag × List String)) (i : Invocation) : Prop where
  problem : ∃ p ∈ Problem.all (α := Float), p.name = i.problem ∧
    given.reverse.lookup .problem = some [p.name]
  out : Stands given .out none (fun texts v => ∃ s, texts = [s] ∧ v = some s) i.out
  method : Stands given .method .trustRegion (fun texts m => texts = [m.option]) i.method
  x0 : Stands given .x0 none
    (fun texts v => texts ≠ [] ∧ ∃ x, texts.mapM Decimal.readFloat? = some x ∧ v = some x) i.x0
  xtol : Stands given .xtol 0.0 MeansFloat i.xtol
  ftol : Stands given .ftol 1e-8 MeansFloat i.ftol
  iterations : Stands given .iterations 1000
    (fun texts k => ∃ s, texts = [s] ∧ Decimal.readInt s = .ok k) i.iterations
  factor : Stands given .factor 1.0 MeansFloat i.factor
  noAutoscale : Stands given .noAutoscale false (fun _ v => v = true) i.noAutoscale
  search : Stands given .linesearch .backtracking (fun texts c => texts = [c.text]) i.search
  finiteDifference : Stands given .finiteDifference false (fun _ v => v = true) i.finiteDifference
  showTrace : Stands given .showTrace false (fun _ v => v = true) i.showTrace
  extendedTrace : Stands given .extendedTrace false (fun _ v => v = true) i.extendedTrace
  logLevel : Stands given .logLevel .info (fun texts l => texts = [l.name]) i.logLevel

namespace Draft

/-- What setting an option with the values found for it does to a draft. -/
inductive Sets (d : Draft) : Flag → List String → Draft → Prop
  | problem {p : Problem Float} (known : p ∈ Problem.all) :
    Sets d .problem [p.name] { d with problem := some p.name }
  | out (s : String) : Sets d .out [s] { d with rest := { d.rest with out := some s } }
  | method (m : Method) : Sets d .method [m.option] { d with rest := { d.rest with method := m } }
  | x0 {texts : List String} {x : List Float} (some' : texts ≠ [])
    (read : texts.mapM Decimal.readFloat? = some x) :
    Sets d .x0 texts { d with rest := { d.rest with x0 := some x } }
  | xtol {s : String} {v : Float} (read : Decimal.readFloat? s = some v) :
    Sets d .xtol [s] { d with rest := { d.rest with xtol := v } }
  | ftol {s : String} {v : Float} (read : Decimal.readFloat? s = some v) :
    Sets d .ftol [s] { d with rest := { d.rest with ftol := v } }
  | iterations {s : String} {k : Int} (read : Decimal.readInt s = .ok k) :
    Sets d .iterations [s] { d with rest := { d.rest with iterations := k } }
  | factor {s : String} {v : Float} (read : Decimal.readFloat? s = some v) :
    Sets d .factor [s] { d with rest := { d.rest with factor := v } }
  | noAutoscale (texts : List String) :
    Sets d .noAutoscale texts { d with rest := { d.rest with noAutoscale := true } }
  | search (c : SearchChoice) :
    Sets d .linesearch [c.text] { d with rest := { d.rest with search := c } }
  | finiteDifference (texts : List String) :
    Sets d .finiteDifference texts { d with rest := { d.rest with finiteDifference := true } }
  | showTrace (texts : List String) :
    Sets d .showTrace texts { d with rest := { d.rest with showTrace := true } }
  | extendedTrace (texts : List String) :
    Sets d .extendedTrace texts { d with rest := { d.rest with extendedTrace := true } }
  | logLevel (l : Level) :
    Sets d .logLevel [l.name] { d with rest := { d.rest with logLevel := l } }

theorem int_ok {flag : Flag} {s : String} {k : Int} :
    int flag s = .ok k ↔ Decimal.readInt s = .ok k := by
  rw [int, Except.mapError_ok]

theorem setOne_sets {d d' : Draft} {flag : Flag} {s : String} (single : flag.arity = .one)
    (done : d.setOne flag s = .ok d') : d.Sets flag [s] d' := by
  cases flag with
  | help | x0 | noAutoscale | finiteDifference | showTrace | extendedTrace => cases single
  | problem =>
    obtain ⟨name, chosen, changed⟩ := Except.bind_ok.mp done
    obtain ⟨known, rfl⟩ := choice_ok chosen
    obtain ⟨p, among, rfl⟩ := List.mem_map.mp known
    cases changed
    exact .problem among
  | out =>
    cases done
    exact .out s
  | method =>
    obtain ⟨m, chosen, changed⟩ := Except.bind_ok.mp done
    obtain ⟨_, rfl⟩ := choice_ok chosen
    cases changed
    exact .method m
  | xtol =>
    obtain ⟨v, read, changed⟩ := Except.bind_ok.mp done
    cases changed
    exact .xtol (float_ok.mp read)
  | ftol =>
    obtain ⟨v, read, changed⟩ := Except.bind_ok.mp done
    cases changed
    exact .ftol (float_ok.mp read)
  | iterations =>
    obtain ⟨k, read, changed⟩ := Except.bind_ok.mp done
    cases changed
    exact .iterations (int_ok.mp read)
  | factor =>
    obtain ⟨v, read, changed⟩ := Except.bind_ok.mp done
    cases changed
    exact .factor (float_ok.mp read)
  | linesearch =>
    obtain ⟨c, chosen, changed⟩ := Except.bind_ok.mp done
    obtain ⟨_, rfl⟩ := choice_ok chosen
    cases changed
    exact .search c
  | logLevel =>
    obtain ⟨l, chosen, changed⟩ := Except.bind_ok.mp done
    obtain ⟨_, rfl⟩ := choice_ok chosen
    cases changed
    exact .logLevel l

theorem setNone_sets {d d' : Draft} {flag : Flag} {texts : List String}
    (alone : flag.arity = .none) (done : d.setNone flag = .ok d') : d.Sets flag texts d' := by
  cases flag <;> cases alone <;> cases done
  · exact .noAutoscale texts
  · exact .finiteDifference texts
  · exact .showTrace texts
  · exact .extendedTrace texts

theorem set_sets {d d' : Draft} {flag : Flag} {texts : List String}
    (done : d.set flag texts = .ok d') : d.Sets flag texts d' := by
  unfold set at done
  split at done
  · rename_i alone
    exact setNone_sets alone done
  · rename_i single
    exact setOne_sets single (Except.mapError_ok.mp done)
  · rename_i s rest many
    have known : flag = .x0 := by cases flag <;> first | rfl | cases many
    obtain ⟨x, read, done⟩ := Except.bind_ok.mp (Except.mapError_ok.mp done)
    cases done
    rw [known]
    exact .x0 (List.cons_ne_nil s rest) (mapM_float_ok read)
  · cases done

theorem setGiven_set {d d' : Draft} {flag : Flag} {s : String} (done : d.setGiven flag s = .ok d') :
    d.set flag [s] = .ok d' := by
  rw [setGiven] at done
  split at done
  · cases done
  · exact done

end Draft

def held (pending : Option Pending) (more : List String) : List (Flag × List String) :=
  (pending.map fun p => (p.flag, p.values ++ more)).toList

def setAll (d : Draft) (given : List (Flag × List String)) : Except Halt Draft :=
  given.foldlM (fun d s => d.set s.1 s.2) d

theorem setAll_cons {d d' : Draft} {s : Flag × List String} {given : List (Flag × List String)} :
    setAll d (s :: given) = .ok d' ↔
      ∃ next, d.set s.1 s.2 = .ok next ∧ setAll next given = .ok d' := by
  rw [setAll, List.foldlM_cons]
  exact Except.bind_ok

theorem setAll_held {d next d' : Draft} {pending : Option Pending}
    {given : List (Flag × List String)} (closed : close d pending = .ok next)
    (rest : setAll next given = .ok d') : setAll d (held pending [] ++ given) = .ok d' := by
  cases pending with
  | none =>
    cases closed
    exact rest
  | some p =>
    rw [held, Option.map_some, List.append_nil]
    exact setAll_cons.mpr ⟨next, closed, rest⟩

theorem collect_setAll {words : List Word} {d d' : Draft} {pending : Option Pending}
    {loose : List String} (collected : collect words d pending loose = .ok (d', [])) :
    loose = [] ∧ (pending = none → leading words = []) ∧
      setAll d (held pending (leading words) ++ sections words) = .ok d' := by
  induction words generalizing d pending loose with
  | nil =>
    obtain ⟨next, closed, done⟩ := Except.bind_ok.mp collected
    cases done
    exact ⟨rfl, fun _ => rfl, setAll_held closed rfl⟩
  | cons word words ih =>
    cases word with
    | value s =>
      rw [collect] at collected
      split at collected
      · rename_i p more
        obtain ⟨rfl, _⟩ := Option.filter_eq_some_iff.mp more
        obtain ⟨none', _, done⟩ := ih collected
        rw [held, Option.map_some, List.append_assoc] at done
        exact ⟨none', nofun, done⟩
      · obtain ⟨next, _, rest⟩ := Except.bind_ok.mp collected
        exact absurd (ih rest).1 (List.concat_ne_nil _ _)
    | flag f own =>
      cases own with
      | none =>
        obtain ⟨next, closed, rest⟩ := Except.bind_ok.mp collected
        obtain ⟨none', _, done⟩ := ih rest
        exact ⟨none', fun _ => rfl, setAll_held closed done⟩
      | some s =>
        obtain ⟨next, closed, rest⟩ := Except.bind_ok.mp collected
        obtain ⟨further, done, rest⟩ := Except.bind_ok.mp rest
        obtain ⟨none', ends, later⟩ := ih rest
        have done := Draft.setGiven_set done
        refine ⟨none', fun _ => rfl, setAll_held closed ?_⟩
        -- A value after one that is joined to its option would be left over.
        rw [sections, ends rfl]
        exact setAll_cons.mpr ⟨further, done, later⟩
    | joined s =>
      obtain ⟨next, _, halted⟩ := Except.bind_ok.mp collected
      cases halted
    | stop =>
      obtain ⟨next, _, rest⟩ := Except.bind_ok.mp collected
      exact absurd (ih rest).1 (List.concat_ne_nil _ _)
    | unknown s =>
      obtain ⟨next, _, rest⟩ := Except.bind_ok.mp collected
      exact absurd (ih rest).1 (List.concat_ne_nil _ _)

def Governs (flag : Flag) (part : Draft → β) (means : List String → β → Prop) : Prop :=
  ∀ {d d' : Draft} {f : Flag} {texts : List String}, d.Sets f texts d' →
    f = flag ∧ means texts (part d') ∨ f ≠ flag ∧ part d' = part d

theorem Governs.stands {flag : Flag} (part : Draft → β) {means : List String → β → Prop}
    {d d' : Draft} {given : List (Flag × List String)} (done : setAll d given = .ok d')
    (governs : Governs flag part means) : Stands given flag (part d) means (part d') := by
  induction given generalizing d with
  | nil =>
    cases done
    rfl
  | cons s given ih =>
    obtain ⟨next, first, rest⟩ := setAll_cons.mp done
    obtain ⟨f, texts⟩ := s
    have later := ih rest
    rw [Stands] at later
    rw [Stands, List.reverse_cons, List.lookup_append]
    cases known : given.reverse.lookup flag with
    | some texts =>
      rw [known] at later
      exact later
    | none =>
      -- Only where no later section has the option does this one count.
      rw [known] at later
      rw [Option.none_or]
      rcases governs (Draft.set_sets first) with ⟨rfl, now⟩ | ⟨other, now⟩
      · rw [List.lookup_cons_self, later]
        exact now
      · rw [List.lookup_cons, beq_false_of_ne (Ne.symm other), List.lookup_nil]
        exact later.trans now

theorem setAll_problem {d : Draft} {given : List (Flag × List String)} {problem : String}
    (done : setAll .blank given = .ok d) (named : d.problem = some problem) :
    ∃ p ∈ Problem.all (α := Float), p.name = problem ∧
      given.reverse.lookup .problem = some [p.name] := by
  have stands : Stands given .problem none (fun texts v =>
      ∃ p ∈ Problem.all (α := Float), texts = [p.name] ∧ v = some p.name) d.problem :=
    Governs.stands Draft.problem done fun sets => by
      cases sets with
      | problem known => exact .inl ⟨rfl, _, known, rfl, rfl⟩
      | _ => exact .inr ⟨nofun, rfl⟩
  rw [Stands, named] at stands
  cases known : given.reverse.lookup .problem with
  | none =>
    rw [known] at stands
    cases stands
  | some texts =>
    rw [known] at stands
    obtain ⟨p, among, same, name⟩ := stands
    exact ⟨p, among, (Option.some.inj name).symm, congrArg some same⟩

theorem setAll_says {d : Draft} {given : List (Flag × List String)} {problem : String}
    (done : setAll .blank given = .ok d) (named : d.problem = some problem) :
    Says given { d.rest with problem := problem } where
  problem := setAll_problem done named
  out := Governs.stands (·.rest.out) done fun sets => by
    cases sets with
    | out s => exact .inl ⟨rfl, s, rfl, rfl⟩
    | _ => exact .inr ⟨nofun, rfl⟩
  method := Governs.stands (·.rest.method) done fun sets => by
    cases sets with
    | method m => exact .inl ⟨rfl, rfl⟩
    | _ => exact .inr ⟨nofun, rfl⟩
  x0 := Governs.stands (·.rest.x0) done fun sets => by
    cases sets with
    | x0 some' read => exact .inl ⟨rfl, some', _, read, rfl⟩
    | _ => exact .inr ⟨nofun, rfl⟩
  xtol := Governs.stands (·.rest.xtol) done fun sets => by
    cases sets with
    | xtol read => exact .inl ⟨rfl, _, rfl, read⟩
    | _ => exact .inr ⟨nofun, rfl⟩
  ftol := Governs.stands (·.rest.ftol) done fun sets => by
    cases sets with
    | ftol read => exact .inl ⟨rfl, _, rfl, read⟩
    | _ => exact .inr ⟨nofun, rfl⟩
  iterations := Governs.stands (·.rest.iterations) done fun sets => by
    cases sets with
    | iterations read => exact .inl ⟨rfl, _, rfl, read⟩
    | _ => exact .inr ⟨nofun, rfl⟩
  factor := Governs.stands (·.rest.factor) done fun sets => by
    cases sets with
    | factor read => exact .inl ⟨rfl, _, rfl, read⟩
    | _ => exact .inr ⟨nofun, rfl⟩
  noAutoscale := Governs.stands (·.rest.noAutoscale) done fun sets => by
    cases sets with
    | noAutoscale => exact .inl ⟨rfl, rfl⟩
    | _ => exact .inr ⟨nofun, rfl⟩
  search := Governs.stands (·.rest.search) done fun sets => by
    cases sets with
    | search c => exact .inl ⟨rfl, rfl⟩
    | _ => exact .inr ⟨nofun, rfl⟩
  finiteDifference := Governs.stands (·.rest.finiteDifference) done fun sets => by
    cases sets with
    | finiteDifference => exact .inl ⟨rfl, rfl⟩
    | _ => exact .inr ⟨nofun, rfl⟩
  showTrace := Governs.stands (·.rest.showTrace) done fun sets => by
    cases sets with
    | showTrace => exact .inl ⟨rfl, rfl⟩
    | _ => exact .inr ⟨nofun, rfl⟩
  extendedTrace := Governs.stands (·.rest.extendedTrace) done fun sets => by
    cases sets with
    | extendedTrace => exact .inl ⟨rfl, rfl⟩
    | _ => exact .inr ⟨nofun, rfl⟩
  logLevel := Governs.stands (·.rest.logLevel) done fun sets => by
    cases sets with
    | logLevel l => exact .inl ⟨rfl, rfl⟩
    | _ => exact .inr ⟨nofun, rfl⟩

theorem read_says {arguments : List String} {i : Invocation}
    (accepted : read arguments = .ok i) :
    ∃ words, Word.ofTexts arguments = .ok words ∧ Says (sections words) i := by
  obtain ⟨words, known, rest⟩ := Except.bind_ok.mp accepted
  obtain ⟨⟨d, loose⟩, collected, ended⟩ := Except.bind_ok.mp rest
  refine ⟨words, Except.mapError_ok.mp known, ?_⟩
  dsimp only at ended
  split at ended
  · cases ended
  rename_i problem named
  split at ended
  · rename_i none'
    rw [List.isEmpty_iff.mp none'] at collected
    obtain ⟨_, _, done⟩ := collect_setAll collected
    cases ended
    exact setAll_says done named
  · cases ended

end RootFinding.CommandLine
