namespace RootFinding

/-- A computation over requests `Q` with answers `R`, which ends in a value or a failure. -/
inductive Plan (Q : Type) (R : Q → Type) (ε : Type) (β : Type) where
  | done (b : β)
  | fail (e : ε)
  | ask (q : Q) (k : R q → Plan Q R ε β)

namespace Plan

variable {Q : Type} {R : Q → Type} {ε β γ : Type}

def bind : Plan Q R ε β → (β → Plan Q R ε γ) → Plan Q R ε γ
  | done b, f => f b
  | fail e, _ => fail e
  | ask q k, f => ask q fun r => (k r).bind f

instance : Monad (Plan Q R ε) where
  pure := done
  bind := bind

def request (q : Q) : Plan Q R ε (R q) := ask q done

/-- Runs a plan against an environment that answers requests and carries a state; the state
survives a failure. -/
def run {σ : Type} (answer : (q : Q) → σ → Except ε (R q) × σ) :
    Plan Q R ε β → σ → Except ε β × σ
  | done b, s => (.ok b, s)
  | fail e, s => (.error e, s)
  | ask q k, s =>
    match answer q s with
    | (.ok r, s) => (k r).run answer s
    | (.error e, s) => (.error e, s)

def serve {Q' : Type} {R' : Q' → Type} (handler : (q : Q) → Plan Q' R' ε (R q)) :
    Plan Q R ε β → Plan Q' R' ε β
  | done b => done b
  | fail e => fail e
  | ask q k => (handler q).bind fun r => (k r).serve handler

end Plan

end RootFinding
