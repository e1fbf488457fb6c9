import RootFinding.Trace.Entry

namespace RootFinding

/-- Entries are kept if `store`, latest first, and shown if `shows`. Only when one of these holds
and `extended` as well do they carry extras. -/
structure Recorder (α : Type) where
  store : Bool
  shows : Bool
  extended : Bool
  entries : List (Entry α)

namespace Recorder

variable {α : Type}

def enabled (r : Recorder α) : Bool := r.store || r.shows

def wantsExtras (r : Recorder α) : Bool := r.enabled && r.extended

def record (r : Recorder α) (iteration : Int) (fnorm stepnorm : α)
    (extras : Unit → Extras α) : Recorder α × Option (Entry α) :=
  if r.enabled then
    let entry : Entry α := ⟨iteration, fnorm, stepnorm, if r.extended then extras () else []⟩
    (if r.store then { r with entries := entry :: r.entries } else r,
      if r.shows then some entry else none)
  else (r, none)

/-- An entry whose iteration has still to be read, which happens only if it is used. -/
def recordGiven (r : Recorder α) (iteration : Except Fault Int) (fnorm stepnorm : α)
    (extras : Unit → Extras α) : Except Fault (Recorder α × Option (Entry α)) :=
  if r.enabled then do return r.record (← iteration) fnorm stepnorm extras
  else .ok (r, none)

def trace (r : Recorder α) : List (Entry α) := r.entries.reverse

end Recorder

end RootFinding
