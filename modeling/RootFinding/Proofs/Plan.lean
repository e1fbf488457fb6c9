import RootFinding.Plan

namespace RootFinding

theorem Except.bind_ok {ε β γ : Type} {e : Except ε β} {f : β → Except ε γ} {c : γ} :
    e >>= f = .ok c ↔ ∃ b, e = .ok b ∧ f b = .ok c := by
  cases e with
  | error failure => simp [bind, Except.bind]
  | ok b => simp [bind, Except.bind]

theorem Except.bind_error {ε β γ : Type} {r : Except ε β} {f : β → Except ε γ} {e : ε} :
    r >>= f = .error e ↔ r = .error e ∨ ∃ b, r = .ok b ∧ f b = .error e := by
  cases r with
  | error e' => simp [bind, Except.bind]
  | ok b => simp [bind, Except.bind]

theorem Except.map_ok {ε β γ : Type} {f : β → γ} {e : Except ε β} {c : γ} :
    e.map f = .ok c ↔ ∃ b, e = .ok b ∧ f b = c := by
  cases e with
  | error failure => simp [Except.map]
  | ok b => simp [Except.map]

theorem Except.isOk_iff {ε β : Type} {e : Except ε β} : e.isOk ↔ ∃ b, e = .ok b := by
  cases e with
  | error failure => simp [Except.isOk, Except.toBool]
  | ok b => simp [Except.isOk, Except.toBool]

theorem Except.mapError_ok {ε ε' β : Type} {f : ε → ε'} {e : Except ε β} {b : β} :
    e.mapError f = .ok b ↔ e = .ok b := by
  cases e with
  | error failure => exact ⟨nofun, nofun⟩
  | ok b =>
    exact ⟨fun same => congrArg _ (Except.ok.inj same), fun same => congrArg _ (Except.ok.inj same)⟩

namespace Plan

variable {Q : Type} {R : Q → Type} {ε β γ σ : Type}

theorem bind_done (p : Plan Q R ε β) : p >>= pure = p := by
  induction p with
  | done b => rfl
  | fail e => rfl
  | ask q k ih => exact congrArg (ask q) (funext ih)

instance : LawfulMonad (Plan Q R ε) :=
  LawfulMonad.mk' _ bind_done (fun _ _ => rfl) fun p f g => by
    induction p with
    | done b => rfl
    | fail e => rfl
    | ask q k ih => exact congrArg (ask q) (funext ih)

def value (reply : (q : Q) → Except ε (R q)) : Plan Q R ε β → Except ε β
  | done b => .ok b
  | fail e => .error e
  | ask q k =>
    match reply q with
    | .ok r => (k r).value reply
    | .error e => .error e

variable {reply : (q : Q) → Except ε (R q)}

@[simp] theorem value_pure (b : β) : (pure b : Plan Q R ε β).value reply = .ok b := rfl

@[simp] theorem value_fail (e : ε) : (fail e : Plan Q R ε β).value reply = .error e := rfl

@[simp] theorem value_request (q : Q) : (request q : Plan Q R ε (R q)).value reply = reply q := by
  simp only [request, value]
  cases reply q <;> rfl

@[simp] theorem value_bind (p : Plan Q R ε β) (f : β → Plan Q R ε γ) :
    (p >>= f).value reply = p.value reply >>= fun b => (f b).value reply := by
  induction p with
  | done b => rfl
  | fail e => rfl
  | ask q k ih =>
    change (ask q fun r => (k r).bind f).value reply = _
    cases answered : reply q with
    | error e => simp only [value, answered]; rfl
    | ok r =>
      simp only [value, answered]
      exact ih r

theorem run_fst {answer : (q : Q) → σ → Except ε (R q) × σ}
    (determined : ∀ q s, (answer q s).1 = reply q) (p : Plan Q R ε β) (s : σ) :
    (p.run answer s).1 = p.value reply := by
  induction p generalizing s with
  | done b => rfl
  | fail e => rfl
  | ask q k ih =>
    -- The state may change with the answer, and the answer does not depend on it.
    have first := determined q s
    rcases answered : answer q s with ⟨result, after⟩
    rw [answered] at first
    cases result with
    | error e => simp only [run, value, answered, ← first]
    | ok r => simpa only [run, value, answered, ← first] using ih r after

theorem run_bind (answer : (q : Q) → σ → Except ε (R q) × σ) (p : Plan Q R ε β)
    (f : β → Plan Q R ε γ) (s : σ) :
    (p >>= f).run answer s =
      match p.run answer s with
      | (.ok b, after) => (f b).run answer after
      | (.error e, after) => (.error e, after) := by
  induction p generalizing s with
  | done b => rfl
  | fail e => rfl
  | ask q k ih =>
    change (ask q fun r => (k r).bind f).run answer s = _
    rcases answered : answer q s with ⟨result, after⟩
    cases result with
    | error e => simp only [run, answered]
    | ok r =>
      simp only [run, answered]
      exact ih r after

theorem run_map (answer : (q : Q) → σ → Except ε (R q) × σ) (f : β → γ) (p : Plan Q R ε β) (s : σ) :
    (f <$> p).run answer s = ((p.run answer s).1.map f, (p.run answer s).2) := by
  rw [map_eq_pure_bind, run_bind]
  rcases p.run answer s with ⟨_ | b, after⟩ <;> rfl

@[simp] theorem run_pure (answer : (q : Q) → σ → Except ε (R q) × σ) (b : β) (s : σ) :
    (pure b : Plan Q R ε β).run answer s = (.ok b, s) := rfl

@[simp] theorem run_request (answer : (q : Q) → σ → Except ε (R q) × σ) (q : Q) (s : σ) :
    (request q : Plan Q R ε (R q)).run answer s = answer q s := by
  simp only [request, run]
  rcases answer q s with ⟨_ | _, after⟩ <;> rfl

theorem run_bind_ok {answer : (q : Q) → σ → Except ε (R q) × σ} {p : Plan Q R ε β}
    {f : β → Plan Q R ε γ} {s after : σ} {c : γ} :
    (p >>= f).run answer s = (.ok c, after) ↔
      ∃ b between, p.run answer s = (.ok b, between) ∧
        (f b).run answer between = (.ok c, after) := by
  rw [run_bind]
  rcases p.run answer s with ⟨failure | b, between⟩
  · simp
  · constructor
    · intro rest
      exact ⟨b, between, rfl, rest⟩
    · rintro ⟨b', between', same, rest⟩
      cases same
      exact rest

theorem run_related {τ : Type} {answer : (q : Q) → σ → Except ε (R q) × σ}
    {answer' : (q : Q) → τ → Except ε (R q) × τ} {related : σ → τ → Prop}
    (alike : ∀ q s t, related s t → (answer q s).1 = (answer' q t).1 ∧
      related (answer q s).2 (answer' q t).2) (p : Plan Q R ε β) {s : σ} {t : τ}
    (start : related s t) :
    (p.run answer s).1 = (p.run answer' t).1 ∧ related (p.run answer s).2 (p.run answer' t).2 := by
  induction p generalizing s t with
  | done b => exact ⟨rfl, start⟩
  | fail e => exact ⟨rfl, start⟩
  | ask q k ih =>
    obtain ⟨same, between⟩ := alike q s t start
    simp only [run]
    rcases answered : answer q s with ⟨result, after⟩
    rcases answered' : answer' q t with ⟨result', after'⟩
    rw [answered, answered'] at same between
    change result = result' at same
    subst same
    cases result with
    | error e => exact ⟨rfl, between⟩
    | ok r => exact ih r between

theorem exists_ok {r : Except ε β × σ} (fine : r.1.isOk) : ∃ b, r = (.ok b, r.2) := by
  rcases r with ⟨_ | b, after⟩
  · cases fine
  · exact ⟨b, rfl⟩

theorem ok_of_toOption {r : Except ε β} {f : β → γ} {c : γ}
    (computed : r.toOption.map f = some c) : ∃ b, r = .ok b ∧ f b = c := by
  cases r with
  | error e => cases computed
  | ok b => exact ⟨b, rfl, Option.some.inj computed⟩

def Unfailing : Plan Q R ε β → Prop
  | done _ => True
  | fail _ => False
  | ask _ k => ∀ r, (k r).Unfailing

theorem unfailing_pure (b : β) : (pure b : Plan Q R ε β).Unfailing := trivial

theorem unfailing_request (q : Q) : (request q : Plan Q R ε (R q)).Unfailing := fun _ => trivial

theorem Unfailing.bind {p : Plan Q R ε β} {f : β → Plan Q R ε γ} (first : p.Unfailing)
    (rest : ∀ b, (f b).Unfailing) : (p >>= f).Unfailing := by
  induction p with
  | done b => exact rest b
  | fail e => exact first.elim
  | ask q k ih => exact fun r => ih r (first r)

theorem Unfailing.value_isOk {p : Plan Q R ε β} (unfailing : p.Unfailing)
    (replies : ∀ q, (reply q).isOk) : (p.value reply).isOk := by
  induction p with
  | done b => rfl
  | fail e => exact unfailing.elim
  | ask q k ih =>
    have known := replies q
    cases replied : reply q with
    | error e =>
      rw [replied] at known
      cases known
    | ok r =>
      simp only [value, replied]
      exact ih r (unfailing r)

/-- The requests that a plan makes when each has a fixed answer, first to last. -/
def requests (reply : (q : Q) → Except ε (R q)) : Plan Q R ε β → List Q
  | done _ | fail _ => []
  | ask q k =>
    match reply q with
    | .ok r => q :: (k r).requests reply
    | .error _ => [q]

@[simp] theorem requests_pure (b : β) : (pure b : Plan Q R ε β).requests reply = [] := rfl

@[simp] theorem requests_request (q : Q) : (request q : Plan Q R ε (R q)).requests reply = [q] := by
  simp only [request, requests]
  cases reply q <;> rfl

theorem requests_bind (p : Plan Q R ε β) (f : β → Plan Q R ε γ) :
    (p >>= f).requests reply = p.requests reply ++
      match p.value reply with
      | .ok b => (f b).requests reply
      | .error _ => [] := by
  induction p with
  | done b => rfl
  | fail e => rfl
  | ask q k ih =>
    change (ask q fun r => (k r).bind f).requests reply = _
    cases answered : reply q with
    | error e => simp only [requests, value, answered, List.append_nil]
    | ok r =>
      simp only [requests, value, answered, List.cons_append]
      exact congrArg (q :: ·) (ih r)

def AsksOnly (among : Q → Prop) : Plan Q R ε β → Prop
  | done _ | fail _ => True
  | ask q k => among q ∧ ∀ r, (k r).AsksOnly among

section AsksOnly

variable {among : Q → Prop}

theorem asksOnly_pure (b : β) : (pure b : Plan Q R ε β).AsksOnly among := trivial

theorem asksOnly_request {q : Q} (member : among q) :
    (request q : Plan Q R ε (R q)).AsksOnly among := ⟨member, fun _ => trivial⟩

theorem AsksOnly.bind {p : Plan Q R ε β} {f : β → Plan Q R ε γ} (first : p.AsksOnly among)
    (rest : ∀ b, (f b).AsksOnly among) : (p >>= f).AsksOnly among := by
  induction p with
  | done b => exact rest b
  | fail e => trivial
  | ask q k ih => exact ⟨first.1, fun r => ih r (first.2 r)⟩

theorem AsksOnly.requests {p : Plan Q R ε β} (asks : p.AsksOnly among) :
    ∀ q ∈ p.requests reply, among q := by
  induction p with
  | done b => simp [Plan.requests]
  | fail e => simp [Plan.requests]
  | ask q k ih =>
    intro q' member
    simp only [Plan.requests] at member
    split at member
    · rcases List.mem_cons.mp member with rfl | later
      · exact asks.1
      · exact ih _ (asks.2 _) q' later
    · rw [List.mem_singleton.mp member]
      exact asks.1

theorem AsksOnly.weaken {wider : Q → Prop} {p : Plan Q R ε β} (asks : p.AsksOnly among)
    (implied : ∀ q, among q → wider q) : p.AsksOnly wider := by
  induction p with
  | done b => trivial
  | fail e => trivial
  | ask q k ih => exact ⟨implied q asks.1, fun r => ih r (asks.2 r)⟩

theorem AsksOnly.serve_eq {p : Plan Q R ε β} (asks : p.AsksOnly among)
    {handler : (q : Q) → Plan Q R ε (R q)} (passed : ∀ q, among q → handler q = request q) :
    p.serve handler = p := by
  induction p with
  | done b => rfl
  | fail e => rfl
  | ask q k ih =>
    show (handler q >>= fun r => (k r).serve handler) = ask q k
    rw [passed q asks.1]
    exact congrArg (ask q) (funext fun r => ih r (asks.2 r))

theorem AsksOnly.run_kept (answer : (q : Q) → σ → Except ε (R q) × σ) (kept : σ → Prop)
    {p : Plan Q R ε β} (asks : p.AsksOnly among)
    (answers : ∀ q s, among q → kept s → kept (answer q s).2) {s : σ} (start : kept s) :
    kept (p.run answer s).2 := by
  induction p generalizing s with
  | done b => exact start
  | fail e => exact start
  | ask q k ih =>
    have between := answers q s asks.1 start
    simp only [run]
    rcases answered : answer q s with ⟨_ | r, after⟩
    · rw [answered] at between
      exact between
    · rw [answered] at between
      exact ih r (asks.2 r) between

theorem AsksOnly.run_ok_kept {answer : (q : Q) → σ → Except ε (R q) × σ} {kept : σ → Prop}
    (answers : ∀ q s r after, among q → kept s → answer q s = (.ok r, after) → kept after)
    {p : Plan Q R ε β} (asks : p.AsksOnly among) {s after : σ} {b : β}
    (ran : p.run answer s = (.ok b, after)) (start : kept s) : kept after := by
  induction p generalizing s with
  | done b =>
    cases ran
    exact start
  | fail e => cases ran
  | ask q k ih =>
    simp only [run] at ran
    rcases answered : answer q s with ⟨_ | r, between⟩
    · rw [answered] at ran
      cases ran
    · rw [answered] at ran
      exact ih r (asks.2 r) ran (answers q s r between asks.1 start answered)

theorem asksOnly_any (p : Plan Q R ε β) : p.AsksOnly fun _ => True := by
  induction p with
  | done b => trivial
  | fail e => trivial
  | ask q k ih => exact ⟨trivial, ih⟩

theorem run_kept {answer : (q : Q) → σ → Except ε (R q) × σ} {kept : σ → Prop}
    (answers : ∀ q s r after, kept s → answer q s = (.ok r, after) → kept after)
    {p : Plan Q R ε β} {s after : σ} {b : β} (ran : p.run answer s = (.ok b, after))
    (start : kept s) : kept after :=
  (asksOnly_any p).run_ok_kept (fun q s r after _ => answers q s r after) ran start

end AsksOnly

section Serve

variable {Q' : Type} {R' : Q' → Type} {inner : (q : Q') → Except ε (R' q)}

variable {handler : (q : Q) → Plan Q' R' ε (R q)}

@[simp] theorem serve_bind (p : Plan Q R ε β) (f : β → Plan Q R ε γ) :
    (p >>= f).serve handler = p.serve handler >>= fun b => (f b).serve handler := by
  induction p with
  | done b => rfl
  | fail e => rfl
  | ask q k ih =>
    show (handler q >>= fun r => ((k r) >>= f).serve handler) =
      (handler q >>= fun r => (k r).serve handler) >>= fun b => (f b).serve handler
    rw [bind_assoc]
    exact congrArg _ (funext ih)

theorem AsksOnly.serve {among : Q → Prop} {among' : Q' → Prop} {p : Plan Q R ε β}
    (asks : p.AsksOnly among) (handled : ∀ q, among q → (handler q).AsksOnly among') :
    (p.serve handler).AsksOnly among' := by
  induction p with
  | done b => trivial
  | fail e => trivial
  | ask q k ih => exact (handled q asks.1).bind fun r => ih r (asks.2 r)

theorem run_serve (answer : (q : Q') → σ → Except ε (R' q) × σ) (p : Plan Q R ε β) (s : σ) :
    (p.serve handler).run answer s = p.run (fun q s => (handler q).run answer s) s := by
  induction p generalizing s with
  | done b => rfl
  | fail e => rfl
  | ask q k ih =>
    show (handler q >>= fun r => (k r).serve handler).run answer s = _
    rw [run_bind]
    simp only [run]
    rcases (handler q).run answer s with ⟨_ | r, after⟩
    · rfl
    · exact ih r after

theorem value_serve (handler : (q : Q) → Plan Q' R' ε (R q)) (p : Plan Q R ε β) :
    (p.serve handler).value inner = p.value fun q => (handler q).value inner := by
  induction p with
  | done b => rfl
  | fail e => rfl
  | ask q k ih =>
    change (handler q >>= fun r => (k r).serve handler).value inner = _
    rw [value_bind]
    simp only [value]
    cases (handler q).value inner with
    | error e => rfl
    | ok r => exact ih r

end Serve

/-- A way through a plan, whatever is answered: the requests on it and what it ends in. -/
inductive Course : Plan Q R ε β → List Q → Except ε β → Prop where
  | done (b : β) : Course (done b) [] (.ok b)
  | fail (e : ε) : Course (fail e) [] (.error e)
  | ask {q : Q} {k : R q → Plan Q R ε β} (r : R q) {qs : List Q} {out : Except ε β} :
    Course (k r) qs out → Course (ask q k) (q :: qs) out

theorem course_pure {b : β} {qs : List Q} {out : Except ε β}
    (course : (pure b : Plan Q R ε β).Course qs out) : qs = [] ∧ out = .ok b := by
  cases course
  exact ⟨rfl, rfl⟩

theorem course_request {q : Q} {qs : List Q} {out : Except ε (R q)}
    (course : (request q : Plan Q R ε (R q)).Course qs out) : qs = [q] ∧ ∃ r, out = .ok r := by
  cases course with
  | ask r rest =>
    cases rest
    exact ⟨rfl, r, rfl⟩

theorem course_bind {p : Plan Q R ε β} {f : β → Plan Q R ε γ} {qs : List Q} {out : Except ε γ}
    (course : (p >>= f).Course qs out) :
    (∃ e, out = .error e ∧ p.Course qs (.error e)) ∨
      ∃ b before after, qs = before ++ after ∧ p.Course before (.ok b) ∧
        (f b).Course after out := by
  induction p generalizing qs with
  | done b => exact .inr ⟨b, [], qs, rfl, .done b, course⟩
  | fail e =>
    cases course
    exact .inl ⟨e, rfl, .fail e⟩
  | ask q k ih =>
    cases course with
    | ask r rest =>
      obtain ⟨e, rfl, failed⟩ | ⟨b, before, after, rfl, first, second⟩ := ih r rest
      · exact .inl ⟨e, rfl, .ask r failed⟩
      · exact .inr ⟨b, q :: before, after, rfl, .ask r first, second⟩

theorem Unfailing.course {p : Plan Q R ε β} (unfailing : p.Unfailing) {qs : List Q}
    {out : Except ε β} (course : p.Course qs out) : ∃ b, out = .ok b := by
  induction course with
  | done b => exact ⟨b, rfl⟩
  | fail e => exact unfailing.elim
  | ask r rest ih => exact ih (unfailing r)

theorem course_value {p : Plan Q R ε β} (replies : ∀ q ∈ p.requests reply, (reply q).isOk) :
    p.Course (p.requests reply) (p.value reply) := by
  induction p with
  | done b => exact .done b
  | fail e => exact .fail e
  | ask q k ih =>
    cases answered : reply q with
    | error e =>
      have known := replies q (by simp only [requests, answered, List.mem_singleton])
      rw [answered] at known
      cases known
    | ok r =>
      simp only [requests, value, answered] at replies ⊢
      exact .ask r (ih r fun q' member => replies q' (List.mem_cons_of_mem _ member))

/-- Whatever is answered, the plan ends in a value of this kind or in a failure of its own of that
kind. -/
def Ensures (post : β → Prop) (own : ε → Prop) : Plan Q R ε β → Prop
  | done b => post b
  | fail e => own e
  | ask _ k => ∀ r, (k r).Ensures post own

section Ensures

variable {post mid : β → Prop} {last : γ → Prop} {own : ε → Prop}

theorem ensures_pure {b : β} (holds : post b) : (pure b : Plan Q R ε β).Ensures post own := holds

theorem ensures_request {q : Q} {post : R q → Prop} (all : ∀ r, post r) :
    (request q : Plan Q R ε (R q)).Ensures post own := all

theorem Ensures.bind {p : Plan Q R ε β} {f : β → Plan Q R ε γ} (first : p.Ensures mid own)
    (rest : ∀ b, mid b → (f b).Ensures last own) : (p >>= f).Ensures last own := by
  induction p with
  | done b => exact rest b first
  | fail e => exact first
  | ask q k ih => exact fun r => ih r (first r)

theorem Unfailing.ensures {p : Plan Q R ε β} (unfailing : p.Unfailing) (all : ∀ b, post b) :
    p.Ensures post own := by
  induction p with
  | done b => exact all b
  | fail e => exact unfailing.elim
  | ask q k ih => exact fun r => ih r (unfailing r)

theorem ensures_nothing (p : Plan Q R ε β) : p.Ensures (fun _ => True) fun _ => True := by
  induction p with
  | done b => trivial
  | fail e => trivial
  | ask q k ih => exact ih

theorem Ensures.weaken {more : ε → Prop} {p : Plan Q R ε β} (ensures : p.Ensures post own)
    (failures : ∀ e, own e → more e) : p.Ensures post more := by
  induction p with
  | done b => exact ensures
  | fail e => exact failures e ensures
  | ask q k ih => exact fun r => ih r (ensures r)

theorem Ensures.bind_congr {p : Plan Q R ε β} (ensures : p.Ensures post own)
    {f g : β → Plan Q R ε γ} (same : ∀ b, post b → f b = g b) : p >>= f = p >>= g := by
  induction p with
  | done b => exact same b ensures
  | fail e => rfl
  | ask q k ih => exact congrArg (ask q) (funext fun r => ih r (ensures r))

theorem AsksOnly.bind_ensures {among : Q → Prop} {p : Plan Q R ε β} {f : β → Plan Q R ε γ}
    (first : p.AsksOnly among) (ensures : p.Ensures post own)
    (rest : ∀ b, post b → (f b).AsksOnly among) : (p >>= f).AsksOnly among := by
  induction p with
  | done b => exact rest b ensures
  | fail e => trivial
  | ask q k ih => exact ⟨first.1, fun r => ih r (first.2 r) (ensures r)⟩

theorem ensures_of_course {p : Plan Q R ε β}
    (ends : ∀ qs out, p.Course qs out → (∃ b, out = .ok b ∧ post b) ∨ ∃ e, out = .error e ∧ own e) :
    p.Ensures post own := by
  induction p with
  | done b =>
    obtain ⟨_, same, holds⟩ | ⟨e, none, _⟩ := ends [] _ (.done b)
    · cases same
      exact holds
    · cases none
  | fail e =>
    obtain ⟨b, none, _⟩ | ⟨_, same, holds⟩ := ends [] _ (.fail e)
    · cases none
    · cases same
      exact holds
  | ask q k ih => exact fun r => ih r fun qs out course => ends (q :: qs) out (.ask r course)

theorem Ensures.imp {p : Plan Q R ε β} (ensures : p.Ensures mid own)
    (implied : ∀ b, mid b → post b) : p.Ensures post own := by
  induction p with
  | done b => exact implied b ensures
  | fail e => exact ensures
  | ask q k ih => exact fun r => ih r (ensures r)

theorem Ensures.serve {Q' : Type} {R' : Q' → Type} {handler : (q : Q) → Plan Q' R' ε (R q)}
    {p : Plan Q R ε β} (ensures : p.Ensures post own) (handled : ∀ q, (handler q).Unfailing) :
    (p.serve handler).Ensures post own := by
  induction p with
  | done b => exact ensures
  | fail e => exact ensures
  | ask q k ih =>
    have answered : (handler q).Ensures (fun _ => True) own :=
      (handled q).ensures fun _ => trivial
    exact answered.bind fun r _ => ih r (ensures r)

theorem Ensures.run {answer : (q : Q) → σ → Except ε (R q) × σ} {kept : σ → Prop}
    {refused : σ → ε → Prop}
    (answers : ∀ q s r after, kept s → answer q s = (.ok r, after) → kept after)
    (refuses : ∀ q s e after, kept s → answer q s = (.error e, after) → refused after e)
    {p : Plan Q R ε β} (ensures : p.Ensures post own) {s : σ} (start : kept s) :
    match p.run answer s with
    | (.ok b, after) => post b ∧ kept after
    | (.error e, after) => refused after e ∨ own e ∧ kept after := by
  induction p generalizing s with
  | done b => exact ⟨ensures, start⟩
  | fail e => exact .inr ⟨ensures, start⟩
  | ask q k ih =>
    simp only [Plan.run]
    rcases answered : answer q s with ⟨failure | r, between⟩
    · exact .inl (refuses q s failure between start answered)
    · exact ih r (ensures r) (answers q s r between start answered)

theorem Ensures.of_value {p : Plan Q R ε β} (ensures : p.Ensures post own) {b : β}
    (valued : p.value reply = .ok b) : post b := by
  induction p with
  | done b =>
    cases valued
    exact ensures
  | fail e => cases valued
  | ask q k ih =>
    simp only [value] at valued
    split at valued
    · exact ih _ (ensures _) valued
    · cases valued

theorem Ensures.error_of_value {p : Plan Q R ε β} (ensures : p.Ensures post own) {e : ε}
    (failed : p.value reply = .error e) : own e ∨ ∃ q, reply q = .error e := by
  induction p with
  | done b => cases failed
  | fail e' =>
    cases failed
    exact .inl ensures
  | ask q k ih =>
    simp only [value] at failed
    split at failed
    · exact ih _ (ensures _) failed
    · rename_i e' replied
      cases failed
      exact .inr ⟨q, replied⟩

theorem Ensures.of_run {answer : (q : Q) → σ → Except ε (R q) × σ} {p : Plan Q R ε β}
    (ensures : p.Ensures post own) {s after : σ} {b : β}
    (ran : p.run answer s = (.ok b, after)) : post b := by
  induction p generalizing s with
  | done b =>
    cases ran
    exact ensures
  | fail e => cases ran
  | ask q k ih =>
    simp only [Plan.run] at ran
    split at ran
    · exact ih _ (ensures _) ran
    · cases ran

end Ensures

end Plan

end RootFinding
