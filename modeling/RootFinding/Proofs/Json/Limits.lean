import RootFinding.Json.Reader
import RootFinding.Proofs.Decimal.Text
import RootFinding.Proofs.Json.Fits
import RootFinding.Proofs.Plan

namespace RootFinding

namespace Decimal

theorem digitsValue_lt {ds : List Char} (all : ds.all Char.isDigit) :
    digitsValue ds < 10 ^ ds.length := by
  induction ds using List.reverseRecOn with
  | nil => exact Nat.one_pos
  | append_singleton ds c ih =>
    rw [List.all_append, Bool.and_eq_true] at all
    have digit : c.toNat - 48 < 10 := by
      have small := all.2
      simp only [List.all_cons, List.all_nil, Bool.and_true, Char.isDigit, Bool.and_eq_true,
        decide_eq_true_eq] at small
      have most : c.toNat ≤ 57 := small.2
      omega
    have value : digitsValue (ds ++ [c]) = 10 * digitsValue ds + (c.toNat - 48) := by
      rw [digitsValue, List.foldl_append]
      rfl
    rw [value, List.length_append, List.length_singleton, pow_succ]
    have := ih all.1
    omega

theorem Significant.length_toDigits {ds : List Char} (significant : Significant ds) :
    (Nat.toDigits 10 (digitsValue ds)).length = ds.length := by
  obtain ⟨all, c, cs, rfl, other⟩ := significant
  have first : 1 ≤ digitsValue [c] := by
    rw [List.all_cons, Bool.and_eq_true, Char.isDigit, Bool.and_eq_true] at all
    have least : 48 ≤ c.toNat := of_decide_eq_true all.1.1
    have apart : c.toNat ≠ 48 := fun same => other (Char.toNat_inj.mp same)
    change 1 ≤ 10 * 0 + (c.toNat - 48)
    omega
  have above : 10 ^ cs.length ≤ digitsValue (c :: cs) := by
    rw [← List.singleton_append, digitsValue_append]
    exact (Nat.le_mul_of_pos_left _ first).trans (Nat.le_add_right _ _)
  have short := Nat.toDigits_length 10 _ _ (Nat.succ_pos cs.length) (digitsValue_lt all)
  have long := above.trans_lt (digitsValue_toDigits (digitsValue (c :: cs)) ▸
    digitsValue_lt (all_toDigits (digitsValue (c :: cs))))
  rw [Nat.pow_lt_pow_iff_right (by decide)] at long
  exact Nat.le_antisymm short long

end Decimal

namespace Json

variable [limits : Limits]

inductive OverLimit : Fault → Prop
  | digits {limit count : Nat} (known : limits.digits = some limit) (many : limit < count) :
      OverLimit (.tooManyDigits limit count)
  | depth {limit : Nat} (known : limits.depth = some limit) (container : String) :
      OverLimit (.tooDeep container)

variable {β γ : Type} {fits : β → Prop} {fits' : γ → Prop}

/-- A reading under limits beside the same one without. It ends as the other does, unless it runs
into a limit; and what it reads is what fits. -/
inductive Restricts (fits : β → Prop) : (limited free : Except ReadError β) → Prop
  | beyond {f : Fault} (past : OverLimit f) {free : Except ReadError β}
      (unfit : ∀ b, free = .ok b → ¬ fits b) : Restricts fits (.error (.fault f)) free
  | refused (e : ReadError) : Restricts fits (.error e) (.error e)
  | read {b : β} (fit : fits b) : Restricts fits (.ok b) (.ok b)

namespace Restricts

theorem bind {x y : Except ReadError β} {k k' : β → Except ReadError γ}
    (first : Restricts fits x y) (next : ∀ b, fits b → Restricts fits' (k b) (k' b))
    (needs : ∀ b c, k' b = .ok c → fits' c → fits b) : Restricts fits' (x >>= k) (y >>= k') := by
  cases first with
  | beyond past unfit =>
    refine .beyond past fun c ended fit => ?_
    obtain ⟨b, known, ended⟩ := Except.bind_ok.mp ended
    exact unfit b known (needs b c ended fit)
  | refused e => exact .refused e
  | read fit => exact next _ fit

theorem self {x : Except ReadError β} (all : ∀ b, x = .ok b → fits b) : Restricts fits x x := by
  cases x with
  | error e => exact .refused e
  | ok b => exact .read (all b rfl)

end Restricts

theorem intFits_withSign {ds : List Char} (negative : Bool)
    (exact : (Nat.toDigits 10 (Decimal.digitsValue ds)).length = ds.length) :
    intFits (Decimal.withSign negative (Decimal.digitsValue ds)) =
      Limits.admitsDigits ds.length := by
  have same : (Decimal.withSign negative (Decimal.digitsValue ds)).natAbs =
      Decimal.digitsValue ds := by
    rw [Decimal.withSign]
    split <;> simp
  rw [intFits, same, exact]

theorem restricts_intOfDigits {ds : List Char} (negative : Bool)
    (exact : (Nat.toDigits 10 (Decimal.digitsValue ds)).length = ds.length) :
    Restricts (fun i => intFits i) ((Decimal.intOfDigits negative ds).mapError .fault)
      ((@Decimal.intOfDigits .unlimited negative ds).mapError .fault) := by
  have same := intFits_withSign negative exact
  rw [Decimal.intOfDigits]
  split
  · rename_i few
    exact .read (same.trans few)
  · rename_i many
    obtain ⟨limit, known, more⟩ := Limits.exists_of_not_admits many
    rw [known]
    refine .beyond (.digits known more) fun i ended fit => ?_
    cases ended
    exact many (same.symm.trans fit)

omit limits in
theorem length_toDigits_whole {body : List Char} (some' : wholeLength body ≠ 0) :
    (Nat.toDigits 10 (Decimal.digitsValue (body.take (wholeLength body)))).length =
      (body.take (wholeLength body)).length := by
  unfold wholeLength at some' ⊢
  split at some'
  · simp [Decimal.digitsValue]
  · rename_i other
    rw [← List.prefix_iff_eq_take.mp (List.takeWhile_prefix _)]
    apply Decimal.Significant.length_toDigits
    refine ⟨List.all_takeWhile, ?_⟩
    obtain ⟨c, cs, long⟩ := List.exists_cons_of_length_pos (Nat.pos_of_ne_zero some')
    refine ⟨c, cs, long, ?_⟩
    rintro rfl
    obtain ⟨rest, same⟩ := List.takeWhile_prefix (p := Char.isDigit) (l := body)
    rw [long] at same
    exact other _ same.symm

theorem restricts_readNumber (level : Nat) (c : Cursor) :
    Restricts (fun p => p.1.fits level) (readNumber c) (@readNumber .unlimited c) := by
  simp only [readNumber]
  split
  · exact .refused _
  · rename_i some'
    split
    · refine .bind (restricts_intOfDigits _ (length_toDigits_whole ?_)) (fun i fit => .read fit) ?_
      · exact fun none => some' (beq_iff_eq.mpr none)
      · rintro i p ⟨⟩ fit
        exact fit
    · split
      · exact .read rfl
      · exact .refused _

theorem restricts_descend (container : String) (level : Nat) :
    Restricts (fun _ => Limits.admitsLevel level) (descend container level)
      (@descend .unlimited container level) := by
  rw [descend]
  split
  · rename_i admitted
    exact .read admitted
  · rename_i deep
    obtain ⟨limit, known, -⟩ := Limits.exists_of_not_admits deep
    exact .beyond (.depth known container) fun _ _ => deep

section Extends

variable {level fuel : Nat} {c : Cursor} {p : Json × Cursor}

theorem readItems_extends {taken : List Json} (read : readItems level fuel c taken = .ok p) :
    ∃ items, p.1 = .arr (taken.reverse ++ items) := by
  induction fuel generalizing c taken with
  | zero => cases read
  | succ fuel ih =>
    rw [readItems] at read
    obtain ⟨⟨item, after⟩, _, read⟩ := Except.bind_ok.mp read
    dsimp only at read
    split at read
    · cases read
      exact ⟨[item], by rw [List.reverse_cons]⟩
    · obtain ⟨items, same⟩ := ih read
      exact ⟨item :: items, by rw [same, List.reverse_cons, List.append_assoc]; rfl⟩
    · cases read

theorem readMembers_extends {taken : List (String × Json)}
    (read : readMembers level fuel c taken = .ok p) :
    ∃ members, p.1 = .obj (taken.reverse ++ members) := by
  induction fuel generalizing c taken with
  | zero => cases read
  | succ fuel ih =>
    rw [readMembers] at read
    split at read
    · obtain ⟨⟨key, named⟩, _, read⟩ := Except.bind_ok.mp read
      dsimp only at read
      split at read
      · obtain ⟨⟨value, after⟩, _, read⟩ := Except.bind_ok.mp read
        dsimp only at read
        split at read
        · cases read
          exact ⟨[(key, value)], by rw [List.reverse_cons]⟩
        · obtain ⟨members, same⟩ := ih read
          exact ⟨(key, value) :: members, by rw [same, List.reverse_cons, List.append_assoc]; rfl⟩
        · cases read
      · cases read
    · cases read

end Extends

/-- With so many steps, what is read is what fits. -/
structure FuelRestricts (fuel : Nat) : Prop where
  value : ∀ level c, Restricts (fun p => p.1.fits level) (readValue level fuel c)
    (@readValue .unlimited level fuel c)
  items : ∀ level c taken, Limits.admitsLevel level → (∀ j ∈ taken, j.fits (level + 1)) →
    Restricts (fun p => p.1.fits level) (readItems (level + 1) fuel c taken)
      (@readItems .unlimited (level + 1) fuel c taken)
  members : ∀ level c taken, Limits.admitsLevel level → (∀ m ∈ taken, m.2.fits (level + 1)) →
    Restricts (fun p => p.1.fits level) (readMembers (level + 1) fuel c taken)
      (@readMembers .unlimited (level + 1) fuel c taken)

section Succ

variable {fuel : Nat} (inside : FuelRestricts fuel)

include inside

theorem restricts_readItems_succ (level : Nat) (c : Cursor) (taken : List Json)
    (admitted : Limits.admitsLevel level) (fit : ∀ j ∈ taken, j.fits (level + 1)) :
    Restricts (fun p => p.1.fits level) (readItems (level + 1) (fuel + 1) c taken)
      (@readItems .unlimited (level + 1) (fuel + 1) c taken) := by
  simp only [readItems]
  refine .bind (inside.value _ _) (fun p fits => ?_) fun p q ended fits => ?_
  · have more : ∀ j ∈ p.1 :: taken, j.fits (level + 1) := List.forall_mem_cons.mpr ⟨fits, fit⟩
    split
    · exact .read (fits_arr.mpr ⟨admitted, fun j among => more j (List.mem_reverse.mp among)⟩)
    · exact inside.items level _ _ admitted more
    · exact .refused _
  · -- What is read next holds this item.
    have holds : ∃ items, q.1 = .arr ((p.1 :: taken).reverse ++ items) := by
      split at ended
      · cases ended
        exact ⟨[], (List.append_nil _).symm ▸ rfl⟩
      · exact @readItems_extends .unlimited _ _ _ _ _ ended
      · cases ended
    obtain ⟨items, same⟩ := holds
    rw [same] at fits
    exact (fits_arr.mp fits).2 _ (by simp)

theorem restricts_readMembers_succ (level : Nat) (c : Cursor) (taken : List (String × Json))
    (admitted : Limits.admitsLevel level) (fit : ∀ m ∈ taken, m.2.fits (level + 1)) :
    Restricts (fun p => p.1.fits level) (readMembers (level + 1) (fuel + 1) c taken)
      (@readMembers .unlimited (level + 1) (fuel + 1) c taken) := by
  simp only [readMembers]
  split
  · refine .bind (.self fun _ _ => trivial) (fun named (_ : True) => ?_) fun _ _ _ _ => trivial
    split
    · refine .bind (inside.value _ _) (fun p fits => ?_) fun p q ended fits => ?_
      · have more : ∀ m ∈ (named.1, p.1) :: taken, m.2.fits (level + 1) :=
          List.forall_mem_cons.mpr ⟨fits, fit⟩
        split
        · exact .read (fits_obj.mpr ⟨admitted, fun m among => more m (List.mem_reverse.mp among)⟩)
        · exact inside.members level _ _ admitted more
        · exact .refused _
      · have holds : ∃ members, q.1 = .obj (((named.1, p.1) :: taken).reverse ++ members) := by
          split at ended
          · cases ended
            exact ⟨[], (List.append_nil _).symm ▸ rfl⟩
          · exact @readMembers_extends .unlimited _ _ _ _ _ ended
          · cases ended
        obtain ⟨members, same⟩ := holds
        rw [same] at fits
        exact (fits_obj.mp fits).2 (named.1, p.1) (by simp)
    · exact .refused _
  · exact .refused _

theorem restricts_readValue_succ (level : Nat) (c : Cursor) :
    Restricts (fun p => p.1.fits level) (readValue level (fuel + 1) c)
      (@readValue .unlimited level (fuel + 1) c) := by
  simp only [readValue]
  split
  · refine .self fun p read => ?_
    obtain ⟨_, _, ⟨⟩⟩ := Except.bind_ok.mp read
    rfl
  · refine .bind (restricts_descend _ _) (fun _ admitted => ?_) fun _ p ended fits => ?_
    · split
      · exact .read (fits_obj.mpr ⟨admitted, nofun⟩)
      · exact inside.members level _ _ admitted nofun
    · split at ended
      · cases ended
        exact (fits_obj.mp fits).1
      · obtain ⟨members, same⟩ := @readMembers_extends .unlimited _ _ _ _ _ ended
        rw [same] at fits
        exact (fits_obj.mp fits).1
  · refine .bind (restricts_descend _ _) (fun _ admitted => ?_) fun _ p ended fits => ?_
    · split
      · exact .read (fits_arr.mpr ⟨admitted, nofun⟩)
      · exact inside.items level _ _ admitted nofun
    · split at ended
      · cases ended
        exact (fits_arr.mp fits).1
      · obtain ⟨items, same⟩ := @readItems_extends .unlimited _ _ _ _ _ ended
        rw [same] at fits
        exact (fits_arr.mp fits).1
  all_goals first | exact .read rfl | exact restricts_readNumber level c

end Succ

theorem fuelRestricts (fuel : Nat) : FuelRestricts fuel := by
  induction fuel with
  | zero => exact ⟨fun _ _ => .refused _, fun _ _ _ _ _ => .refused _, fun _ _ _ _ _ => .refused _⟩
  | succ fuel ih =>
    exact ⟨restricts_readValue_succ ih, restricts_readItems_succ ih, restricts_readMembers_succ ih⟩

theorem readWritten_restricts (text : String) :
    Restricts (fun j => j.fits 0) (readWritten text) (@readWritten .unlimited text) := by
  simp only [readWritten]
  split
  · exact .refused _
  · refine .bind ((fuelRestricts _).value 0 _) (fun p fits => ?_) fun p j ended fits => ?_
    · split
      · exact .read fits
      · exact .refused _
    · split at ended
      · cases ended
        exact fits
      · cases ended

variable {text : String} {written : Json} (free : @readWritten .unlimited text = .ok written)

include free

/-- A document that fits is read as it is without limits. -/
theorem read_of_fits (fits : written.fits 0) : read text = .ok written.merged := by
  have beside := readWritten_restricts text
  rw [free] at beside
  rw [read]
  generalize readWritten text = limited at beside ⊢
  cases beside with
  | beyond _ unfit => exact absurd fits (unfit _ rfl)
  | read _ => rfl

/-- Any other document is not read, because of a limit that it passes. -/
theorem read_of_unfit (unfit : ¬ written.fits 0) :
    ∃ f, OverLimit f ∧ read text = .error (.fault f) := by
  have beside := readWritten_restricts text
  rw [free] at beside
  rw [read]
  generalize readWritten text = limited at beside ⊢
  cases beside with
  | beyond past _ => exact ⟨_, past, rfl⟩
  | read fits => exact absurd fits unfit

end Json

end RootFinding
