import RootFinding.Proofs.Storage.Run

namespace RootFinding

theorem FileTree.hasDirectory_makeDirectory_child (t : FileTree) (p : Path) (name : String) :
    (t.makeDirectory p).hasDirectory (p.child name) = t.hasDirectory (p.child name) := by
  have below : p.child name ∉ p.lineage := by
    intro among
    obtain ⟨k, short, same⟩ := List.mem_map.mp among
    have parts := congrArg (·.parts.length) same
    simp only [Path.child, List.length_take, List.length_append, List.length_singleton] at parts
    omega
  have other : p.child name ∉ p.lineage.filter (!t.hasDirectory ·) :=
    fun inside => below (List.mem_of_mem_filter inside)
  rw [hasDirectory, hasDirectory, makeDirectory, Bool.eq_iff_iff]
  simp [other]

namespace FileWork

variable {α β : Type} {t : FileTree}

theorem on_bind (work : FileWork α) (next : α → FileWork β) (t : FileTree) :
    (work >>= next).on t = match work.on t with
      | (.ok a, t') => (next a).on t'
      | (.error f, t') => (.error f, t') := by
  change (match work t with
    | (a, t') => ExceptT.bindCont next a t' : Except Fault β × FileTree) = _
  unfold on
  change _ = match work t with
    | (.ok a, t') => _
    | (.error f, t') => _
  obtain ⟨a, t'⟩ := work t
  cases a <;> rfl

@[simp] theorem on_pure (a : α) (t : FileTree) : (pure a : FileWork α).on t = (.ok a, t) := rfl

@[simp] theorem on_get (t : FileTree) : (get : FileWork FileTree).on t = (.ok t, t) := rfl

@[simp] theorem on_set (t t' : FileTree) : (set t' : FileWork PUnit).on t = (.ok (), t') := rfl

@[simp] theorem on_modify (g : FileTree → FileTree) (t : FileTree) :
    (modify g : FileWork PUnit).on t = (.ok (), g t) := rfl

@[simp] theorem on_lift (x : Except Fault α) (t : FileTree) :
    (liftM x : FileWork α).on t = (x, t) := rfl

section Hosted

variable [host : Host]

/-- No file stands where a directory has to be, and none of the missing ones is refused. -/
structure Makes (t : FileTree) (p : Path) : Prop where
  free : ∀ q ∈ p :: p.lineage, ¬ t.hasFile q
  allowed : ∀ q ∈ p.lineage, ¬ t.hasDirectory q → host.refusal q = none

structure Opens (t : FileTree) (p : Path) : Prop where
  free : ¬ t.hasDirectory p
  allowed : host.refusal p = none

theorem makes_iff {p : Path} : Makes t p ↔ t.hasFile p = false ∧ p.lineage.any t.hasFile = false ∧
    (p.lineage.filter (!t.hasDirectory ·)).findSome? host.refusal = none := by
  rw [List.any_eq_false, List.findSome?_eq_none_iff]
  simp only [List.mem_filter, Bool.not_eq_true', and_imp]
  constructor
  · rintro ⟨free, allowed⟩
    rw [List.forall_mem_cons] at free
    exact ⟨Bool.eq_false_iff.mpr free.1, free.2,
      fun q among missing => allowed q among (Bool.eq_false_iff.mp missing)⟩
  · rintro ⟨none, free, allowed⟩
    exact ⟨List.forall_mem_cons.mpr ⟨Bool.eq_false_iff.mp none, free⟩,
      fun q among missing => allowed q among (Bool.eq_false_iff.mpr missing)⟩

theorem makeDirectory_on {p : Path} (makes : Makes t p) :
    (makeDirectory p).on t = (.ok (), t.makeDirectory p) := by
  obtain ⟨none, free, allowed⟩ := makes_iff.mp makes
  have all : (p.lineage.filter (!t.hasDirectory ·)).takeWhile
      (fun q => (host.refusal q).isNone) = p.lineage.filter (!t.hasDirectory ·) :=
    List.takeWhile_eq_self_iff.mpr fun q inside => by
      rw [List.findSome?_eq_none_iff.mp allowed q inside]
      rfl
  simp only [makeDirectory, on_bind, on_get, none, free, all, allowed, on_set, on_pure,
    Bool.false_eq_true, if_false]
  rfl

theorem makeDirectory_refused {p : Path} (refused : ¬ Makes t p) :
    ∃ f left, (makeDirectory p).on t = (.error f, left) ∧ left.files = t.files := by
  simp only [makeDirectory, on_bind, on_get]
  split
  · exact ⟨_, _, rfl, rfl⟩
  split
  · exact ⟨_, _, rfl, rfl⟩
  rename_i none free
  rw [Bool.not_eq_true] at none free
  cases known : (p.lineage.filter (!t.hasDirectory ·)).findSome? host.refusal with
  | some f => exact ⟨f, _, rfl, rfl⟩
  | none => exact absurd (makes_iff.mpr ⟨none, free, known⟩) refused

theorem openFile_on {p : Path} (opens : Opens t p) : (openFile p).on t = (.ok (), t) := by
  simp [openFile, on_bind, opens.free, opens.allowed]

theorem openFile_refused {p : Path} (refused : ¬ Opens t p) :
    ∃ f, (openFile p).on t = (.error f, t) := by
  simp only [openFile, on_bind, on_get]
  split
  · exact ⟨_, rfl⟩
  rename_i free
  cases known : host.refusal p with
  | some f => exact ⟨f, rfl⟩
  | none => exact absurd ⟨free, known⟩ refused

theorem store_on {p : Path} (opens : Opens t p) (c : Content) :
    (store p c).on t = (.ok (), t.write p c) := by
  simp [store, on_bind, openFile_on opens]

theorem store_refused {p : Path} (refused : ¬ Opens t p) (c : Content) :
    ∃ f, (store p c).on t = (.error f, t) := by
  obtain ⟨f, failed⟩ := openFile_refused refused
  exact ⟨f, by rw [store, on_bind, failed]⟩

theorem opens_write {p q : Path} {c : Content} : Opens (t.write q c) p ↔ Opens t p :=
  ⟨fun opens => ⟨opens.free, opens.allowed⟩, fun opens => ⟨opens.free, opens.allowed⟩⟩

theorem storeAll_on {directory : Path} {files : List (String × Content)}
    (opens : ∀ m ∈ files, Opens t (directory.child m.1)) :
    (storeAll directory files).on t =
      (.ok (), files.foldl (fun t m => t.write (directory.child m.1) m.2) t) := by
  induction files generalizing t with
  | nil => rfl
  | cons m files ih =>
    rw [List.forall_mem_cons] at opens
    simp only [storeAll, on_bind, store_on opens.1, List.foldl_cons]
    exact ih fun m among => opens_write.mpr (opens.2 m among)

theorem storeAll_refused {directory : Path} {files : List (String × Content)}
    (refused : ¬ ∀ m ∈ files, Opens t (directory.child m.1)) :
    ∃ f left, (storeAll directory files).on t = (.error f, left) := by
  induction files generalizing t with
  | nil => exact absurd nofun refused
  | cons m files ih =>
    by_cases first : Opens t (directory.child m.1)
    · simp only [storeAll, on_bind, store_on first]
      exact ih fun opens => refused <| List.forall_mem_cons.mpr
        ⟨first, fun m among => opens_write.mp (opens m among)⟩
    · obtain ⟨f, failed⟩ := store_refused first m.2
      exact ⟨f, t, by simp only [storeAll, on_bind, failed]⟩

theorem opens_makeDirectory {p : Path} {name : String} :
    Opens (t.makeDirectory p) (p.child name) ↔ Opens t (p.child name) := by
  constructor <;> rintro ⟨free, allowed⟩ <;> refine ⟨?_, allowed⟩
  · rwa [FileTree.hasDirectory_makeDirectory_child] at free
  · rwa [FileTree.hasDirectory_makeDirectory_child]

theorem extendFile_on {p : Path} (opens : Opens t p) :
    ∃ t', (extendFile p).on t = (.ok (), t') ∧ ∀ q ≠ p, t'.read? q = t.read? q := by
  simp only [extendFile, on_bind, openFile_on opens, on_modify]
  refine ⟨_, rfl, fun q other => ?_⟩
  split
  · rfl
  · exact FileTree.read?_write_of_ne other _ _

theorem extendFile_refused {p : Path} (refused : ¬ Opens t p) :
    ∃ f, (extendFile p).on t = (.error f, t) := by
  obtain ⟨f, failed⟩ := openFile_refused refused
  exact ⟨f, by rw [extendFile, on_bind, failed]⟩

end Hosted

end FileWork

namespace Run

variable [Host] {t : FileTree} {p directory : Path} {r : Results Float} {label : Label}

/-- Nothing stands in the way of a run where the path leads. -/
structure Admits (t : FileTree) (p directory : Path) : Prop where
  expands : Host.expand p = .ok directory
  makes : FileWork.Makes t directory
  opens : ∀ name ∈ [vectorsName, descriptionName, traceName],
    FileWork.Opens t (directory.child name)

open FileWork

theorem opens_contents : (∀ m ∈ contents r label directory,
      Opens (t.makeDirectory directory) (directory.child m.1)) ↔
    ∀ name ∈ [vectorsName, descriptionName, traceName], Opens t (directory.child name) := by
  simp only [contents, List.forall_mem_cons, opens_makeDirectory, List.not_mem_nil, false_implies,
    implies_true]

theorem save_on (admits : Admits t p directory) (r : Results Float) (label : Label) :
    (save p r label).on t = (.ok (), write t directory r label) := by
  simp only [save, on_bind, on_lift, admits.expands, makeDirectory_on admits.makes]
  exact storeAll_on (opens_contents.mpr admits.opens)

theorem save_refused (refused : ∀ directory, ¬ Admits t p directory) (r : Results Float)
    (label : Label) : ∃ f left, (save p r label).on t = (.error f, left) := by
  cases expands : Host.expand p with
  | error f => exact ⟨f, t, by simp only [save, on_bind, expands, on_lift]⟩
  | ok directory =>
    simp only [save, on_bind, expands, on_lift]
    by_cases makes : Makes t directory
    · simp only [makeDirectory_on makes]
      exact storeAll_refused fun opens =>
        refused directory ⟨expands, makes, opens_contents.mp opens⟩
    · obtain ⟨f, left, failed, -⟩ := makeDirectory_refused makes
      exact ⟨f, left, by rw [failed]⟩

end Run

end RootFinding
