import Mathlib
import RootFinding.Storage.FileTree

namespace RootFinding

namespace Path

variable {p q : Path}

theorem child_ne {a b : String} (other : a ≠ b) : p.child a ≠ q.child b := by
  intro same
  have last := congrArg (·.parts.getLast?) same
  simp only [child, List.getLast?_concat, Option.some.injEq] at last
  exact other last

theorem mem_lineage (some' : p.parts ≠ []) : p ∈ p.lineage := by
  have long := List.length_pos_iff.mpr some'
  refine List.mem_map.mpr ⟨p.parts.length - 1, List.mem_range.mpr (by omega), ?_⟩
  rw [Nat.sub_add_cancel long, List.take_length]

end Path

namespace FileTree

variable {t : FileTree} {p q : Path}

theorem hasDirectory_makeDirectory (t : FileTree) (p : Path) :
    (t.makeDirectory p).hasDirectory p := by
  rw [hasDirectory, makeDirectory, Bool.or_eq_true, List.contains_iff_mem, List.mem_append,
    List.mem_filter]
  by_cases there : t.hasDirectory p
  · rw [hasDirectory, Bool.or_eq_true, List.contains_iff_mem] at there
    exact there.imp_right .inl
  · have some' : p.parts ≠ [] := by
      intro none
      rw [hasDirectory, none] at there
      exact there rfl
    exact .inr (.inr ⟨Path.mem_lineage some', by rw [Bool.eq_false_iff.mpr there]; rfl⟩)

@[simp] theorem hasDirectory_write (t : FileTree) (p q : Path) (c : Content) :
    (t.write p c).hasDirectory q = t.hasDirectory q := rfl

@[simp] theorem read?_write_self (t : FileTree) (p : Path) (c : Content) :
    (t.write p c).read? p = some c := by
  have gone : (t.remove p).files.find? (·.1 = p) = none := by
    rw [List.find?_eq_none]
    intro file inside
    simpa using (List.mem_filter.mp inside).2
  rw [read?, write, List.find?_append, gone]
  simp

theorem read?_write_of_ne (other : p ≠ q) (t : FileTree) (c : Content) :
    (t.write q c).read? p = t.read? p := by
  have kept : (t.remove q).files.find? (·.1 = p) = t.files.find? (·.1 = p) := by
    rw [remove, List.find?_filter]
    congr 1
    funext file
    rw [Bool.eq_iff_iff]
    simp only [decide_eq_true_eq, and_iff_right_iff_imp]
    rintro rfl
    exact other
  have last : [(q, c)].find? (·.1 = p) = none := by
    rw [List.find?_eq_none]
    simpa using other.symm
  rw [read?, write, List.find?_append, kept, last, Option.or_none, read?]

end FileTree

end RootFinding
