import RootFinding.Storage.Path
import RootFinding.Nested

namespace RootFinding

inductive Content where
  | text (s : String)
  | arrays (members : List (String × Nested Float))

structure FileTree where
  directories : List Path
  files : List (Path × Content)

namespace FileTree

def empty : FileTree := ⟨[], []⟩

def hasDirectory (t : FileTree) (p : Path) : Bool :=
  p.parts.isEmpty || t.directories.contains p

def makeDirectory (t : FileTree) (p : Path) : FileTree :=
  { t with directories := t.directories ++ p.lineage.filter (!t.hasDirectory ·) }

def read? (t : FileTree) (p : Path) : Option Content := (t.files.find? (·.1 = p)).map (·.2)

def hasFile (t : FileTree) (p : Path) : Bool := (t.read? p).isSome

def remove (t : FileTree) (p : Path) : FileTree :=
  { t with files := t.files.filter (·.1 ≠ p) }

def write (t : FileTree) (p : Path) (c : Content) : FileTree :=
  { t with files := (t.remove p).files ++ [(p, c)] }

def entries (t : FileTree) (p : Path) : List String :=
  ((t.directories ++ t.files.map (·.1)).filterMap p.below?).eraseDups.mergeSort (· ≤ ·)

end FileTree

end RootFinding
