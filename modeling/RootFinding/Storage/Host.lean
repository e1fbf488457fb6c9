import RootFinding.Fault
import RootFinding.Storage.FileTree

namespace RootFinding

/-- What a file tree does not tell: the home of each user, the empty name being one's own, and with
what the making of a directory or the opening of a file is refused. -/
class Host where
  home : String → Option String
  refusal : Path → Option Fault

namespace Host

instance (priority := low) bare : Host := ⟨fun _ => none, fun _ => none⟩

/-- A leading `~` or `~user` stands for a home; without one, or with one that is again such a
name, there is no path. -/
def expand [host : Host] (p : Path) : Except Fault Path :=
  match p.absolute, p.parts with
  | false, first :: rest =>
    match first.toList with
    | '~' :: user =>
      match (host.home (String.ofList user)).map String.toList with
      | none | some ('~' :: _) => .error .noHome
      | some [] => .ok ⟨true, rest⟩
      | some home =>
        let base := Path.ofText (String.ofList home)
        .ok { base with parts := base.parts ++ rest }
    | _ => .ok p
  | _, _ => .ok p

end Host

/-- Work on a file tree; what is done before a failure stays. -/
abbrev FileWork (α : Type) := ExceptT Fault (StateM FileTree) α

namespace FileWork

def on {α : Type} (work : FileWork α) (t : FileTree) : Except Fault α × FileTree := work.run.run t

def systemFault (kind : FaultKind) (number : Nat) (reason : String) (p : Path) : Fault :=
  .raised kind (s!"[Errno {number}] {reason}: " ++ Text.quoted p.text)

def fileExists : Path → Fault := systemFault .fileExists 17 "File exists"

def notADirectory : Path → Fault := systemFault .notADirectory 20 "Not a directory"

def isADirectory : Path → Fault := systemFault .isADirectory 21 "Is a directory"

def makeDirectory [host : Host] (p : Path) : FileWork Unit := do
  let t ← get
  if t.hasFile p then throw (fileExists p)
  if p.lineage.any t.hasFile then throw (notADirectory p)
  let missing := p.lineage.filter (!t.hasDirectory ·)
  let made := missing.takeWhile fun q => (host.refusal q).isNone
  set { t with directories := t.directories ++ made }
  match missing.findSome? host.refusal with
  | some f => throw f
  | none => return ()

def openFile [host : Host] (p : Path) : FileWork Unit := do
  let t ← get
  if t.hasDirectory p then throw (isADirectory p)
  match host.refusal p with
  | some f => throw f
  | none => return ()

def store [Host] (p : Path) (c : Content) : FileWork Unit := do
  openFile p
  modify (·.write p c)

def storeAll [Host] (directory : Path) : List (String × Content) → FileWork Unit
  | [] => return ()
  | (name, c) :: files => do
    store (directory.child name) c
    storeAll directory files

def extendFile [Host] (p : Path) : FileWork Unit := do
  openFile p
  modify fun t => if t.hasFile p then t else t.write p (.text "")

end FileWork

end RootFinding
