import RootFinding.Trace.Document
import RootFinding.Json.Reader
import RootFinding.Storage.FileTree

namespace RootFinding

inductive StorageFailure where
  | noSuchFile (path : Path)
  | noRunDirectory (path : Path)
  | noFileIn (name : String) (directory : Path)
  | emptyArrays
  | notArrays
  | missingArray (key : String) (path : Path)
  | missingField (key : String)
  | unreadable (e : Json.ReadError) (text : String)
  | malformed (e : Trace.Malformed) (path : Path)
  | badValue (f : Fault)

namespace StorageFailure

def className : StorageFailure → String
  | noSuchFile _ | noRunDirectory _ | noFileIn .. => "FileNotFoundError"
  | emptyArrays => "EOFError"
  | missingArray .. | missingField _ => "KeyError"
  | unreadable e _ => e.className
  | malformed (.badValue f) _ | badValue f => f.kind.name
  | notArrays | malformed .. => "ValueError"

def malformedText (path : String) : Trace.Malformed → String
  | .notObject => "Expected a JSON object in " ++ path
  | .noList key => s!"trace.json missing '{key}' list in {path}"
  | .unequalLengths => "trace.json lists have different lengths in " ++ path
  | .extrasNotObject => "trace.json extras must be list[dict] in " ++ path
  | .badValue f => f.text

def message : StorageFailure → String
  | noSuchFile path => "[Errno 2] No such file or directory: " ++ Text.quoted path.text
  | noRunDirectory path => "Run directory not found: " ++ path.text
  | noFileIn name directory => s!"No {name} found in " ++ directory.text
  | emptyArrays => "No data left in file"
  | notArrays => "Cannot load file containing pickled data when allow_pickle=False"
  | missingArray key path => s!"Missing required key '{key}' in " ++ path.text
  | missingField key => key
  | unreadable e text => e.message text
  | malformed e path => malformedText path.text e
  | badValue f => f.text

end StorageFailure

namespace FileTree

def put (t : FileTree) (directory : Path) (name : String) (c : Content) :
    Except StorageFailure FileTree :=
  if t.hasDirectory directory then .ok (t.write (directory.child name) c)
  else .error (.noSuchFile (directory.child name))

def delete (t : FileTree) (p : Path) : Except StorageFailure FileTree :=
  if t.hasFile p then .ok (t.remove p) else .error (.noSuchFile p)

end FileTree

end RootFinding
