import RootFinding.Proofs.Plan
import RootFinding.Proofs.Datum
import RootFinding.Proofs.Json.Conversion
import RootFinding.Proofs.Json.Limits
import RootFinding.Proofs.Storage.Run

namespace RootFinding

open Json

namespace Trace

structure Columns where
  iters : List Json
  fnorm : List Json
  stepnorm : List Json
  extras : List Json

namespace Columns

structure Aligned (c : Columns) : Prop where
  fnorm : c.fnorm.length = c.iters.length
  stepnorm : c.stepnorm.length = c.iters.length
  extras : c.extras.length = c.iters.length

structure Readable [Limits] (c : Columns) : Prop where
  iters : ∀ j ∈ c.iters, ∃ i, j.Counts i
  fnorm : ∀ j ∈ c.fnorm, ∃ v, j.Norm v
  stepnorm : ∀ j ∈ c.stepnorm, ∃ v, j.Norm v
  extras : ∀ j ∈ c.extras, ∃ members, j = .obj members

/-- The elements in one place of the lists are those of an entry. -/
structure Row [Limits] (c : Columns) (k : Nat) (e : Entry Float) : Prop where
  iteration : ∃ j, c.iters[k]? = some j ∧ j.Counts e.iteration
  fnorm : ∃ j, c.fnorm[k]? = some j ∧ j.Norm e.fnorm
  stepnorm : ∃ j, c.stepnorm[k]? = some j ∧ j.Norm e.stepnorm
  extras : ∃ j, c.extras[k]? = some j ∧ (Datum.dict e.extras).plain? = some j

end Columns

def HasList (document : Json) (key : String) (items : List Json) : Prop :=
  ∃ members, document = .obj members ∧ lookup members key = some (.arr items)

structure HasColumns (document : Json) (c : Columns) : Prop where
  iters : HasList document "iters" c.iters
  fnorm : HasList document "fnorm" c.fnorm
  stepnorm : HasList document "stepnorm" c.stepnorm
  extras : HasList document "extras" c.extras

/-- An object of four lists of one length, all of whose elements can be read. -/
def Acceptable [Limits] (document : Json) : Prop :=
  ∃ c, HasColumns document c ∧ c.Aligned ∧ c.Readable

def Describes [Limits] (document : Json) (entries : List (Entry Float)) : Prop :=
  ∃ c, HasColumns document c ∧ c.Aligned ∧ entries.length = c.iters.length ∧
    ∀ k e, entries[k]? = some e → c.Row k e

variable {document : Json} {entries : List (Entry Float)} {c : Columns}

theorem list_eq_ok {key : String} {items : List Json} :
    list document key = .ok items ↔ HasList document key items := by
  rw [list]
  constructor
  · intro read
    split at read
    · rename_i found
      cases read
      cases document with
      | obj members => exact ⟨members, rfl, found⟩
      | _ => cases found
    · cases read
  · rintro ⟨members, rfl, found⟩
    rw [get?, members?, Option.bind_some, found]

theorem entry_eq_ok [Limits] {i f s x : Json} {e : Entry Float} :
    entry i f s x = .ok e ↔ i.Counts e.iteration ∧ f.Norm e.fnorm ∧ s.Norm e.stepnorm ∧
      (Datum.dict e.extras).plain? = some x := by
  rw [Datum.plain?_eq_some, ← toInt_eq_ok, ← toFloatOrNaN_eq_ok, ← toFloatOrNaN_eq_ok]
  cases x with
  | obj members =>
    simp only [entry, Except.bind_ok, Except.mapError_ok]
    constructor
    · rintro ⟨n, iteration, u, fnorm, v, stepnorm, ⟨⟩⟩
      exact ⟨iteration, fnorm, stepnorm, rfl⟩
    · rintro ⟨iteration, fnorm, stepnorm, extras⟩
      obtain ⟨n, u, v, extras'⟩ := e
      cases extras
      exact ⟨n, iteration, u, fnorm, v, stepnorm, rfl⟩
  | _ =>
    constructor
    · rintro ⟨⟩
    · rintro ⟨_, _, _, ⟨⟩⟩

theorem exists_entry [Limits] {i f s x : Json} :
    (∃ e, entry i f s x = .ok e) ↔ (∃ n, i.Counts n) ∧ (∃ v, f.Norm v) ∧ (∃ v, s.Norm v) ∧
      ∃ members, x = .obj members := by
  simp only [entry_eq_ok]
  constructor
  · rintro ⟨e, iteration, fnorm, stepnorm, extras⟩
    obtain ⟨members, _, rfl⟩ := Option.map_eq_some_iff.mp extras
    exact ⟨⟨_, iteration⟩, ⟨_, fnorm⟩, ⟨_, stepnorm⟩, members, rfl⟩
  · rintro ⟨⟨n, iteration⟩, ⟨u, fnorm⟩, ⟨v, stepnorm⟩, members, rfl⟩
    exact ⟨⟨n, u, v, Datum.ofJsonMembers members⟩, iteration, fnorm, stepnorm,
      Datum.plain?_ofJson (.obj members)⟩

namespace Columns

def empty : Columns := ⟨[], [], [], []⟩

def cons (i f s x : Json) (c : Columns) : Columns :=
  ⟨i :: c.iters, f :: c.fnorm, s :: c.stepnorm, x :: c.extras⟩

theorem aligned_cons {i f s x : Json} (aligned : c.Aligned) : (cons i f s x c).Aligned :=
  ⟨congrArg (· + 1) aligned.fnorm, congrArg (· + 1) aligned.stepnorm,
    congrArg (· + 1) aligned.extras⟩

theorem Aligned.induction {motive : (c : Columns) → c.Aligned → Prop}
    (empty : motive empty ⟨rfl, rfl, rfl⟩)
    (cons : ∀ i f s x c (aligned : c.Aligned), motive c aligned →
      motive (cons i f s x c) (aligned_cons aligned)) (aligned : c.Aligned) : motive c aligned := by
  obtain ⟨is, fs, ss, xs⟩ := c
  obtain ⟨fnorm, stepnorm, extras⟩ := id aligned
  dsimp only at fnorm stepnorm extras
  induction is generalizing fs ss xs with
  | nil =>
    obtain rfl := List.length_eq_zero_iff.mp fnorm
    obtain rfl := List.length_eq_zero_iff.mp stepnorm
    obtain rfl := List.length_eq_zero_iff.mp extras
    exact empty
  | cons i is ih =>
    obtain ⟨f, fs, rfl⟩ := List.exists_cons_of_length_eq_add_one fnorm
    obtain ⟨s, ss, rfl⟩ := List.exists_cons_of_length_eq_add_one stepnorm
    obtain ⟨x, xs, rfl⟩ := List.exists_cons_of_length_eq_add_one extras
    have rest : Aligned ⟨is, fs, ss, xs⟩ :=
      ⟨Nat.succ.inj fnorm, Nat.succ.inj stepnorm, Nat.succ.inj extras⟩
    exact cons i f s x _ rest (ih fs ss xs rest rest.fnorm rest.stepnorm rest.extras)

variable {i f s x : Json} {e : Entry Float}

theorem row_zero [Limits] : (cons i f s x c).Row 0 e ↔ entry i f s x = .ok e := by
  rw [entry_eq_ok]
  constructor
  · rintro ⟨⟨_, ⟨⟩, iteration⟩, ⟨_, ⟨⟩, fnorm⟩, ⟨_, ⟨⟩, stepnorm⟩, ⟨_, ⟨⟩, extras⟩⟩
    exact ⟨iteration, fnorm, stepnorm, extras⟩
  · rintro ⟨iteration, fnorm, stepnorm, extras⟩
    exact ⟨⟨i, rfl, iteration⟩, ⟨f, rfl, fnorm⟩, ⟨s, rfl, stepnorm⟩, ⟨x, rfl, extras⟩⟩

theorem row_succ [Limits] {k : Nat} : (cons i f s x c).Row (k + 1) e ↔ c.Row k e :=
  ⟨fun row => ⟨row.iteration, row.fnorm, row.stepnorm, row.extras⟩,
    fun row => ⟨row.iteration, row.fnorm, row.stepnorm, row.extras⟩⟩

theorem readable_cons [Limits] :
    (cons i f s x c).Readable ↔ (∃ e, entry i f s x = .ok e) ∧ c.Readable := by
  rw [exists_entry]
  constructor
  · rintro ⟨iters, fnorm, stepnorm, extras⟩
    rw [cons, List.forall_mem_cons] at iters fnorm stepnorm extras
    exact ⟨⟨iters.1, fnorm.1, stepnorm.1, extras.1⟩, iters.2, fnorm.2, stepnorm.2, extras.2⟩
  · rintro ⟨⟨i, f, s, x⟩, iters, fnorm, stepnorm, extras⟩
    exact ⟨List.forall_mem_cons.mpr ⟨i, iters⟩, List.forall_mem_cons.mpr ⟨f, fnorm⟩,
      List.forall_mem_cons.mpr ⟨s, stepnorm⟩, List.forall_mem_cons.mpr ⟨x, extras⟩⟩

def zipped [Limits] (c : Columns) : Except Malformed (List (Entry Float)) :=
  zipEntries c.iters c.fnorm c.stepnorm c.extras

theorem zipped_cons [Limits] :
    (cons i f s x c).zipped = .ok entries ↔
      ∃ e rest, entry i f s x = .ok e ∧ c.zipped = .ok rest ∧ entries = e :: rest := by
  simp only [zipped, cons, zipEntries, Except.bind_ok]
  constructor
  · rintro ⟨e, first, rest, later, ⟨⟩⟩
    exact ⟨e, rest, first, later, rfl⟩
  · rintro ⟨e, rest, first, later, rfl⟩
    exact ⟨e, first, rest, later, rfl⟩

theorem zipped_eq_ok [Limits] (aligned : c.Aligned) :
    c.zipped = .ok entries ↔
      entries.length = c.iters.length ∧ ∀ k e, entries[k]? = some e → c.Row k e := by
  induction aligned using Aligned.induction generalizing entries with
  | empty =>
    constructor
    · rintro ⟨⟩
      exact ⟨rfl, nofun⟩
    · rintro ⟨none, _⟩
      rw [List.length_eq_zero_iff.mp none]
      rfl
  | cons i f s x c aligned ih =>
    rw [zipped_cons]
    constructor
    · rintro ⟨first, rest, read, later, rfl⟩
      obtain ⟨length, rows⟩ := ih.mp later
      refine ⟨congrArg (· + 1) length, fun k e found => ?_⟩
      cases k with
      | zero =>
        cases found
        exact row_zero.mpr read
      | succ k => exact row_succ.mpr (rows k e found)
    · rintro ⟨length, rows⟩
      cases entries with
      | nil => cases length
      | cons first rest =>
        have later := ih.mpr ⟨Nat.succ.inj length, fun k e found =>
          row_succ.mp (rows (k + 1) e found)⟩
        exact ⟨first, rest, row_zero.mp (rows 0 first rfl), later, rfl⟩

theorem exists_zipped [Limits] (aligned : c.Aligned) :
    (∃ entries, c.zipped = .ok entries) ↔ c.Readable := by
  induction aligned using Aligned.induction with
  | empty => exact ⟨fun _ => ⟨nofun, nofun, nofun, nofun⟩, fun _ => ⟨[], rfl⟩⟩
  | cons i f s x c aligned ih =>
    rw [readable_cons, ← ih]
    simp only [zipped_cons]
    constructor
    · rintro ⟨_, e, rest, first, later, _⟩
      exact ⟨⟨e, first⟩, rest, later⟩
    · rintro ⟨⟨e, first⟩, rest, later⟩
      exact ⟨_, e, rest, first, later, rfl⟩

end Columns

theorem ofJson_eq_ok [Limits] :
    ofJson document = .ok entries ↔ ∃ c, HasColumns document c ∧ c.Aligned ∧
      c.zipped = .ok entries := by
  constructor
  · intro read
    rw [ofJson] at read
    split at read
    · cases read
    obtain ⟨iters, first, read⟩ := Except.bind_ok.mp read
    obtain ⟨fnorm, second, read⟩ := Except.bind_ok.mp read
    obtain ⟨stepnorm, third, read⟩ := Except.bind_ok.mp read
    obtain ⟨extras, fourth, read⟩ := Except.bind_ok.mp read
    split at read
    · cases read
    · rename_i aligned
      refine ⟨⟨iters, fnorm, stepnorm, extras⟩, ⟨list_eq_ok.mp first, list_eq_ok.mp second,
        list_eq_ok.mp third, list_eq_ok.mp fourth⟩, ⟨?_, ?_, ?_⟩, read⟩
      all_goals
        dsimp only
        omega
  · rintro ⟨c, columns, aligned, read⟩
    have object : document.members?.isNone = false := by
      obtain ⟨members, rfl, _⟩ := columns.iters
      rfl
    have same : ¬ (c.iters.length ≠ c.fnorm.length ∨ c.fnorm.length ≠ c.stepnorm.length ∨
        c.stepnorm.length ≠ c.extras.length) := by
      obtain ⟨fnorm, stepnorm, extras⟩ := aligned
      omega
    rw [ofJson, object, list_eq_ok.mpr columns.iters, list_eq_ok.mpr columns.fnorm,
      list_eq_ok.mpr columns.stepnorm, list_eq_ok.mpr columns.extras]
    exact (if_neg same).trans read

theorem ofJson_eq_ok_iff_describes [Limits] :
    ofJson document = .ok entries ↔ Describes document entries := by
  rw [ofJson_eq_ok]
  constructor
  · rintro ⟨c, columns, aligned, read⟩
    exact ⟨c, columns, aligned, (Columns.zipped_eq_ok aligned).mp read⟩
  · rintro ⟨c, columns, aligned, rows⟩
    exact ⟨c, columns, aligned, (Columns.zipped_eq_ok aligned).mpr rows⟩

theorem exists_ofJson [Limits] :
    (∃ entries, ofJson document = .ok entries) ↔ Acceptable document := by
  simp only [ofJson_eq_ok]
  constructor
  · rintro ⟨entries, c, columns, aligned, read⟩
    exact ⟨c, columns, aligned, (Columns.exists_zipped aligned).mp ⟨entries, read⟩⟩
  · rintro ⟨c, columns, aligned, readable⟩
    obtain ⟨entries, read⟩ := (Columns.exists_zipped aligned).mpr readable
    exact ⟨entries, c, columns, aligned, read⟩

end Trace

namespace FileTree

variable [Limits] {t : FileTree} {p : Path} {document : Json}

theorem readTrace_of_error {e : StorageFailure} (failed : t.readDocument p = .error e) :
    t.readTrace p = .error e := by
  rw [readTrace, failed]
  rfl

section Written

variable {text : String} {written : Json} (there : t.readText p = .ok text)
  (free : @Json.readWritten .unlimited text = .ok written)

include there free

/-- A document that is written within the limits is read. -/
theorem readDocument_of_fits (fits : written.fits 0) : t.readDocument p = .ok written.merged := by
  rw [readDocument, there]
  change (Json.read text).mapError _ = _
  rw [Json.read_of_fits free fits]
  rfl

theorem readTrace_of_unfit (unfit : ¬ written.fits 0) :
    ∃ f, OverLimit f ∧ t.readTrace p = .error (.unreadable (.fault f) text) := by
  obtain ⟨f, past, failed⟩ := Json.read_of_unfit free unfit
  refine ⟨f, past, readTrace_of_error ?_⟩
  rw [readDocument, there]
  change (Json.read text).mapError _ = _
  rw [failed]
  rfl

end Written

end FileTree

/-- A stored trace is read exactly when its document is acceptable, and then it is the one that the
document describes; no part of any other document is read. A text is read as the document that it
is without limits, exactly if that fits as it is written, with all members of its objects. -/
theorem readTrace_iff_acceptable [Limits] (t : FileTree) (p : Path) :
    (∀ document, t.readDocument p = .ok document →
      ((∃ entries, t.readTrace p = .ok entries) ↔ Trace.Acceptable document) ∧
      (∀ entries, t.readTrace p = .ok entries ↔ Trace.Describes document entries) ∧
      (¬ Trace.Acceptable document → ∃ e, t.readTrace p = .error (.malformed e p))) ∧
    (∀ e, t.readDocument p = .error e → t.readTrace p = .error e) ∧
    ∀ text written, t.readText p = .ok text → @Json.readWritten .unlimited text = .ok written →
      (written.fits 0 → t.readDocument p = .ok written.merged) ∧
      (¬ written.fits 0 →
        ∃ f, OverLimit f ∧ t.readTrace p = .error (.unreadable (.fault f) text)) := by
  refine ⟨fun document there => ?_, fun e => FileTree.readTrace_of_error,
    fun text written there free => ?_⟩
  · have read : t.readTrace p = (Trace.ofJson document).mapError (.malformed · p) := by
      rw [FileTree.readTrace, there]
      rfl
    have accepted (entries : List (Entry Float)) :
        t.readTrace p = .ok entries ↔ Trace.ofJson document = .ok entries := by
      rw [read, Except.mapError_ok]
    refine ⟨?_, fun entries => (accepted entries).trans Trace.ofJson_eq_ok_iff_describes,
      fun not => ?_⟩
    · simp only [accepted, Trace.exists_ofJson]
    · rw [← Trace.exists_ofJson, not_exists] at not
      cases known : Trace.ofJson document with
      | ok entries => exact absurd known (not entries)
      | error e => exact ⟨e, by rw [read, known]; rfl⟩
  · exact ⟨FileTree.readDocument_of_fits there free, FileTree.readTrace_of_unfit there free⟩

def mixedColumns : Trace.Columns where
  iters := [.str "1_0", .bool true]
  fnorm := [.null, .str "1e3"]
  stepnorm := [.int 2, .float 0.5]
  extras := [.obj [], .obj [("a", .arr [.int 1])]]

def mixedDocument : Json :=
  .obj [("iters", .arr mixedColumns.iters), ("fnorm", .arr mixedColumns.fnorm),
    ("stepnorm", .arr mixedColumns.stepnorm), ("extras", .arr mixedColumns.extras)]

def mixedTrace : Path := ⟨true, ["runs", "mixed", "trace.json"]⟩

def mixedRun : FileTree := FileTree.empty.write mixedTrace (.text mixedDocument.render)

theorem readTrace_mixed :
    mixedRun.readDocument mixedTrace = .ok mixedDocument ∧
      mixedRun.readTrace mixedTrace =
        .ok [⟨10, 0.0 / 0.0, 2.0, []⟩, ⟨1, 1000.0, 0.5, [("a", .list [.int 1])]⟩] := by
  have there : mixedRun.readDocument mixedTrace = .ok mixedDocument :=
    FileTree.readDocument_render (FileTree.read?_write_self ..) (by decide)
  have columns : Trace.HasColumns mixedDocument mixedColumns :=
    ⟨⟨_, rfl, rfl⟩, ⟨_, rfl, rfl⟩, ⟨_, rfl, rfl⟩, ⟨_, rfl, rfl⟩⟩
  refine ⟨there, (((readTrace_iff_acceptable _ _).1 _ there).2.1 _).mpr
    ⟨mixedColumns, columns, ⟨rfl, rfl, rfl⟩, rfl, fun k e found => ?_⟩⟩
  match k with
  | 0 =>
    cases found
    exact ⟨⟨_, rfl, toInt_eq_ok.mp rfl⟩, ⟨_, rfl, toFloatOrNaN_eq_ok.mp rfl⟩,
      ⟨_, rfl, toFloatOrNaN_eq_ok.mp rfl⟩, ⟨_, rfl, rfl⟩⟩
  | 1 =>
    cases found
    exact ⟨⟨_, rfl, toInt_eq_ok.mp rfl⟩, ⟨_, rfl, toFloatOrNaN_eq_ok.mp rfl⟩,
      ⟨_, rfl, toFloatOrNaN_eq_ok.mp rfl⟩, ⟨_, rfl, rfl⟩⟩
  | k + 2 => cases found

def longDocument : Json :=
  .obj [("iters", .arr []), ("fnorm", .arr []), ("stepnorm", .arr []), ("extras", .arr []),
    ("note", .int (10 ^ 4300 : Nat))]

def longTrace : Path := ⟨true, ["runs", "long", "trace.json"]⟩

def longRun : FileTree := FileTree.empty.write longTrace (.text longDocument.render)

theorem readTrace_long :
    @FileTree.readDocument .unlimited longRun longTrace = .ok longDocument ∧
      @Trace.Acceptable .unlimited longDocument ∧
      ∃ f, OverLimit f ∧ longRun.readTrace longTrace =
        .error (.unreadable (.fault f) longDocument.render) := by
  have file : longRun.read? longTrace = some (.text longDocument.render) :=
    FileTree.read?_write_self ..
  have there : @FileTree.readDocument .unlimited longRun longTrace = .ok longDocument :=
    @FileTree.readDocument_render .unlimited _ _ _ file (fits_unlimited 0 _)
  have columns : Trace.HasColumns longDocument .empty :=
    ⟨⟨_, rfl, rfl⟩, ⟨_, rfl, rfl⟩, ⟨_, rfl, rfl⟩, ⟨_, rfl, rfl⟩⟩
  exact ⟨there, ⟨.empty, columns, ⟨rfl, rfl, rfl⟩,
    @Trace.Columns.Readable.mk .unlimited .empty nofun nofun nofun nofun⟩,
    FileTree.readTrace_of_unfit (FileTree.readText_render file)
      (@readWritten_render .unlimited _ (fits_unlimited 0 _)) (by decide +kernel)⟩

end RootFinding
