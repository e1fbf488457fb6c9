import RootFinding.Proofs.Storage.FileTree
import RootFinding.Proofs.Trace.Document
import RootFinding.Storage.Run

namespace RootFinding

open Json

theorem Nested.leaves_row {α : Type} (entries : List α) : (row entries).leaves = entries := by
  rw [row, leaves]
  induction entries with
  | nil => rfl
  | cons a entries ih => rw [List.map_cons, itemLeaves, leaves, ih, List.singleton_append]

theorem FileTree.readText_render {t : FileTree} {p : Path} {j : Json}
    (there : t.read? p = some (.text j.render)) : t.readText p = .ok j.render := by
  simp only [readText, there, render, String.toList_ofList, unifyLineEnds_write]

theorem FileTree.readDocument_render [Limits] {t : FileTree} {p : Path} {j : Json}
    (there : t.read? p = some (.text j.render)) (fits : j.fits 0) :
    t.readDocument p = .ok j.reread := by
  rw [readDocument, readText_render there]
  change (Json.read j.render).mapError _ = _
  rw [read_render fits]
  rfl

def Results.mapValues (f : Datum Float → Datum Float) (r : Results Float) : Results Float :=
  { r with trace := r.trace.map (·.mapValues f) }

theorem Results.mapValues_mapValues (f g : Datum Float → Datum Float) (r : Results Float) :
    (r.mapValues f).mapValues g = r.mapValues fun v => g (f v) := by
  simp only [mapValues, Entry.mapValues, List.map_map, Function.comp_def]

theorem Results.mapValues_congr {f g : Datum Float → Datum Float} {r : Results Float}
    (same : ∀ e ∈ r.trace, ∀ m ∈ e.extras, f m.2 = g m.2) :
    r.mapValues f = r.mapValues g := by
  have entries : r.trace.map (·.mapValues f) = r.trace.map (·.mapValues g) := by
    refine List.map_congr_left fun e inside => ?_
    have values : (e.extras.map fun m => (m.1, f m.2)) = e.extras.map fun m => (m.1, g m.2) :=
      List.map_congr_left fun m among => by rw [same e inside m among]
    rw [Entry.mapValues, Entry.mapValues, values]
  rw [mapValues, mapValues, entries]

theorem Results.mapValues_id (r : Results Float) : (r.mapValues fun v => v) = r := by
  simp [mapValues, Entry.mapValues]

namespace Run

variable {r : Results Float} {label : Label} {directory : Path}

theorem keyed_particulars (r : Results Float) (label : Label) (directory : Path) :
    Keyed (particulars r label directory) := by
  rw [particulars]
  split
  · exact .ofNames (show _ = ["schema_version", "name", "saved_at", "method", "iterations",
      "converged", "x_converged", "f_converged", "xtol", "ftol", "residual_norm", "f_calls",
      "j_calls"] from rfl) (by decide) (by decide)
  · exact .ofNames (show _ = ["schema_version", "name", "saved_at", "method", "iterations",
      "converged", "x_converged", "f_converged", "xtol", "ftol", "residual_norm", "f_calls",
      "j_calls", "extra"] from rfl) (by decide) (by decide)

theorem keyed_sorted {members : List (String × Json)} (keyed : Keyed members) :
    Keyed (sortedMembers members) := keyed.perm (List.mergeSort_perm _ _)

def rereadParticulars (r : Results Float) (label : Label) (directory : Path) :
    List (String × Json) :=
  (sortedMembers (particulars r label directory)).map fun m => (m.1, m.2.reread)

theorem reread_description (r : Results Float) (label : Label) (directory : Path) :
    (description r label directory).reread = .obj (rereadParticulars r label directory) :=
  reread_obj (keyed_sorted (keyed_particulars r label directory))

theorem field_reread {key : String} {value : Json}
    (inside : (key, value) ∈ particulars r label directory) :
    field (rereadParticulars r label directory) key = .ok value.reread := by
  have keyed := keyed_sorted (keyed_particulars r label directory)
  have sorted : (key, value) ∈ sortedMembers (particulars r label directory) :=
    (List.mergeSort_perm _ _).mem_iff.mpr inside
  rw [field, rereadParticulars, lookup_of_mem (keyed.map reread) (List.mem_map_of_mem sorted)]

section Fields

variable {key : String}

theorem intField_reread [Limits] {i : Int} (inside : (key, .int i) ∈ particulars r label directory) :
    intField (rereadParticulars r label directory) key = .ok i := by
  rw [intField, field_reread inside]
  rfl

theorem floatField_reread {v : Float} (inside : (key, .float v) ∈ particulars r label directory) :
    floatField (rereadParticulars r label directory) key = .ok v := by
  rw [floatField, field_reread inside]
  rfl

theorem boolField_reread {b : Bool} (inside : (key, .bool b) ∈ particulars r label directory) :
    boolField (rereadParticulars r label directory) key = .ok b := by
  rw [boolField, field_reread inside]
  rfl

end Fields

theorem assemble_reread [Limits] (visible : r.method.toList.all isVisible)
    (trace : List (Entry Float)) :
    assemble r.zero r.residual r.initialX (rereadParticulars r label directory) trace =
      .ok { r with trace := trace } := by
  have method : field (rereadParticulars r label directory) "method" =
      .ok (Json.str r.method).reread := field_reread (by simp [particulars])
  have residualNorm : floatField (rereadParticulars r label directory) "residual_norm" =
      .ok r.residualNorm := floatField_reread (by simp [particulars])
  have iterations : intField (rereadParticulars r label directory) "iterations" =
      .ok r.iterations := intField_reread (by simp [particulars])
  have xConverged : boolField (rereadParticulars r label directory) "x_converged" =
      .ok r.xConverged := boolField_reread (by simp [particulars])
  have xtol : floatField (rereadParticulars r label directory) "xtol" = .ok r.xtol :=
    floatField_reread (by simp [particulars])
  have fConverged : boolField (rereadParticulars r label directory) "f_converged" =
      .ok r.fConverged := boolField_reread (by simp [particulars])
  have ftol : floatField (rereadParticulars r label directory) "ftol" = .ok r.ftol :=
    floatField_reread (by simp [particulars])
  have fCalls : intField (rereadParticulars r label directory) "f_calls" = .ok r.fCalls :=
    intField_reread (by simp [particulars])
  have jCalls : intField (rereadParticulars r label directory) "j_calls" = .ok r.jCalls :=
    intField_reread (by simp [particulars])
  have text : (Datum.ofJson (Json.str r.method).reread).plainText = r.method := rejoined_eq visible
  simp only [assemble, method, residualNorm, iterations, xConverged, xtol, fConverged, ftol, fCalls,
    jCalls, text, bind, Except.bind]
  rfl

theorem read?_write (t : FileTree) (directory : Path) (r : Results Float) (label : Label) :
    (write t directory r label).read? (directory.child vectorsName) = some (.arrays (vectors r)) ∧
    (write t directory r label).read? (directory.child descriptionName) =
      some (.text (description r label directory).render) ∧
    (write t directory r label).read? (directory.child traceName) =
      some (.text (Trace.toJson r.trace).render) := by
  have vectorsDescription :=
    @Path.child_ne directory directory vectorsName descriptionName (by decide)
  have vectorsTrace := @Path.child_ne directory directory vectorsName traceName (by decide)
  have descriptionTrace := @Path.child_ne directory directory descriptionName traceName (by decide)
  refine ⟨?_, ?_, FileTree.read?_write_self _ _ _⟩
  · rw [write, FileTree.writeTrace, FileTree.read?_write_of_ne vectorsTrace,
      FileTree.read?_write_of_ne vectorsDescription, FileTree.read?_write_self]
  · rw [write, FileTree.writeTrace, FileTree.read?_write_of_ne descriptionTrace,
      FileTree.read?_write_self]

theorem read_congr [Limits] {t t' : FileTree}
    (there : t.hasDirectory directory = t'.hasDirectory directory)
    (files : ∀ name ∈ [vectorsName, descriptionName, traceName],
      t.read? (directory.child name) = t'.read? (directory.child name)) :
    read t directory = read t' directory := by
  have hasFile {p : Path} (same : t.read? p = t'.read? p) : t.hasFile p = t'.hasFile p :=
    congrArg Option.isSome same
  have readDocument {p : Path} (same : t.read? p = t'.read? p) :
      t.readDocument p = t'.readDocument p := by
    rw [FileTree.readDocument, FileTree.readText, same]
    rfl
  simp only [List.forall_mem_cons] at files
  obtain ⟨arrays, text, trace, _⟩ := files
  have loaded : readArrays t (directory.child vectorsName) =
      readArrays t' (directory.child vectorsName) := by
    rw [readArrays, arrays]
    rfl
  have entries : t.readTrace (directory.child traceName) =
      t'.readTrace (directory.child traceName) := by
    rw [FileTree.readTrace, readDocument trace]
    rfl
  rw [read, there, hasFile arrays, hasFile text, hasFile trace, loaded, readDocument text, entries]
  rfl

theorem hasDirectory_write (t : FileTree) (directory : Path) (r : Results Float) (label : Label) :
    (write t directory r label).hasDirectory directory :=
  FileTree.hasDirectory_makeDirectory t directory

section Limited

variable [Limits]

theorem fits_sorted {level : Nat} {members : List (String × Json)} :
    (obj (sortedMembers members)).fits level ↔ (obj members).fits level := by
  simp only [fits_obj, sortedMembers, (List.mergeSort_perm _ _).mem_iff]

theorem fits_description :
    (description r label directory).fits 0 ↔ Limits.admitsLevel 0 ∧
      (intFits 1 ∧ intFits r.iterations ∧ intFits r.fCalls ∧ intFits r.jCalls) ∧
      (label.extra ≠ [] → Limits.admitsLevel 1 ∧ ∀ m ∈ label.extra, m.2.stored.fits 2) := by
  have extra : (obj (label.extra.map fun m => (m.1, m.2.stored))).fits 1 ↔
      Limits.admitsLevel 1 ∧ ∀ m ∈ label.extra, m.2.stored.fits 2 := by
    rw [fits_obj, List.forall_mem_map]
  rw [description, fits_sorted, fits_obj, particulars]
  simp only [List.forall_mem_append, List.forall_mem_cons, List.not_mem_nil, false_implies,
    implies_true, and_true, fits, true_and, List.isEmpty_iff, List.map_eq_nil_iff]
  split
  · rename_i none
    simp [none]
  · rename_i some'
    rw [List.forall_mem_singleton, fits_sorted, extra]
    simp [some']

/-- Whether the documents of a run stay within the limits. -/
structure Fits (r : Results Float) (label : Label) (directory : Path) : Prop where
  description : (description r label directory).fits 0
  trace : (Trace.toJson r.trace).fits 0

instance : Decidable (Fits r label directory) :=
  decidable_of_iff (_ ∧ (Trace.toJson r.trace).fits 0)
    ⟨fun both => ⟨fits_description.mpr both.1, both.2⟩,
      fun fits => ⟨fits_description.mp fits.description, fits.trace⟩⟩

end Limited

theorem fits_unlimited : @Fits .unlimited r label directory :=
  @Fits.mk .unlimited _ _ _ (Json.fits_unlimited 0 _) (Json.fits_unlimited 0 _)

/-- Whatever was there before, what is read is what was written last. -/
theorem read_write [Limits] (visible : r.method.toList.all isVisible)
    (keyed : ∀ e ∈ r.trace, Keyed e.extras) (t : FileTree) (fits : Fits r label directory) :
    read (write t directory r label) directory = .ok (r.mapValues Datum.reloaded) := by
  obtain ⟨arrays, text, trace⟩ := read?_write t directory r label
  have there := hasDirectory_write t directory r label
  generalize write t directory r label = after at arrays text trace there
  have hasVectors : after.hasFile (directory.child vectorsName) := by
    rw [FileTree.hasFile, arrays]
    rfl
  have hasDescription : after.hasFile (directory.child descriptionName) := by
    rw [FileTree.hasFile, text]
    rfl
  have hasTrace : after.hasFile (directory.child traceName) := by
    rw [FileTree.hasFile, trace]
    rfl
  have document := FileTree.readDocument_render text fits.description
  rw [reread_description] at document
  have entries : after.readTrace (directory.child traceName) =
      .ok (r.trace.map (·.mapValues Datum.reloaded)) := by
    rw [FileTree.readTrace, FileTree.readDocument_render trace fits.trace]
    change (Trace.ofJson _).mapError _ = _
    rw [Trace.ofJson_reread_toJson keyed]
    rfl
  have loaded : readArrays after (directory.child vectorsName) = .ok (vectors r) := by
    rw [readArrays, arrays]
  have found (key : String) (xs : List Float)
      (inside : (vectors r).find? (·.1 == key) = some (key, .row xs)) :
      vector (vectors r) key (directory.child vectorsName) = .ok xs := by
    rw [vector, inside]
    exact congrArg Except.ok (Nested.leaves_row xs)
  simp only [read, there, hasVectors, hasDescription, hasTrace, loaded, bind, Except.bind,
    found "zero" r.zero rfl, found "residual" r.residual rfl, found "initial_x" r.initialX rfl,
    document, entries, Bool.not_true, Bool.false_eq_true, if_false, if_true]
  exact assemble_reread visible _

end Run

end RootFinding
