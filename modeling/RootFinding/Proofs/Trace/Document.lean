import RootFinding.Proofs.Json.Objects
import RootFinding.Trace.Document

namespace RootFinding

open Json

namespace Datum

mutual

def ofNested {β : Type} (leaf : β → Datum Float) : Nested β → Datum Float
  | .leaf a => leaf a
  | .list items => list (ofNestedItems leaf items)

def ofNestedItems {β : Type} (leaf : β → Datum Float) : List (Nested β) → List (Datum Float)
  | [] => []
  | item :: items => ofNested leaf item :: ofNestedItems leaf items

end

def listed : Datum Float → Datum Float
  | array entries => ofNested float entries
  | intArray entries => ofNested int entries
  | other => other

def shown : Datum Float → Datum Float
  | list items => text (String.ofList (list items).display)
  | other => other

def reloaded (v : Datum Float) : Datum Float := ofJson v.stored.reread

theorem ofJsonMembers_eq_map (members : List (String × Json)) :
    ofJsonMembers members = members.map fun m => (m.1, ofJson m.2) := by
  induction members with
  | nil => rfl
  | cons member members ih => rw [ofJsonMembers, ih, List.map_cons, ofJsonMember]

mutual

theorem ofJson_reread_nested {β : Type} {leafJson : β → Json} {leaf : β → Datum Float}
    (kept : ∀ a, ofJson (leafJson a).reread = leaf a) :
    (v : Nested β) → ofJson (nestedJson leafJson v).reread = ofNested leaf v
  | .leaf a => kept a
  | .list items => congrArg list (ofJsonItems_reread_nested kept items)

theorem ofJsonItems_reread_nested {β : Type} {leafJson : β → Json} {leaf : β → Datum Float}
    (kept : ∀ a, ofJson (leafJson a).reread = leaf a) :
    (items : List (Nested β)) →
      ofJsonItems (mergedItems (respelledItems (nestedJsonItems leafJson items))) =
        ofNestedItems leaf items
  | [] => rfl
  | item :: items =>
    congrArg₂ List.cons (ofJson_reread_nested kept item) (ofJsonItems_reread_nested kept items)

end

theorem reloaded_array (entries : Nested Float) :
    (array entries).reloaded = ofNested float entries :=
  ofJson_reread_nested (fun _ => rfl) entries

theorem reloaded_text {s : String} (visible : s.toList.all isVisible) :
    (text s).reloaded = text s := by
  change text (rejoined s) = text s
  rw [rejoined_eq visible]

theorem all_isVisible_separated {texts : List (List Char)}
    (visible : ∀ t ∈ texts, t.all isVisible) : (separated texts).all isVisible := by
  induction texts using separated.induct with
  | case1 => rfl
  | case2 item => exact visible item List.mem_cons_self
  | case3 item items more ih =>
    have first := visible item List.mem_cons_self
    have rest := ih fun t inside => visible t (List.mem_cons_of_mem _ inside)
    rw [separated, List.all_append, List.all_cons, List.all_cons, first, rest]
    · rfl
    · exact more

mutual

theorem all_isVisible_display (v : Nested Float) : (ofNested float v).display.all isVisible := by
  cases v with
  | leaf a => exact all_isVisible_shortestText a
  | list items =>
    have inside := all_isVisible_separated (all_isVisible_displayItems items)
    rw [ofNested, display, List.cons_append, List.all_cons, List.all_append, inside]
    rfl

theorem all_isVisible_displayItems (items : List (Nested Float)) :
    ∀ t ∈ displayItems (ofNestedItems float items), t.all isVisible := by
  cases items with
  | nil => exact fun _ none => nomatch none
  | cons item items =>
    rw [ofNestedItems, displayItems, List.forall_mem_cons]
    exact ⟨all_isVisible_display item, all_isVisible_displayItems items⟩

end

theorem reloaded_list (entries : List (Nested Float)) :
    (ofNested float (.list entries)).reloaded = (ofNested float (.list entries)).shown := by
  have visible := all_isVisible_display (.list entries)
  rw [ofNested] at visible ⊢
  exact reloaded_text (by rwa [String.toList_ofList])

end Datum

namespace Entry

def mapValues (f : Datum Float → Datum Float) (e : Entry Float) : Entry Float :=
  { e with extras := e.extras.map fun m => (m.1, f m.2) }

end Entry

namespace Trace

theorem entry_reread [Limits] {e : Entry Float} (keyed : Keyed e.extras) :
    entry (.int e.iteration) (.float e.fnorm) (.float e.stepnorm) (extrasJson e.extras).reread =
      .ok (e.mapValues Datum.reloaded) := by
  rw [extrasJson, reread_obj (keyed.map Datum.stored)]
  simp only [entry, Datum.ofJsonMembers_eq_map, List.map_map]
  rfl

theorem zipEntries_map [Limits] {entries : List (Entry Float)}
    (keyed : ∀ e ∈ entries, Keyed e.extras) :
    zipEntries (entries.map fun e => .int e.iteration) (entries.map fun e => .float e.fnorm)
        (entries.map fun e => .float e.stepnorm)
        (entries.map fun e => (extrasJson e.extras).reread) =
      .ok (entries.map (·.mapValues Datum.reloaded)) := by
  induction entries with
  | nil => rfl
  | cons e entries ih =>
    rw [List.forall_mem_cons] at keyed
    simp only [List.map_cons, zipEntries, entry_reread keyed.1, ih keyed.2]
    rfl

theorem list_reread {members : List (String × Json)} (keyed : Keyed members) {key : String}
    {items : List Json} (inside : (key, .arr items) ∈ members) :
    list (obj members).reread key = .ok (items.map reread) := by
  have found : lookup (members.map fun m => (m.1, m.2.reread)) key =
      some (.arr (items.map reread)) := by
    rw [← reread_arr]
    exact lookup_of_mem (keyed.map reread) (List.mem_map_of_mem inside)
  rw [list, reread_obj keyed, get?, members?, Option.bind_some, found]

theorem ofJson_reread_toJson [Limits] {entries : List (Entry Float)}
    (keyed : ∀ e ∈ entries, Keyed e.extras) :
    ofJson (toJson entries).reread = .ok (entries.map (·.mapValues Datum.reloaded)) := by
  have names : Keyed [("iters", Json.arr (entries.map fun e => .int e.iteration)),
      ("fnorm", .arr (entries.map fun e => .float e.fnorm)),
      ("stepnorm", .arr (entries.map fun e => .float e.stepnorm)),
      ("extras", .arr (entries.map fun e => extrasJson e.extras))] :=
    .ofNames (show _ = ["iters", "fnorm", "stepnorm", "extras"] from rfl) (by decide) (by decide)
  have object : (toJson entries).reread.members?.isNone = false := rfl
  have iters := list_reread names (.head _)
  have fnorm := list_reread names (.tail _ (.head _))
  have stepnorm := list_reread names (.tail _ (.tail _ (.head _)))
  have extras := list_reread names (.tail _ (.tail _ (.tail _ (.head _))))
  rw [← toJson, List.map_map] at iters fnorm stepnorm extras
  simp only [ofJson, object, iters, fnorm, stepnorm, extras, List.length_map, bind, Except.bind,
    ne_eq, not_true_eq_false, or_self, if_false, Bool.false_eq_true]
  exact zipEntries_map keyed

theorem fits_toJson [Limits] {entries : List (Entry Float)} :
    (toJson entries).fits 0 ↔ Limits.admitsLevel 0 ∧ Limits.admitsLevel 1 ∧
      ∀ e ∈ entries, intFits e.iteration ∧ Limits.admitsLevel 2 ∧
        ∀ m ∈ e.extras, m.2.stored.fits 3 := by
  have lists {items : List Json} :
      (arr items).fits 1 ↔ Limits.admitsLevel 1 ∧ ∀ j ∈ items, j.fits 2 := fits_arr
  have values (e : Entry Float) : (extrasJson e.extras).fits 2 ↔
      Limits.admitsLevel 2 ∧ ∀ m ∈ e.extras, m.2.stored.fits 3 := by
    rw [extrasJson, fits_obj, List.forall_mem_map]
  simp only [toJson, fits_obj, List.forall_mem_cons, List.not_mem_nil, false_implies,
    implies_true, and_true, lists, List.forall_mem_map, values]
  constructor
  · rintro ⟨outer, ⟨inner, iters⟩, -, -, -, extras⟩
    exact ⟨outer, inner, fun e inside => ⟨iters e inside, extras e inside⟩⟩
  · rintro ⟨outer, inner, fit⟩
    exact ⟨outer, ⟨inner, fun e inside => (fit e inside).1⟩, ⟨inner, fun _ _ => rfl⟩,
      ⟨inner, fun _ _ => rfl⟩, inner, fun e inside => (fit e inside).2⟩

theorem fits_mapValues [Limits] {entries : List (Entry Float)} {f : Datum Float → Datum Float}
    (keeps : ∀ e ∈ entries, ∀ m ∈ e.extras, m.2.stored.fits 3 → (f m.2).stored.fits 3)
    (fits : (toJson entries).fits 0) : (toJson (entries.map (·.mapValues f))).fits 0 := by
  rw [fits_toJson] at fits ⊢
  obtain ⟨outer, inner, fit⟩ := fits
  refine ⟨outer, inner, List.forall_mem_map.mpr fun e inside => ?_⟩
  obtain ⟨iteration, level, values⟩ := fit e inside
  exact ⟨iteration, level, List.forall_mem_map.mpr fun m among =>
    keeps e inside m among (values m among)⟩

end Trace

end RootFinding
