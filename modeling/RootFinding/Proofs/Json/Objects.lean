import RootFinding.Proofs.Json.RoundTrip

namespace RootFinding.Json

theorem mergedItems_respelledItems (items : List Json) :
    mergedItems (respelledItems items) = items.map reread := by
  induction items with
  | nil => rfl
  | cons item items ih => rw [respelledItems, mergedItems, ih, List.map_cons, reread]

theorem mergedMembers_respelledMembers (members : List (String × Json)) :
    mergedMembers (respelledMembers members) =
      members.map fun m => (rejoined m.1, m.2.reread) := by
  induction members with
  | nil => rfl
  | cons member members ih =>
    rw [respelledMembers, mergedMembers, ih, List.map_cons, respelledMember, mergedMember, reread]

theorem reread_arr (items : List Json) : (arr items).reread = arr (items.map reread) :=
  congrArg arr (mergedItems_respelledItems items)

theorem rejoined_eq {s : String} (visible : s.toList.all isVisible) : rejoined s = s := by
  rw [rejoined, joined_eq visible, String.ofList_toList]

/-- Named values with names of their own, in printable ASCII. -/
structure Keyed {β : Type} (members : List (String × β)) : Prop where
  distinct : (members.map (·.1)).Nodup
  visible : ∀ m ∈ members, m.1.toList.all isVisible

theorem Keyed.ofNames {β : Type} {members : List (String × β)} {names : List String}
    (same : members.map (·.1) = names) (distinct : names.Nodup)
    (visible : ∀ name ∈ names, name.toList.all isVisible) : Keyed members :=
  ⟨same ▸ distinct, fun _ inside => visible _ (same ▸ List.mem_map_of_mem inside)⟩

theorem Keyed.perm {β : Type} {members others : List (String × β)} (keyed : Keyed members)
    (same : others.Perm members) : Keyed others :=
  ⟨(same.map _).nodup_iff.mpr keyed.distinct,
    fun m inside => keyed.visible m (same.mem_iff.mp inside)⟩

theorem Keyed.map {β γ : Type} {members : List (String × β)} (keyed : Keyed members) (f : β → γ) :
    Keyed (members.map fun m => (m.1, f m.2)) := by
  refine ⟨by simpa only [List.map_map, Function.comp_def] using keyed.distinct, fun m inside => ?_⟩
  obtain ⟨m, origin, rfl⟩ := List.mem_map.mp inside
  exact keyed.visible m origin

theorem insertMember_of_notMem {members : List (String × Json)} {key : String}
    (new : key ∉ members.map (·.1)) (value : Json) :
    insertMember members key value = members ++ [(key, value)] := by
  have none : (members.any (·.1 == key)) = false := by
    rw [List.any_eq_false]
    intro m inside same
    exact new (eq_of_beq same ▸ List.mem_map_of_mem inside)
  rw [insertMember, none]
  rfl

theorem foldl_insertMember {members taken : List (String × Json)}
    (distinct : ((taken ++ members).map (·.1)).Nodup) :
    members.foldl (fun taken m => insertMember taken m.1 m.2) taken = taken ++ members := by
  induction members generalizing taken with
  | nil => rw [List.foldl_nil, List.append_nil]
  | cons member members ih =>
    have new : member.1 ∉ taken.map (·.1) := by
      rw [List.map_append, List.map_cons] at distinct
      intro inside
      exact (List.nodup_append.mp distinct).2.2 _ inside _ List.mem_cons_self rfl
    rw [List.foldl_cons, insertMember_of_notMem new, ih (by simpa using distinct),
      List.append_assoc]
    rfl

theorem reread_obj {members : List (String × Json)} (keyed : Keyed members) :
    (obj members).reread = obj (members.map fun m => (m.1, m.2.reread)) := by
  have names : mergedMembers (respelledMembers members) =
      members.map fun m => (m.1, m.2.reread) := by
    rw [mergedMembers_respelledMembers]
    exact List.map_congr_left fun m inside => by rw [rejoined_eq (keyed.visible m inside)]
  rw [reread, respelled, merged, collected, names, foldl_insertMember]
  · rfl
  · exact (keyed.map reread).distinct

theorem lookup_of_mem {members : List (String × Json)} (keyed : Keyed members) {key : String}
    {value : Json} (inside : (key, value) ∈ members) : lookup members key = some value := by
  have distinct := keyed.distinct
  clear keyed
  induction members with
  | nil => cases inside
  | cons member members ih =>
    rw [List.map_cons, List.nodup_cons] at distinct
    rw [lookup, List.find?_cons]
    rcases List.mem_cons.mp inside with rfl | later
    · simp
    · have other : (member.1 == key) = false := by
        rw [beq_eq_false_iff_ne]
        rintro rfl
        exact distinct.1 (List.mem_map.mpr ⟨_, later, rfl⟩)
      rw [other]
      exact ih later distinct.2

end RootFinding.Json
