import RootFinding.Datum

namespace RootFinding

namespace Datum

mutual

def plain? : Datum Float → Option Json
  | null => some .null
  | bool b => some (.bool b)
  | int i => some (.int i)
  | float v => some (.float v)
  | text s => some (.str s)
  | list items => (plainItems? items).map .arr
  | dict members => (plainMembers? members).map .obj
  | _ => none

def plainItems? : List (Datum Float) → Option (List Json)
  | [] => some []
  | item :: items => do return (← plain? item) :: (← plainItems? items)

def plainMembers? : List (String × Datum Float) → Option (List (String × Json))
  | [] => some []
  | (key, value) :: members => do return (key, ← plain? value) :: (← plainMembers? members)

end

mutual

theorem plain?_ofJson : (j : Json) → (ofJson j).plain? = some j
  | .null | .bool _ | .int _ | .float _ | .str _ => rfl
  | .arr items => by rw [ofJson, plain?, plainItems?_ofJsonItems, Option.map_some]
  | .obj members => by rw [ofJson, plain?, plainMembers?_ofJsonMembers, Option.map_some]

theorem plainItems?_ofJsonItems : (items : List Json) →
    plainItems? (ofJsonItems items) = some items
  | [] => rfl
  | item :: items => by
    rw [ofJsonItems, plainItems?, plain?_ofJson, plainItems?_ofJsonItems]
    rfl

theorem plainMembers?_ofJsonMembers : (members : List (String × Json)) →
    plainMembers? (ofJsonMembers members) = some members
  | [] => rfl
  | (key, value) :: members => by
    rw [ofJsonMembers, ofJsonMember, plainMembers?, plain?_ofJson, plainMembers?_ofJsonMembers]
    rfl

end

mutual

theorem ofJson_of_plain? {j : Json} : (v : Datum Float) → v.plain? = some j → v = ofJson j
  | null, same | bool _, same | int _, same | float _, same | text _, same => by
    cases same
    rfl
  | list items, same => by
    obtain ⟨items', known, rfl⟩ := Option.map_eq_some_iff.mp same
    rw [ofJson, ofJsonItems_of_plainItems? items known]
  | dict members, same => by
    obtain ⟨members', known, rfl⟩ := Option.map_eq_some_iff.mp same
    rw [ofJson, ofJsonMembers_of_plainMembers? members known]

theorem ofJsonItems_of_plainItems? {items' : List Json} : (items : List (Datum Float)) →
    plainItems? items = some items' → items = ofJsonItems items'
  | [], same => by
    cases same
    rfl
  | item :: items, same => by
    obtain ⟨first, known, same⟩ := Option.bind_eq_some_iff.mp same
    obtain ⟨rest, knownToo, same⟩ := Option.bind_eq_some_iff.mp same
    cases same
    rw [ofJsonItems, ofJson_of_plain? item known, ofJsonItems_of_plainItems? items knownToo]

theorem ofJsonMembers_of_plainMembers? {members' : List (String × Json)} :
    (members : List (String × Datum Float)) →
    plainMembers? members = some members' → members = ofJsonMembers members'
  | [], same => by
    cases same
    rfl
  | (key, value) :: members, same => by
    obtain ⟨first, known, same⟩ := Option.bind_eq_some_iff.mp same
    obtain ⟨rest, knownToo, same⟩ := Option.bind_eq_some_iff.mp same
    cases same
    rw [ofJsonMembers, ofJsonMember, ofJson_of_plain? value known,
      ofJsonMembers_of_plainMembers? members knownToo]

end

theorem plain?_eq_some {v : Datum Float} {j : Json} : v.plain? = some j ↔ v = ofJson j :=
  ⟨ofJson_of_plain? v, fun same => same ▸ plain?_ofJson j⟩

end Datum

end RootFinding
