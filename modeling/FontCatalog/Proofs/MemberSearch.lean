import FontCatalog.Loading

/-!
# Searching a collection for a member

The search for a PostScript name walks along the members in order, passes over those that cannot
be read, and stops at the first one with the name. Its result is therefore the least place of a
readable member with that name, and it is independent of the place at which counting starts.
-/

namespace FontCatalog

namespace Sfnt

variable {collection : Collection} {index : Nat} {font : Font} {name : String}

/-- The member can be read and has the PostScript name. -/
def isNamed (name : String) : Except ReadFault Font → Bool
  | .ok font => font.postscriptName? = some name
  | .error _ => false

theorem isNamed_iff {member : Except ReadFault Font} :
    isNamed name member = true ↔
      ∃ font, member = .ok font ∧ font.postscriptName? = some name := by
  cases member with
  | ok font => simp [isNamed]
  | error fault => simp [isNamed]

namespace Collection

/-- A place holds the first readable member with a PostScript name. -/
structure FirstNamed (collection : Collection) (name : String) (index : Nat) (font : Font) :
    Prop where
  readable : collection.member index = .ok font
  named : font.postscriptName? = some name
  first : ∀ earlier other, earlier < index → collection.member earlier = .ok other →
    other.postscriptName? ≠ some name

theorem member_eq_ok_iff :
    collection.member index = .ok font ↔ collection.members[index]? = some (.ok font) := by
  simp only [member, members, List.getElem?_map]
  cases collection.offsets[index]? with
  | none => simp
  | some offset => simp

theorem mem_members_iff {font : Font} :
    .ok font ∈ collection.members ↔ ∃ index, collection.member index = .ok font := by
  simp only [List.mem_iff_getElem?, member_eq_ok_iff]

end Collection

end Sfnt

open Sfnt

theorem fst_findNamed (file : Path) (name : String) (start : Nat)
    (members : List (Except ReadFault Font)) :
    (findNamed file name start members).1 =
      (members.findIdx? (isNamed name)).map (start + ·) := by
  induction members generalizing start with
  | nil => simp [findNamed]
  | cons member rest ih =>
      have shifted : (rest.findIdx? (isNamed name)).map (start + 1 + ·) =
          ((rest.findIdx? (isNamed name)).map (· + 1)).map (start + ·) := by
        simp [Option.map_map, Function.comp_def, Nat.add_assoc, Nat.add_comm 1]
      cases member with
      | error fault =>
          simp only [findNamed, List.findIdx?_cons, isNamed, Bool.false_eq_true, if_false]
          rw [ih, shifted]
      | ok font =>
          by_cases named : font.postscriptName? = some name
          · have found : font.name? .postscript = some name := named
            simp [findNamed, List.findIdx?_cons, isNamed, named, found]
          · have missed : ¬font.name? .postscript = some name := named
            simp only [findNamed, if_neg missed, List.findIdx?_cons, isNamed, named, decide_false,
              Bool.false_eq_true, if_false]
            rw [ih, shifted]

namespace Sfnt.Collection

variable {collection : Collection} {index : Nat} {file : Path} {name : String}

theorem fst_find (collection : Collection) (file : Path) (name : String) :
    (collection.find file name).1 = collection.members.findIdx? (isNamed name) := by
  simp [find, fst_findNamed]

theorem findIdx?_isNamed_eq_some_iff :
    collection.members.findIdx? (isNamed name) = some index ↔
      ∃ font, collection.FirstNamed name index font := by
  rw [List.findIdx?_eq_some_iff_getElem]
  constructor
  · rintro ⟨inside, here, before⟩
    rcases isNamed_iff.mp here with ⟨font, isFont, named⟩
    refine ⟨font, ?_, named, ?_⟩
    · rw [member_eq_ok_iff, List.getElem?_eq_getElem inside, isFont]
    · intro earlier other earlier_lt readable otherNamed
      rw [member_eq_ok_iff] at readable
      rcases List.getElem?_eq_some_iff.mp readable with ⟨place, isOther⟩
      exact before earlier earlier_lt (isNamed_iff.mpr ⟨other, isOther, otherNamed⟩)
  · rintro ⟨font, readable, named, first⟩
    rw [member_eq_ok_iff] at readable
    rcases List.getElem?_eq_some_iff.mp readable with ⟨inside, isFont⟩
    refine ⟨inside, isNamed_iff.mpr ⟨font, isFont, named⟩, ?_⟩
    intro earlier earlier_lt isEarlier
    rcases isNamed_iff.mp isEarlier with ⟨other, isOther, otherNamed⟩
    refine first earlier other earlier_lt ?_ otherNamed
    rw [member_eq_ok_iff, List.getElem?_eq_getElem (by omega), isOther]

/-- The search ends at the first readable member with the name. -/
theorem find_eq_some_iff :
    (collection.find file name).1 = some index ↔
      ∃ font, collection.FirstNamed name index font := by
  rw [fst_find]
  exact findIdx?_isNamed_eq_some_iff

/-- Where some readable member has a name, there is a first one. -/
theorem exists_firstNamed {font : Font} (readable : collection.member index = .ok font)
    (named : font.postscriptName? = some name) :
    ∃ place found, collection.FirstNamed name place found := by
  have present : .ok font ∈ collection.members := mem_members_iff.mpr ⟨index, readable⟩
  have isSome : (collection.members.findIdx? (isNamed name)).isSome := by
    rw [List.findIdx?_isSome, List.any_eq_true]
    exact ⟨_, present, isNamed_iff.mpr ⟨font, rfl, named⟩⟩
  rcases Option.isSome_iff_exists.mp isSome with ⟨place, isPlace⟩
  exact ⟨place, findIdx?_isNamed_eq_some_iff.mp isPlace⟩

end Sfnt.Collection

end FontCatalog
