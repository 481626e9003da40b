/-!
# `encoding/json`

`json.Unmarshal` of a text that is valid JSON, into the types that the controllers use. A decoder
`α → Json → Option α` takes the old value of the variable, since `null` leaves a string or a struct
as it is, and a second member of the same name is decoded over the first. It gives `none` if some
part of the text has another type than the variable, for which `Unmarshal` returns an error.

* A struct takes the members that it has a field for and skips the others. The names of members and
  fields are compared without regard to case (`foldEq`).
* An item of a list is decoded over the item that was there.
-/

namespace Go

/-- A JSON value. The members of an object are in the order of the text. -/
inductive Json where
  | null
  | bool (b : Bool)
  | num (text : String)
  | str (s : String)
  | arr (items : List Json)
  | obj (members : List (String × Json))

namespace Json

/-- A lower-case letter for the letters that `encoding/json` takes for it: besides its capital, the
long s and the Kelvin sign. -/
def foldChar (c : Char) : Char :=
  if c.toNat = 0x17F then 's' else if c.toNat = 0x212A then 'k' else c.toLower

/-- The member `key` is for the field `name`. -/
def foldEq (name key : String) : Bool :=
  name.toList.map foldChar = key.toList.map foldChar

def decodeString (old : String) : Json → Option String
  | .null => some old
  | .str s => some s
  | _ => none

def decodeBool (old : Bool) : Json → Option Bool
  | .null => some old
  | .bool b => some b
  | _ => none

/-- The items of a list. -/
def decodeItems {α : Type} (zero : α) (item : α → Json → Option α) :
    (old : List α) → List Json → Option (List α)
  | _, [] => some []
  | old, j :: rest =>
    match item (old.head?.getD zero) j with
    | none => none
    | some x => (decodeItems zero item old.tail rest).map (x :: ·)

def decodeSlice {α : Type} (zero : α) (item : α → Json → Option α) (old : List α) :
    Json → Option (List α)
  | .null => some []
  | .arr items => decodeItems zero item old items
  | _ => none

/-- One member of an object: the first field of its name takes it. -/
def decodeMember {α : Type} (fields : List (String × (α → Json → Option α))) (old : α)
    (member : String × Json) : Option α :=
  match fields.find? fun f => foldEq f.1 member.1 with
  | none => some old
  | some f => f.2 old member.2

def decodeStruct {α : Type} (fields : List (String × (α → Json → Option α))) (old : α) :
    Json → Option α
  | .null => some old
  | .obj members => members.foldlM (decodeMember fields) old
  | _ => none

end Json

end Go
