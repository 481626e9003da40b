import Automium.Data.Delimited
import Automium.Go.Text

/-!
# What `json.Marshal` writes

The text of strings, and of structs and lists of them. A string is written so that it can stand in a
web page: besides quotes, backslashes and control characters, the characters `<`, `>`, `&`, U+2028
and U+2029 are escaped. A byte that belongs to no character is written as an escaped U+FFFD, and a
character U+FFFD as it is.

Each writer is self-delimiting (`quote_delimited` and what follows it), so from the text the
characters of all strings can be told.
-/

namespace Go

open Data

/-! ## Strings -/

/-- A digit of `\u003c`. -/
def hexDigit (n : Nat) : Char := "0123456789abcdef".toList.getD n '0'

/-- A character as `json.Marshal` writes it. -/
def escapeRune (c : Char) : List Char :=
  if c = '"' ∨ c = '\\' then ['\\', c]
  else if c = '\n' then ['\\', 'n']
  else if c = '\r' then ['\\', 'r']
  else if c = '\t' then ['\\', 't']
  else if c.toNat < 0x20 ∨ c = '<' ∨ c = '>' ∨ c = '&' then
    ['\\', 'u', '0', '0', hexDigit (c.toNat / 16), hexDigit (c.toNat % 16)]
  else if c.toNat = 0x2028 ∨ c.toNat = 0x2029 then
    ['\\', 'u', '2', '0', '2', hexDigit (c.toNat % 16)]
  else [c]

def escapePiece : Piece → List Char
  | .rune c => escapeRune c
  | .byte _ => ['\\', 'u', 'f', 'f', 'f', 'd']

/-- A string in quotes. -/
def quote (t : Text) : List Char := '"' :: (t.flatMap escapePiece ++ ['"'])

/-- The value of a digit. -/
def hexValue (c : Char) : Nat := "0123456789abcdef".toList.idxOf c

theorem hexValue_hexDigit : ∀ n < 16, hexValue (hexDigit n) = n := by decide

/-- A reader of one character. It takes the four digits of an escape for a byte only if they are
those of U+FFFD. -/
def readPiece : List Char → Option (Option Char × List Char)
  | '\\' :: 'u' :: a :: b :: c :: d :: rest =>
    let n := ((hexValue a * 16 + hexValue b) * 16 + hexValue c) * 16 + hexValue d
    some (if n = 0xFFFD then none else some (Char.ofNat n), rest)
  | '\\' :: 'n' :: rest => some (some '\n', rest)
  | '\\' :: 'r' :: rest => some (some '\r', rest)
  | '\\' :: 't' :: rest => some (some '\t', rest)
  | '\\' :: c :: rest => some (some c, rest)
  | c :: rest => some (some c, rest)
  | [] => none

theorem readPiece_plain {c : Char} (h : c ≠ '\\') (rest : List Char) :
    readPiece (c :: rest) = some (some c, rest) := by
  unfold readPiece
  split <;> simp_all

/-- An escape that is not the one of a byte. -/
theorem readPiece_hex {a b d e c : Char} (rest : List Char)
    (hn : ((hexValue a * 16 + hexValue b) * 16 + hexValue d) * 16 + hexValue e = c.toNat)
    (hne : c.toNat ≠ 0xFFFD) :
    readPiece (['\\', 'u', a, b, d, e] ++ rest) = some (some c, rest) := by
  show some (if _ = 0xFFFD then none else some (Char.ofNat _), rest) = _
  rw [hn, if_neg hne, Char.ofNat_toNat]

theorem readPiece_escapeRune (c : Char) (rest : List Char) :
    readPiece (escapeRune c ++ rest) = some (some c, rest) := by
  have hdigit : hexValue (hexDigit (c.toNat % 16)) = c.toNat % 16 :=
    hexValue_hexDigit _ (Nat.mod_lt _ (by decide))
  have h0 : hexValue '0' = 0 := by decide
  have h2 : hexValue '2' = 2 := by decide
  unfold escapeRune
  split
  · rename_i h
    rcases h with rfl | rfl
    · rfl
    · rfl
  · rename_i hplain
    split
    · rename_i h; rw [h]; rfl
    · split
      · rename_i h; rw [h]; rfl
      · split
        · rename_i h; rw [h]; rfl
        · split
          · rename_i h
            have hlt : c.toNat < 0x80 := by
              rcases h with h | rfl | rfl | rfl
              · omega
              · decide
              · decide
              · decide
            refine readPiece_hex rest ?_ (by omega)
            rw [hexValue_hexDigit _ (by omega : c.toNat / 16 < 16), hdigit, h0]
            omega
          · split
            · rename_i h
              refine readPiece_hex rest ?_ (by omega)
              rw [hdigit, h0, h2]
              omega
            · exact readPiece_plain (fun h => hplain (.inr h)) rest

theorem readPiece_escapePiece (p : Piece) (rest : List Char) :
    readPiece (escapePiece p ++ rest) = some (p.rune?, rest) := by
  cases p with
  | rune c => exact readPiece_escapeRune c rest
  | byte b => rfl

theorem escapePiece_delimited : Delimited escapePiece Piece.rune? :=
  .of_read readPiece_escapePiece

/-- No character of the string is written as a quote. -/
theorem escapePiece_ne_quote (p : Piece) (x y : List Char) : escapePiece p ++ x ≠ '"' :: y := by
  cases p with
  | byte b => exact fun h => absurd (List.cons.inj h).1 (by decide)
  | rune c =>
    show escapeRune c ++ x ≠ '"' :: y
    unfold escapeRune
    split
    · exact fun h => absurd (List.cons.inj h).1 (by decide)
    · rename_i hplain
      split_ifs
      all_goals first
        | exact fun h => absurd (List.cons.inj h).1 (by decide)
        | exact fun h => hplain (.inl (List.cons.inj h).1)

/-- The text of a string tells its characters. -/
theorem quote_delimited : Delimited quote Text.runes :=
  (escapePiece_delimited.star escapePiece_ne_quote).lit ['"']

/-! ## Structs and lists -/

/-- A member of a struct. -/
def member (name : String) (value : List Char) : List Char :=
  quote (.ofString name) ++ ':' :: value

/-- A struct whose fields are strings. -/
def stringStruct (fields : List (String × Text)) : List Char :=
  '{' :: ([','].intercalate (fields.map fun field => member field.1 (quote field.2)) ++ ['}'])

/-- A list. -/
def array (items : List (List Char)) : List Char := '[' :: ([','].intercalate items ++ [']'])

theorem stringStruct_delimited : Delimited stringStruct
    (List.map fun field => (field.1, field.2.runes)) := by
  have hname : Delimited (fun field : String × Text => quote (.ofString field.1)) fun field => field.1 :=
    (quote_delimited.comap fun field : String × Text => Text.ofString field.1).mono
      fun _ _ => Text.runes_ofString_inj.mp
  have hvalue : Delimited (fun field : String × Text => ':' :: quote field.2)
      fun field => field.2.runes :=
    (quote_delimited.comap fun field : String × Text => field.2).lit [':']
  have hstop : ∀ (field : String × Text) x y, member field.1 (quote field.2) ++ x ≠ '}' :: y :=
    fun field x y h => absurd (List.cons.inj h).1 (by decide)
  exact ((hname.pair hvalue).sepBy (by decide) hstop).lit ['{']

/-- A slice: a nil slice is not an empty list. -/
def slice : Option (List (List Char)) → List Char
  | none => "null".toList
  | some items => array items

/-- A struct, of the members that are not left out. -/
def object (members : List (String × List Char)) : List Char :=
  '{' :: ([','].intercalate (members.map fun m => member m.1 m.2) ++ ['}'])

theorem object_cons (m : String × List Char) (members : List (String × List Char)) :
    object (m :: members) = '{' :: (member m.1 m.2 ++
      ((members.flatMap fun m => ',' :: member m.1 m.2) ++ ['}'])) := by
  rw [object, List.map_cons, Delimited.intercalate_cons, List.flatMap_map, List.append_assoc]

/-- The members of a struct after the first one. -/
theorem members_delimited {α : Type} {members : List (String × (α → List Char))}
    (h : ∀ m ∈ members, Delimited m.2 m.2) :
    Delimited (fun a => (members.map fun m => (m.1, m.2 a)).flatMap
      (fun m => ',' :: member m.1 m.2) ++ ['}']) fun a => members.map fun m => m.2 a := by
  induction members with
  | nil => exact (Delimited.const ['}']).mono fun _ _ _ => rfl
  | cons m members ih =>
    obtain ⟨hm, hrest⟩ := List.forall_mem_cons.mp h
    have hmember : Delimited (fun a => ',' :: member m.1 (m.2 a)) m.2 :=
      ((hm.lit [':']).lit _).lit [',']
    intro a b x y he
    have he' := hmember.pair (ih hrest) a b x y (by simpa [List.append_assoc] using he)
    obtain ⟨hcodes, rfl⟩ := he'
    obtain ⟨hfirst, hothers⟩ := Prod.mk.inj hcodes
    exact ⟨List.cons_eq_cons.mpr ⟨hfirst, hothers⟩, rfl⟩

/-- A struct whose members are self-delimiting. -/
theorem object_delimited {α : Type} {members : List (String × (α → List Char))}
    (h : ∀ m ∈ members, Delimited m.2 m.2) :
    Delimited (fun a => object (members.map fun m => (m.1, m.2 a))) fun a =>
      members.map fun m => m.2 a := by
  cases members with
  | nil => exact (Delimited.const ['{', '}']).mono fun _ _ _ => rfl
  | cons m members =>
    obtain ⟨hm, hrest⟩ := List.forall_mem_cons.mp h
    have hmember : Delimited (fun a => '{' :: member m.1 (m.2 a)) m.2 :=
      ((hm.lit [':']).lit _).lit ['{']
    intro a b x y he
    have he' := hmember.pair (members_delimited hrest) a b x y
      (by simpa [object_cons, List.append_assoc] using he)
    obtain ⟨hcodes, rfl⟩ := he'
    obtain ⟨hfirst, hothers⟩ := Prod.mk.inj hcodes
    exact ⟨List.cons_eq_cons.mpr ⟨hfirst, hothers⟩, rfl⟩

/-- A list of items that start with a brace. -/
theorem array_delimited {α β : Type} {enc : α → List Char} {f : α → β} (h : Delimited enc f)
    (hbrace : ∀ a, ∃ w, enc a = '{' :: w) :
    Delimited (fun l => array (l.map enc)) (List.map f) := by
  refine (h.sepBy (by decide) fun a x y he => ?_).lit ['[']
  obtain ⟨w, hw⟩ := hbrace a
  rw [hw] at he
  exact absurd (List.cons.inj he).1 (by decide)

end Go
