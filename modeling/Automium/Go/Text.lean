import Mathlib.Data.String.Basic

/-!
# Strings that are not valid UTF-8

A Go string is a sequence of bytes. `Text` has it as `utf8.DecodeRune` reads it: the characters,
and between them the bytes that belong to none. Such bytes come about when a string is cut inside a
character (`takeBytes`). They are read back as U+FFFD from a JSON text (`wire`).
-/

namespace Go

/-- What `utf8.DecodeRune` reads at one place. -/
inductive Piece where
  | rune (c : Char)
  | byte (b : UInt8)
  deriving DecidableEq

/-- A Go string (module doc). -/
abbrev Text := List Piece

namespace Piece

def rune? : Piece → Option Char
  | .rune c => some c
  | .byte _ => none

def bytes : Piece → List UInt8
  | .rune c => String.utf8EncodeChar c
  | .byte b => [b]

end Piece

/-- The first `n` bytes of a string. A character that is cut leaves its first bytes, and they are
read one by one, since what comes after them does not continue it. -/
def takeBytes : Nat → List Char → Text
  | _, [] => []
  | n, c :: cs =>
    if c.utf8Size ≤ n then .rune c :: takeBytes (n - c.utf8Size) cs
    else ((String.utf8EncodeChar c).take n).map .byte

namespace Text

/-- A string that is valid UTF-8. -/
def ofString (s : String) : Text := s.toList.map .rune

/-- The characters, and where bytes are that belong to none. -/
def runes (t : Text) : List (Option Char) := t.map Piece.rune?

/-- These characters as they are read back from JSON. -/
def readBack (runes : List (Option Char)) : String :=
  String.ofList (runes.map fun r => r.getD (Char.ofNat 0xFFFD))

/-- The string as it is read back from JSON. -/
def wire (t : Text) : String := readBack t.runes

/-- All bytes belong to characters. -/
def Valid (t : Text) : Prop := ∀ p ∈ t, p.rune? ≠ none

theorem valid_ofString (s : String) : (ofString s).Valid := by
  intro p hp
  obtain ⟨c, -, rfl⟩ := List.mem_map.mp hp
  exact nofun

@[simp] theorem wire_ofString (s : String) : (ofString s).wire = s := by
  rw [wire, readBack, runes, ofString, List.map_map, List.map_map]
  show String.ofList (s.toList.map fun c => c) = s
  rw [List.map_id', String.ofList_toList]

theorem valid_append {t u : Text} : Valid (t ++ u) ↔ t.Valid ∧ u.Valid := List.forall_mem_append

/-- A valid string is read back as it was. -/
theorem valid_iff {t : Text} : t.Valid ↔ ofString t.wire = t := by
  constructor
  · intro h
    rw [ofString, wire, readBack, runes, String.toList_ofList, List.map_map, List.map_map]
    nth_rewrite 2 [← List.map_id t]
    refine List.map_congr_left fun p hp => ?_
    cases p with
    | rune c => rfl
    | byte b => exact (h _ hp rfl).elim
  · intro h
    rw [← h]
    exact valid_ofString _

/-- Only a valid string has the characters of one. -/
theorem runes_eq_ofString {t : Text} {s : String} :
    t.runes = (ofString s).runes ↔ t = ofString s := by
  refine ⟨fun h => ?_, congrArg runes⟩
  unfold runes ofString at h
  rw [List.map_map] at h
  unfold ofString
  generalize s.toList = cs at h
  induction t generalizing cs with
  | nil =>
    cases cs with
    | nil => rfl
    | cons => cases h
  | cons p t ih =>
    cases cs with
    | nil => cases h
    | cons c cs =>
      obtain ⟨hp, ht⟩ := List.cons.inj h
      cases p with
      | byte => cases hp
      | rune d =>
        cases hp
        rw [ih _ ht, List.map_cons]

theorem runes_ofString_inj {s t : String} : (ofString s).runes = (ofString t).runes ↔ s = t := by
  rw [runes_eq_ofString]
  refine ⟨fun h => ?_, congrArg ofString⟩
  rw [← wire_ofString s, h, wire_ofString]

end Text

/-! ## Cutting -/

/-- These are the first `n` bytes. -/
theorem bytes_takeBytes (n : Nat) (cs : List Char) :
    (takeBytes n cs).flatMap Piece.bytes = (cs.flatMap String.utf8EncodeChar).take n := by
  induction cs generalizing n with
  | nil => simp [takeBytes]
  | cons c cs ih =>
    have hlen : (String.utf8EncodeChar c).length = c.utf8Size := String.length_utf8EncodeChar c
    unfold takeBytes
    rw [List.flatMap_cons, List.take_append]
    split
    · rename_i hle
      rw [List.flatMap_cons, ih, List.take_of_length_le (hlen.trans_le hle), hlen]
      rfl
    · rename_i hlt
      rw [List.flatMap_map, Nat.sub_eq_zero_of_le (by omega), List.take_zero, List.append_nil]
      exact List.flatMap_singleton' _

open String in
theorem takeBytes_valid (n : Nat) (cs : List Char) : (takeBytes n cs).Valid ↔
    utf8Len cs ≤ n ∨ ∃ l₁ l₂, cs = l₁ ++ l₂ ∧ utf8Len l₁ = n := by
  induction cs generalizing n with
  | nil => exact iff_of_true nofun (.inl (Nat.zero_le n))
  | cons c cs ih =>
    have hpos := c.utf8Size_pos
    unfold takeBytes
    split
    · rename_i hle
      have hcons : Text.Valid (.rune c :: takeBytes (n - c.utf8Size) cs) ↔
          (takeBytes (n - c.utf8Size) cs).Valid :=
        List.forall_mem_cons.trans (and_iff_right nofun)
      rw [hcons, ih, utf8Len_cons]
      refine or_congr (by omega) ?_
      constructor
      · rintro ⟨l₁, l₂, rfl, hlen⟩
        exact ⟨c :: l₁, l₂, rfl, by rw [utf8Len_cons]; omega⟩
      · rintro ⟨l₁, l₂, heq, hlen⟩
        cases l₁ with
        | nil => rw [utf8Len_nil] at hlen; omega
        | cons d l₁ =>
          cases heq
          rw [utf8Len_cons] at hlen
          exact ⟨l₁, l₂, rfl, by omega⟩
    · rename_i hlt
      cases n with
      | zero => exact iff_of_true (by simp [Text.Valid]) (.inr ⟨[], _, rfl, rfl⟩)
      | succ n =>
        refine iff_of_false (fun hvalid => ?_) ?_
        · obtain ⟨b, bs, hbytes⟩ := List.exists_cons_of_ne_nil (String.utf8EncodeChar_ne_nil (c := c))
          rw [hbytes] at hvalid
          exact hvalid (.byte b) List.mem_cons_self rfl
        · rintro (hle | ⟨l₁, l₂, heq, hlen⟩)
          · rw [utf8Len_cons] at hle
            omega
          · cases l₁ with
            | nil => cases hlen
            | cons d l₁ =>
              cases heq
              rw [utf8Len_cons] at hlen
              omega

/-- The first `n` bytes are valid UTF-8 exactly if the string ends there or a character does. -/
theorem takeBytes_valid_iff (n : Nat) (s : String) : (takeBytes n s.toList).Valid ↔
    s.utf8ByteSize ≤ n ∨ ∃ s₁ s₂, s = s₁ ++ s₂ ∧ s₁.utf8ByteSize = n := by
  rw [takeBytes_valid, String.utf8Len_toList]
  refine or_congr_right ?_
  constructor
  · rintro ⟨l₁, l₂, heq, hlen⟩
    refine ⟨String.ofList l₁, String.ofList l₂, ?_, by rw [String.utf8ByteSize_ofList]; exact hlen⟩
    rw [← String.ofList_append, ← heq, String.ofList_toList]
  · rintro ⟨s₁, s₂, rfl, hlen⟩
    exact ⟨s₁.toList, s₂.toList, String.toList_append, by rw [String.utf8Len_toList]; exact hlen⟩

end Go
