import Mathlib.Data.List.Infix
import Mathlib.Data.List.TakeWhile
import Std.Data.String.ToNat

/-!
# Strings as Go has them

The parts of Go's `strings`, `strconv`, `regexp` and `fmt` that the controllers use, on Lean's
`String` (the strings that an API server stores are valid UTF-8). `fmt.Sprintf` with `%s` and `%d`
is `++` and `toString`.

* `Upper`: `strings.ToUpper` maps each rune with a Unicode table. The table is a parameter, known
  only on ASCII.
* `firstNumber`: the first match of `[0-9]+`, and `Atoi`: the decimal number with the range of a
  64-bit `int`.
* `dash_inj`: a name of the form `a-i` with a number `i` determines `a` and `i`.
-/

namespace Go

/-! ## Prefixes and upper case -/

/-- `strings.HasPrefix`. -/
def hasPrefix (s p : String) : Bool := p.toList.isPrefixOf s.toList

theorem hasPrefix_iff {s p : String} : hasPrefix s p = true ↔ p.toList <+: s.toList := by
  simp [hasPrefix]

/-- A table of upper-case runes: on ASCII it is the one of the ASCII letters. -/
structure Upper where
  rune : Char → Char
  ascii : ∀ c : Char, c.val < 128 → rune c = c.toUpper

/-- `strings.ToUpper`. -/
def Upper.toUpper (u : Upper) (s : String) : String := String.ofList (s.toList.map u.rune)

/-- The table that changes ASCII letters only. -/
def asciiUpper : Upper := ⟨Char.toUpper, fun _ _ => rfl⟩

/-- If `l₁ ++ w` is a prefix of `l₂ ++ w`, then it is one of `l₂`, or `w` ends in the rest of it. -/
theorem append_isPrefix {α : Type} {l₁ l₂ w : List α} (h : l₁ ++ w <+: l₂ ++ w) :
    l₁ ++ w <+: l₂ ∨ ∃ t r, w = t ++ r ∧ l₂ = l₁ ++ t ∧ r <+: w := by
  obtain ⟨z, hz⟩ := h
  rcases List.append_eq_append_iff.mp hz with ⟨m, hm, -⟩ | ⟨m, hm, hw⟩
  · exact .inl ⟨m, hm.symm⟩
  · rcases List.append_eq_append_iff.mp hm with ⟨t, ht, hr⟩ | ⟨t, ht, hr⟩
    · exact .inr ⟨t, m, hr, ht, z, hw.symm⟩
    · -- `l₂` is not shorter than `l₁`, so nothing is left of `l₁`.
      have hlen : t.length = 0 := by
        have h₁ := congrArg List.length hw
        have h₂ := congrArg List.length hr
        simp only [List.length_append] at h₁ h₂
        omega
      rw [List.length_eq_zero_iff] at hlen
      subst hlen
      rw [List.append_nil] at ht
      rw [List.nil_append] at hr
      exact .inr ⟨[], m, hr.symm, by rw [ht, List.append_nil], z, hw.symm⟩

/-! ## Numbers in names -/

/-- The first match of `[0-9]+`. -/
def firstNumber (s : String) : Option String :=
  match (s.toList.dropWhile fun c => !c.isDigit).takeWhile Char.isDigit with
  | [] => none
  | ds => some (String.ofList ds)

/-- The largest 64-bit `int`. -/
def maxInt : Nat := 9223372036854775807

/-- `strconv.Atoi` of a string of digits: out of range, it gives the largest `int` and an error
text. -/
def atoi (ds : String) : Int × Option String :=
  let n := Nat.ofDigitChars 10 ds.toList 0
  if n ≤ maxInt then (n, none)
  else (maxInt, some ("strconv.Atoi: parsing \"" ++ ds ++ "\": value out of range"))

/-- The string has no digit. -/
def NoDigit (s : String) : Prop := ∀ c ∈ s.toList, c.isDigit = false

instance (s : String) : Decidable (NoDigit s) :=
  List.decidableBAll (fun c : Char => c.isDigit = false) s.toList

theorem NoDigit.append {s t : String} (hs : NoDigit s) (ht : NoDigit t) : NoDigit (s ++ t) := by
  intro c hc
  rw [String.toList_append] at hc
  rcases List.mem_append.mp hc with h | h
  · exact hs c h
  · exact ht c h

theorem toList_toString (n : Nat) : (toString n).toList = Nat.toDigits 10 n := Nat.toList_repr

theorem isDigit_of_mem_toString {n : Nat} {c : Char} (h : c ∈ (toString n).toList) :
    c.isDigit = true := by
  rw [toList_toString] at h
  exact Nat.isDigit_of_mem_toDigits (by decide) (by decide) h

theorem toString_nat_inj {m n : Nat} (h : toString m = toString n) : m = n :=
  Nat.repr_injective h

/-- Only a string without a digit has no number. -/
theorem firstNumber_eq_none {s : String} : firstNumber s = none ↔ NoDigit s := by
  have hnone : firstNumber s = none ↔
      (s.toList.dropWhile fun c => !c.isDigit).takeWhile Char.isDigit = [] := by
    unfold firstNumber
    split
    · rename_i h; simp [h]
    · rename_i h; simpa using h
  rw [hnone]
  constructor
  · intro h c hc
    by_contra hdigit
    have hne : s.toList.dropWhile (fun c => !c.isDigit) ≠ [] := fun hnil => by
      have := List.dropWhile_eq_nil_iff.mp hnil c hc
      simp_all
    obtain ⟨d, ds, hd⟩ := List.exists_cons_of_ne_nil hne
    have hhead := List.head_dropWhile_not (fun c : Char => !c.isDigit) hne
    rw [hd, List.takeWhile_cons_of_pos (by simpa [hd] using hhead)] at h
    cases h
  · intro h
    rw [List.dropWhile_eq_nil_iff.mpr fun c hc => by simp [h c hc]]
    rfl

/-- The first number of a name that ends in a number and has no other digit. -/
theorem firstNumber_append {s : String} (hs : NoDigit s) (n : Nat) :
    firstNumber (s ++ toString n) = some (toString n) := by
  have hd : (s ++ toString n).toList.dropWhile (fun c => !c.isDigit) = (toString n).toList := by
    rw [String.toList_append, List.dropWhile_append_of_pos fun c hc => by simp [hs c hc]]
    cases h : (toString n).toList with
    | nil => rfl
    | cons c cs =>
      have hm : c ∈ (toString n).toList := h ▸ List.mem_cons_self
      simp [isDigit_of_mem_toString hm]
  have ht : (toString n).toList.takeWhile Char.isDigit = (toString n).toList :=
    List.takeWhile_eq_self_iff.mpr fun c hc => isDigit_of_mem_toString hc
  have hne : (toString n).toList ≠ [] := by
    rw [toList_toString]; exact Nat.toDigits_ne_nil
  unfold firstNumber
  rw [hd, ht]
  split
  · rename_i h; exact absurd h hne
  · rw [String.ofList_toList]

/-- If there is a digit before a dash, the first number is before the dash. -/
theorem firstNumber_dash {s : String} (hs : ¬ NoDigit s) (t : String) :
    firstNumber (s ++ "-" ++ t) = firstNumber s ∧ ∃ ds, firstNumber s = some ds := by
  have hdrop : s.toList.dropWhile (fun c => !c.isDigit) ≠ [] := by
    intro h
    refine hs fun c hc => ?_
    simpa using List.dropWhile_eq_nil_iff.mp h c hc
  obtain ⟨d, ds, hd⟩ := List.exists_cons_of_ne_nil hdrop
  have hdigit : d.isDigit = true := by
    have h := List.head_dropWhile_not (fun c : Char => !c.isDigit) hdrop
    simpa [hd] using h
  have hdash : (s ++ "-" ++ t).toList.dropWhile (fun c => !c.isDigit) =
      d :: ds ++ '-' :: t.toList := by
    simp only [String.toList_append, show "-".toList = ['-'] by decide, List.append_assoc,
      List.singleton_append]
    rw [List.dropWhile_append, hd]
    rfl
  have htake : (d :: ds ++ '-' :: t.toList).takeWhile Char.isDigit = (d :: ds).takeWhile Char.isDigit := by
    rw [List.takeWhile_append]
    split
    · rename_i hlen
      rw [List.takeWhile_cons_of_neg (by decide), List.append_nil]
      exact ((List.takeWhile_prefix _).eq_of_length hlen).symm
    · rfl
  unfold firstNumber
  rw [hdash, htake, hd]
  refine ⟨rfl, ?_⟩
  rw [List.takeWhile_cons_of_pos hdigit]
  exact ⟨_, rfl⟩

theorem atoi_toString {n : Nat} (h : n ≤ maxInt) : atoi (toString n) = ((n : Int), none) := by
  unfold atoi
  simp only [toList_toString, Nat.ofDigitChars_ten_toDigits]
  rw [if_pos h]

/-! ## Names joined with a dash -/

/-- The part of a list after its last item without `p` is determined by the list. -/
theorem append_cons_inj {α : Type} {p : α → Prop} {a b : α} {l₁ l₂ r₁ r₂ : List α}
    (ha : ¬ p a) (hb : ¬ p b) (h₁ : ∀ x ∈ r₁, p x) (h₂ : ∀ x ∈ r₂, p x)
    (h : l₁ ++ a :: r₁ = l₂ ++ b :: r₂) : l₁ = l₂ ∧ r₁ = r₂ := by
  rcases List.append_eq_append_iff.mp h with ⟨m, rfl, hm⟩ | ⟨m, rfl, hm⟩
  · cases m with
    | nil => simp_all
    | cons x m =>
      rw [List.cons_append, List.cons.injEq] at hm
      exact absurd (h₁ b (hm.2 ▸ by simp)) hb
  · cases m with
    | nil => simp_all
    | cons x m =>
      rw [List.cons_append, List.cons.injEq] at hm
      exact absurd (h₂ a (hm.2 ▸ by simp)) ha

/-- A name of the form `a-i` determines `a` and `i`. -/
theorem dash_inj {a b : String} {i j : Nat} (h : a ++ "-" ++ toString i = b ++ "-" ++ toString j) :
    a = b ∧ i = j := by
  have h := congrArg String.toList h
  simp only [String.toList_append, show "-".toList = ['-'] by decide, List.append_assoc,
    List.singleton_append] at h
  obtain ⟨h₁, h₂⟩ := append_cons_inj (p := fun c : Char => c.isDigit = true) (by decide) (by decide)
    (fun c hc => isDigit_of_mem_toString hc) (fun c hc => isDigit_of_mem_toString hc) h
  exact ⟨String.toList_inj.mp h₁, toString_nat_inj (String.toList_inj.mp h₂)⟩

example : firstNumber "k8s-web-12" = some "8" := by decide

end Go
