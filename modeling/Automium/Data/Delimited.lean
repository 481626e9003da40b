import Mathlib.Data.List.Basic

/-!
# Self-delimiting codes

`Delimited enc f`: of a text that starts with the code of a value, the value is known as far as `f`
tells it, and so is what comes after the code. It is kept by the ways in which a writer puts codes
together: fixed texts (`lit`), one code after the other (`pair`), and a list with separators and an
end (`sepBy`).

`SuffixFree enc` is for codes at the end of a text: what comes before the code may be any text, and
still both are known (`SuffixFree.append_inj`).
-/

namespace Data

variable {σ α β γ δ : Type} {enc : α → List σ} {f : α → β}

/-- The property (module doc). -/
def Delimited (enc : α → List σ) (f : α → β) : Prop :=
  ∀ a b x y, enc a ++ x = enc b ++ y → f a = f b ∧ x = y

namespace Delimited

/-- A reader of the code makes it self-delimiting. -/
theorem of_read {read : List σ → Option (β × List σ)}
    (h : ∀ a x, read (enc a ++ x) = some (f a, x)) : Delimited enc f := by
  intro a b x y he
  have hread := (h a x).symm.trans ((congrArg read he).trans (h b y))
  exact Prod.mk.inj (Option.some.inj hread)

theorem const (w : List σ) : Delimited (fun _ : α => w) fun _ => () :=
  fun _ _ _ _ he => ⟨rfl, List.append_cancel_left he⟩

theorem mono {g : α → γ} (h : Delimited enc f) (hg : ∀ a b, f a = f b → g a = g b) :
    Delimited enc g :=
  fun a b x y he => (h a b x y he).imp_left (hg a b)

theorem comap (h : Delimited enc f) (g : γ → α) : Delimited (fun c => enc (g c)) fun c => f (g c) :=
  fun a b => h (g a) (g b)

theorem pair {enc' : α → List σ} {g : α → γ} (h : Delimited enc f) (h' : Delimited enc' g) :
    Delimited (fun a => enc a ++ enc' a) fun a => (f a, g a) := by
  intro a b x y he
  rw [List.append_assoc, List.append_assoc] at he
  obtain ⟨hf, he⟩ := h a b _ _ he
  obtain ⟨hg, hx⟩ := h' a b x y he
  exact ⟨Prod.ext hf hg, hx⟩

/-- The code itself is known. -/
theorem self (h : Delimited enc f) : Delimited enc enc := fun a b x y he => by
  obtain rfl := (h a b x y he).2
  exact ⟨List.append_cancel_right he, rfl⟩

/-- Two values with one code. -/
theorem inj (h : Delimited enc f) {a b : α} (he : enc a = enc b) : f a = f b :=
  (h a b [] [] (by rw [he])).1

/-- A fixed text comes first. -/
theorem lit (h : Delimited enc f) (w : List σ) : Delimited (fun a => w ++ enc a) f :=
  ((const w).pair h).mono fun _ _ he => (Prod.mk.inj he).2

/-- Codes up to an end that starts none of them. -/
theorem star (h : Delimited enc f) {stop : σ} (hstop : ∀ a x y, enc a ++ x ≠ stop :: y) :
    Delimited (fun l => l.flatMap enc ++ [stop]) (List.map f) := by
  intro l
  induction l with
  | nil =>
    intro l' x y he
    cases l' with
    | nil => exact ⟨rfl, (List.cons.inj he).2⟩
    | cons b l' =>
      dsimp only at he
      rw [List.flatMap_nil, List.nil_append, List.singleton_append, List.flatMap_cons,
        List.append_assoc, List.append_assoc] at he
      exact (hstop b _ _ he.symm).elim
  | cons a l ih =>
    intro l' x y he
    dsimp only at he
    rw [List.flatMap_cons, List.append_assoc, List.append_assoc] at he
    cases l' with
    | nil => exact (hstop a _ _ he).elim
    | cons b l' =>
      rw [List.flatMap_cons, List.append_assoc, List.append_assoc] at he
      obtain ⟨hf, he⟩ := h a b _ _ he
      rw [← List.append_assoc, ← List.append_assoc] at he
      obtain ⟨hl, hx⟩ := ih l' x y he
      exact ⟨by rw [List.map_cons, List.map_cons, hf, hl], hx⟩

theorem intercalate_cons (sep : σ) (w : List σ) (ws : List (List σ)) :
    [sep].intercalate (w :: ws) = w ++ ws.flatMap (sep :: ·) := by
  induction ws generalizing w with
  | nil => simp
  | cons v ws ih =>
    rw [List.intercalate_cons_cons, ih, List.flatMap_cons]
    simp

/-- A list with separators, up to its end. -/
theorem sepBy (h : Delimited enc f) {sep stop : σ} (hne : sep ≠ stop)
    (hstop : ∀ a x y, enc a ++ x ≠ stop :: y) :
    Delimited (fun l => [sep].intercalate (l.map enc) ++ [stop]) (List.map f) := by
  have hrest : Delimited (fun l => l.flatMap (fun a => sep :: enc a) ++ [stop]) (List.map f) :=
    (h.lit [sep]).star fun a x y he => hne (List.cons.inj he).1
  intro l l' x y he
  dsimp only at he
  cases l with
  | nil =>
    cases l' with
    | nil => exact ⟨rfl, (List.cons.inj he).2⟩
    | cons b l' =>
      rw [List.map_nil, List.intercalate_nil, List.nil_append, List.singleton_append, List.map_cons,
        intercalate_cons, List.append_assoc, List.append_assoc] at he
      exact (hstop b _ _ he.symm).elim
  | cons a l =>
    rw [List.map_cons, intercalate_cons, List.flatMap_map, List.append_assoc, List.append_assoc] at he
    cases l' with
    | nil => exact (hstop a _ _ he).elim
    | cons b l' =>
      rw [List.map_cons, intercalate_cons, List.flatMap_map, List.append_assoc, List.append_assoc]
        at he
      obtain ⟨hf, he⟩ := h a b _ _ he
      rw [← List.append_assoc, ← List.append_assoc] at he
      obtain ⟨hl, hx⟩ := hrest l l' x y he
      exact ⟨by rw [List.map_cons, List.map_cons, hf, hl], hx⟩

end Delimited

/-! ## Codes at the end -/

/-- No code is the end of another one. -/
def SuffixFree (enc : α → List σ) : Prop := ∀ a b, enc a <:+ enc b → a = b

/-- Where a code comes last, the text before it is known. -/
theorem SuffixFree.append_inj (h : SuffixFree enc) {x y : List σ} {a b : α}
    (he : x ++ enc a = y ++ enc b) : x = y ∧ a = b := by
  have hab : a = b := by
    have hb : enc b <:+ x ++ enc a := he ▸ List.suffix_append y (enc b)
    rcases List.suffix_or_suffix_of_suffix (List.suffix_append x (enc a)) hb with hs | hs
    · exact h a b hs
    · exact (h b a hs).symm
  subst hab
  exact ⟨List.append_cancel_right he, rfl⟩

end Data
