import Mathlib.Data.Bool.AllAny
import Mathlib.Data.List.TakeWhile

/-!
# `net/url`

`url.Parse` and `URL.Query`, as in Go 1.12. Of a parsed URL only the raw query is kept
(`parse`), and an error has no text here. A value of a query is a list of bytes, since a
percent-encoded string need not be UTF-8.

* `parse`: the raw query of a string, or `none` if `url.Parse` fails. `parseRequestURI`: whether
  `url.ParseRequestURI` succeeds.
* `parseQuery` and `get`: the values of a query. `;` separates them as `&` does.
* `Plain` and `InValue`: the characters that stand for themselves in a key and in a value.
  `parseQuery_queryOf`: a query of such keys and values is read as it is written.
* `parseQuery_pair`: what is read of a pair with any value. Only a value of characters in `InValue` is
  read as it is written, since everything else makes it shorter.
* `parse_hostless`: the query of a URL that has a scheme and nothing else.
-/

namespace Go.Url

/-- The UTF-8 bytes. -/
def bytes (l : List Char) : List UInt8 := l.flatMap String.utf8EncodeChar

/-! ## Escapes -/

/-- Where an escaped string stands. -/
inductive Encoding where
  | path | userPassword | queryComponent | fragment | host | zone
  deriving DecidableEq

def isHex (c : Char) : Bool :=
  c.isDigit || ('a' ≤ c && c ≤ 'f') || ('A' ≤ c && c ≤ 'F')

def unhex (c : Char) : Nat :=
  if c.isDigit then c.toNat - '0'.toNat
  else if 'a' ≤ c && c ≤ 'f' then c.toNat - 'a'.toNat + 10
  else c.toNat - 'A'.toNat + 10

/-- `shouldEscape` for a host: every byte but these. -/
def shouldEscapeHost (c : Nat) : Bool :=
  !((Char.ofNat c).isAlphanum || "!$&'()*+,;=:[]<>\"-_.~".toList.contains (Char.ofNat c))

/-- An escape that the part of the URL allows. -/
def escapeAllowed (mode : Encoding) (a b : Char) : Bool :=
  match mode with
  | .host => !(unhex a < 8 && !(a = '2' && b = '5'))
  | .zone =>
    (a = '2' && b = '5') || unhex a * 16 + unhex b = 32 || !shouldEscapeHost (unhex a * 16 + unhex b)
  | _ => true

/-- A character that the part of the URL allows. -/
def charAllowed (mode : Encoding) (c : Char) : Bool :=
  match mode with
  | .host | .zone => !(c.toNat < 128 && shouldEscapeHost c.toNat)
  | _ => true

/-- `unescape`. -/
def unescape (mode : Encoding) : List Char → Option (List UInt8)
  | [] => some []
  | c :: rest =>
    if c = '%' then
      match rest with
      | a :: b :: rest =>
        if isHex a && isHex b && escapeAllowed mode a b then
          (unescape mode rest).map (UInt8.ofNat (unhex a * 16 + unhex b) :: ·)
        else none
      | _ => none
    else if !charAllowed mode c then none
    else if mode = .queryComponent && c = '+' then (unescape mode rest).map (32 :: ·)
    else (unescape mode rest).map (String.utf8EncodeChar c ++ ·)

/-! ## `url.Parse` -/

/-- `split` at the first `c`, which is dropped. -/
def split (c : Char) (l : List Char) : List Char × List Char :=
  (l.takeWhile (· ≠ c), (l.dropWhile (· ≠ c)).drop 1)

/-- The loop of `getscheme`, after the characters `read`: whether there is a scheme, and the rest;
`none` is a missing scheme. -/
def getscheme (rawurl : List Char) : (read : Nat) → List Char → Option (Bool × List Char)
  | _, [] => some (false, rawurl)
  | i, c :: rest =>
    if c.isAlpha then getscheme rawurl (i + 1) rest
    else if c.isDigit || c = '+' || c = '-' || c = '.' then
      if i = 0 then some (false, rawurl) else getscheme rawurl (i + 1) rest
    else if c = ':' then
      if i = 0 then none else some (true, rest)
    else some (false, rawurl)

/-- `validOptionalPort`. -/
def validOptionalPort (port : List Char) : Bool :=
  match port with
  | [] => true
  | c :: rest => c = ':' && rest.all Char.isDigit

/-- The part before the last `c`, and the part after it. -/
def cutLast (c : Char) (l : List Char) : Option (List Char × List Char) :=
  if c ∈ l then
    some (((l.reverse.dropWhile (· ≠ c)).drop 1).reverse, (l.reverse.takeWhile (· ≠ c)).reverse)
  else none

/-- The part before the first `%25`, and the part from there on. -/
def cutZone : List Char → Option (List Char × List Char)
  | [] => none
  | '%' :: '2' :: '5' :: rest => some ([], '%' :: '2' :: '5' :: rest)
  | c :: rest => (cutZone rest).map fun (a, b) => (c :: a, b)

/-- `parseHost` succeeds. -/
def validHost (host : List Char) : Bool :=
  match host with
  | '[' :: _ =>
    match cutLast ']' host with
    | none => false
    | some (literal, colonPort) =>
      if !validOptionalPort colonPort then false
      else
        match cutZone literal with
        | none => (unescape .host host).isSome
        | some (addr, zone) =>
          (unescape .host addr).isSome && (unescape .zone zone).isSome &&
            (unescape .host (']' :: colonPort)).isSome
  | _ => (unescape .host host).isSome

/-- `validUserinfo`. -/
def validUserinfo (l : List Char) : Bool :=
  l.all fun c => c.isAlphanum || "-._:~!$&'()*+,;=%@".toList.contains c

/-- `parseAuthority` succeeds. -/
def validAuthority (authority : List Char) : Bool :=
  match cutLast '@' authority with
  | none => validHost authority
  | some (userinfo, host) =>
    validHost host && validUserinfo userinfo &&
      (unescape .userPassword (split ':' userinfo).1).isSome &&
      (unescape .userPassword (split ':' userinfo).2).isSome

/-- The authority and the path of the part before the query, both well formed. -/
def validHierarchy (scheme : Bool) (rest : List Char) : Bool :=
  match rest with
  | '/' :: '/' :: authorityPath =>
    if scheme || authorityPath.head? ≠ some '/' then
      validAuthority (authorityPath.takeWhile (· ≠ '/')) &&
        (unescape .path (authorityPath.dropWhile (· ≠ '/'))).isSome
    else (unescape .path rest).isSome
  | _ => (unescape .path rest).isSome

/-- The query is split off. A single `?` at the end is none. -/
def cutQuery (rest : List Char) : List Char × List Char :=
  if rest.getLast? = some '?' ∧ rest.count '?' = 1 then (rest.dropLast, [])
  else split '?' rest

/-- `parse`: the raw query of the URL without its fragment. -/
def parseNoFragment (rawurl : List Char) : Option (List Char) :=
  if rawurl.any (fun c => c.toNat < 32 || c.toNat = 127) then none
  else if rawurl = ['*'] then some []
  else
    match getscheme rawurl 0 rawurl with
    | none => none
    | some (scheme, rest) =>
      let (rest, rawQuery) := cutQuery rest
      if rest.head? ≠ some '/' then
        -- A rootless path is opaque after a scheme; without one its first segment has no colon.
        if scheme then some rawQuery
        else if ':' ∈ rest.takeWhile (· ≠ '/') then none
        else if (unescape .path rest).isSome then some rawQuery
        else none
      else if validHierarchy scheme rest then some rawQuery
      else none

/-- `url.Parse`: the raw query (module doc). -/
def parse (rawurl : String) : Option (List Char) :=
  let (u, frag) := split '#' rawurl.toList
  match parseNoFragment u with
  | none => none
  | some rawQuery => if (unescape .fragment frag).isSome then some rawQuery else none

/-- `url.ParseRequestURI` succeeds: for an absolute URI or an absolute path. A fragment is not split
off, and only after a scheme is there an authority. -/
def parseRequestURI (rawurl : String) : Bool :=
  let u := rawurl.toList
  if u.any (fun c => c.toNat < 32 || c.toNat = 127) || u = [] then false
  else if u = ['*'] then true
  else
    match getscheme u 0 u with
    | none => false
    | some (scheme, rest) =>
      let rest := (cutQuery rest).1
      if rest.head? ≠ some '/' then scheme
      else if scheme then validHierarchy scheme rest
      else (unescape .path rest).isSome

/-! ## `URL.Query` -/

/-- One part of a query: a key and a value. It is skipped if an escape in it is wrong. -/
def parsePair (part : List Char) : Option (List UInt8 × List UInt8) :=
  if part = [] then none
  else
    match unescape .queryComponent (split '=' part).1, unescape .queryComponent (split '=' part).2 with
    | some key, some value => some (key, value)
    | _, _ => none

/-- `URL.Query`, as the list of the pairs. -/
def parseQuery (rawQuery : List Char) : List (List UInt8 × List UInt8) :=
  (rawQuery.splitOnP fun c => c = '&' || c = ';').filterMap parsePair

/-- `Values.Get`: the first value, or no bytes. -/
def get (values : List (List UInt8 × List UInt8)) (key : String) : List UInt8 :=
  ((values.find? fun v => v.1 = bytes key.toList).map Prod.snd).getD []

/-! ## Plain values -/

/-- The character stands for itself in the value of a query. -/
def InValue (c : Char) : Prop := c ≠ '%' ∧ c ≠ '+' ∧ c ≠ '&' ∧ c ≠ ';'

/-- The character stands for itself in the key of a query. -/
def Plain (c : Char) : Prop := c ≠ '%' ∧ c ≠ '+' ∧ c ≠ '&' ∧ c ≠ ';' ∧ c ≠ '='

instance (c : Char) : Decidable (InValue c) := inferInstanceAs (Decidable (_ ∧ _))

theorem Plain.inValue {c : Char} (h : Plain c) : InValue c := ⟨h.1, h.2.1, h.2.2.1, h.2.2.2.1⟩

theorem unescape_cons {c : Char} {rest : List Char} (hpct : c ≠ '%') (hplus : c ≠ '+') :
    unescape .queryComponent (c :: rest) =
      (unescape .queryComponent rest).map (String.utf8EncodeChar c ++ ·) := by
  rw [unescape.eq_def]
  dsimp only
  rw [if_neg hpct, if_neg (by simp [charAllowed]), if_neg (by simp [hplus])]

theorem unescape_plain {l : List Char} (h : ∀ c ∈ l, InValue c) :
    unescape .queryComponent l = some (bytes l) := by
  induction l with
  | nil => rfl
  | cons c rest ih =>
    obtain ⟨hc, hrest⟩ := List.forall_mem_cons.mp h
    rw [unescape_cons hc.1 hc.2.1, ih hrest]
    rfl

theorem split_plain {key value : List Char} {c : Char} (h : ∀ x ∈ key, x ≠ c) :
    split c (key ++ c :: value) = (key, value) := by
  have hk : ∀ x ∈ key, decide (x ≠ c) = true := fun x hx => by simpa using h x hx
  unfold split
  rw [List.takeWhile_append_of_pos hk, List.dropWhile_append_of_pos hk]
  simp

/-- A pair of plain strings is read as it is written. -/
theorem parsePair_plain {key value : List Char} (hk : ∀ c ∈ key, Plain c)
    (hv : ∀ c ∈ value, InValue c) : parsePair (key ++ '=' :: value) = some (bytes key, bytes value) := by
  have hsplit : split '=' (key ++ '=' :: value) = (key, value) :=
    split_plain fun c hc => (hk c hc).2.2.2.2
  have hne : key ++ '=' :: value ≠ [] := by simp
  rw [parsePair, if_neg hne, hsplit, unescape_plain fun c hc => (hk c hc).inValue, unescape_plain hv]

theorem inValue_not_separator {l : List Char} (h : ∀ c ∈ l, InValue c) :
    ∀ c ∈ l, (decide (c = '&') || decide (c = ';')) = false := by
  intro c hc
  obtain ⟨-, -, hamp, hsemi⟩ := h c hc
  simp [hamp, hsemi]

theorem pair_not_separator {key value : List Char} (hk : ∀ c ∈ key, Plain c)
    (hv : ∀ c ∈ value, InValue c) :
    ∀ c ∈ key ++ '=' :: value, (decide (c = '&') || decide (c = ';')) = false := by
  intro c hc
  rcases List.mem_append.mp hc with hc | hc
  · exact inValue_not_separator (fun c hc => (hk c hc).inValue) c hc
  rcases List.mem_cons.mp hc with rfl | hc
  · rfl
  · exact inValue_not_separator hv c hc

/-- The first pair of a query. -/
theorem parseQuery_cons {key value rest : List Char} (hk : ∀ c ∈ key, Plain c)
    (hv : ∀ c ∈ value, InValue c) :
    parseQuery (key ++ '=' :: value ++ '&' :: rest) =
      (bytes key, bytes value) :: parseQuery rest := by
  unfold parseQuery
  rw [List.splitOnP_append_cons_of_forall_mem (pair_not_separator hk hv) '&' rfl, List.filterMap_cons,
    parsePair_plain hk hv]

/-- The last pair of a query. -/
theorem parseQuery_last {key value : List Char} (hk : ∀ c ∈ key, Plain c)
    (hv : ∀ c ∈ value, InValue c) :
    parseQuery (key ++ '=' :: value) = [(bytes key, bytes value)] := by
  unfold parseQuery
  rw [List.splitOnP_eq_singleton (pair_not_separator hk hv), List.filterMap_cons,
    parsePair_plain hk hv]
  rfl

/-- A query of pairs, as it is written. -/
def queryOf : List (List Char × List Char) → List Char
  | [] => []
  | [(key, value)] => key ++ '=' :: value
  | (key, value) :: rest => key ++ '=' :: value ++ '&' :: queryOf rest

/-- Plain pairs are read back. -/
theorem parseQuery_queryOf {l : List (List Char × List Char)} (hl : l ≠ [])
    (h : ∀ kv ∈ l, (∀ c ∈ kv.1, Plain c) ∧ ∀ c ∈ kv.2, InValue c) :
    parseQuery (queryOf l) = l.map fun kv => (bytes kv.1, bytes kv.2) := by
  induction l with
  | nil => exact absurd rfl hl
  | cons kv rest ih =>
    obtain ⟨⟨hk, hv⟩, hrest⟩ := List.forall_mem_cons.mp h
    cases rest with
    | nil => exact parseQuery_last hk hv
    | cons kv' rest => exact (parseQuery_cons hk hv).trans (congrArg _ (ih (by simp) hrest))

/-! ## URLs without a host -/

/-- The character may stand in a query as it is. -/
def InQuery (c : Char) : Prop := c ≠ '#' ∧ c ≠ '?' ∧ 32 ≤ c.toNat ∧ c.toNat ≠ 127

instance (c : Char) : Decidable (InQuery c) := inferInstanceAs (Decidable (_ ∧ _))

/-- A control character, which no URL may have. -/
def IsControl (c : Char) : Prop := c.toNat < 32 ∨ c.toNat = 127

instance (c : Char) : Decidable (IsControl c) := inferInstanceAs (Decidable (_ ∨ _))

/-- The character stands for itself in the value of a query of a whole URL. -/
def Readable (c : Char) : Prop := c ≠ '#' ∧ ¬ IsControl c ∧ InValue c

instance (c : Char) : Decidable (Readable c) := inferInstanceAs (Decidable (_ ∧ _))

/-- The characters of a query are those of its pairs, and two others. -/
theorem forall_mem_queryOf {P : Char → Prop} (heq : P '=') (hamp : P '&')
    {l : List (List Char × List Char)} (h : ∀ kv ∈ l, (∀ c ∈ kv.1, P c) ∧ ∀ c ∈ kv.2, P c) :
    ∀ c ∈ queryOf l, P c := by
  induction l with
  | nil => simp [queryOf]
  | cons kv rest ih =>
    obtain ⟨⟨hk, hv⟩, hrest⟩ := List.forall_mem_cons.mp h
    have hpair : ∀ c ∈ kv.1 ++ '=' :: kv.2, P c :=
      List.forall_mem_append.mpr ⟨hk, List.forall_mem_cons.mpr ⟨heq, hv⟩⟩
    cases rest with
    | nil => exact hpair
    | cons kv' rest =>
      exact List.forall_mem_append.mpr ⟨hpair, List.forall_mem_cons.mpr ⟨hamp, ih hrest⟩⟩

/-- The unreserved characters of a URL: ASCII letters and digits, and four others. -/
def Unreserved (c : Char) : Prop := c.isAlphanum = true ∨ c ∈ ['-', '.', '_', '~']

instance (c : Char) : Decidable (Unreserved c) := inferInstanceAs (Decidable (_ ∨ _))

theorem Unreserved.ne {c d : Char} (h : Unreserved c) (hd : ¬ Unreserved d) : c ≠ d := by
  rintro rfl
  exact hd h

theorem Unreserved.plain {c : Char} (h : Unreserved c) : Plain c :=
  ⟨h.ne (by decide), h.ne (by decide), h.ne (by decide), h.ne (by decide), h.ne (by decide)⟩

theorem Unreserved.inQuery {c : Char} (h : Unreserved c) : InQuery c := by
  refine ⟨h.ne (by decide), h.ne (by decide), ?_⟩
  rcases h with h | h
  · delta Char.isAlphanum Char.isAlpha Char.isUpper Char.isLower Char.isDigit at h
    simp only [Bool.or_eq_true, Bool.and_eq_true, decide_eq_true_eq, UInt32.le_iff_toNat_le,
      ge_iff_le] at h
    have hval : c.toNat = c.val.toNat := rfl
    have h48 : '0'.val.toNat = 48 := rfl
    have h57 : '9'.val.toNat = 57 := rfl
    have h65 : 'A'.val.toNat = 65 := rfl
    have h90 : 'Z'.val.toNat = 90 := rfl
    have h97 : 'a'.val.toNat = 97 := rfl
    have h122 : 'z'.val.toNat = 122 := rfl
    omega
  · simp only [List.mem_cons, List.not_mem_nil, or_false] at h
    rcases h with rfl | rfl | rfl | rfl <;> decide

theorem Unreserved.readable {c : Char} (h : Unreserved c) : Readable c := by
  refine ⟨h.inQuery.1, ?_, h.plain.inValue⟩
  have := h.inQuery.2.2
  unfold IsControl
  omega

theorem getscheme_alpha {rawurl scheme rest : List Char} {i : Nat}
    (hs : ∀ c ∈ scheme, c.isAlpha = true) (hi : 0 < i ∨ scheme ≠ []) :
    getscheme rawurl i (scheme ++ ':' :: rest) = some (true, rest) := by
  induction scheme generalizing i with
  | nil =>
    have hi' : i ≠ 0 := (hi.resolve_right fun h => h rfl).ne'
    have halpha : ':'.isAlpha = false := by decide
    have hdigit : ':'.isDigit = false := by decide
    simp [getscheme, halpha, hdigit, hi']
  | cons c scheme ih =>
    obtain ⟨hc, hrest⟩ := List.forall_mem_cons.mp hs
    rw [List.cons_append, getscheme, if_pos hc]
    exact ih hrest (.inl (Nat.succ_pos i))

theorem inQuery_of_alpha {c : Char} (h : c.isAlpha = true) : InQuery c := by
  have halnum : Unreserved c := .inl (Bool.or_eq_true_iff.mpr (.inl h))
  exact halnum.inQuery

theorem split_none {c : Char} {l : List Char} (h : ∀ x ∈ l, x ≠ c) : split c l = (l, []) := by
  have hl : ∀ x ∈ l, decide (x ≠ c) = true := fun x hx => by simpa using h x hx
  unfold split
  rw [List.takeWhile_eq_self_iff.mpr hl, List.dropWhile_eq_nil_iff.mpr hl]
  rfl

/-- The query is what follows the first question mark, if that is not the end. -/
theorem cutQuery_eq {l q : List Char} (hl : ∀ c ∈ l, c ≠ '?') (hq₀ : q ≠ []) :
    cutQuery (l ++ '?' :: q) = (l, q) := by
  have hlast : ¬ ((l ++ '?' :: q).getLast? = some '?' ∧ (l ++ '?' :: q).count '?' = 1) := by
    obtain ⟨q', x, rfl⟩ := (List.eq_nil_or_concat q).resolve_left hq₀
    rw [List.concat_eq_append, ← List.cons_append, ← List.append_assoc, List.getLast?_concat]
    rintro ⟨hx, hcount⟩
    cases hx
    simp only [List.count_append, List.count_cons_self, List.count_nil] at hcount
    omega
  rw [cutQuery, if_neg hlast, split_plain hl]

theorem parseNoFragment_hostless {scheme q : List Char} (hs : ∀ c ∈ scheme, c.isAlpha = true)
    (hs₀ : scheme ≠ []) (hq₀ : q ≠ []) :
    parseNoFragment (scheme ++ ':' :: ['/', '/'] ++ '?' :: q) =
      if q.any fun c => decide (IsControl c) then none else some q := by
  have hctl : (scheme ++ ':' :: ['/', '/'] ++ '?' :: q).any
      (fun c => c.toNat < 32 || c.toNat = 127) = true ↔ q.any fun c => decide (IsControl c) := by
    have hscheme : ∀ c ∈ scheme, ¬ IsControl c := fun c hc => by
      have := (inQuery_of_alpha (hs c hc)).2.2
      unfold IsControl
      omega
    have hsep : ∀ c ∈ [':', '/', '/', '?'], ¬ IsControl c :=
      List.all_iff_forall_prop.mp (by decide)
    simp only [List.any_eq_true, List.mem_append, List.mem_cons, Bool.or_eq_true,
      decide_eq_true_eq, List.not_mem_nil, or_false]
    constructor
    · rintro ⟨c, (hc | rfl | rfl | rfl) | rfl | hc, hctl⟩
      · exact absurd hctl (hscheme c hc)
      · exact absurd hctl (hsep _ (by decide))
      · exact absurd hctl (hsep _ (by decide))
      · exact absurd hctl (hsep _ (by decide))
      · exact absurd hctl (hsep _ (by decide))
      · exact ⟨c, hc, hctl⟩
    · rintro ⟨c, hc, hctl⟩
      exact ⟨c, .inr (.inr hc), hctl⟩
  have hscheme : getscheme (scheme ++ ':' :: ['/', '/'] ++ '?' :: q) 0
      (scheme ++ ':' :: ['/', '/'] ++ '?' :: q) = some (true, ['/', '/'] ++ '?' :: q) := by
    rw [List.append_assoc]
    exact getscheme_alpha hs (.inr hs₀)
  have hcut : cutQuery (['/', '/'] ++ '?' :: q) = (['/', '/'], q) := cutQuery_eq (by simp) hq₀
  have hstar : scheme ++ ':' :: ['/', '/'] ++ '?' :: q ≠ ['*'] := by
    intro h
    have := congrArg List.length h
    simp at this
    omega
  unfold parseNoFragment
  simp only [hctl, if_neg hstar, hscheme, hcut]
  rfl

/-- The URL without its fragment. -/
theorem split_fragment {scheme q : List Char} (hs : ∀ c ∈ scheme, c.isAlpha = true) :
    (split '#' (scheme ++ ':' :: ['/', '/'] ++ '?' :: q)).1 =
      scheme ++ ':' :: ['/', '/'] ++ '?' :: q.takeWhile (· ≠ '#') := by
  have hpre : ∀ c ∈ scheme ++ ':' :: ['/', '/'], decide (c ≠ '#') = true := by
    intro c hc
    simp only [List.mem_append, List.mem_cons, List.not_mem_nil, or_false] at hc
    rcases hc with hc | rfl | rfl | rfl
    · exact decide_eq_true (inQuery_of_alpha (hs c hc)).1
    · rfl
    · rfl
    · rfl
  unfold split
  rw [List.takeWhile_append_of_pos hpre, List.takeWhile_cons_of_pos (by decide)]

/-- What is read of a URL with a scheme of letters, no host and no path: the query before the
fragment. -/
theorem parse_hostless_some {scheme q r : List Char} (hs : ∀ c ∈ scheme, c.isAlpha = true)
    (hs₀ : scheme ≠ []) (hq : q.takeWhile (· ≠ '#') ≠ [])
    (h : parse (String.ofList (scheme ++ ':' :: ['/', '/'] ++ '?' :: q)) = some r) :
    r = q.takeWhile (· ≠ '#') ∧ ∀ c ∈ r, ¬ IsControl c := by
  unfold parse at h
  rw [String.toList_ofList] at h
  simp only [split_fragment hs, parseNoFragment_hostless hs hs₀ hq] at h
  split at h
  · cases h
  · rename_i hnone
    split at hnone
    · cases hnone
    · rename_i hctl
      cases hnone
      split at h
      · cases h
        exact ⟨rfl, fun c hc hc' => hctl (List.any_eq_true.mpr ⟨c, hc, decide_eq_true hc'⟩)⟩
      · cases h

/-- The raw query of a URL with a scheme of letters, no host and no path. -/
theorem parse_hostless {scheme q : List Char} (hs : ∀ c ∈ scheme, c.isAlpha = true)
    (hs₀ : scheme ≠ []) (hq : ∀ c ∈ q, c ≠ '#' ∧ ¬ IsControl c) (hq₀ : q ≠ []) :
    parse (String.ofList (scheme ++ ':' :: ['/', '/'] ++ '?' :: q)) = some q := by
  have hfrag : split '#' (scheme ++ ':' :: ['/', '/'] ++ '?' :: q) =
      (scheme ++ ':' :: ['/', '/'] ++ '?' :: q, []) := by
    refine split_none fun c hc => ?_
    simp only [List.mem_append, List.mem_cons, List.not_mem_nil, or_false] at hc
    rcases hc with (hc | rfl | rfl | rfl) | rfl | hc
    · exact (inQuery_of_alpha (hs c hc)).1
    · decide
    · decide
    · decide
    · decide
    · exact (hq c hc).1
  rw [parse, String.toList_ofList, hfrag]
  dsimp only
  have hctl : ¬ q.any (fun c => decide (IsControl c)) = true := by
    rw [List.any_eq_true]
    rintro ⟨c, hc, hctl⟩
    exact (hq c hc).2 (of_decide_eq_true hctl)
  rw [parseNoFragment_hostless hs hs₀ hq₀, if_neg hctl]
  rfl

/-! ## Values that are not plain -/

theorem bytes_append (l l' : List Char) : bytes (l ++ l') = bytes l ++ bytes l' :=
  List.flatMap_append

theorem bytes_cons (c : Char) (l : List Char) : bytes (c :: l) = String.utf8EncodeChar c ++ bytes l :=
  List.flatMap_cons

theorem utf8EncodeChar_pos (c : Char) : 0 < (String.utf8EncodeChar c).length := by
  rw [String.length_utf8EncodeChar]
  exact c.utf8Size_pos

theorem bytes_length_le (l : List Char) : l.length ≤ (bytes l).length := by
  induction l with
  | nil => exact Nat.zero_le _
  | cons c l ih =>
    have := utf8EncodeChar_pos c
    rw [bytes_cons, List.length_append, List.length_cons]
    omega

theorem bytes_sublist {l l' : List Char} (h : l.Sublist l') :
    (bytes l).length ≤ (bytes l').length := by
  induction h with
  | slnil => exact le_refl _
  | cons c _ ih => rw [bytes_cons, List.length_append]; omega
  | cons_cons c _ ih => rw [bytes_cons, bytes_cons, List.length_append, List.length_append]; omega

/-- Escapes make a string shorter. -/
theorem unescape_length {l : List Char} {b : List UInt8} (h : unescape .queryComponent l = some b) :
    b.length ≤ (bytes l).length ∧ (b.length = (bytes l).length → '%' ∉ l) := by
  generalize hmode : Encoding.queryComponent = mode at h
  induction l using unescape.induct mode generalizing b with
  | case1 =>
    cases h
    exact ⟨le_refl _, fun _ => by simp⟩
  | case2 x y rest hhex ih =>
    rw [unescape.eq_def] at h
    dsimp only at h
    rw [if_pos rfl, if_pos hhex] at h
    obtain ⟨b', hb', rfl⟩ := Option.map_eq_some_iff.mp h
    have hle := (ih hb').1
    have hx := utf8EncodeChar_pos x
    have hpct := utf8EncodeChar_pos '%'
    simp only [bytes_cons, List.length_append, List.length_cons]
    omega
  | case3 x y rest hhex =>
    rw [unescape.eq_def] at h
    dsimp only at h
    rw [if_pos rfl, if_neg hhex] at h
    cases h
  | case4 rest hrest =>
    rw [unescape.eq_def] at h
    dsimp only at h
    rw [if_pos rfl] at h
    split at h
    · exact (hrest _ _ _ rfl).elim
    · cases h
  | case5 c rest hc hallowed =>
    rw [unescape.eq_def] at h
    dsimp only at h
    rw [if_neg hc, if_pos hallowed] at h
    cases h
  | case6 c rest hc hallowed hplus ih =>
    rw [unescape.eq_def] at h
    dsimp only at h
    rw [if_neg hc, if_neg hallowed, if_pos hplus] at h
    obtain ⟨b', hb', rfl⟩ := Option.map_eq_some_iff.mp h
    obtain ⟨hle, hpct⟩ := ih hb'
    have hpos := utf8EncodeChar_pos c
    simp only [bytes_cons, List.length_append, List.length_cons]
    refine ⟨by omega, fun heq => ?_⟩
    exact List.not_mem_cons_of_ne_of_not_mem (Ne.symm hc) (hpct (by omega))
  | case7 c rest hc hallowed hplus ih =>
    rw [unescape.eq_def] at h
    dsimp only at h
    rw [if_neg hc, if_neg hallowed, if_neg hplus] at h
    obtain ⟨b', hb', rfl⟩ := Option.map_eq_some_iff.mp h
    obtain ⟨hle, hpct⟩ := ih hb'
    simp only [bytes_cons, List.length_append]
    refine ⟨by omega, fun heq => ?_⟩
    exact List.not_mem_cons_of_ne_of_not_mem (Ne.symm hc) (hpct (by omega))

/-- A string that is read as it is written has no escapes and no plus signs. -/
theorem literal_of_unescape {l : List Char} (h : unescape .queryComponent l = some (bytes l)) :
    '%' ∉ l ∧ '+' ∉ l := by
  have hpct : '%' ∉ l := (unescape_length h).2 rfl
  refine ⟨hpct, ?_⟩
  induction l with
  | nil => exact List.not_mem_nil
  | cons c rest ih =>
    obtain ⟨hc, hrest⟩ := not_or.mp (mt List.mem_cons.mpr hpct)
    by_cases hplus : c = '+'
    · subst hplus
      rw [unescape.eq_def] at h
      dsimp only at h
      rw [if_neg (by decide), if_neg (by decide), if_pos (by decide)] at h
      obtain ⟨b', -, hb'⟩ := Option.map_eq_some_iff.mp h
      rw [bytes_cons, show String.utf8EncodeChar '+' = [43] by decide] at hb'
      exact absurd (List.cons.inj hb').1 (by decide)
    · rw [unescape_cons (Ne.symm hc) hplus] at h
      obtain ⟨b', hb', heq⟩ := Option.map_eq_some_iff.mp h
      rw [bytes_cons] at heq
      cases List.append_cancel_left heq
      exact List.not_mem_cons_of_ne_of_not_mem (Ne.symm hplus) (ih hb' hrest)

/-- A separator of pairs. -/
def IsSeparator (c : Char) : Prop := c = '&' ∨ c = ';'

/-- A string has no separator, or a first one. -/
theorem separator_cases (l : List Char) : (∀ c ∈ l, ¬ IsSeparator c) ∨
    ∃ pre s post, l = pre ++ s :: post ∧ (∀ c ∈ pre, ¬ IsSeparator c) ∧ IsSeparator s := by
  induction l with
  | nil => exact .inl (by simp)
  | cons c l ih =>
    by_cases hc : IsSeparator c
    · exact .inr ⟨[], c, l, rfl, by simp, hc⟩
    · rcases ih with hl | ⟨pre, s, post, rfl, hpre, hs⟩
      · exact .inl (List.forall_mem_cons.mpr ⟨hc, hl⟩)
      · exact .inr ⟨c :: pre, s, post, rfl, List.forall_mem_cons.mpr ⟨hc, hpre⟩, hs⟩

theorem parseQuery_append {s : Char} (hs : IsSeparator s) (l l' : List Char) :
    parseQuery (l ++ s :: l') = parseQuery l ++ parseQuery l' := by
  unfold parseQuery
  rw [List.splitOnP_append_cons l l' (by simpa [IsSeparator] using hs), List.filterMap_append]

theorem parseQuery_part {l : List Char} (hl : ∀ c ∈ l, ¬ IsSeparator c) :
    parseQuery l = (parsePair l).toList := by
  have hp : ∀ c ∈ l, (decide (c = '&') || decide (c = ';')) = false := fun c hc => by
    simpa [IsSeparator] using hl c hc
  unfold parseQuery
  rw [List.splitOnP_eq_singleton hp, List.filterMap_cons]
  cases parsePair l <;> rfl
/-- A value is not longer than its part of the query. -/
theorem parsePair_length {part : List Char} {v : List UInt8 × List UInt8}
    (h : parsePair part = some v) : v.2.length ≤ (bytes part).length := by
  unfold parsePair at h
  split at h
  · cases h
  · split at h
    · rename_i key value hkey hvalue
      cases h
      have hsub : (split '=' part).2.Sublist part :=
        (List.drop_sublist ..).trans (List.dropWhile_sublist _)
      exact (unescape_length hvalue).1.trans (bytes_sublist hsub)
    · cases h

theorem parseQuery_length {l : List Char} {v : List UInt8 × List UInt8} (hv : v ∈ parseQuery l) :
    v.2.length ≤ (bytes l).length := by
  induction hn : l.length using Nat.strong_induction_on generalizing l with
  | _ n ih =>
    rcases separator_cases l with hl | ⟨pre, s, post, rfl, hpre, hs⟩
    · rw [parseQuery_part hl, Option.mem_toList] at hv
      exact parsePair_length hv
    · have hlen : post.length < n := by
        rw [← hn]
        simp
        omega
      rw [parseQuery_append hs, parseQuery_part hpre, List.mem_append, Option.mem_toList] at hv
      simp only [bytes_append, bytes_cons, List.length_append]
      rcases hv with hv | hv
      · have := parsePair_length hv
        omega
      · have := ih _ hlen hv rfl
        omega

/-- The values that are read of a pair with any value: the value itself up to a separator, and smaller
ones after it. It is read as it is written only if its characters stand for themselves. -/
theorem parseQuery_pair {key l : List Char} (hk : ∀ c ∈ key, Plain c)
    {v : List UInt8 × List UInt8} (hv : v ∈ parseQuery (key ++ '=' :: l)) :
    (v.1 = bytes key ∧ v.2.length ≤ (bytes l).length ∧ (v.2 = bytes l → ∀ c ∈ l, InValue c)) ∨
      (∃ c ∈ l, IsSeparator c) ∧ v.2.length < (bytes l).length := by
  have hkey : ∀ c ∈ key ++ ['='], ¬ IsSeparator c := by
    intro c hc
    rcases List.mem_append.mp hc with hc | hc
    · exact fun h => h.elim (hk c hc).2.2.1 (hk c hc).2.2.2.1
    · cases List.mem_singleton.mp hc
      rintro (h | h) <;> cases h
  -- The part of the key itself.
  have hfirst : ∀ {l}, parsePair (key ++ '=' :: l) = some v →
      v.1 = bytes key ∧ unescape .queryComponent l = some v.2 := by
    intro l h
    have hsplit : split '=' (key ++ '=' :: l) = (key, l) :=
      split_plain fun c hc => (hk c hc).2.2.2.2
    rw [parsePair, if_neg (by simp), hsplit, unescape_plain fun c hc => (hk c hc).inValue] at h
    dsimp only at h
    split at h
    · rename_i key' value hkey' hvalue
      cases h
      exact ⟨(Option.some.inj hkey').symm, hvalue⟩
    · cases h
  rcases separator_cases l with hl | ⟨pre, s, post, rfl, hpre, hs⟩
  · have hpart : ∀ c ∈ key ++ '=' :: l, ¬ IsSeparator c := by
      rw [List.append_cons]
      exact List.forall_mem_append.mpr ⟨hkey, hl⟩
    rw [parseQuery_part hpart, Option.mem_toList] at hv
    obtain ⟨hv₁, hv₂⟩ := hfirst hv
    refine .inl ⟨hv₁, (unescape_length hv₂).1, fun heq c hc => ?_⟩
    rw [heq] at hv₂
    obtain ⟨hpct, hplus⟩ := literal_of_unescape hv₂
    refine ⟨?_, ?_, fun h => hl c hc (.inl h), fun h => hl c hc (.inr h)⟩
    · rintro rfl
      exact hpct hc
    · rintro rfl
      exact hplus hc
  · have hpart : ∀ c ∈ key ++ '=' :: pre, ¬ IsSeparator c := by
      rw [List.append_cons]
      exact List.forall_mem_append.mpr ⟨hkey, hpre⟩
    have hs₀ := utf8EncodeChar_pos s
    have hlen : (bytes (pre ++ s :: post)).length =
        (bytes pre).length + (String.utf8EncodeChar s).length + (bytes post).length := by
      simp only [bytes_append, bytes_cons, List.length_append]
      omega
    rw [← List.cons_append, ← List.append_assoc, parseQuery_append hs, parseQuery_part hpart,
      List.mem_append, Option.mem_toList] at hv
    rcases hv with hv | hv
    · obtain ⟨hv₁, hv₂⟩ := hfirst hv
      have hle := (unescape_length hv₂).1
      refine .inl ⟨hv₁, by omega, fun heq => ?_⟩
      rw [heq] at hle
      omega
    · have := parseQuery_length hv
      exact .inr ⟨⟨s, by simp, hs⟩, by omega⟩

theorem get_cases (values : List (List UInt8 × List UInt8)) (key : String) :
    get values key = [] ∨ ∃ v ∈ values, v.1 = bytes key.toList ∧ v.2 = get values key := by
  unfold get
  cases hfind : values.find? fun v => v.1 = bytes key.toList with
  | none => exact .inl rfl
  | some v => exact .inr ⟨v, List.mem_of_find?_eq_some hfind, by simpa using List.find?_some hfind, rfl⟩

end Go.Url
