import Automium.Controller.Rancher

/-!
# The external ID of an app

The ID is a URL with the name and the version of the app as they are, and its reader follows the
grammar of queries. `round_trip_iff`: the reader finds the name and the version again exactly if
their characters mean nothing in a query (`Url.Readable`). A character that ends a pair, starts an
escape or starts the fragment makes shorter what is read, so that the name and the version cannot
make up for each other.
-/

namespace Automium

open Go

namespace ReconcileApplication

/-- The characters of a string stand for themselves in an external ID. -/
def Readable (s : String) : Prop := ∀ c ∈ s.toList, Url.Readable c

instance (s : String) : Decidable (Readable s) := List.decidableBAll _ s.toList

/-- An app with the external ID is read with the name and the version that the ID was made of. -/
def RoundTrips (texts : LibTexts) (name version : String) : Prop :=
  ∀ itm, itm.externalID = externalIDOf name version → ∃ app, appOf texts itm = .ok app ∧
    app.catalog = Url.bytes "automium".toList ∧ app.template = Url.bytes name.toList ∧
    app.version = Url.bytes version.toList

/-- The pairs in the query of an external ID. -/
def externalPairs (name version : List Char) : List (List Char × List Char) :=
  [("catalog".toList, "automium".toList), ("template".toList, name), ("version".toList, version)]

section

variable {name version n v : List Char} {w : List UInt8 × List UInt8}

theorem externalIDOf_eq (name version : String) :
    externalIDOf name version = String.ofList ("catalog".toList ++ ':' :: ['/', '/'] ++
      '?' :: Url.queryOf (externalPairs name.toList version.toList)) := by
  rw [← String.toList_inj, String.toList_ofList]
  change ("catalog://?catalog=automium&template=" ++ name ++ "&version=" ++ version).toList = _
  simp only [String.toList_append, externalPairs, Url.queryOf]
  simp

theorem alpha_catalog : ∀ c ∈ "catalog".toList, c.isAlpha = true := by
  have h : "catalog".toList.all Char.isAlpha = true := by decide
  exact List.all_eq_true.mp h

/-- The keys and the values that the program writes. -/
theorem unreserved_catalog : ∀ c ∈ "catalog".toList, Url.Unreserved c :=
  List.all_iff_forall_prop.mp (by decide)

theorem unreserved_automium : ∀ c ∈ "automium".toList, Url.Unreserved c :=
  List.all_iff_forall_prop.mp (by decide)

theorem unreserved_template : ∀ c ∈ "template".toList, Url.Unreserved c :=
  List.all_iff_forall_prop.mp (by decide)

theorem unreserved_version : ∀ c ∈ "version".toList, Url.Unreserved c :=
  List.all_iff_forall_prop.mp (by decide)

theorem plain_template : ∀ c ∈ "template".toList, Url.Plain c :=
  fun c hc => (unreserved_template c hc).plain

theorem plain_version : ∀ c ∈ "version".toList, Url.Plain c :=
  fun c hc => (unreserved_version c hc).plain

/-! ## Readable characters -/

theorem readable_externalPairs (hname : ∀ c ∈ name, Url.Readable c)
    (hversion : ∀ c ∈ version, Url.Readable c) : ∀ kv ∈ externalPairs name version,
    (∀ c ∈ kv.1, Url.Unreserved c) ∧ ∀ c ∈ kv.2, Url.Readable c := by
  simp only [externalPairs, List.forall_mem_cons, List.not_mem_nil, false_implies, implies_true,
    and_true]
  exact ⟨⟨unreserved_catalog, fun c hc => (unreserved_automium c hc).readable⟩,
    ⟨unreserved_template, hname⟩, unreserved_version, hversion⟩

/-- An ID of readable characters is read as it is written. -/
theorem query_externalIDOf {name version : String} (hname : Readable name)
    (hversion : Readable version) : ∃ query, Url.parse (externalIDOf name version) = some query ∧
      Url.get (Url.parseQuery query) "catalog" = Url.bytes "automium".toList ∧
      Url.get (Url.parseQuery query) "template" = Url.bytes name.toList ∧
      Url.get (Url.parseQuery query) "version" = Url.bytes version.toList := by
  have hpairs := readable_externalPairs hname hversion
  refine ⟨Url.queryOf (externalPairs name.toList version.toList), ?_, ?_⟩
  · rw [externalIDOf_eq]
    refine Url.parse_hostless alpha_catalog (by decide) ?_ (by simp [externalPairs, Url.queryOf])
    refine Url.forall_mem_queryOf (by decide) (by decide) fun kv hkv => ⟨fun c hc => ?_, fun c hc => ?_⟩
    · exact ⟨((hpairs kv hkv).1 c hc).readable.1, ((hpairs kv hkv).1 c hc).readable.2.1⟩
    · exact ⟨((hpairs kv hkv).2 c hc).1, ((hpairs kv hkv).2 c hc).2.1⟩
  · rw [Url.parseQuery_queryOf (by simp [externalPairs]) fun kv hkv =>
      ⟨fun c hc => ((hpairs kv hkv).1 c hc).plain, fun c hc => ((hpairs kv hkv).2 c hc).2.2⟩]
    exact ⟨rfl, rfl, rfl⟩

/-! ## What is read of any ID -/

/-- The query of an ID that ends in the name. -/
def cutInName (n : List Char) : List Char :=
  Url.queryOf [("catalog".toList, "automium".toList), ("template".toList, n)]

/-- The version follows. -/
theorem queryOf_externalPairs (name v : List Char) : Url.queryOf (externalPairs name v) =
    cutInName name ++ '&' :: ("version".toList ++ '=' :: v) := by
  simp only [externalPairs, Url.queryOf, cutInName, List.append_assoc, List.cons_append]

theorem cutInName_append (n rest : List Char) : cutInName (n ++ rest) = cutInName n ++ rest := by
  simp only [Url.queryOf, cutInName, List.append_assoc, List.cons_append]

theorem parseQuery_cutInName (n : List Char) : Url.parseQuery (cutInName n) =
    (Url.bytes "catalog".toList, Url.bytes "automium".toList) ::
      Url.parseQuery ("template".toList ++ '=' :: n) := by
  exact Url.parseQuery_cons (fun c hc => (unreserved_catalog c hc).plain)
    fun c hc => (unreserved_automium c hc).plain.inValue

theorem parseQuery_externalPairs : Url.parseQuery (Url.queryOf (externalPairs name v)) =
    (Url.bytes "catalog".toList, Url.bytes "automium".toList) ::
      (Url.parseQuery ("template".toList ++ '=' :: name) ++
        Url.parseQuery ("version".toList ++ '=' :: v)) := by
  rw [queryOf_externalPairs, Url.parseQuery_append (.inl rfl), parseQuery_cutInName,
    List.cons_append]

/-- The name is empty, or it is a value of the key. -/
theorem read_cases {values : List (List UInt8 × List UInt8)} {key : String}
    (h : Url.get values key = Url.bytes name) :
    name = [] ∨ ∃ w ∈ values, w.1 = Url.bytes key.toList ∧ w.2 = Url.bytes name := by
  rcases Url.get_cases values key with hnil | ⟨w, hw, hkey, hvalue⟩
  · left
    have hle := Url.bytes_length_le name
    rw [← h, hnil] at hle
    exact List.length_eq_zero_iff.mp (Nat.le_zero.mp hle)
  · exact .inr ⟨w, hw, hkey, hvalue.trans h⟩

/-- The name is read from the pair of the template, or it is shorter than the version. -/
theorem template_cases (h : Url.get (Url.parseQuery (Url.queryOf (externalPairs name v))) "template" =
      Url.bytes name) :
    (∀ c ∈ name, Url.InValue c) ∨
      (∃ c ∈ v, Url.IsSeparator c) ∧ (Url.bytes name).length < (Url.bytes v).length := by
  rcases read_cases h with rfl | ⟨w, hw, hkey, hvalue⟩
  · exact .inl (by simp)
  rw [parseQuery_externalPairs, List.mem_cons, List.mem_append] at hw
  rcases hw with rfl | hw | hw
  · exact absurd hkey (by decide)
  · rcases Url.parseQuery_pair plain_template hw with ⟨-, -, hplain⟩ | ⟨-, hlt⟩
    · exact .inl (hplain hvalue)
    · rw [hvalue] at hlt
      exact absurd hlt (lt_irrefl _)
  · rcases Url.parseQuery_pair plain_version hw with ⟨hversion, -⟩ | ⟨hsep, hlt⟩
    · exact absurd (hversion.symm.trans hkey) (by decide)
    · rw [hvalue] at hlt
      exact .inr ⟨hsep, hlt⟩

/-- The version is read from its own pair, or it is shorter than the name. -/
theorem version_cases (h : Url.get (Url.parseQuery (Url.queryOf (externalPairs name v))) "version" =
      Url.bytes version) :
    version = [] ∨
      ((Url.bytes version).length ≤ (Url.bytes v).length ∧
        (Url.bytes version = Url.bytes v → ∀ c ∈ v, Url.InValue c)) ∨
      (∃ c ∈ name, Url.IsSeparator c) ∧ (Url.bytes version).length < (Url.bytes name).length ∨
      (Url.bytes version).length < (Url.bytes v).length := by
  rcases read_cases h with rfl | ⟨w, hw, hkey, hvalue⟩
  · exact .inl rfl
  rw [parseQuery_externalPairs, List.mem_cons, List.mem_append] at hw
  rcases hw with rfl | hw | hw
  · exact absurd hkey (by decide)
  · rcases Url.parseQuery_pair plain_template hw with ⟨htemplate, -⟩ | ⟨hsep, hlt⟩
    · exact absurd (htemplate.symm.trans hkey) (by decide)
    · rw [hvalue] at hlt
      exact .inr (.inr (.inl ⟨hsep, hlt⟩))
  · rcases Url.parseQuery_pair plain_version hw with ⟨-, hle, hplain⟩ | ⟨-, hlt⟩
    · rw [hvalue] at hle hplain
      exact .inr (.inl ⟨hle, hplain⟩)
    · rw [hvalue] at hlt
      exact .inr (.inr (.inr hlt))

theorem not_separator (h : ∀ c ∈ name, Url.InValue c) : ¬ ∃ c ∈ name, Url.IsSeparator c := by
  rintro ⟨c, hc, hs⟩
  exact hs.elim (h c hc).2.2.1 (h c hc).2.2.2

/-- What is read right has no escapes and no separators. -/
theorem inValue_of_read
    (ht : Url.get (Url.parseQuery (Url.queryOf (externalPairs name version))) "template" =
      Url.bytes name)
    (hv : Url.get (Url.parseQuery (Url.queryOf (externalPairs name version))) "version" =
      Url.bytes version) :
    (∀ c ∈ name, Url.InValue c) ∧ ∀ c ∈ version, Url.InValue c := by
  rcases template_cases ht with hname | ⟨hsep, hlt⟩
  · refine ⟨hname, ?_⟩
    rcases version_cases hv with rfl | ⟨-, hplain⟩ | ⟨hsep, -⟩ | hlt
    · simp
    · exact hplain rfl
    · exact absurd hsep (not_separator hname)
    · exact absurd hlt (lt_irrefl _)
  · rcases version_cases hv with rfl | ⟨-, hplain⟩ | ⟨-, hlt'⟩ | hlt'
    · simp at hsep
    · exact absurd hsep (not_separator (hplain rfl))
    · omega
    · omega

/-- A query with a part of the version only. -/
theorem not_read_of_cut (hlt : (Url.bytes v).length < (Url.bytes version).length)
    (ht : Url.get (Url.parseQuery (Url.queryOf (externalPairs name v))) "template" =
      Url.bytes name) :
    Url.get (Url.parseQuery (Url.queryOf (externalPairs name v))) "version" ≠ Url.bytes version := by
  intro hv
  rcases version_cases hv with rfl | ⟨hle, -⟩ | ⟨hsep, hlt'⟩ | hlt'
  · exact absurd hlt (Nat.not_lt_zero _)
  · omega
  · rcases template_cases ht with hname | ⟨-, hlt''⟩
    · exact not_separator hname hsep
    · omega
  · omega

/-- A query with a part of the name only. -/
theorem not_read_of_cutInName (hlt : (Url.bytes n).length < (Url.bytes name).length) :
    Url.get (Url.parseQuery (cutInName n)) "template" ≠ Url.bytes name := by
  intro h
  rcases read_cases h with rfl | ⟨w, hw, hkey, hvalue⟩
  · exact absurd hlt (Nat.not_lt_zero _)
  rw [parseQuery_cutInName, List.mem_cons] at hw
  rcases hw with rfl | hw
  · exact absurd hkey (by decide)
  · rcases Url.parseQuery_pair plain_template hw with ⟨-, hle, -⟩ | ⟨-, hlt'⟩
    · rw [hvalue] at hle
      omega
    · rw [hvalue] at hlt'
      omega

/-! ## Fragments -/

theorem bytes_cut_lt (n rest : List Char) :
    (Url.bytes n).length < (Url.bytes (n ++ '#' :: rest)).length := by
  have := Url.utf8EncodeChar_pos '#'
  rw [Url.bytes_append, Url.bytes_cons, List.length_append, List.length_append]
  omega

/-- The query before the fragment. -/
theorem query_eq {q pre : List Char} (hpre : ∀ c ∈ pre, c ≠ '#')
    (hq : q = pre ∨ ∃ post, q = pre ++ '#' :: post) : q.takeWhile (· ≠ '#') = pre := by
  rcases hq with rfl | ⟨post, rfl⟩
  · exact (Prod.mk.inj (Url.split_none hpre)).1
  · exact (Prod.mk.inj (Url.split_plain hpre)).1

theorem mem_cutInName {c : Char} (h : c ∈ cutInName n) : c ∈ cutInName [] ∨ c ∈ n := by
  rw [← List.nil_append n, cutInName_append] at h
  exact List.mem_append.mp h

theorem cutInName_hash (h : '#' ∉ n) : ∀ c ∈ cutInName n, c ≠ '#' := by
  have hfix : ∀ c ∈ cutInName [], c ≠ '#' := List.all_iff_forall_prop.mp (by decide)
  rintro c hc rfl
  exact (mem_cutInName hc).elim (fun hc => hfix _ hc rfl) h

theorem queryOf_hash (hname : '#' ∉ name) (hv : '#' ∉ v) :
    ∀ c ∈ Url.queryOf (externalPairs name v), c ≠ '#' := by
  have hkey : ∀ c ∈ "version".toList, c ≠ '#' := List.all_iff_forall_prop.mp (by decide)
  rw [queryOf_externalPairs]
  refine List.forall_mem_append.mpr ⟨cutInName_hash hname, ?_⟩
  refine List.forall_mem_cons.mpr ⟨by decide, List.forall_mem_append.mpr ⟨hkey, ?_⟩⟩
  exact List.forall_mem_cons.mpr ⟨by decide, fun c hc => ne_of_mem_of_not_mem hc hv⟩

/-- The query before the fragment starts with the catalog. -/
theorem takeWhile_queryOf_ne_nil :
    (Url.queryOf (externalPairs name v)).takeWhile (· ≠ '#') ≠ [] := by
  have hkey : ∀ c ∈ "catalog".toList, decide (c ≠ '#') = true := List.all_eq_true.mp (by decide)
  simp only [externalPairs, Url.queryOf, List.append_assoc]
  rw [List.takeWhile_append_of_pos hkey]
  exact List.append_ne_nil_of_left_ne_nil (by decide) _

theorem mem_queryOf {c : Char} (h : c ∈ name ∨ c ∈ v) :
    c ∈ Url.queryOf (externalPairs name v) := by
  rw [queryOf_externalPairs, ← List.nil_append name, cutInName_append]
  simp only [List.mem_append, List.mem_cons]
  tauto

/-- An ID that is read has no fragment. -/
theorem no_fragment {query : List Char}
    (hquery : query = (Url.queryOf (externalPairs name version)).takeWhile (· ≠ '#'))
    (ht : Url.get (Url.parseQuery query) "template" = Url.bytes name)
    (hv : Url.get (Url.parseQuery query) "version" = Url.bytes version) :
    '#' ∉ name ∧ '#' ∉ version := by
  have hname : '#' ∉ name := by
    intro hmem
    obtain ⟨n, rest, rfl, hn⟩ := List.eq_append_cons_of_mem hmem
    have hcut : Url.queryOf (externalPairs (n ++ '#' :: rest) version) =
        cutInName n ++ '#' :: (rest ++ '&' :: ("version".toList ++ '=' :: version)) := by
      rw [queryOf_externalPairs, cutInName_append, List.append_assoc, List.cons_append]
    rw [query_eq (cutInName_hash hn) (.inr ⟨_, hcut⟩)] at hquery
    rw [hquery] at ht
    exact not_read_of_cutInName (bytes_cut_lt n rest) ht
  refine ⟨hname, fun hmem => ?_⟩
  obtain ⟨v, rest, rfl, hn⟩ := List.eq_append_cons_of_mem hmem
  have hcut : Url.queryOf (externalPairs name (v ++ '#' :: rest)) =
      Url.queryOf (externalPairs name v) ++ '#' :: rest := by
    simp only [queryOf_externalPairs, List.append_assoc, List.cons_append]
  rw [query_eq (queryOf_hash hname hn) (.inr ⟨_, hcut⟩)] at hquery
  rw [hquery] at ht hv
  exact not_read_of_cut (bytes_cut_lt v rest) ht hv

end

/-- An app that is read comes from the query of its ID. -/
theorem query_of_appOf {texts : LibTexts} {itm : RancherAppItem} {app : AppItem}
    (h : appOf texts itm = .ok app) : ∃ query, Url.parse itm.externalID = some query ∧
      app.template = Url.get (Url.parseQuery query) "template" ∧
      app.version = Url.get (Url.parseQuery query) "version" := by
  unfold appOf at h
  split at h
  · cases h
  · rename_i query hquery
    cases h
    exact ⟨query, hquery, rfl, rfl⟩

/-- When an external ID is read back (module doc). -/
theorem round_trip_iff {texts : LibTexts} {name version : String} :
    RoundTrips texts name version ↔ Readable name ∧ Readable version := by
  constructor
  · intro h
    obtain ⟨itm, hid⟩ : ∃ itm : RancherAppItem, itm.externalID = externalIDOf name version :=
      ⟨{ externalID := _ }, rfl⟩
    obtain ⟨app, happ, -, ht, hv⟩ := h itm hid
    obtain ⟨query, hquery, htemplate, hread⟩ := query_of_appOf happ
    rw [htemplate] at ht
    rw [hread] at hv
    rw [hid, externalIDOf_eq] at hquery
    obtain ⟨heq, hctl⟩ :=
      Url.parse_hostless_some alpha_catalog (by decide) takeWhile_queryOf_ne_nil hquery
    obtain ⟨hname, hversion⟩ := no_fragment heq ht hv
    rw [query_eq (queryOf_hash hname hversion) (.inl rfl)] at heq
    subst heq
    obtain ⟨hname', hversion'⟩ := inValue_of_read ht hv
    exact ⟨fun c hc => ⟨ne_of_mem_of_not_mem hc hname, hctl c (mem_queryOf (.inl hc)), hname' c hc⟩,
      fun c hc => ⟨ne_of_mem_of_not_mem hc hversion, hctl c (mem_queryOf (.inr hc)),
        hversion' c hc⟩⟩
  · rintro ⟨hname, hversion⟩ itm hid
    obtain ⟨query, hquery, hread⟩ := query_externalIDOf hname hversion
    rw [appOf, hid, hquery]
    exact ⟨_, rfl, hread⟩

/-- A version with build metadata, whose plus sign is read as a space. -/
theorem build_metadata_lost :
    ¬ ∀ (texts : LibTexts) (name version : String), RoundTrips texts name version := by
  intro h
  obtain ⟨app, happ, -, -, hv⟩ := h ⟨fun _ _ => "", fun _ => ""⟩ "prometheus" "1.0+2"
    { externalID := externalIDOf "prometheus" "1.0+2" } rfl
  obtain ⟨query, hquery, -, hread⟩ := query_of_appOf happ
  have hparsed : Url.parse (externalIDOf "prometheus" "1.0+2") =
      some "catalog=automium&template=prometheus&version=1.0+2".toList := by decide +kernel
  rw [hparsed] at hquery
  cases hquery
  rw [hread] at hv
  exact absurd hv (by decide +kernel)

end ReconcileApplication

end Automium
