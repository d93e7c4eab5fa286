import Cloudein.RouteGuide.Database

/-!
# Reading back a database that was written

The canonical text of a list of features, with white space inserted anywhere, is read back by `ParseDb` as the same
features in the same order, up to the white space in their names.
-/

namespace Cloudein.RouteGuide

open Spaces Stoi

namespace Feature

/-- The text of a feature, up to the brace that closes it. -/
def canonicalText (f : Feature) : List Char :=
  latitudeHead ++ ((toString f.latitude.toInt).toList ++ (longitudeHead ++ ((toString f.longitude.toInt).toList ++
    (nameHead ++ (f.name ++ ['"'])))))

/-- The feature as it is read back. -/
def stripped (f : Feature) : Feature := { f with name := strip isSpace f.name }

end Feature

/-- `[{"location":{"latitude":LAT,"longitude":LON},"name":"NAME"},...]` -/
def canonicalDb (fs : List Feature) : List Char :=
  '[' :: (List.intercalate [','] (fs.map fun f => f.canonicalText ++ ['\x7d']) ++ [']'])

/-! ### Numbers -/

private theorem mem_toString {v : Int} {c : Char} (h : c ∈ (toString v).toList) : c = '-' ∨ c.isDigit := by
  rw [Int.toString_eq_repr, Int.repr_eq_if] at h
  split at h
  · rw [Nat.toList_repr] at h
    exact Or.inr (Nat.isDigit_of_mem_toDigits (by decide) (by decide) h)
  · rw [String.toList_append, Nat.toList_repr, List.mem_append] at h
    rcases h with h | h
    · exact Or.inl (List.mem_singleton.1 h)
    · exact Or.inr (Nat.isDigit_of_mem_toDigits (by decide) (by decide) h)

private theorem notDelimiter_of_isDigit {c : Char} (h : c.isDigit) : notDelimiter c := by
  have hcomma : c ≠ ',' := by
    rintro rfl
    exact absurd h (by decide)
  have hbrace : c ≠ '\x7d' := by
    rintro rfl
    exact absurd h (by decide)
  simp [notDelimiter, hcomma, hbrace]

private theorem strip_toString (v : Int) : strip isSpace (toString v).toList = (toString v).toList := by
  refine strip_of_forall fun c hc => ?_
  rcases mem_toString hc with rfl | hdigit
  · rfl
  · exact not_isSpace_of_isDigit hdigit

/-- A coordinate as it is written. -/
def NumberText.ofInt32 (v : Int32) : NumberText where
  text := (toString v.toInt).toList
  value := v.toInt
  run := fun c hc => by
    rcases mem_toString hc with rfl | hdigit
    · rfl
    · exact notDelimiter_of_isDigit hdigit
  reads := by
    have hlow := v.le_toInt
    have hhigh := v.toInt_lt
    exact stol_of_decimal (decimal_toString _) (by omega) (by omega)

/-! ### Records -/

def Feature.record (f : Feature) (h : ∀ c ∈ f.name, notQuote c) : Record where
  latitude := .ofInt32 f.latitude
  longitude := .ofInt32 f.longitude
  name := strip isSpace f.name
  quote := fun c hc => h c (mem_of_mem_strip hc)

private theorem Feature.record_feature (f : Feature) (h : ∀ c ∈ f.name, notQuote c) :
    (f.record h).feature = f.stripped := by
  simp [Feature.record, Record.feature, NumberText.ofInt32, Feature.stripped]

private theorem Feature.record_text (f : Feature) (h : ∀ c ∈ f.name, notQuote c) :
    (f.record h).text = strip isSpace f.canonicalText := by
  have hlat : strip isSpace latitudeHead = latitudeHead := by decide
  have hlon : strip isSpace longitudeHead = longitudeHead := by decide
  have hname : strip isSpace nameHead = nameHead := by decide
  have hquote : strip isSpace ['"'] = ['"'] := by decide
  simp only [Feature.canonicalText, strip_append, strip_toString, hlat, hlon, hname, hquote]
  rfl

private theorem records_canonical {fs : List Feature} (hne : fs ≠ []) (hname : ∀ f ∈ fs, ∀ c ∈ f.name, notQuote c) :
    ∃ rs, Records (strip isSpace (List.intercalate [','] (fs.map fun f => f.canonicalText ++ ['\x7d']) ++ [']'])) rs ∧
      rs.map Record.feature = fs.map Feature.stripped := by
  induction fs with
  | nil => exact absurd rfl hne
  | cons f fs ih =>
    have hf := hname f List.mem_cons_self
    cases fs with
    | nil =>
      refine ⟨[f.record hf], ?_, by simp [f.record_feature hf]⟩
      have hlast := Records.last (f.record hf) '\x7d'
      rw [f.record_text hf] at hlast
      have hbracket : strip isSpace ['\x7d', ']'] = ['\x7d', ']'] := by decide
      simpa [List.intercalate, strip_append, hbracket] using hlast
    | cons f' fs =>
      obtain ⟨rs, hrs, hfeature⟩ := ih (by simp) fun g hg => hname g (List.mem_cons_of_mem f hg)
      refine ⟨f.record hf :: rs, ?_, by simp [f.record_feature hf, hfeature]⟩
      have hclosed := Records.closed (f.record hf) hrs
      rw [f.record_text hf] at hclosed
      have hcomma : ∀ l, strip isSpace ('\x7d' :: ',' :: l) = '\x7d' :: ',' :: strip isSpace l := fun _ => rfl
      simpa [List.intercalate, strip_append, hcomma] using hclosed

private theorem parseDb_brackets {db : List Char} (h : strip isSpace db = "[]".toList) :
    parseDb db = some ⟨[], none⟩ := by
  obtain ⟨p, hp⟩ := Parser.tryParseOne_fails (by decide : ¬ latitudeHead <+: [']']) ['['] .empty
  have hrest : strip isSpace db = '[' :: [']'] := h
  refine parseDb_of_loop (n := 1) hrest ?_
  rw [parseLoop, finished_cursor, if_neg (by decide), hp]

/-- Every text that differs from the canonical one of a list of features by inserted white space is read back. -/
theorem parseDb_canonical {fs : List Feature} (hname : ∀ f ∈ fs, '"' ∉ f.name) {db : List Char}
    (hdb : Inserts isSpace (canonicalDb fs) db) : parseDb db = some ⟨fs.map Feature.stripped, none⟩ := by
  have hstrip := hdb.strip_eq
  cases fs with
  | nil => exact parseDb_brackets hstrip
  | cons f fs =>
    have hquote : ∀ g ∈ f :: fs, ∀ c ∈ g.name, notQuote c := by
      intro g hg c hc
      have hne : c ≠ '"' := by
        rintro rfl
        exact hname g hg hc
      simpa [notQuote] using hne
    obtain ⟨rs, hrs, hfeature⟩ := records_canonical (List.cons_ne_nil f fs) hquote
    have hbracket : ∀ rest, strip isSpace ('[' :: rest) = '[' :: strip isSpace rest := fun _ => rfl
    rw [canonicalDb, hbracket] at hstrip
    rw [parseDb_records hstrip hrs, hfeature]

def twoPlaces : List Feature := [⟨407838351, -746143763, "a, b\x7d]".toList⟩, ⟨-2147483648, 0, []⟩]

theorem parseDb_canonical_twoPlaces :
    parseDb ('\n' :: canonicalDb twoPlaces) = some ⟨twoPlaces.map Feature.stripped, none⟩ :=
  parseDb_canonical (by decide) (.insert rfl (.refl _))

end Cloudein.RouteGuide
