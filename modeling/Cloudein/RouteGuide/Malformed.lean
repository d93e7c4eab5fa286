import Cloudein.RouteGuide.Database
import Mathlib.Data.List.Forall2

/-!
# Malformed databases

The form that the parser asks for is a bracket, records in braces separated by commas, and a bracket.  `ParseDb` takes
two more: the text may end after the comma behind a record, and any character may stand for the last closing brace.  A
number may go on after its digits, and one that does not fit in 32 bits is stored modulo `2 ^ 32`.  A number that
`stol` rejects leaves the list as it is at that moment.
-/

namespace Cloudein.RouteGuide

open Spaces Stoi

/-- Records closed and separated, then a last record and what follows its name. -/
def endedBy (rs : List Record) (r : Record) (e : List Char) : List Char :=
  '[' :: (rs.flatMap (fun r => r.text ++ "\x7d,".toList) ++ (r.text ++ e))

/-- Records in braces, separated by commas. -/
def separated (rs : List Record) : List Char := List.intercalate [','] (rs.map fun r => r.text ++ ['\x7d'])

/-- `[{"location":{"latitude":N,"longitude":N},"name":"S"},...]` with at least one record. -/
def WellFormed (t : List Char) : Prop := ∃ rs, rs ≠ [] ∧ t = '[' :: (separated rs ++ [']'])

/-- The text ends after the comma behind its last record, or has another character in place of the last brace. -/
def BadlyEnded (t : List Char) : Prop :=
  ∃ rs r e, t = endedBy rs r e ∧ (e = "\x7d,".toList ∨ ∃ c, c ≠ '\x7d' ∧ e = [c, ']'])

private theorem separated_concat (rs : List Record) (r : Record) (c : Char) :
    '[' :: (separated (rs ++ [r]) ++ [c]) = endedBy rs r ['\x7d', c] := by
  unfold separated endedBy
  congr 1
  induction rs with
  | nil => simp [List.intercalate]
  | cons r' rs ih =>
    have hcons : List.intercalate [','] (((r' :: rs) ++ [r]).map fun r => r.text ++ ['\x7d']) =
        r'.text ++ "\x7d,".toList ++ List.intercalate [','] ((rs ++ [r]).map fun r => r.text ++ ['\x7d']) := by
      cases rs <;> simp [List.intercalate]
    rw [hcons, List.append_assoc, ih]
    simp

private theorem endedBy_inj {rs rs' : List Record} {r r' : Record} {e e' : List Char}
    (h : endedBy rs r e = endedBy rs' r' e') (hlen : e.length = e'.length) : e = e' := by
  unfold endedBy at h
  have htail := (List.cons.inj h).2
  rw [← List.append_assoc, ← List.append_assoc] at htail
  exact (List.append_inj' htail hlen).2

/-- A text that is accepted with some record ends with the last one in one of two ways. -/
theorem Records.ended {rest : List Char} {rs : List Record} (h : Records rest rs) (hne : rs ≠ []) :
    ∃ rs' r e, rs = rs' ++ [r] ∧ '[' :: rest = endedBy rs' r e ∧ (e = "\x7d,".toList ∨ ∃ c, e = [c, ']']) := by
  induction h with
  | nil => exact absurd rfl hne
  | closed r hrest ih =>
    rename_i rest rs
    by_cases hrs : rs = []
    · subst hrs
      cases hrest
      exact ⟨[], r, "\x7d,".toList, rfl, by simp [endedBy], Or.inl rfl⟩
    · obtain ⟨rs', r', e, rfl, hended, he⟩ := ih hrs
      refine ⟨r :: rs', r', e, rfl, ?_, he⟩
      have hrest := (List.cons.inj hended).2
      simp [endedBy, hrest]
  | last r c => exact ⟨[], r, [c, ']'], rfl, by simp [endedBy], Or.inr ⟨c, rfl⟩⟩

private theorem records_endedBy (rs : List Record) (r : Record) {e : List Char}
    (he : e = "\x7d,".toList ∨ ∃ c, e = [c, ']']) :
    ∃ rest, endedBy rs r e = '[' :: rest ∧ Records rest (rs ++ [r]) := by
  refine ⟨_, rfl, ?_⟩
  induction rs with
  | nil =>
    rcases he with rfl | ⟨c, rfl⟩
    · simpa using Records.closed r .nil
    · exact .last r c
  | cons r' rs ih => simpa using Records.closed r' ih

private theorem parseDb_endedBy {db : List Char} {rs : List Record} {r : Record} {e : List Char}
    (h : strip isSpace db = endedBy rs r e) (he : e = "\x7d,".toList ∨ ∃ c, e = [c, ']']) :
    parseDb db = some ⟨(rs ++ [r]).map Record.feature, none⟩ := by
  obtain ⟨rest, hrest, hrecords⟩ := records_endedBy rs r he
  exact parseDb_records (h.trans hrest) hrecords

/-! ### Texts that are accepted and not well formed -/

/-- A text from which features are returned is well formed exactly when it is not badly ended. -/
theorem acceptsOnlyWellFormed_iff (db : List Char) :
    (∀ fs, parseDb db = some ⟨fs, none⟩ → fs ≠ [] → WellFormed (strip isSpace db)) ↔
      ¬ BadlyEnded (strip isSpace db) := by
  constructor
  · rintro h ⟨rs, r, e, hended, he⟩
    have hform : e = "\x7d,".toList ∨ ∃ c, e = [c, ']'] := he.imp_right fun ⟨c, _, hc⟩ => ⟨c, hc⟩
    obtain ⟨rs', hne, hwell⟩ := h _ (parseDb_endedBy hended hform) (by simp)
    obtain ⟨init, last, rfl⟩ := (List.eq_nil_or_concat' rs').resolve_left hne
    rw [hended, separated_concat] at hwell
    -- Both endings are two characters, as in the well formed text, so the records before them agree.
    have hlen : e.length = 2 := by
      rcases hform with rfl | ⟨c, rfl⟩ <;> rfl
    have heq := endedBy_inj hwell hlen
    rcases he with rfl | ⟨c, hc, rfl⟩
    · exact absurd heq (by decide)
    · exact hc (List.cons.inj heq).1
  · intro h fs hfs hne
    obtain ⟨rest, rs, hrest, hrs, rfl⟩ := records_of_parseDb hfs hne
    obtain ⟨rs', r, e, rfl, hended, he⟩ := hrs.ended (by simpa using hne)
    rw [hrest, hended] at h ⊢
    refine ⟨rs' ++ [r], by simp, ?_⟩
    rw [separated_concat]
    rcases he with rfl | ⟨c, rfl⟩
    · exact absurd ⟨rs', r, _, rfl, Or.inl rfl⟩ h
    · by_cases hc : c = '\x7d'
      · rw [hc]
      · exact absurd ⟨rs', r, _, rfl, Or.inr ⟨c, hc, rfl⟩⟩ h

/-- A record with the number texts `1` and `2` and the name `A`. -/
def place : Record :=
  ⟨⟨"1".toList, 1, List.all_eq_true.1 (by decide), by decide⟩,
    ⟨"2".toList, 2, List.all_eq_true.1 (by decide), by decide⟩, "A".toList, List.all_eq_true.1 (by decide)⟩

/-- A file that is cut off after a record gives its feature. -/
theorem cutOff_accepted :
    ¬ ∀ db fs, parseDb db = some ⟨fs, none⟩ → fs ≠ [] → WellFormed (strip isSpace db) := by
  intro h
  have hstrip : strip isSpace (endedBy [] place "\x7d,".toList) = endedBy [] place "\x7d,".toList := by decide
  obtain ⟨rs, -, hwell⟩ := h _ _ (parseDb_endedBy hstrip (Or.inl rfl)) (by decide)
  have hlast := congrArg List.getLast? hwell
  rw [← List.cons_append, List.getLast?_concat] at hlast
  exact absurd hlast (by decide)

/-! ### Coordinates -/

/-- The whole text is an integer of 32 bits. -/
def NumberText.Fits (n : NumberText) : Prop :=
  ∃ v, decimal n.text = some v ∧ -2147483648 ≤ v ∧ v ≤ 2147483647

/-- The coordinates of the feature are the integers that the whole texts denote. -/
def Denoted (r : Record) (f : Feature) : Prop :=
  decimal r.latitude.text = some f.latitude.toInt ∧ decimal r.longitude.text = some f.longitude.toInt

/-- Every feature that is returned has the coordinates written in its record. -/
def StoredAsWritten (db : List Char) : Prop :=
  ∀ fs, parseDb db = some ⟨fs, none⟩ → fs ≠ [] →
    (∃ rest rs, strip isSpace db = '[' :: rest ∧ Records rest rs) ∧
      ∀ rest rs, strip isSpace db = '[' :: rest → Records rest rs → List.Forall₂ Denoted rs fs

private theorem NumberText.fits_of_denoted {n : NumberText} {v : Int32} (h : decimal n.text = some v.toInt) :
    n.Fits := by
  have hhigh := v.toInt_lt
  exact ⟨v.toInt, h, v.le_toInt, by omega⟩

private theorem NumberText.Fits.denoted {n : NumberText} (h : n.Fits) :
    decimal n.text = some (Int32.ofInt n.value).toInt := by
  obtain ⟨v, hv, hlow, hhigh⟩ := h
  have hstol : stol n.text = .ok v := stol_of_decimal hv (by omega) (by omega)
  have hvalue : n.value = v := by
    rw [n.reads] at hstol
    exact Except.ok.inj hstol
  rw [hv, hvalue, Int32.toInt_ofInt_of_le (by simpa using hlow) (by simpa using (by omega : v < 2147483648))]

/-- The coordinates are stored as written exactly when in all records the whole texts are integers of 32 bits. -/
theorem storedAsWritten_iff (db : List Char) :
    StoredAsWritten db ↔ ∀ rest rs, strip isSpace db = '[' :: rest → Records rest rs →
      ∀ r ∈ rs, r.latitude.Fits ∧ r.longitude.Fits := by
  constructor
  · intro h rest rs hrest hrs r hr
    have hne : rs.map Record.feature ≠ [] := by
      simpa using List.ne_nil_of_mem hr
    have hall := (h _ (parseDb_records hrest hrs) hne).2 rest rs hrest hrs
    rw [List.forall₂_map_right_iff, List.forall₂_same] at hall
    obtain ⟨hlat, hlon⟩ := hall r hr
    exact ⟨NumberText.fits_of_denoted hlat, NumberText.fits_of_denoted hlon⟩
  · intro h fs hfs hne
    obtain ⟨rest, rs, hrest, hrs, -⟩ := records_of_parseDb hfs hne
    refine ⟨⟨rest, rs, hrest, hrs⟩, fun rest' rs' hrest' hrs' => ?_⟩
    have hsame := parseDb_records hrest' hrs'
    rw [hfs, Option.some.injEq, Outcome.mk.injEq] at hsame
    rw [hsame.1, List.forall₂_map_right_iff, List.forall₂_same]
    intro r hr
    obtain ⟨hlat, hlon⟩ := h rest' rs' hrest' hrs' r hr
    exact ⟨hlat.denoted, hlon.denoted⟩

/-- A record whose latitude goes beyond 32 bits and whose longitude has a letter behind it. -/
def farPlace : Record :=
  ⟨⟨"4294967297".toList, 4294967297, List.all_eq_true.1 (by decide), by decide⟩,
    ⟨"7x".toList, 7, List.all_eq_true.1 (by decide), by decide⟩, [], List.all_eq_true.1 (by decide)⟩

/-- It is stored at latitude 1 and longitude 7. -/
theorem farPlace_wrapped : ¬ ∀ db, StoredAsWritten db := by
  intro h
  have hrest : strip isSpace ('[' :: (farPlace.text ++ ['\x7d', ']'])) = '[' :: (farPlace.text ++ ['\x7d', ']']) := by
    decide
  have hrecords := Records.last farPlace '\x7d'
  have hall := (h _ _ (parseDb_records hrest hrecords) (by simp)).2 _ _ hrest hrecords
  obtain ⟨hlat, -⟩ := (List.forall₂_cons.1 hall).1
  exact absurd hlat (by decide)

/-! ### Errors -/

/-- A record of the text, or the bracket at either end of it, is malformed. -/
def Malformed (t : List Char) : Prop := ∀ rs, t ≠ '[' :: (separated rs ++ [']'])

/-- Every record of the text is closed by its brace; a comma may stand for the bracket behind the last one. -/
def ClosedRecords (t : List Char) (rs : List Record) : Prop :=
  t = '[' :: (separated rs ++ [']']) ∨ rs ≠ [] ∧ t = '[' :: (separated rs ++ [','])

/-- `ParseDb` returns, with no feature for a text that is malformed, or with one for every record of the text. -/
def AllOrNothing (db : List Char) : Prop :=
  ∃ fs, parseDb db = some ⟨fs, none⟩ ∧
    (fs = [] ∧ Malformed (strip isSpace db) ∨
      ∃ rs, ClosedRecords (strip isSpace db) rs ∧ fs = rs.map Record.feature)

/-- After records in order comes one with a number that `stol` rejects. -/
def RejectedNumber (t : List Char) : Prop := ∃ rest, t = '[' :: rest ∧ BadNumber rest

/-- Another character stands in place of the brace that closes the last record. -/
def WrongBrace (t : List Char) : Prop := ∃ rs r c, c ≠ '\x7d' ∧ t = endedBy rs r [c, ']']

theorem ClosedRecords.ended {t : List Char} {rs : List Record} (h : ClosedRecords t rs) (hne : rs ≠ []) :
    ∃ rs' r c, t = endedBy rs' r ['\x7d', c] := by
  obtain ⟨init, last, rfl⟩ := (List.eq_nil_or_concat' rs).resolve_left hne
  rcases h with h | ⟨-, h⟩
  · exact ⟨init, last, ']', h.trans (separated_concat init last ']')⟩
  · exact ⟨init, last, ',', h.trans (separated_concat init last ',')⟩

/-- A text from which no feature is returned is malformed, or has no record. -/
theorem allOrNothing_of_nil {db : List Char} (h : parseDb db = some ⟨[], none⟩) : AllOrNothing db := by
  refine ⟨[], h, ?_⟩
  by_cases hwell : Malformed (strip isSpace db)
  · exact Or.inl ⟨rfl, hwell⟩
  · obtain ⟨rs, hrs⟩ := not_forall.1 hwell
    have hrs := not_not.1 hrs
    by_cases hne : rs = []
    · exact Or.inr ⟨[], Or.inl (hne ▸ hrs), rfl⟩
    · obtain ⟨init, last, rfl⟩ := (List.eq_nil_or_concat' rs).resolve_left hne
      have hparse := parseDb_endedBy (hrs.trans (separated_concat init last ']')) (Or.inr ⟨'\x7d', rfl⟩)
      rw [h, Option.some.injEq, Outcome.mk.injEq] at hparse
      exact absurd hparse.1 (by simp)

/-- `ParseDb` is all or nothing exactly on the texts in which `stol` rejects no number and no other character stands
for the last brace. -/
theorem allOrNothing_iff (db : List Char) :
    AllOrNothing db ↔ ¬ RejectedNumber (strip isSpace db) ∧ ¬ WrongBrace (strip isSpace db) := by
  constructor
  · rintro ⟨fs, hfs, hall⟩
    constructor
    · rintro ⟨rest, hrest, hbad⟩
      obtain ⟨fs', e, hthrown, -⟩ := parseDb_bad hrest hbad
      rw [hfs, Option.some.injEq, Outcome.mk.injEq] at hthrown
      cases hthrown.2
    · rintro ⟨rs, r, c, hc, hended⟩
      have hparse := parseDb_endedBy hended (Or.inr ⟨c, rfl⟩)
      rw [hfs, Option.some.injEq, Outcome.mk.injEq] at hparse
      rcases hall with ⟨rfl, -⟩ | ⟨rs', hclosed, rfl⟩
      · exact absurd hparse.1 (by simp)
      · have hne : rs' ≠ [] := by
          rintro rfl
          exact absurd hparse.1 (by simp)
        obtain ⟨init, last, d, hended'⟩ := hclosed.ended hne
        exact hc (List.cons.inj (endedBy_inj (hended.symm.trans hended') rfl)).1
  · rintro ⟨hnumber, hbrace⟩
    rcases parseDb_cases db with ⟨rest, rs, hrest, hrs, hparse⟩ | ⟨rest, fs, e, hrest, hbad, -⟩ | hparse
    · by_cases hne : rs = []
      · subst hne
        exact allOrNothing_of_nil hparse
      · obtain ⟨rs', r, e, rfl, hended, he⟩ := hrs.ended hne
        refine ⟨_, hparse, Or.inr ⟨rs' ++ [r], ?_, rfl⟩⟩
        rw [ClosedRecords, separated_concat, separated_concat, hrest, hended]
        rcases he with rfl | ⟨c, rfl⟩
        · exact Or.inr ⟨by simp, rfl⟩
        · by_cases hc : c = '\x7d'
          · exact Or.inl (by rw [hc])
          · exact absurd ⟨rs', r, c, hc, hrest.trans hended⟩ hbrace
    · exact absurd ⟨rest, hrest, hbad⟩ hnumber
    · exact allOrNothing_of_nil hparse

/-- A record in order and then one with an empty latitude. -/
def emptyLatitude : List Char := '[' :: (place.text ++ "\x7d,".toList ++ latitudeHead ++ ",".toList)

/-- The exception leaves the feature of the first record and an empty one in the list. -/
theorem emptyLatitude_throws : ¬ ∀ db, AllOrNothing db := by
  intro h
  obtain ⟨fs, hfs, -⟩ := h emptyLatitude
  have hthrown : parseDb emptyLatitude = some ⟨[place.feature, .empty], some (.conv .invalidArgument)⟩ := by
    decide +kernel
  rw [hfs] at hthrown
  cases hthrown

end Cloudein.RouteGuide
