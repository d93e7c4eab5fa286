import Cloudein.RouteGuide.Records

/-!
# What `ParseDb` accepts

`ParseDb` returns normally with a list of features exactly on the texts that are, up to white space, a bracket and
records, each followed by a closing brace and a comma; the last one may instead be followed by any character and a
bracket, and the text ends there (`Records`).  It exits by an exception exactly when some record has a number that
`stol` rejects and all records before it are in order (`BadNumber`).  On every other text it returns with no feature.
-/

namespace Cloudein.RouteGuide

open Spaces Stoi

/-- What may stand between the opening bracket and the end of a text that is accepted, and the records it holds. -/
inductive Records : List Char → List Record → Prop
  | nil : Records [] []
  | closed (r : Record) {rest : List Char} {rs : List Record} : Records rest rs →
      Records (r.text ++ ("\x7d,".toList ++ rest)) (r :: rs)
  | last (r : Record) (c : Char) : Records (r.text ++ [c, ']']) [r]

/-- Some records in order, and then one with a number that `stol` rejects. -/
inductive BadNumber : List Char → Prop
  | here {rest : List Char} : BadRecord rest → BadNumber rest
  | later (r : Record) {rest : List Char} : BadNumber rest → BadNumber (r.text ++ ("\x7d,".toList ++ rest))

private theorem parseLoop_mono {n m : Nat} (hnm : n ≤ m) {p : Parser} {fs : List Feature} {o : Outcome}
    (h : parseLoop n p fs = some o) : parseLoop m p fs = some o := by
  induction n generalizing m p fs with
  | zero => cases h
  | succ n ih =>
    obtain ⟨m, rfl⟩ : ∃ k, m = k + 1 := ⟨m - 1, by omega⟩
    unfold parseLoop at h ⊢
    split
    · rename_i hfin
      rwa [if_pos hfin] at h
    · rename_i hfin
      rw [if_neg hfin] at h
      split at h
      · exact h
      · exact h
      · exact ih (by omega) h

/-! ### Texts the loop goes through -/

open Cloudein.RouteGuide.Parser

private theorem BadRecord.ne_nil {rest : List Char} (h : BadRecord rest) : rest ≠ [] := by
  have hhead : latitudeHead ≠ [] := by decide
  cases h <;> simp [hhead]

private theorem Record.text_ne_nil (r : Record) : r.text ≠ [] := by
  have hhead : latitudeHead ≠ [] := by decide
  simp [Record.text, hhead]

theorem finished_cursor (pre rest : List Char) : (cursor pre rest).finished = decide (rest = []) := by
  cases rest with
  | nil => simp [cursor, finished]
  | cons c rest => simp [cursor, finished]

private theorem parseLoop_records {rest : List Char} {rs : List Record} (h : Records rest rs) (pre : List Char)
    (fs : List Feature) : ∃ n, parseLoop n (cursor pre rest) fs = some ⟨fs ++ rs.map Record.feature, none⟩ := by
  induction h generalizing pre fs with
  | nil => exact ⟨1, by simp [parseLoop, finished_cursor]⟩
  | closed r _ ih =>
    rename_i rest rs _
    obtain ⟨n, hn⟩ := ih (pre ++ r.text ++ "\x7d,".toList) (fs ++ [r.feature])
    refine ⟨n + 1, ?_⟩
    have hstep := tryParseOne_record r (by simp : "\x7d,".toList ++ rest ≠ []) pre .empty
    rw [closeRecord_brace] at hstep
    rw [parseLoop, finished_cursor, if_neg (by simp [r.text_ne_nil]), hstep]
    simp only
    rw [hn]
    simp
  | last r c =>
    refine ⟨2, ?_⟩
    have hstep := tryParseOne_record r (by simp : [c, ']'] ≠ []) pre .empty
    rw [closeRecord_bracket] at hstep
    rw [parseLoop, finished_cursor, if_neg (by simp), hstep]
    simp [parseLoop, finished_cursor]

private theorem parseLoop_bad {rest : List Char} (h : BadNumber rest) (pre : List Char) (fs : List Feature) :
    ∃ n fs' e, parseLoop n (cursor pre rest) fs = some ⟨fs', some (.conv e)⟩ ∧ fs' ≠ [] := by
  induction h generalizing pre fs with
  | here hbad =>
    obtain ⟨e, f, hstep⟩ := tryParseOne_bad hbad pre .empty
    refine ⟨1, fs ++ [f], e, ?_, by simp⟩
    rw [parseLoop, finished_cursor, if_neg (by simp [hbad.ne_nil]), hstep]
  | later r _ ih =>
    rename_i rest _
    obtain ⟨n, fs', e, hn, hne⟩ := ih (pre ++ r.text ++ "\x7d,".toList) (fs ++ [r.feature])
    refine ⟨n + 1, fs', e, ?_, hne⟩
    have hstep := tryParseOne_record r (by simp : "\x7d,".toList ++ rest ≠ []) pre .empty
    rw [closeRecord_brace] at hstep
    rw [parseLoop, finished_cursor, if_neg (by simp [r.text_ne_nil]), hstep]
    exact hn

/-- The loop reads all records, or throws at a number, or ends with no feature. -/
theorem parseLoop_cases {n : Nat} {pre rest : List Char} {fs : List Feature} {o : Outcome}
    (h : parseLoop n (cursor pre rest) fs = some o) :
    (∃ rs, Records rest rs ∧ o = ⟨fs ++ rs.map Record.feature, none⟩) ∨ BadNumber rest ∨ o = ⟨[], none⟩ := by
  induction n generalizing pre rest fs with
  | zero => cases h
  | succ n ih =>
    rw [parseLoop, finished_cursor] at h
    by_cases hrest : rest = []
    · subst hrest
      rw [if_pos (by decide), Option.some.injEq] at h
      exact Or.inl ⟨[], .nil, by simp [← h]⟩
    rw [if_neg (by simpa using hrest)] at h
    rcases tryParseOne_cases pre rest .empty with ⟨p, f, hfail⟩ | hbad | ⟨r, tail, rfl, htail⟩
    · rw [hfail, Option.some.injEq] at h
      exact Or.inr (Or.inr h.symm)
    · exact Or.inr (Or.inl (.here hbad))
    · rw [tryParseOne_record r htail] at h
      -- A record is closed by its brace and a comma, or by any character before a bracket that ends the text.
      by_cases hbrace : "\x7d,".toList <+: tail
      · obtain ⟨rest, rfl⟩ := hbrace
        rw [closeRecord_brace] at h
        rcases ih h with ⟨rs, hrs, ho⟩ | hbad | ho
        · exact Or.inl ⟨r :: rs, .closed r hrs, by simp [ho]⟩
        · exact Or.inr (Or.inl (.later r hbad))
        · exact Or.inr (Or.inr ho)
      · by_cases hbracket : ∃ c, tail = [c, ']']
        · obtain ⟨c, rfl⟩ := hbracket
          rw [closeRecord_bracket] at h
          -- The cursor is at the end, so the loop ends with the record.
          cases n with
          | zero => cases h
          | succ n =>
            simp only [parseLoop, finished_cursor] at h
            rw [if_pos (by decide), Option.some.injEq] at h
            exact Or.inl ⟨[r], .last r c, by rw [← h]; rfl⟩
        · obtain ⟨p, hp⟩ := closeRecord_fails htail hbrace (fun c hc => hbracket ⟨c, hc⟩)
            (pre ++ r.text) r.feature
          rw [hp, Option.some.injEq] at h
          exact Or.inr (Or.inr h.symm)

/-! ### Progress -/

namespace Parser

/-- The text stays as it is, and the cursor moves by at least `k`. -/
def Advances (k : Nat) (p q : Parser) : Prop := q.db = p.db ∧ p.current + k ≤ q.current

theorem Advances.trans {j k : Nat} {p q r : Parser} (hpq : Advances j p q) (hqr : Advances k q r) :
    Advances (j + k) p r := by
  obtain ⟨hdb, hcur⟩ := hpq
  obtain ⟨hdb', hcur'⟩ := hqr
  exact ⟨hdb'.trans hdb, by omega⟩

private theorem accept_advances {p q : Parser} {text : List Char} {eq : Bool} (h : p.accept text = .ok (eq, q)) :
    Advances text.length p q := by
  unfold accept at h
  split at h
  · cases h
  · cases h
    exact ⟨rfl, Nat.le_refl _⟩

private theorem acceptAll_advances {texts : List (List Char)} {p q : Parser} (h : p.acceptAll texts = .ok (true, q)) :
    Advances texts.flatten.length p q := by
  induction texts generalizing p with
  | nil =>
    cases h
    exact ⟨rfl, Nat.le_refl _⟩
  | cons text texts ih =>
    unfold acceptAll at h
    split at h
    · cases h
    · cases h
    · rename_i q' hq'
      rw [List.flatten_cons, List.length_append]
      exact (accept_advances hq').trans (ih h)

private theorem le_skipLong (rest : List Char) (i : Nat) : i ≤ skipLong rest i := by
  induction rest generalizing i with
  | nil => exact Nat.le_refl i
  | cons c rest ih =>
    unfold skipLong
    split
    · exact Nat.le_of_succ_le (ih (i + 1))
    · exact Nat.le_refl i

private theorem le_skipName (rest : List Char) (i : Nat) : i ≤ skipName rest i := by
  induction rest generalizing i with
  | nil => exact Nat.le_refl i
  | cons c rest ih =>
    unfold skipName
    split
    · exact Nat.le_of_succ_le (ih (i + 1))
    · exact Nat.le_succ i

private theorem scan_advances {loop : List Char → Nat → Nat} (hloop : ∀ rest i, i ≤ loop rest i) {p q : Parser}
    (h : p.scan loop = .ok q) : Advances 0 p q := by
  unfold scan at h
  split at h
  · cases h
  · cases h
    exact ⟨rfl, hloop _ _⟩

private theorem readLong_advances {p q : Parser} {v : Int} (h : p.readLong = .ok (v, q)) : Advances 0 p q := by
  unfold readLong at h
  split at h
  · cases h
  · rename_i q' hq'
    split at h
    · cases h
    · split at h
      · cases h
      · cases h
        exact scan_advances le_skipLong hq'

/-- A group of literals that leads to success was matched. -/
theorem of_expect {texts : List (List Char)} {p p' : Parser} {f f' : Feature} {next : Parser → TryResult}
    (h : p.expect texts f next = .ok (true, p', f')) :
    ∃ q, Advances texts.flatten.length p q ∧ next q = .ok (true, p', f') := by
  unfold expect at h
  split at h
  · cases h
  · cases h
  · rename_i q hq
    exact ⟨q, acceptAll_advances hq, h⟩

private theorem of_thenReadLong {p p' : Parser} {f f' : Feature} {next : Int → Parser → TryResult}
    (h : p.thenReadLong f next = .ok (true, p', f')) :
    ∃ v q, Advances 0 p q ∧ next v q = .ok (true, p', f') := by
  unfold thenReadLong at h
  split at h
  · cases h
  · rename_i v q hq
    exact ⟨v, q, readLong_advances hq, h⟩

private theorem closeRecord_advances {p p' : Parser} {f f' : Feature} (h : p.closeRecord f = .ok (true, p', f')) :
    Advances 0 p p' := by
  unfold closeRecord at h
  split at h
  · cases h
  · rename_i q hq
    cases h
    exact ⟨(accept_advances hq).1, Nat.le_of_add_right_le (accept_advances hq).2⟩
  · rename_i q hq
    split at h
    · cases h
    · split at h
      · cases h
        exact ⟨(accept_advances hq).1, Nat.le_of_add_right_le (accept_advances hq).2⟩
      · cases h

private theorem readName_advances {p p' : Parser} {f f' : Feature} (h : p.readName f = .ok (true, p', f')) :
    Advances 0 p p' := by
  unfold readName at h
  split at h
  · cases h
  · rename_i q hq
    split at h
    · cases h
    · split at h
      · cases h
      · exact (scan_advances le_skipName hq).trans (closeRecord_advances h)

/-- Every `TryParseOne` that succeeds moves the cursor. -/
theorem tryParseOne_advances {p p' : Parser} {f f' : Feature} (h : p.tryParseOne f = .ok (true, p', f')) :
    Advances 1 p p' := by
  unfold tryParseOne at h
  split at h
  · cases h
  · obtain ⟨p₁, hp₁, h⟩ := of_expect h
    obtain ⟨lat, p₂, hp₂, h⟩ := of_thenReadLong h
    obtain ⟨p₃, hp₃, h⟩ := of_expect h
    obtain ⟨lon, p₄, hp₄, h⟩ := of_thenReadLong h
    obtain ⟨p₅, hp₅, h⟩ := of_expect h
    obtain ⟨hdb, hcur⟩ := ((((hp₁.trans hp₂).trans hp₃).trans hp₄).trans hp₅).trans (readName_advances h)
    refine ⟨hdb, Nat.le_trans ?_ hcur⟩
    have hhead : 1 ≤ ["\x7b".toList, locationKey, "\x7b".toList, latitudeKey].flatten.length := by decide
    omega

end Parser

/-- With fuel for every character that is left the loop ends, and the list has at most one feature for every
character. -/
theorem parseLoop_ends {n : Nat} {p : Parser} (fs : List Feature) (hn : 0 < n)
    (hfuel : p.db.length < p.current + n) (hcur : fs.length < p.current) (hlen : fs.length ≤ p.db.length) :
    ∃ o, parseLoop n p fs = some o ∧ o.featureList.length ≤ p.db.length := by
  induction n generalizing p fs with
  | zero => cases hn
  | succ n ih =>
    unfold parseLoop
    split
    · exact ⟨_, rfl, hlen⟩
    · rename_i hfin
      have hlt : p.current < p.db.length := by simpa [finished] using hfin
      split
      · refine ⟨_, rfl, ?_⟩
        rw [List.length_append, List.length_singleton]
        omega
      · exact ⟨_, rfl, Nat.zero_le _⟩
      · rename_i p' f hp'
        obtain ⟨hdb, hcur'⟩ := tryParseOne_advances hp'
        have hfs : (fs ++ [f]).length = fs.length + 1 := by simp
        have hend := ih (p := p') (fs ++ [f]) (by omega) (by rw [hdb]; omega) (by omega) (by rw [hdb]; omega)
        rwa [hdb] at hend

/-! ### The whole of `ParseDb` -/

private theorem new_strip (db : List Char) :
    Parser.new (strip isSpace db) = match (cursor [] (strip isSpace db)).accept "[".toList with
      | .error e => .error e
      | .ok (eq, p) => .ok { p with failed := !eq } := by
  rw [Parser.new, strip_strip]
  rfl

private theorem parseDb_bracket {db rest : List Char} (h : strip isSpace db = '[' :: rest) :
    parseDb db = parseLoop (db.length + 1) (cursor ['['] rest) [] := by
  have hnew : Parser.new (strip isSpace db) = .ok (cursor ['['] rest) := by
    have haccept : (cursor [] ('[' :: rest)).accept "[".toList = .ok (true, cursor ['['] rest) :=
      accept_append [] "[".toList rest
    rw [new_strip, h, haccept]
    rfl
  simp only [parseDb, hnew]

/-- Without the opening bracket the parser has failed before the first record. -/
theorem parseDb_noBracket {db : List Char} (h : ¬ "[".toList <+: strip isSpace db) :
    parseDb db = some ⟨[], none⟩ := by
  have hnew : Parser.new (strip isSpace db) = .ok ⟨true, strip isSpace db, 1⟩ := by
    rw [new_strip, accept_of_not h]
    rfl
  simp only [parseDb, hnew, parseLoop]
  split
  · rfl
  · simp [tryParseOne, setFailedAndReturnFalse]

private theorem parseDb_ends (db : List Char) : ∃ o, parseDb db = some o ∧ o.featureList.length ≤ db.length := by
  by_cases h : "[".toList <+: strip isSpace db
  · obtain ⟨rest, hrest⟩ := h
    have hlen := length_strip_le isSpace db
    rw [← hrest] at hlen
    have hdb : (cursor ['['] rest).db.length ≤ db.length := hlen
    obtain ⟨o, ho, hle⟩ := parseLoop_ends (n := db.length + 1) (p := cursor ['['] rest) [] (by omega)
      (by omega) (by simp [cursor]) (by simp)
    have hbracket : strip isSpace db = '[' :: rest := hrest.symm
    exact ⟨o, by rw [parseDb_bracket hbracket, ho], hle.trans hdb⟩
  · exact ⟨⟨[], none⟩, parseDb_noBracket h, Nat.zero_le _⟩

/-- The fuel of `parseDb` is enough: what the loop gives with some fuel, it gives with this. -/
theorem parseDb_of_loop {db rest : List Char} (h : strip isSpace db = '[' :: rest) {n : Nat} {o : Outcome}
    (hn : parseLoop n (cursor ['['] rest) [] = some o) : parseDb db = some o := by
  obtain ⟨o', ho', -⟩ := parseDb_ends db
  rw [parseDb_bracket h] at ho' ⊢
  have h1 := parseLoop_mono (Nat.le_max_left n (db.length + 1)) hn
  have h2 := parseLoop_mono (Nat.le_max_right n (db.length + 1)) ho'
  rw [h1, Option.some.injEq] at h2
  rw [ho', h2]

theorem parseDb_records {db rest : List Char} (h : strip isSpace db = '[' :: rest) {rs : List Record}
    (hrs : Records rest rs) : parseDb db = some ⟨rs.map Record.feature, none⟩ := by
  obtain ⟨n, hn⟩ := parseLoop_records hrs ['['] []
  exact parseDb_of_loop h hn

theorem parseDb_bad {db rest : List Char} (h : strip isSpace db = '[' :: rest) (hbad : BadNumber rest) :
    ∃ fs e, parseDb db = some ⟨fs, some (.conv e)⟩ ∧ fs ≠ [] := by
  obtain ⟨n, fs, e, hn, hne⟩ := parseLoop_bad hbad ['['] []
  exact ⟨fs, e, parseDb_of_loop h hn, hne⟩

/-- `ParseDb` returns the features of the records it accepts, or throws at a number, or returns no feature. -/
theorem parseDb_cases (db : List Char) :
    (∃ rest rs, strip isSpace db = '[' :: rest ∧ Records rest rs ∧ parseDb db = some ⟨rs.map Record.feature, none⟩) ∨
      (∃ rest fs e, strip isSpace db = '[' :: rest ∧ BadNumber rest ∧ parseDb db = some ⟨fs, some (.conv e)⟩ ∧
        fs ≠ []) ∨
      parseDb db = some ⟨[], none⟩ := by
  by_cases h : "[".toList <+: strip isSpace db
  · obtain ⟨rest, hrest⟩ := h
    have hrest : strip isSpace db = '[' :: rest := hrest.symm
    obtain ⟨o, ho, -⟩ := parseDb_ends db
    have hloop := ho
    rw [parseDb_bracket hrest] at hloop
    rcases parseLoop_cases hloop with ⟨rs, hrs, -⟩ | hbad | rfl
    · exact Or.inl ⟨rest, rs, hrest, hrs, parseDb_records hrest hrs⟩
    · obtain ⟨fs, e, hfs, hne⟩ := parseDb_bad hrest hbad
      exact Or.inr (Or.inl ⟨rest, fs, e, hrest, hbad, hfs, hne⟩)
    · exact Or.inr (Or.inr ho)
  · exact Or.inr (Or.inr (parseDb_noBracket h))

/-- The records behind a list of features that `ParseDb` returns. -/
theorem records_of_parseDb {db : List Char} {fs : List Feature} (h : parseDb db = some ⟨fs, none⟩) (hne : fs ≠ []) :
    ∃ rest rs, strip isSpace db = '[' :: rest ∧ Records rest rs ∧ fs = rs.map Record.feature := by
  rcases parseDb_cases db with ⟨rest, rs, hrest, hrs, hdb⟩ | ⟨rest, fs', e, -, -, hdb, -⟩ | hdb
  · rw [h, Option.some.injEq, Outcome.mk.injEq] at hdb
    exact ⟨rest, rs, hrest, hrs, hdb.1⟩
  · rw [h, Option.some.injEq, Outcome.mk.injEq] at hdb
    cases hdb.2
  · rw [h, Option.some.injEq, Outcome.mk.injEq] at hdb
    exact absurd hdb.1 hne

/-- On every text `ParseDb` ends within one record for each character; only `stol` throws, so no `substr`, no index
and no scanning loop starts beyond the end; and every record moves the cursor. -/
theorem parseDb_in_bounds :
    (∀ db, ∃ o, parseDb db = some o ∧ o.featureList.length ≤ db.length ∧
      ∀ fault, o.thrown = some fault → ∃ e, fault = .conv e) ∧
    ∀ (p p' : Parser) (f f' : Feature), p.tryParseOne f = .ok (true, p', f') → p.current < p'.current := by
  refine ⟨fun db => ?_, fun p p' f f' h => (tryParseOne_advances h).2⟩
  obtain ⟨o, ho, hlen⟩ := parseDb_ends db
  refine ⟨o, ho, hlen, fun fault hfault => ?_⟩
  rcases parseDb_cases db with ⟨_, rs, -, -, hdb⟩ | ⟨_, fs, e, -, -, hdb, -⟩ | hdb
  · rw [ho, Option.some.injEq] at hdb
    rw [hdb] at hfault
    cases hfault
  · rw [ho, Option.some.injEq] at hdb
    rw [hdb] at hfault
    exact ⟨e, (Option.some.inj hfault).symm⟩
  · rw [ho, Option.some.injEq] at hdb
    rw [hdb] at hfault
    cases hfault

end Cloudein.RouteGuide
