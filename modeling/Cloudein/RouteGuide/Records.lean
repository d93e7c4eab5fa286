import Cloudein.RouteGuide.Helper

/-!
# What `TryParseOne` reads

A record is what the parser reads as one: two runs of characters that `stol` accepts, and a name without a quote, each
after its key.  `TryParseOne` succeeds exactly on a text that begins with a record which is followed by a closing
brace and a comma, or by any character and the bracket that ends the text; it throws exactly when a number text is
rejected by `stol`; and it fails on every other text.
-/

namespace Cloudein.RouteGuide

open Spaces Stoi

def notDelimiter (c : Char) : Bool := decide (c ≠ ',' ∧ c ≠ '\x7d')

def notQuote (c : Char) : Bool := decide (c ≠ '"')

/-- The text of a number as `ReadLong` cuts it out, and the value that `stol` makes of it. -/
structure NumberText where
  text : List Char
  value : Int
  run : ∀ c ∈ text, notDelimiter c
  reads : stol text = .ok value

structure Record where
  latitude : NumberText
  longitude : NumberText
  name : List Char
  quote : ∀ c ∈ name, notQuote c

/-- What stands before the latitude, before the longitude and before the name. -/
def latitudeHead : List Char := "\x7b\"location\":\x7b\"latitude\":".toList
def longitudeHead : List Char := ",\"longitude\":".toList
def nameHead : List Char := "\x7d,\"name\":\"".toList

private theorem latitudeHead_eq :
    latitudeHead = ["\x7b".toList, locationKey, "\x7b".toList, latitudeKey].flatten := by decide
private theorem longitudeHead_eq : longitudeHead = [",".toList, longitudeKey].flatten := by decide
private theorem nameHead_eq : nameHead = ["\x7d,".toList, nameKey, "\"".toList].flatten := by decide

namespace Record

/-- The text of a record up to the quote behind the name. -/
def text (r : Record) : List Char :=
  latitudeHead ++ (r.latitude.text ++ (longitudeHead ++ (r.longitude.text ++ (nameHead ++ (r.name ++ ['"'])))))

def feature (r : Record) : Feature :=
  ⟨Int32.ofInt r.latitude.value, Int32.ofInt r.longitude.value, r.name⟩

end Record

/-- A text that begins where `ReadLong` stops. -/
def Stops (rest : List Char) : Prop := ∀ c ∈ rest.head?, notDelimiter c = false

namespace Parser

/-- The parser in front of `rest`, with `pre` behind it. -/
def cursor (pre rest : List Char) : Parser := ⟨false, pre ++ rest, pre.length⟩

/-! ### Literals -/

private theorem accept_cursor (pre rest text : List Char) :
    (cursor pre rest).accept text =
      .ok (rest.take text.length = text, ⟨false, pre ++ rest, pre.length + text.length⟩) := by
  have hsub : (cursor pre rest).substr pre.length text.length = .ok (rest.take text.length) := by
    simp [substr, cursor]
  simp only [accept, cursor] at hsub ⊢
  rw [hsub]

theorem accept_append (pre text rest : List Char) :
    (cursor pre (text ++ rest)).accept text = .ok (true, cursor (pre ++ text) rest) := by
  rw [accept_cursor]
  simp [cursor]

theorem accept_of_not {pre rest text : List Char} (h : ¬ text <+: rest) :
    (cursor pre rest).accept text = .ok (false, ⟨false, pre ++ rest, pre.length + text.length⟩) := by
  have htake : rest.take text.length ≠ text := fun heq => h (List.prefix_iff_eq_take.2 heq.symm)
  rw [accept_cursor, decide_eq_false htake]

private theorem acceptAll_append (pre rest : List Char) (texts : List (List Char)) :
    (cursor pre (texts.flatten ++ rest)).acceptAll texts = .ok (true, cursor (pre ++ texts.flatten) rest) := by
  induction texts generalizing pre with
  | nil => simp [acceptAll]
  | cons text texts ih =>
    have hfirst := accept_append pre text (texts.flatten ++ rest)
    rw [← List.append_assoc] at hfirst
    simp only [acceptAll, List.flatten_cons, hfirst]
    rw [ih, List.append_assoc]

private theorem acceptAll_of_not {rest : List Char} {texts : List (List Char)} (h : ¬ texts.flatten <+: rest)
    (pre : List Char) :
    ∃ p, (cursor pre rest).acceptAll texts = .ok (false, p) := by
  induction texts generalizing rest pre with
  | nil => exact absurd (List.nil_prefix) h
  | cons text texts ih =>
    by_cases htext : text <+: rest
    · obtain ⟨tail, rfl⟩ := htext
      have htail : ¬ texts.flatten <+: tail := by
        rintro ⟨tail', rfl⟩
        exact h ⟨tail', by simp⟩
      obtain ⟨p, hp⟩ := ih htail (pre ++ text)
      exact ⟨p, by simp only [acceptAll, accept_append, hp]⟩
    · exact ⟨⟨false, pre ++ rest, pre.length + text.length⟩, by simp only [acceptAll, accept_of_not htext]⟩

private theorem expect_append (pre rest : List Char) (texts : List (List Char)) (feature : Feature)
    (next : Parser → TryResult) :
    (cursor pre (texts.flatten ++ rest)).expect texts feature next = next (cursor (pre ++ texts.flatten) rest) := by
  simp only [expect, acceptAll_append]

private theorem expect_of_not {rest : List Char} {texts : List (List Char)} (h : ¬ texts.flatten <+: rest)
    (pre : List Char) (feature : Feature) (next : Parser → TryResult) :
    ∃ p, (cursor pre rest).expect texts feature next = .ok (false, p, feature) := by
  obtain ⟨p, hp⟩ := acceptAll_of_not h pre
  exact ⟨{ p with failed := true }, by simp only [expect, hp, setFailedAndReturnFalse]⟩

/-! ### Scanning loops -/

private theorem skipLong_append {number rest : List Char} (hrun : ∀ c ∈ number, notDelimiter c) (hstop : Stops rest)
    (i : Nat) :
    skipLong (number ++ rest) i = i + number.length := by
  induction number generalizing i with
  | nil =>
    cases rest with
    | nil => rfl
    | cons c rest =>
      have hc : ¬ (c ≠ ',' ∧ c ≠ '\x7d') := by simpa [notDelimiter] using hstop c rfl
      simp only [List.nil_append, skipLong, if_neg hc, List.length_nil, Nat.add_zero]
  | cons c number ih =>
    have hc : c ≠ ',' ∧ c ≠ '\x7d' := by simpa [notDelimiter] using hrun c List.mem_cons_self
    have hrest := ih (fun d hd => hrun d (List.mem_cons_of_mem c hd)) (i + 1)
    simp only [List.cons_append, skipLong, if_pos hc, hrest, List.length_cons]
    omega

private theorem thenReadLong_append {number rest : List Char} (hrun : ∀ c ∈ number, notDelimiter c)
    (hstop : Stops rest) (pre : List Char) (feature : Feature) (next : Int → Parser → TryResult) :
    (cursor pre (number ++ rest)).thenReadLong feature next =
      match stol number with
      | .error e => .error (.conv e, feature)
      | .ok v => next v (cursor (pre ++ number) rest) := by
  have hscan : (cursor pre (number ++ rest)).scan skipLong =
      .ok ⟨false, pre ++ (number ++ rest), pre.length + number.length⟩ := by
    simp only [scan, cursor, List.drop_left, skipLong_append hrun hstop]
    rw [if_neg (by simp)]
  have hsub : Parser.substr pre.length (pre.length + number.length - pre.length)
      ⟨false, pre ++ (number ++ rest), pre.length + number.length⟩ = .ok number := by
    simp [substr]
  simp only [thenReadLong, readLong, hscan]
  simp only [cursor, hsub]
  cases stol number with
  | error e => rfl
  | ok v => simp

private theorem skipName_append {name rest : List Char} (hrun : ∀ c ∈ name, notQuote c) (i : Nat) :
    skipName (name ++ '"' :: rest) i = i + name.length + 1 := by
  induction name generalizing i with
  | nil => rfl
  | cons c name ih =>
    have hc : c ≠ '"' := by simpa [notQuote] using hrun c List.mem_cons_self
    have hrest := ih (fun d hd => hrun d (List.mem_cons_of_mem c hd)) (i + 1)
    simp only [List.cons_append, skipName, if_pos hc, hrest, List.length_cons]
    omega

private theorem skipName_of_run {name : List Char} (hrun : ∀ c ∈ name, notQuote c) (i : Nat) :
    skipName name i = i + name.length := by
  induction name generalizing i with
  | nil => rfl
  | cons c name ih =>
    have hc : c ≠ '"' := by simpa [notQuote] using hrun c List.mem_cons_self
    have hrest := ih (fun d hd => hrun d (List.mem_cons_of_mem c hd)) (i + 1)
    simp only [skipName, if_pos hc, hrest, List.length_cons]
    omega

private theorem readName_append {name rest : List Char} (hrun : ∀ c ∈ name, notQuote c) (hrest : rest ≠ [])
    (pre : List Char) (feature : Feature) :
    (cursor pre (name ++ '"' :: rest)).readName feature =
      (cursor (pre ++ (name ++ ['"'])) rest).closeRecord { feature with name := name } := by
  have hscan : (cursor pre (name ++ '"' :: rest)).scan skipName =
      .ok ⟨false, pre ++ (name ++ '"' :: rest), pre.length + name.length + 1⟩ := by
    simp only [scan, cursor, List.drop_left, skipName_append hrun]
    rw [if_neg (by simp)]
  have hend : pre.length + name.length + 1 ≠ (pre ++ (name ++ '"' :: rest)).length := by
    have hpos : 0 < rest.length := List.length_pos_iff.2 hrest
    simp only [List.length_append, List.length_cons]
    omega
  have hsub : Parser.substr pre.length (pre.length + name.length + 1 - pre.length - 1)
      ⟨false, pre ++ (name ++ '"' :: rest), pre.length + name.length + 1⟩ = .ok name := by
    have hlen : pre.length + name.length + 1 - pre.length - 1 = name.length := by omega
    simp [substr, hlen]
  simp only [readName, hscan, if_neg hend]
  simp only [cursor, hsub]
  simp [Nat.add_assoc]

/-- A name whose quote is missing, or is the last character, makes the parser fail. -/
theorem readName_fails {rest : List Char}
    (h : ∀ name tail, rest = name ++ '"' :: tail → (∀ c ∈ name, notQuote c) → tail = [])
    (pre : List Char) (feature : Feature) :
    ∃ p, (cursor pre rest).readName feature = .ok (false, p, feature) := by
  have hend : skipName rest pre.length = pre.length + rest.length := by
    have hsplit := List.takeWhile_append_dropWhile (p := notQuote) (l := rest)
    have hrun : ∀ c ∈ rest.takeWhile notQuote, notQuote c := fun c hc => List.mem_takeWhile_imp hc
    cases hdrop : rest.dropWhile notQuote with
    | nil =>
      rw [hdrop, List.append_nil] at hsplit
      rw [hsplit] at hrun
      exact skipName_of_run hrun _
    | cons c tail =>
      obtain rfl : c = '"' := by
        have hc := List.dropWhile_get_zero_not notQuote rest (by simp [hdrop])
        simpa [hdrop, notQuote] using hc
      rw [hdrop] at hsplit
      obtain rfl : tail = [] := h _ _ hsplit.symm hrun
      rw [← hsplit, skipName_append hrun]
      simp
      omega
  have hscan : (cursor pre rest).scan skipName = .ok ⟨false, pre ++ rest, pre.length + rest.length⟩ := by
    simp only [scan, cursor, List.drop_left, hend]
    rw [if_neg (by simp)]
  simp only [readName, hscan]
  rw [if_pos (by simp)]
  exact ⟨_, rfl⟩

/-! ### The end of a record -/

theorem closeRecord_brace (pre tail : List Char) (feature : Feature) :
    (cursor pre ("\x7d,".toList ++ tail)).closeRecord feature =
      .ok (true, cursor (pre ++ "\x7d,".toList) tail, feature) := by
  simp only [closeRecord, accept_append]

/-- The text ends with the bracket, whatever stands where the closing brace belongs. -/
theorem closeRecord_bracket (pre : List Char) (c : Char) (feature : Feature) :
    (cursor pre [c, ']']).closeRecord feature = .ok (true, cursor (pre ++ [c, ']']) [], feature) := by
  have hnot : ¬ "\x7d,".toList <+: [c, ']'] := by
    rintro ⟨tail, htail⟩
    have hinj : ',' = ']' := (List.cons.inj (List.cons.inj htail).2).1
    cases hinj
  have hindex : Parser.index (pre.length + "\x7d,".toList.length - 1)
      ⟨false, pre ++ [c, ']'], pre.length + "\x7d,".toList.length⟩ = .ok ']' := by
    simp [Parser.index]
  simp only [closeRecord, accept_of_not hnot, hindex]
  rw [if_pos (by simp)]
  simp [cursor]

theorem closeRecord_fails {tail : List Char} (htail : tail ≠ []) (hbrace : ¬ "\x7d,".toList <+: tail)
    (hbracket : ∀ c, tail ≠ [c, ']']) (pre : List Char) (feature : Feature) :
    ∃ p, (cursor pre tail).closeRecord feature = .ok (false, p, feature) := by
  have hpos : pre.length + "\x7d,".toList.length - 1 = pre.length + 1 := rfl
  have hle : ¬ (pre ++ tail).length < pre.length + 1 := by
    have hlen : 0 < tail.length := List.length_pos_iff.2 htail
    simp only [List.length_append]
    omega
  simp only [closeRecord, accept_of_not hbrace, index, hpos, if_neg hle]
  refine ⟨⟨true, pre ++ tail, pre.length + "\x7d,".toList.length⟩, ?_⟩
  rw [if_neg]
  · rfl
  · rintro ⟨hc, hend⟩
    have hlen : tail.length = 2 := by
      simp at hend
      omega
    obtain ⟨c, d, rfl⟩ := List.length_eq_two.1 hlen
    obtain rfl : d = ']' := by simpa using hc
    exact hbracket c rfl

/-! ### A whole record -/

private theorem splitNumber (rest : List Char) :
    ∃ number tail, rest = number ++ tail ∧ (∀ c ∈ number, notDelimiter c) ∧ Stops tail := by
  refine ⟨rest.takeWhile notDelimiter, rest.dropWhile notDelimiter, (List.takeWhile_append_dropWhile).symm,
    fun c hc => List.mem_takeWhile_imp hc, fun c hc => ?_⟩
  cases hdrop : rest.dropWhile notDelimiter with
  | nil =>
    rw [hdrop] at hc
    cases hc
  | cons d tail =>
    obtain rfl : d = c := by simpa [hdrop] using hc
    have hd := List.dropWhile_get_zero_not notDelimiter rest (by simp [hdrop])
    simpa [hdrop] using hd

end Parser

/-- A text whose first record has a number that `stol` rejects, with everything before it in order. -/
inductive BadRecord : List Char → Prop
  | latitude {number tail : List Char} {e : ConvError} : (∀ c ∈ number, notDelimiter c) → Stops tail →
      stol number = .error e → BadRecord (latitudeHead ++ (number ++ tail))
  | longitude (latitude : NumberText) {number tail : List Char} {e : ConvError} : (∀ c ∈ number, notDelimiter c) →
      Stops tail → stol number = .error e →
      BadRecord (latitudeHead ++ (latitude.text ++ (longitudeHead ++ (number ++ tail))))

namespace Parser

private theorem stops_longitudeHead (tail : List Char) : Stops (longitudeHead ++ tail) := by
  intro c hc
  rw [longitudeHead_eq] at hc
  obtain rfl : ',' = c := Option.some.inj hc
  rfl

private theorem stops_nameHead (tail : List Char) : Stops (nameHead ++ tail) := by
  intro c hc
  rw [nameHead_eq] at hc
  obtain rfl : '\x7d' = c := Option.some.inj hc
  rfl

private theorem parseName_append {name rest : List Char} (hrun : ∀ c ∈ name, notQuote c) (hrest : rest ≠ [])
    (pre : List Char) (feature : Feature) :
    (cursor pre (nameHead ++ (name ++ '"' :: rest))).parseName feature =
      (cursor (pre ++ (nameHead ++ (name ++ ['"']))) rest).closeRecord { feature with name := name } := by
  have hexpect := expect_append pre (name ++ '"' :: rest) ["\x7d,".toList, nameKey, "\"".toList] feature
    fun p => p.readName feature
  rw [← nameHead_eq] at hexpect
  rw [parseName, hexpect, readName_append hrun hrest, List.append_assoc]

private theorem parseLongitude_append {number rest : List Char} (hrun : ∀ c ∈ number, notDelimiter c)
    (hstop : Stops rest) (pre : List Char) (feature : Feature) :
    (cursor pre (longitudeHead ++ (number ++ rest))).parseLongitude feature =
      match stol number with
      | .error e => .error (.conv e, feature)
      | .ok lon => (cursor (pre ++ (longitudeHead ++ number)) rest).parseName
          { feature with longitude := Int32.ofInt lon } := by
  have hexpect := expect_append pre (number ++ rest) [",".toList, longitudeKey] feature fun p =>
    p.thenReadLong feature fun lon p => p.parseName { feature with longitude := Int32.ofInt lon }
  rw [← longitudeHead_eq] at hexpect
  rw [parseLongitude, hexpect, thenReadLong_append hrun hstop]
  simp only [List.append_assoc]

private theorem tryParseOne_append {number rest : List Char} (hrun : ∀ c ∈ number, notDelimiter c)
    (hstop : Stops rest) (pre : List Char) (feature : Feature) :
    (cursor pre (latitudeHead ++ (number ++ rest))).tryParseOne feature =
      match stol number with
      | .error e => .error (.conv e, feature)
      | .ok lat => (cursor (pre ++ (latitudeHead ++ number)) rest).parseLongitude
          { feature with latitude := Int32.ofInt lat } := by
  have hexpect := expect_append pre (number ++ rest) ["\x7b".toList, locationKey, "\x7b".toList, latitudeKey] feature
    fun p => p.thenReadLong feature fun lat p => p.parseLongitude { feature with latitude := Int32.ofInt lat }
  rw [← latitudeHead_eq] at hexpect
  have hgo : ((cursor pre (latitudeHead ++ (number ++ rest))).failed ||
      (cursor pre (latitudeHead ++ (number ++ rest))).finished) = false := by
    have hlen : 0 < latitudeHead.length := by decide
    have hbefore : ¬ (pre ++ (latitudeHead ++ (number ++ rest))).length ≤ pre.length := by
      rw [List.length_append, List.length_append]
      omega
    exact decide_eq_false hbefore
  rw [tryParseOne, hgo, if_neg (by decide), hexpect, thenReadLong_append hrun hstop]
  simp only [List.append_assoc]

/-- `TryParseOne` on a record reads it up to the quote behind its name. -/
theorem tryParseOne_record (r : Record) {rest : List Char} (hrest : rest ≠ []) (pre : List Char) (feature : Feature) :
    (cursor pre (r.text ++ rest)).tryParseOne feature = (cursor (pre ++ r.text) rest).closeRecord r.feature := by
  have htext : r.text ++ rest = latitudeHead ++ (r.latitude.text ++ (longitudeHead ++ (r.longitude.text ++
      (nameHead ++ (r.name ++ '"' :: rest))))) := by
    simp [Record.text]
  rw [htext, tryParseOne_append r.latitude.run (stops_longitudeHead _), r.latitude.reads]
  simp only
  rw [parseLongitude_append r.longitude.run (stops_nameHead _), r.longitude.reads]
  simp only
  rw [parseName_append r.quote hrest]
  simp [Record.text, Record.feature]

/-- `TryParseOne` throws on a record with a number that `stol` rejects. -/
theorem tryParseOne_bad {rest : List Char} (h : BadRecord rest) (pre : List Char) (feature : Feature) :
    ∃ e feature', (cursor pre rest).tryParseOne feature = .error (.conv e, feature') := by
  cases h with
  | latitude hrun hstop hstol =>
    rw [tryParseOne_append hrun hstop, hstol]
    exact ⟨_, _, rfl⟩
  | longitude latitude hrun hstop hstol =>
    rw [tryParseOne_append latitude.run (stops_longitudeHead _), latitude.reads]
    simp only
    rw [parseLongitude_append hrun hstop, hstol]
    exact ⟨_, _, rfl⟩

/-! ### What a result says about the text -/

private theorem parseName_cases (pre rest : List Char) (feature : Feature) :
    (∃ p feature', (cursor pre rest).parseName feature = .ok (false, p, feature')) ∨
      ∃ name tail, rest = nameHead ++ (name ++ '"' :: tail) ∧ (∀ c ∈ name, notQuote c) ∧ tail ≠ [] := by
  by_cases hhead : nameHead <+: rest
  · obtain ⟨tail, rfl⟩ := hhead
    by_cases hname : ∀ name tail', tail = name ++ '"' :: tail' → (∀ c ∈ name, notQuote c) → tail' = []
    · left
      have hexpect := expect_append pre tail ["\x7d,".toList, nameKey, "\"".toList] feature
        fun p => p.readName feature
      rw [← nameHead_eq] at hexpect
      obtain ⟨p, hp⟩ := readName_fails hname (pre ++ nameHead) feature
      exact ⟨p, feature, by rw [parseName, hexpect, hp]⟩
    · push Not at hname
      obtain ⟨name, tail', rfl, hrun, hne⟩ := hname
      exact Or.inr ⟨name, tail', rfl, hrun, hne⟩
  · left
    rw [nameHead_eq] at hhead
    obtain ⟨p, hp⟩ := expect_of_not hhead pre feature fun p => p.readName feature
    exact ⟨p, feature, hp⟩

private theorem parseLongitude_cases (pre rest : List Char) (feature : Feature) :
    (∃ p feature', (cursor pre rest).parseLongitude feature = .ok (false, p, feature')) ∨
      ∃ number tail, rest = longitudeHead ++ (number ++ tail) ∧ (∀ c ∈ number, notDelimiter c) ∧ Stops tail := by
  by_cases hhead : longitudeHead <+: rest
  · obtain ⟨tail, rfl⟩ := hhead
    obtain ⟨number, tail', rfl, hrun, hstop⟩ := splitNumber tail
    exact Or.inr ⟨number, tail', rfl, hrun, hstop⟩
  · left
    rw [longitudeHead_eq] at hhead
    obtain ⟨p, hp⟩ := expect_of_not hhead pre feature fun p =>
      p.thenReadLong feature fun lon p => p.parseName { feature with longitude := Int32.ofInt lon }
    exact ⟨p, feature, hp⟩

theorem tryParseOne_fails {rest : List Char} (h : ¬ latitudeHead <+: rest) (pre : List Char) (feature : Feature) :
    ∃ p, (cursor pre rest).tryParseOne feature = .ok (false, p, feature) := by
  unfold tryParseOne
  split
  · exact ⟨_, rfl⟩
  · rw [latitudeHead_eq] at h
    exact expect_of_not h pre feature _

/-- A text on which `TryParseOne` does not fail begins with a record, or with one whose number `stol` rejects. -/
theorem tryParseOne_cases (pre rest : List Char) (feature : Feature) :
    (∃ p feature', (cursor pre rest).tryParseOne feature = .ok (false, p, feature')) ∨ BadRecord rest ∨
      ∃ (r : Record) (tail : List Char), rest = r.text ++ tail ∧ tail ≠ [] := by
  by_cases hhead : latitudeHead <+: rest
  · obtain ⟨tail, rfl⟩ := hhead
    obtain ⟨number, tail, rfl, hrun, hstop⟩ := splitNumber tail
    rw [tryParseOne_append hrun hstop]
    cases hlat : stol number with
    | error e => exact Or.inr (Or.inl (.latitude hrun hstop hlat))
    | ok lat =>
      rcases parseLongitude_cases (pre ++ (latitudeHead ++ number)) tail
        { feature with latitude := Int32.ofInt lat } with hfail | ⟨number', tail', rfl, hrun', hstop'⟩
      · exact Or.inl hfail
      · simp only
        rw [parseLongitude_append hrun' hstop']
        cases hlon : stol number' with
        | error e => exact Or.inr (Or.inl (.longitude ⟨number, lat, hrun, hlat⟩ hrun' hstop' hlon))
        | ok lon =>
          rcases parseName_cases (pre ++ (latitudeHead ++ number) ++ (longitudeHead ++ number')) tail'
            { feature with latitude := Int32.ofInt lat, longitude := Int32.ofInt lon } with
            hfail | ⟨name, rest, rfl, hquote, hne⟩
          · exact Or.inl hfail
          · refine Or.inr (Or.inr ⟨⟨⟨number, lat, hrun, hlat⟩, ⟨number', lon, hrun', hlon⟩, name, hquote⟩, rest, ?_,
              hne⟩)
            simp [Record.text]
  · obtain ⟨p, hp⟩ := tryParseOne_fails hhead pre feature
    exact Or.inl ⟨p, feature, hp⟩

end Parser

end Cloudein.RouteGuide
