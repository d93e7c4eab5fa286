import Mathlib.Data.List.Basic

/-!
# The UTF-8 scanner of the protobuf runtime

`IsStructurallyValidUTF8` runs the table `utf8acceptnonsurrogates` over the bytes, with the runs of ASCII skipped
eight bytes at a time; a text is valid when the scan ends in the initial state.  The texts it accepts are the UTF-8
encodings of characters, surrogates and overlong forms excluded (`isStructurallyValidUtf8_iff`).
-/

namespace Protobuf

/-- The states of the table, by the bytes they wait for.  The state 8, behind the first two bytes of a surrogate,
rejects every byte and is left out. -/
inductive Utf8State where
  /-- State 0: the first byte of a character. -/
  | start
  /-- State 1: the last byte. -/
  | last
  /-- State 2: the second byte of three behind `E0`. -/
  | afterE0
  /-- State 3: the second byte of three, or the third of four. -/
  | secondOfThree
  /-- State 4: the second byte of four behind `F0`. -/
  | afterF0
  /-- State 5: the second byte of four. -/
  | secondOfFour
  /-- State 6: the second byte of four behind `F4`. -/
  | afterF4
  /-- State 7: the second byte of three behind `ED`. -/
  | afterED
deriving DecidableEq, Repr

/-- The entry of the table for a byte, `none` for the exits. -/
def Utf8State.next (s : Utf8State) (b : Nat) : Option Utf8State :=
  match s with
  | .start =>
    if b < 0x80 then some .start
    else if b < 0xC2 then none
    else if b < 0xE0 then some .last
    else if b = 0xE0 then some .afterE0
    else if b = 0xED then some .afterED
    else if b < 0xF0 then some .secondOfThree
    else if b = 0xF0 then some .afterF0
    else if b < 0xF4 then some .secondOfFour
    else if b = 0xF4 then some .afterF4
    else none
  | .last => if 0x80 ≤ b ∧ b < 0xC0 then some .start else none
  | .afterE0 => if 0xA0 ≤ b ∧ b < 0xC0 then some .last else none
  | .secondOfThree => if 0x80 ≤ b ∧ b < 0xC0 then some .last else none
  | .afterF0 => if 0x90 ≤ b ∧ b < 0xC0 then some .secondOfThree else none
  | .secondOfFour => if 0x80 ≤ b ∧ b < 0xC0 then some .secondOfThree else none
  | .afterF4 => if 0x80 ≤ b ∧ b < 0x90 then some .secondOfThree else none
  | .afterED => if 0x80 ≤ b ∧ b < 0xA0 then some .last else none

/-- The scan from a state, `none` when it meets an exit. -/
def utf8Scan : Utf8State → List UInt8 → Option Utf8State
  | s, [] => some s
  | s, b :: bs => match s.next b.toNat with
    | none => none
    | some s => utf8Scan s bs

def isStructurallyValidUtf8 (s : List UInt8) : Bool := utf8Scan .start s = some .start

/-! ### What the scanner accepts -/

private theorem utf8Scan_cons {s s' : Utf8State} {b : Nat} (hb : b < 256) (h : s.next b = some s') (bs : List UInt8) :
    utf8Scan s (UInt8.ofNat b :: bs) = utf8Scan s' bs := by
  have hbyte : (UInt8.ofNat b).toNat = b := by
    rw [UInt8.toNat_ofNat', Nat.mod_eq_of_lt hb]
  rw [utf8Scan, hbyte, h]

private theorem Utf8State.next_last {b : Nat} (hlow : 0x80 ≤ b) (hhigh : b < 0xC0) :
    Utf8State.last.next b = some .start :=
  if_pos ⟨hlow, hhigh⟩

private theorem utf8Scan_two {v : Nat} (hlow : 0x80 ≤ v) (hhigh : v < 0x800) (bs : List UInt8) :
    utf8Scan .start (UInt8.ofNat (v / 64 % 0x20 + 0xc0) :: UInt8.ofNat (v % 0x40 + 0x80) :: bs) =
      utf8Scan .start bs := by
  have hfirst : Utf8State.start.next (v / 64 % 0x20 + 0xc0) = some .last := by
    simp only [Utf8State.next]
    rw [if_neg (by omega), if_neg (by omega), if_pos (by omega)]
  rw [utf8Scan_cons (by omega) hfirst, utf8Scan_cons (by omega) (Utf8State.next_last (by omega) (by omega))]

private theorem utf8Scan_three {v : Nat} (hlow : 0x800 ≤ v) (hhigh : v < 0x10000)
    (hsurrogate : v < 0xD800 ∨ 0xE000 ≤ v) (bs : List UInt8) :
    utf8Scan .start (UInt8.ofNat (v / 4096 % 0x10 + 0xe0) :: UInt8.ofNat (v / 64 % 0x40 + 0x80) ::
      UInt8.ofNat (v % 0x40 + 0x80) :: bs) = utf8Scan .start bs := by
  have hmid : ∃ s, Utf8State.start.next (v / 4096 % 0x10 + 0xe0) = some s ∧
      s.next (v / 64 % 0x40 + 0x80) = some .last := by
    by_cases h0 : v / 4096 = 0
    · refine ⟨.afterE0, ?_, if_pos (by omega)⟩
      rw [h0]
      rfl
    · by_cases hd : v / 4096 = 13
      · refine ⟨.afterED, ?_, if_pos (by omega)⟩
        rw [hd]
        rfl
      · refine ⟨.secondOfThree, ?_, if_pos (by omega)⟩
        simp only [Utf8State.next]
        rw [if_neg (by omega), if_neg (by omega), if_neg (by omega), if_neg (by omega), if_neg (by omega),
          if_pos (by omega)]
  obtain ⟨s, hfirst, hsecond⟩ := hmid
  rw [utf8Scan_cons (by omega) hfirst, utf8Scan_cons (by omega) hsecond,
    utf8Scan_cons (by omega) (Utf8State.next_last (by omega) (by omega))]

private theorem utf8Scan_four {v : Nat} (hlow : 0x10000 ≤ v) (hhigh : v < 0x110000) (bs : List UInt8) :
    utf8Scan .start (UInt8.ofNat (v / 262144 % 0x08 + 0xf0) :: UInt8.ofNat (v / 4096 % 0x40 + 0x80) ::
      UInt8.ofNat (v / 64 % 0x40 + 0x80) :: UInt8.ofNat (v % 0x40 + 0x80) :: bs) = utf8Scan .start bs := by
  have hmid : ∃ s, Utf8State.start.next (v / 262144 % 0x08 + 0xf0) = some s ∧
      s.next (v / 4096 % 0x40 + 0x80) = some .secondOfThree := by
    by_cases h0 : v / 262144 = 0
    · refine ⟨.afterF0, ?_, if_pos (by omega)⟩
      rw [h0]
      rfl
    · by_cases h4 : v / 262144 = 4
      · refine ⟨.afterF4, ?_, if_pos (by omega)⟩
        rw [h4]
        rfl
      · refine ⟨.secondOfFour, ?_, if_pos (by omega)⟩
        simp only [Utf8State.next]
        rw [if_neg (by omega), if_neg (by omega), if_neg (by omega), if_neg (by omega), if_neg (by omega),
          if_neg (by omega), if_neg (by omega), if_pos (by omega)]
  obtain ⟨s, hfirst, hsecond⟩ := hmid
  have hthird : Utf8State.secondOfThree.next (v / 64 % 0x40 + 0x80) = some .last := if_pos (by omega)
  rw [utf8Scan_cons (by omega) hfirst, utf8Scan_cons (by omega) hsecond, utf8Scan_cons (by omega) hthird,
    utf8Scan_cons (by omega) (Utf8State.next_last (by omega) (by omega))]

private theorem utf8Scan_encodeChar (c : Char) (bs : List UInt8) :
    utf8Scan .start (String.utf8EncodeChar c ++ bs) = utf8Scan .start bs := by
  have hvalid : c.val.toNat < 0xD800 ∨ 0xDFFF < c.val.toNat ∧ c.val.toNat < 0x110000 := c.valid
  simp only [String.utf8EncodeChar]
  split
  · have hfirst : Utf8State.start.next c.val.toNat = some .start := if_pos (by omega)
    exact utf8Scan_cons (by omega) hfirst bs
  · split
    · exact utf8Scan_two (by omega) (by omega) bs
    · split
      · exact utf8Scan_three (by omega) (by omega) (by omega) bs
      · exact utf8Scan_four (by omega) (by omega) bs

private theorem utf8Scan_flatMap (cs : List Char) :
    utf8Scan .start (cs.flatMap String.utf8EncodeChar) = some .start := by
  induction cs with
  | nil => rfl
  | cons c cs ih => rw [List.flatMap_cons, utf8Scan_encodeChar, ih]

private theorem utf8Scan_next {s : Utf8State} (hs : s ≠ .start) {bs : List UInt8} (h : utf8Scan s bs = some .start) :
    ∃ b rest s', bs = b :: rest ∧ s.next b.toNat = some s' ∧ utf8Scan s' rest = some .start := by
  cases bs with
  | nil =>
    cases h
    exact absurd rfl hs
  | cons b rest =>
    rw [utf8Scan] at h
    split at h
    · cases h
    · rename_i s' hnext
      exact ⟨b, rest, s', rfl, hnext, h⟩

/-- The state waits for a byte of the range before it goes on with `s'`. -/
theorem utf8Scan_range {s s' : Utf8State} {low high : Nat}
    (hs : ∀ b, s.next b = if low ≤ b ∧ b < high then some s' else none) (hne : s ≠ .start) {bs : List UInt8}
    (h : utf8Scan s bs = some .start) :
    ∃ b rest, bs = b :: rest ∧ low ≤ b.toNat ∧ b.toNat < high ∧ utf8Scan s' rest = some .start := by
  obtain ⟨b, rest, s₁, rfl, hnext, hrest⟩ := utf8Scan_next hne h
  rw [hs] at hnext
  split at hnext
  · rename_i hb
    cases hnext
    exact ⟨b, rest, rfl, hb.1, hb.2, hrest⟩
  · cases hnext

private theorem exists_char {v : Nat} (h : v < 0xD800 ∨ 0xDFFF < v ∧ v < 0x110000) : ∃ c : Char, c.val.toNat = v :=
  ⟨Char.ofNatAux v h, rfl⟩

private theorem eq_ofNat {b : UInt8} {n : Nat} (h : b.toNat = n) : b = UInt8.ofNat n := by
  rw [← h, UInt8.ofNat_toNat]

private theorem encodeChar_one {a : UInt8} (ha : a.toNat < 0x80) : ∃ c, [a] = String.utf8EncodeChar c := by
  obtain ⟨c, hc⟩ := exists_char (v := a.toNat) (by omega)
  refine ⟨c, ?_⟩
  simp only [String.utf8EncodeChar, hc]
  rw [if_pos (by omega), UInt8.ofNat_toNat]

private theorem encodeChar_two {a b : UInt8} (halow : 0xC2 ≤ a.toNat) (hahigh : a.toNat < 0xE0)
    (hblow : 0x80 ≤ b.toNat) (hbhigh : b.toNat < 0xC0) : ∃ c, [a, b] = String.utf8EncodeChar c := by
  obtain ⟨c, hc⟩ := exists_char (v := (a.toNat - 0xC0) * 64 + (b.toNat - 0x80)) (by omega)
  refine ⟨c, ?_⟩
  simp only [String.utf8EncodeChar, hc]
  rw [if_neg (by omega), if_pos (by omega), ← eq_ofNat (b := a) (by omega), ← eq_ofNat (b := b) (by omega)]

private theorem encodeChar_three {a b d : UInt8} (halow : 0xE0 ≤ a.toNat) (hahigh : a.toNat < 0xF0)
    (hblow : 0x80 ≤ b.toNat) (hbhigh : b.toNat < 0xC0) (hdlow : 0x80 ≤ d.toNat) (hdhigh : d.toNat < 0xC0)
    (hoverlong : a.toNat = 0xE0 → 0xA0 ≤ b.toNat) (hsurrogate : a.toNat = 0xED → b.toNat < 0xA0) :
    ∃ c, [a, b, d] = String.utf8EncodeChar c := by
  obtain ⟨c, hc⟩ := exists_char (v := (a.toNat - 0xE0) * 4096 + (b.toNat - 0x80) * 64 + (d.toNat - 0x80)) (by omega)
  refine ⟨c, ?_⟩
  simp only [String.utf8EncodeChar, hc]
  rw [if_neg (by omega), if_neg (by omega), if_pos (by omega), ← eq_ofNat (b := a) (by omega),
    ← eq_ofNat (b := b) (by omega), ← eq_ofNat (b := d) (by omega)]

private theorem encodeChar_four {a b d e : UInt8} (halow : 0xF0 ≤ a.toNat) (hahigh : a.toNat < 0xF5)
    (hblow : 0x80 ≤ b.toNat) (hbhigh : b.toNat < 0xC0) (hdlow : 0x80 ≤ d.toNat) (hdhigh : d.toNat < 0xC0)
    (helow : 0x80 ≤ e.toNat) (hehigh : e.toNat < 0xC0) (hoverlong : a.toNat = 0xF0 → 0x90 ≤ b.toNat)
    (hbeyond : a.toNat = 0xF4 → b.toNat < 0x90) : ∃ c, [a, b, d, e] = String.utf8EncodeChar c := by
  obtain ⟨c, hc⟩ := exists_char
    (v := (a.toNat - 0xF0) * 262144 + (b.toNat - 0x80) * 4096 + (d.toNat - 0x80) * 64 + (e.toNat - 0x80)) (by omega)
  refine ⟨c, ?_⟩
  simp only [String.utf8EncodeChar, hc]
  rw [if_neg (by omega), if_neg (by omega), if_neg (by omega), ← eq_ofNat (b := a) (by omega),
    ← eq_ofNat (b := b) (by omega), ← eq_ofNat (b := d) (by omega), ← eq_ofNat (b := e) (by omega)]

/-- What follows a first byte, up to the initial state. -/
theorem utf8Scan_last {bs : List UInt8} (h : utf8Scan .last bs = some .start) :
    ∃ b rest, bs = b :: rest ∧ 0x80 ≤ b.toNat ∧ b.toNat < 0xC0 ∧ utf8Scan .start rest = some .start :=
  utf8Scan_range (fun _ => rfl) (by decide) h

/-- The first bytes that lead to a state. -/
def Utf8State.FirstByte (b : Nat) : Utf8State → Prop
  | .start => b < 0x80
  | .last => 0xC2 ≤ b ∧ b < 0xE0
  | .afterE0 => b = 0xE0
  | .afterED => b = 0xED
  | .secondOfThree => 0xE0 < b ∧ b < 0xF0 ∧ b ≠ 0xED
  | .afterF0 => b = 0xF0
  | .secondOfFour => 0xF0 < b ∧ b < 0xF4
  | .afterF4 => b = 0xF4

theorem Utf8State.firstByte_of_next {b : Nat} {s : Utf8State} (h : Utf8State.start.next b = some s) :
    s.FirstByte b := by
  simp only [Utf8State.next] at h
  grind [Utf8State.FirstByte]

/-- A scan that comes back to the initial state has taken a character first. -/
theorem encodeChar_of_scan {a : UInt8} {bs : List UInt8} (h : utf8Scan .start (a :: bs) = some .start) :
    ∃ c rest, a :: bs = String.utf8EncodeChar c ++ rest ∧ utf8Scan .start rest = some .start := by
  have hthree : ∀ {s : Utf8State} {low high : Nat}, 0xE0 ≤ a.toNat → a.toNat < 0xF0 →
      (∀ b, s.next b = if low ≤ b ∧ b < high then some .last else none) → s ≠ .start → 0x80 ≤ low → high ≤ 0xC0 →
      (a.toNat = 0xE0 → 0xA0 ≤ low) → (a.toNat = 0xED → high ≤ 0xA0) → utf8Scan s bs = some .start →
      ∃ c rest, a :: bs = String.utf8EncodeChar c ++ rest ∧ utf8Scan .start rest = some .start := by
    intro s low high halow hahigh hs hne hlow hhigh hoverlong hsurrogate hscan
    obtain ⟨b, bs, rfl, hb, hb', hscan⟩ := utf8Scan_range hs hne hscan
    obtain ⟨d, bs, rfl, hd, hd', hscan⟩ := utf8Scan_last hscan
    obtain ⟨c, hc⟩ := encodeChar_three (a := a) (b := b) (d := d) (by omega) (by omega) (by omega) (by omega)
      (by omega) (by omega) (fun hb => by have := hoverlong hb; omega) (fun hb => by have := hsurrogate hb; omega)
    exact ⟨c, bs, by rw [← hc]; rfl, hscan⟩
  have hfour : ∀ {s : Utf8State} {low high : Nat}, 0xF0 ≤ a.toNat → a.toNat < 0xF5 →
      (∀ b, s.next b = if low ≤ b ∧ b < high then some .secondOfThree else none) → s ≠ .start → 0x80 ≤ low →
      high ≤ 0xC0 → (a.toNat = 0xF0 → 0x90 ≤ low) → (a.toNat = 0xF4 → high ≤ 0x90) → utf8Scan s bs = some .start →
      ∃ c rest, a :: bs = String.utf8EncodeChar c ++ rest ∧ utf8Scan .start rest = some .start := by
    intro s low high halow hahigh hs hne hlow hhigh hoverlong hbeyond hscan
    obtain ⟨b, bs, rfl, hb, hb', hscan⟩ := utf8Scan_range hs hne hscan
    obtain ⟨d, bs, rfl, hd, hd', hscan⟩ := utf8Scan_range (s := .secondOfThree) (fun _ => rfl) (by decide) hscan
    obtain ⟨e, bs, rfl, he, he', hscan⟩ := utf8Scan_last hscan
    obtain ⟨c, hc⟩ := encodeChar_four (a := a) (b := b) (d := d) (e := e) (by omega) (by omega) (by omega) (by omega)
      (by omega) (by omega) (by omega) (by omega) (fun hb => by have := hoverlong hb; omega)
      (fun hb => by have := hbeyond hb; omega)
    exact ⟨c, bs, by rw [← hc]; rfl, hscan⟩
  obtain ⟨s, hnext, hscan⟩ : ∃ s, Utf8State.start.next a.toNat = some s ∧ utf8Scan s bs = some .start := by
    rw [utf8Scan] at h
    split at h
    · cases h
    · rename_i s hnext
      exact ⟨s, hnext, h⟩
  have hfirst := Utf8State.firstByte_of_next hnext
  cases s with
  | start =>
    obtain ⟨c, hc⟩ := encodeChar_one hfirst
    exact ⟨c, bs, by rw [← hc]; rfl, hscan⟩
  | last =>
    obtain ⟨b, bs, rfl, hb, hb', hscan⟩ := utf8Scan_last hscan
    obtain ⟨c, hc⟩ := encodeChar_two hfirst.1 hfirst.2 hb hb'
    exact ⟨c, bs, by rw [← hc]; rfl, hscan⟩
  | afterE0 =>
    have ha : a.toNat = 0xE0 := hfirst
    exact hthree (by omega) (by omega) (fun _ => rfl) (by decide) (by omega) (by omega) (by omega) (by omega) hscan
  | afterED =>
    have ha : a.toNat = 0xED := hfirst
    exact hthree (by omega) (by omega) (fun _ => rfl) (by decide) (by omega) (by omega) (by omega) (by omega) hscan
  | secondOfThree =>
    obtain ⟨hlow, hhigh, hne⟩ := hfirst
    exact hthree (by omega) (by omega) (fun _ => rfl) (by decide) (by omega) (by omega) (by omega) (by omega) hscan
  | afterF0 =>
    have ha : a.toNat = 0xF0 := hfirst
    exact hfour (by omega) (by omega) (fun _ => rfl) (by decide) (by omega) (by omega) (by omega) (by omega) hscan
  | secondOfFour =>
    obtain ⟨hlow, hhigh⟩ := hfirst
    exact hfour (by omega) (by omega) (fun _ => rfl) (by decide) (by omega) (by omega) (by omega) (by omega) hscan
  | afterF4 =>
    have ha : a.toNat = 0xF4 := hfirst
    exact hfour (by omega) (by omega) (fun _ => rfl) (by decide) (by omega) (by omega) (by omega) (by omega) hscan

/-- The scanner accepts the UTF-8 encodings of texts, and nothing else. -/
theorem isStructurallyValidUtf8_iff (bs : List UInt8) :
    isStructurallyValidUtf8 bs = true ↔ ∃ cs : List Char, bs = cs.flatMap String.utf8EncodeChar := by
  rw [isStructurallyValidUtf8, decide_eq_true_iff]
  constructor
  · intro h
    induction hn : bs.length using Nat.strongRecOn generalizing bs with
    | ind n ih =>
      cases bs with
      | nil => exact ⟨[], rfl⟩
      | cons a bs =>
        obtain ⟨c, rest, heq, hrest⟩ := encodeChar_of_scan h
        have hpos : 0 < (String.utf8EncodeChar c).length := List.length_pos_of_ne_nil String.utf8EncodeChar_ne_nil
        have hlt : rest.length < n := by
          rw [← hn, heq, List.length_append]
          omega
        obtain ⟨cs, rfl⟩ := ih rest.length hlt rest hrest rfl
        exact ⟨c :: cs, heq⟩
  · rintro ⟨cs, rfl⟩
    exact utf8Scan_flatMap cs

/-- The bytes of a string. -/
def utf8Bytes (s : String) : List UInt8 := s.toList.flatMap String.utf8EncodeChar

theorem utf8Bytes_valid (s : String) : isStructurallyValidUtf8 (utf8Bytes s) = true :=
  (isStructurallyValidUtf8_iff _).2 ⟨s.toList, rfl⟩

end Protobuf
