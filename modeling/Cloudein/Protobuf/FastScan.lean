import Cloudein.Protobuf.Utf8
import Mathlib.Data.List.Induction

/-!
# The fast paths of the UTF-8 scanner

`UTF8GenericScanFastAscii` and `UTF8GenericScan` go over ASCII in groups of eight bytes, from the first address that
is a multiple of eight, before they run the table; when the table exits or the text ends within a character, they go
back to the first byte of that character.  Wherever the text lies, they consume the longest part of it that is valid,
never point in front of it, and `IsStructurallyValidUTF8` is the scan of the bare table (`fastScan_exact`).
-/

namespace Protobuf

/-- The states of the table, with state 8. -/
inductive ScanState where
  | state (s : Utf8State)
  /-- State 8: the third byte of a surrogate. -/
  | surrogate
deriving DecidableEq, Repr

def ScanState.next : ScanState → Nat → Option ScanState
  | state s, b => if s = .afterED ∧ 0xA0 ≤ b ∧ b < 0xC0 then some .surrogate else (s.next b).map .state
  | surrogate, _ => none

/-- Four bytes as a little-endian word. -/
def load32 (b0 b1 b2 b3 : UInt8) : BitVec 32 := b3.toBitVec ++ b2.toBitVec ++ b1.toBitVec ++ b0.toBitVec

def losub : BitVec 32 := 0x20202020
def hiadd : BitVec 32 := 0
def highBits : BitVec 32 := 0x80808080

/-- `utf8acceptnonsurrogates_fast` -/
def fastState (b : UInt8) : Bool := 0x80 ≤ b.toNat

/-! ### The loops, as the bytes that they leave -/

/-- `while (((src & 7) != 0) && (src < srclimit) && Tbl2[src[0]] == 0) src++;` -/
def skipToAligned : Nat → List UInt8 → List UInt8
  | _, [] => []
  | addr, b :: bs => if addr % 8 ≠ 0 ∧ fastState b = false then skipToAligned (addr + 1) bs else b :: bs

/-- The loop of `UTF8GenericScan` over groups of eight bytes. -/
def skipGroups : List UInt8 → List UInt8
  | b0 :: b1 :: b2 :: b3 :: b4 :: b5 :: b6 :: b7 :: rest =>
    let s0123 := load32 b0 b1 b2 b3
    let s4567 := load32 b4 b5 b6 b7
    let temp := (s0123 - losub) ||| (s0123 + hiadd) ||| (s4567 - losub) ||| (s4567 + hiadd)
    if temp &&& highBits ≠ 0 then
      if fastState b0 || fastState b1 || fastState b2 || fastState b3 then
        b0 :: b1 :: b2 :: b3 :: b4 :: b5 :: b6 :: b7 :: rest
      else if fastState b4 || fastState b5 || fastState b6 || fastState b7 then b4 :: b5 :: b6 :: b7 :: rest
      else skipGroups rest
    else skipGroups rest
  | rest => rest

/-- The loop of `UTF8GenericScanFastAscii` over groups of eight bytes. -/
def skipAsciiGroups : List UInt8 → List UInt8
  | b0 :: b1 :: b2 :: b3 :: b4 :: b5 :: b6 :: b7 :: rest =>
    if (load32 b0 b1 b2 b3 ||| load32 b4 b5 b6 b7) &&& highBits = 0 then skipAsciiGroups rest
    else b0 :: b1 :: b2 :: b3 :: b4 :: b5 :: b6 :: b7 :: rest
  | rest => rest

/-- The loop over the table: whether it met an exit, the last state, and what is left behind the last byte it read. -/
def tableScan : ScanState → List UInt8 → Bool × ScanState × List UInt8
  | s, [] => (false, s, [])
  | s, b :: bs => match s.next b.toNat with
    | none => (true, s, bs)
    | some s' => tableScan s' bs

/-- `do { src--; } while ((src > isrc) && ((src[0] & 0xc0) == 0x80));`, `none` when `src` leaves the text. -/
def backUp (text : List UInt8) : Nat → Option Nat
  | 0 => none
  | n + 1 =>
    if n = 0 then some 0
    else match text[n]? with
      | none => none
      | some b => if b &&& 0xc0 = 0x80 then backUp text n else some n

/-- The number of bytes consumed, from the end of the loop over the table. -/
def scanEnd (text : List UInt8) : Bool × ScanState × List UInt8 → Option Nat
  | (exit, s, src) =>
    let n := text.length - src.length
    if exit then if s ≠ .state .start then backUp text (n - 1) else some (n - 1)
    else if s ≠ .state .start then backUp text n
    else some n

/-- The number of bytes that `UTF8GenericScan` consumes of a text at an address.  No entry of the table is
`kExitDoAgain`. -/
def utf8GenericScan (addr : Nat) (text : List UInt8) : Option Nat :=
  if text = [] then some 0
  else
    let src := skipToAligned addr text
    let src := if (addr + (text.length - src.length)) % 8 = 0 then skipGroups src else src
    scanEnd text (tableScan (.state .start) src)

def utf8GenericScanFastAscii (addr : Nat) (text : List UInt8) : Option Nat :=
  if text = [] then some 0
  else
    let src := skipToAligned addr text
    let src := if (addr + (text.length - src.length)) % 8 = 0 then skipAsciiGroups src else src
    let src := src.dropWhile fun b => b.toNat < 0x80
    let n := text.length - src.length
    (utf8GenericScan (addr + n) src).map (n + ·)

/-- `IsStructurallyValidUTF8` of a text at an address. -/
def isStructurallyValidUtf8At (addr : Nat) (text : List UInt8) : Bool :=
  utf8GenericScanFastAscii addr text = some text.length

/-! ### What the loops skip -/

/-- What is skipped is ASCII. -/
def Skips (text src : List UInt8) : Prop := ∃ pre, text = pre ++ src ∧ ∀ b ∈ pre, b.toNat < 0x80

namespace Skips

variable {text src rest : List UInt8}

theorem refl (text : List UInt8) : Skips text text := ⟨[], rfl, by simp⟩

theorem trans (h : Skips text src) (h' : Skips src rest) : Skips text rest := by
  obtain ⟨p, rfl, hp⟩ := h
  obtain ⟨q, rfl, hq⟩ := h'
  refine ⟨p ++ q, (List.append_assoc ..).symm, fun b hb => ?_⟩
  rcases List.mem_append.1 hb with hb | hb
  · exact hp b hb
  · exact hq b hb

theorem cons {b : UInt8} (hb : b.toNat < 0x80) (h : Skips text src) : Skips (b :: text) src := by
  obtain ⟨p, rfl, hp⟩ := h
  exact ⟨b :: p, rfl, List.forall_mem_cons.2 ⟨hb, hp⟩⟩

theorem dropWhile (text : List UInt8) : Skips text (text.dropWhile fun b => b.toNat < 0x80) := by
  induction text with
  | nil => exact refl []
  | cons b bs ih =>
    rw [List.dropWhile_cons]
    split
    · rename_i hb
      exact ih.cons (of_decide_eq_true hb)
    · exact refl _

end Skips

private theorem fastState_eq_false {b : UInt8} : fastState b = false ↔ b.toNat < 0x80 := by
  simp [fastState]

private theorem skips_toAligned (addr : Nat) (text : List UInt8) : Skips text (skipToAligned addr text) := by
  induction text generalizing addr with
  | nil => exact .refl []
  | cons b bs ih =>
    rw [skipToAligned]
    split
    · rename_i h
      exact (ih (addr + 1)).cons (fastState_eq_false.1 h.2)
    · exact .refl _

private theorem lt_of_high_bit {b : UInt8} (h : b.toBitVec.getLsbD 7 = false) : b.toNat < 0x80 := by
  have hmsb : b.toBitVec.msb = false := by
    rw [BitVec.msb_eq_getLsbD_last]
    exact h
  exact BitVec.toNat_lt_of_msb_false hmsb

/-- A word whose high bits are zero holds four bytes of ASCII. -/
theorem load32_ascii {b0 b1 b2 b3 : UInt8} (h : load32 b0 b1 b2 b3 &&& highBits = 0) :
    b0.toNat < 0x80 ∧ b1.toNat < 0x80 ∧ b2.toNat < 0x80 ∧ b3.toNat < 0x80 := by
  have hbit : ∀ k, highBits.getLsbD k = true → (load32 b0 b1 b2 b3).getLsbD k = false := by
    intro k hk
    have hzero := congrArg (·.getLsbD k) h
    simpa [hk] using hzero
  have h0 := hbit 7 (by decide)
  have h1 := hbit 15 (by decide)
  have h2 := hbit 23 (by decide)
  have h3 := hbit 31 (by decide)
  simp only [load32, BitVec.getLsbD_append] at h0 h1 h2 h3
  exact ⟨lt_of_high_bit h0, lt_of_high_bit h1, lt_of_high_bit h2, lt_of_high_bit h3⟩

private theorem highBits_or {x y : BitVec 32} (h : (x ||| y) &&& highBits = 0) :
    x &&& highBits = 0 ∧ y &&& highBits = 0 := by
  rw [BitVec.and_or_distrib_right] at h
  exact BitVec.or_eq_zero_iff.1 h

theorem Skips.four {b0 b1 b2 b3 : UInt8} {text src : List UInt8}
    (hb : b0.toNat < 0x80 ∧ b1.toNat < 0x80 ∧ b2.toNat < 0x80 ∧ b3.toNat < 0x80) (h : Skips text src) :
    Skips (b0 :: b1 :: b2 :: b3 :: text) src :=
  (((h.cons hb.2.2.2).cons hb.2.2.1).cons hb.2.1).cons hb.1

private theorem ascii_of_fastState {b0 b1 b2 b3 : UInt8}
    (h : ¬ (fastState b0 || fastState b1 || fastState b2 || fastState b3) = true) :
    b0.toNat < 0x80 ∧ b1.toNat < 0x80 ∧ b2.toNat < 0x80 ∧ b3.toNat < 0x80 := by
  simpa [fastState, and_assoc] using h

private theorem skips_groups (text : List UInt8) : Skips text (skipGroups text) := by
  induction text using skipGroups.induct with
  | case1 b0 b1 b2 b3 b4 b5 b6 b7 rest s0123 s4567 temp htemp hfirst =>
    rw [skipGroups, if_pos htemp, if_pos hfirst]
    exact .refl _
  | case2 b0 b1 b2 b3 b4 b5 b6 b7 rest s0123 s4567 temp htemp hfirst hsecond =>
    rw [skipGroups, if_pos htemp, if_neg hfirst, if_pos hsecond]
    exact (Skips.refl _).four (ascii_of_fastState hfirst)
  | case3 b0 b1 b2 b3 b4 b5 b6 b7 rest s0123 s4567 temp htemp hfirst hsecond ih =>
    rw [skipGroups, if_pos htemp, if_neg hfirst, if_neg hsecond]
    exact (ih.four (ascii_of_fastState hsecond)).four (ascii_of_fastState hfirst)
  | case4 b0 b1 b2 b3 b4 b5 b6 b7 rest s0123 s4567 temp htemp ih =>
    rw [skipGroups, if_neg htemp]
    -- The two words are members of the disjunction as they are, since `hiadd` is zero.
    obtain ⟨hrest, hsecond⟩ := highBits_or (not_not.1 htemp)
    obtain ⟨hrest, -⟩ := highBits_or hrest
    obtain ⟨-, hfirst⟩ := highBits_or hrest
    have hsame : ∀ x : BitVec 32, x + hiadd = x := fun x => BitVec.add_zero x
    rw [hsame] at hfirst hsecond
    exact (ih.four (load32_ascii hsecond)).four (load32_ascii hfirst)
  | case5 rest h => rw [skipGroups.eq_2 _ h]; exact .refl _

private theorem skips_asciiGroups (text : List UInt8) : Skips text (skipAsciiGroups text) := by
  induction text using skipAsciiGroups.induct with
  | case1 b0 b1 b2 b3 b4 b5 b6 b7 rest hzero ih =>
    rw [skipAsciiGroups, if_pos hzero]
    obtain ⟨hfirst, hsecond⟩ := highBits_or hzero
    exact (ih.four (load32_ascii hsecond)).four (load32_ascii hfirst)
  | case2 b0 b1 b2 b3 b4 b5 b6 b7 rest hnonzero =>
    rw [skipAsciiGroups, if_neg hnonzero]
    exact .refl _
  | case3 rest h => rw [skipAsciiGroups.eq_2 _ h]; exact .refl _

/-! ### The table -/

/-- The state after some bytes, `none` behind an exit. -/
def scanFrom : ScanState → List UInt8 → Option ScanState
  | s, [] => some s
  | s, b :: bs => match s.next b.toNat with
    | none => none
    | some s' => scanFrom s' bs

private theorem scanFrom_next {s s' : ScanState} {b : UInt8} (h : s.next b.toNat = some s') (bs : List UInt8) :
    scanFrom s (b :: bs) = scanFrom s' bs := by
  rw [scanFrom, h]

private theorem tableScan_next {s s' : ScanState} {b : UInt8} (h : s.next b.toNat = some s') (bs : List UInt8) :
    tableScan s (b :: bs) = tableScan s' bs := by
  rw [tableScan, h]

private theorem scanFrom_append (s : ScanState) (p q : List UInt8) :
    scanFrom s (p ++ q) = (scanFrom s p).bind fun s' => scanFrom s' q := by
  induction p generalizing s with
  | nil => rfl
  | cons b p ih =>
    rw [List.cons_append, scanFrom, scanFrom]
    cases s.next b.toNat with
    | none => rfl
    | some s' => exact ih s'

private theorem scanFrom_surrogate (bs : List UInt8) : scanFrom .surrogate bs ≠ some (.state .start) := by
  cases bs with
  | nil => simp [scanFrom]
  | cons b bs => simp [scanFrom, ScanState.next]

/-- State 8 takes no byte, so it is not on the way to the initial state. -/
theorem scanFrom_state_iff (s : Utf8State) (bs : List UInt8) :
    scanFrom (.state s) bs = some (.state .start) ↔ utf8Scan s bs = some .start := by
  induction bs generalizing s with
  | nil => simp [scanFrom, utf8Scan]
  | cons b bs ih =>
    rw [scanFrom, utf8Scan, ScanState.next]
    by_cases hb : s = .afterED ∧ 0xA0 ≤ b.toNat ∧ b.toNat < 0xC0
    · obtain ⟨rfl, hlow, hhigh⟩ := hb
      have hnone : Utf8State.afterED.next b.toNat = none := if_neg (by omega)
      rw [if_pos ⟨rfl, hlow, hhigh⟩, hnone]
      exact iff_of_false (scanFrom_surrogate bs) (by simp)
    · rw [if_neg hb]
      cases s.next b.toNat with
      | none => simp
      | some s' => exact ih s'

theorem valid_iff (bs : List UInt8) :
    isStructurallyValidUtf8 bs = true ↔ scanFrom (.state .start) bs = some (.state .start) := by
  rw [scanFrom_state_iff, isStructurallyValidUtf8, decide_eq_true_iff]

/-- The loop over the table comes to the end of the text, or to a byte for which there is an exit. -/
theorem tableScan_cases (s : ScanState) (bs : List UInt8) :
    (∃ s', scanFrom s bs = some s' ∧ tableScan s bs = (false, s', [])) ∨
      ∃ pre b rest s', bs = pre ++ b :: rest ∧ scanFrom s pre = some s' ∧ s'.next b.toNat = none ∧
        tableScan s bs = (true, s', rest) := by
  induction bs generalizing s with
  | nil => exact Or.inl ⟨s, rfl, rfl⟩
  | cons b bs ih =>
    cases hnext : s.next b.toNat with
    | none => exact Or.inr ⟨[], b, bs, s, rfl, rfl, hnext, by rw [tableScan, hnext]⟩
    | some s' =>
      rcases ih s' with ⟨t, hscan, htable⟩ | ⟨pre, c, rest, t, rfl, hscan, hexit, htable⟩
      · exact Or.inl ⟨t, by rw [scanFrom_next hnext, hscan], by rw [tableScan_next hnext, htable]⟩
      · exact Or.inr ⟨b :: pre, c, rest, t, rfl, by rw [scanFrom_next hnext, hscan], hexit,
          by rw [tableScan_next hnext, htable]⟩

private theorem next_ascii {b : Nat} (hb : b < 0x80) : (ScanState.state .start).next b = some (.state .start) := by
  have hstart : Utf8State.start.next b = some .start := if_pos hb
  rw [ScanState.next, if_neg (by simp), hstart, Option.map_some]

/-- The loop over the table passes over ASCII as the loops before it do. -/
theorem tableScan_skips {text src : List UInt8} (h : Skips text src) :
    tableScan (.state .start) text = tableScan (.state .start) src := by
  obtain ⟨pre, rfl, hpre⟩ := h
  induction pre with
  | nil => rfl
  | cons b pre ih =>
    obtain ⟨hb, hpre⟩ := List.forall_mem_cons.1 hpre
    rw [List.cons_append, tableScan_next (next_ascii hb)]
    exact ih hpre

/-- The scan with its fast paths is that of the bare table. -/
theorem utf8GenericScan_eq (addr : Nat) (text : List UInt8) :
    utf8GenericScan addr text = scanEnd text (tableScan (.state .start) text) := by
  unfold utf8GenericScan
  split
  · rename_i hnil
    rw [hnil]
    rfl
  · have hskips : Skips text (if (addr + (text.length - (skipToAligned addr text).length)) % 8 = 0 then
        skipGroups (skipToAligned addr text) else skipToAligned addr text) := by
      split
      · exact (skips_toAligned addr text).trans (skips_groups _)
      · exact skips_toAligned addr text
    rw [tableScan_skips hskips]

/-! ### Within a character -/

def IsContinuation (b : UInt8) : Prop := 0x80 ≤ b.toNat ∧ b.toNat < 0xC0

private theorem isContinuation_iff (b : UInt8) : b &&& 0xc0 = 0x80 ↔ IsContinuation b := by
  have hall : ∀ x : BitVec 8, x &&& 0xc0#8 = 0x80#8 ↔ 0x80 ≤ x.toNat ∧ x.toNat < 0xC0 := by decide +kernel
  rw [← UInt8.toBitVec_inj]
  exact hall b.toBitVec

private theorem next_start {b : Nat} {s : ScanState} (h : (ScanState.state .start).next b = some s) :
    s = .state .start ∨ 0xC2 ≤ b := by
  rw [ScanState.next, if_neg (by simp)] at h
  obtain ⟨s', hs', rfl⟩ := Option.map_eq_some_iff.1 h
  have hfirst := Utf8State.firstByte_of_next hs'
  cases s' with
  | start => exact Or.inl rfl
  | last | afterE0 | secondOfThree | afterF0 | secondOfFour | afterF4 | afterED =>
    refine Or.inr ?_
    simp only [Utf8State.FirstByte] at hfirst
    omega

private theorem next_continuation {b : Nat} {s s' : ScanState} (hs : s ≠ .state .start) (h : s.next b = some s') :
    0x80 ≤ b ∧ b < 0xC0 := by
  cases s with
  | surrogate => cases h
  | state s =>
    rw [ScanState.next] at h
    split at h
    · omega
    · obtain ⟨t, ht, -⟩ := Option.map_eq_some_iff.1 h
      cases s with
      | start => exact absurd rfl hs
      | last | afterE0 | secondOfThree | afterF0 | secondOfFour | afterF4 | afterED =>
        simp only [Utf8State.next] at ht
        split at ht
        · omega
        · cases ht

/-- Some bytes are characters and the beginning of one more, in the middle of which the table is in the state. -/
structure Within (chars part : List UInt8) (s : ScanState) : Prop where
  chars : scanFrom (.state .start) chars = some (.state .start)
  state : scanFrom (.state .start) part = some s
  inner : ∀ p, p <+: part → p ≠ [] → scanFrom (.state .start) p ≠ some (.state .start)
  shape : part = [] ∨ ∃ lead conts, part = lead :: conts ∧ ¬ IsContinuation lead ∧ ∀ c ∈ conts, IsContinuation c

private theorem Within.start_iff {chars part : List UInt8} {s : ScanState} (h : Within chars part s) :
    s = .state .start ↔ part = [] := by
  constructor
  · rintro rfl
    by_contra hne
    exact h.inner part (List.prefix_refl part) hne h.state
  · rintro rfl
    have hs := h.state
    rw [scanFrom] at hs
    exact (Option.some.inj hs).symm

private theorem exists_within {bs : List UInt8} {s : ScanState} (h : scanFrom (.state .start) bs = some s) :
    ∃ chars part, bs = chars ++ part ∧ Within chars part s := by
  induction bs using List.reverseRecOn generalizing s with
  | nil =>
    refine ⟨[], [], rfl, rfl, h, fun p hp hne => ?_, Or.inl rfl⟩
    exact absurd (List.prefix_nil.1 hp) hne
  | append_singleton bs b ih =>
    rw [scanFrom_append] at h
    obtain ⟨s₀, hs₀, hb⟩ := Option.bind_eq_some_iff.1 h
    obtain ⟨chars, part, rfl, hw⟩ := ih hs₀
    have hnext : s₀.next b.toNat = some s := by
      rw [scanFrom] at hb
      split at hb
      · cases hb
      · rename_i s' hs'
        rw [hs']
        exact hb
    have hpart : scanFrom (.state .start) (part ++ [b]) = some s := by
      rw [scanFrom_append, hw.state]
      exact hb
    by_cases hs : s = .state .start
    · subst hs
      refine ⟨chars ++ part ++ [b], [], (List.append_nil _).symm, ?_, rfl, fun p hp hne => ?_, Or.inl rfl⟩
      · rw [List.append_assoc, scanFrom_append, hw.chars]
        exact hpart
      · exact absurd (List.prefix_nil.1 hp) hne
    · refine ⟨chars, part ++ [b], List.append_assoc .., hw.chars, hpart, fun p hp hne => ?_, ?_⟩
      · rcases List.prefix_concat_iff.1 hp with rfl | hp
        · rw [hpart]
          exact fun heq => hs (Option.some.inj heq)
        · exact hw.inner p hp hne
      · rcases hw.shape with rfl | ⟨lead, conts, rfl, hlead, hconts⟩
        · refine Or.inr ⟨b, [], rfl, ?_, by simp⟩
          obtain rfl := hw.start_iff.2 rfl
          rcases next_start hnext with hstart | hlow
          · exact absurd hstart hs
          · intro hcont
            exact absurd hcont.2 (by omega)
        · refine Or.inr ⟨lead, conts ++ [b], rfl, hlead, fun c hc => ?_⟩
          have hmiddle : s₀ ≠ .state .start := fun heq => by
            have hnil := hw.start_iff.1 heq
            cases hnil
          rcases List.mem_append.1 hc with hc | hc
          · exact hconts c hc
          · rw [List.mem_singleton.1 hc]
            exact next_continuation hmiddle hnext

/-! ### What is consumed -/

/-- From within a character `src` goes back to its first byte. -/
theorem backUp_within {chars conts rest : List UInt8} {lead : UInt8} (hlead : ¬ IsContinuation lead)
    (hconts : ∀ c ∈ conts, IsContinuation c) {j : Nat} (hj : j ≤ conts.length) :
    backUp (chars ++ lead :: conts ++ rest) (chars.length + 1 + j) = some chars.length := by
  induction j with
  | zero =>
    have hget : (chars ++ lead :: conts ++ rest)[chars.length]? = some lead := by simp
    rw [Nat.add_zero, backUp]
    split
    · rename_i hzero
      rw [hzero]
    · rw [hget]
      dsimp only
      rw [if_neg (fun h => hlead ((isContinuation_iff lead).1 h))]
  | succ j ih =>
    have hlt : j < conts.length := hj
    have hget : (chars ++ lead :: conts ++ rest)[chars.length + 1 + j]? = some conts[j] := by
      rw [List.append_assoc, List.getElem?_append_right (by omega)]
      have hindex : chars.length + 1 + j - chars.length = j + 1 := by omega
      rw [hindex, List.cons_append, List.getElem?_cons_succ, List.getElem?_append_left hj,
        List.getElem?_eq_getElem hj]
    rw [← Nat.add_assoc, backUp, if_neg (by omega), hget]
    dsimp only
    rw [if_pos ((isContinuation_iff _).2 (hconts _ (List.getElem_mem _)))]
    exact ih (Nat.le_of_lt hj)

/-- The end of the scan from where it is within a character: only the characters before it are consumed. -/
theorem Within.backUp {chars part rest : List UInt8} {s : ScanState} (h : Within chars part s)
    (hs : s ≠ .state .start) :
    Protobuf.backUp (chars ++ part ++ rest) (chars ++ part).length = some chars.length := by
  rcases h.shape with rfl | ⟨lead, conts, rfl, hlead, hconts⟩
  · exact absurd (h.start_iff.2 rfl) hs
  · have hlength : (chars ++ lead :: conts).length = chars.length + 1 + conts.length := by
      rw [List.length_append, List.length_cons]
      omega
    rw [hlength]
    exact backUp_within hlead hconts (Nat.le_refl _)

/-- The characters are the longest valid part, when the text ends behind them and the part of one more, or the table
has an exit for the next byte. -/
theorem Within.longest {chars part rest : List UInt8} {s : ScanState} (h : Within chars part s)
    (hrest : ∀ b bs, rest = b :: bs → s.next b.toNat = none) {m : Nat} (hm : m ≤ (chars ++ part ++ rest).length)
    (hvalid : isStructurallyValidUtf8 ((chars ++ part ++ rest).take m) = true) : m ≤ chars.length := by
  by_contra hlt
  obtain ⟨j, rfl⟩ : ∃ j, m = chars.length + (j + 1) := ⟨m - chars.length - 1, by omega⟩
  rw [valid_iff, List.append_assoc, List.take_length_add_append, scanFrom_append, h.chars, Option.bind_some] at hvalid
  by_cases hj : j + 1 ≤ part.length
  · rw [List.take_append_of_le_length hj] at hvalid
    refine h.inner _ (List.take_prefix _ _) (fun hnil => ?_) hvalid
    have hlength := congrArg List.length hnil
    rw [List.length_take, Nat.min_eq_left hj] at hlength
    cases hlength
  · obtain ⟨i, hi⟩ : ∃ i, j + 1 = part.length + (i + 1) := ⟨j - part.length, by omega⟩
    rw [hi, List.take_length_add_append, scanFrom_append, h.state, Option.bind_some] at hvalid
    cases rest with
    | nil =>
      rw [List.append_nil, List.length_append] at hm
      omega
    | cons b bs =>
      rw [List.take_succ_cons, scanFrom, hrest b bs rfl] at hvalid
      cases hvalid

/-- The scan consumes the longest valid part of a text. -/
theorem scanEnd_longest (text : List UInt8) :
    ∃ n, scanEnd text (tableScan (.state .start) text) = some n ∧ n ≤ text.length ∧
      isStructurallyValidUtf8 (text.take n) = true ∧
      ∀ m ≤ text.length, isStructurallyValidUtf8 (text.take m) = true → m ≤ n := by
  have hend : ∃ chars part rest s, text = chars ++ part ++ rest ∧ Within chars part s ∧
      (∀ b bs, rest = b :: bs → s.next b.toNat = none) ∧
      scanEnd text (tableScan (.state .start) text) = some chars.length := by
    rcases tableScan_cases (.state .start) text with ⟨s, hscan, htable⟩ | ⟨pre, b, rest, s, rfl, hscan, hexit, htable⟩
    · obtain ⟨chars, part, rfl, hw⟩ := exists_within hscan
      refine ⟨chars, part, [], s, (List.append_nil _).symm, hw, by simp, ?_⟩
      rw [htable, scanEnd, List.length_nil, Nat.sub_zero, if_neg Bool.false_ne_true]
      split
      · rename_i hs
        have hback : backUp (chars ++ part ++ []) (chars ++ part).length = some chars.length := hw.backUp hs
        rwa [List.append_nil] at hback
      · rename_i hs
        rw [hw.start_iff.1 (not_not.1 hs), List.append_nil]
    · obtain ⟨chars, part, rfl, hw⟩ := exists_within hscan
      refine ⟨chars, part, b :: rest, s, rfl, hw, fun c bs heq => ?_, ?_⟩
      · obtain ⟨rfl, -⟩ := List.cons.inj heq
        exact hexit
      · have hread : (chars ++ part ++ b :: rest).length - rest.length - 1 = (chars ++ part).length := by
          simp only [List.length_append, List.length_cons]
          omega
        rw [htable, scanEnd, hread, if_pos rfl]
        split
        · rename_i hs
          exact hw.backUp hs
        · rename_i hs
          rw [hw.start_iff.1 (not_not.1 hs), List.append_nil]
  obtain ⟨chars, part, rest, s, rfl, hw, hrest, hconsumed⟩ := hend
  refine ⟨chars.length, hconsumed, ?_, ?_, fun m hm hvalid => hw.longest hrest hm hvalid⟩
  · rw [List.append_assoc, List.length_append]
    omega
  · rw [List.append_assoc, List.take_left, valid_iff]
    exact hw.chars

/-- ASCII in front of a text is valid. -/
theorem valid_append_ascii {pre : List UInt8} (hpre : ∀ b ∈ pre, b.toNat < 0x80) (src : List UInt8) :
    isStructurallyValidUtf8 (pre ++ src) = isStructurallyValidUtf8 src := by
  rw [Bool.eq_iff_iff, valid_iff, valid_iff]
  induction pre with
  | nil => exact Iff.rfl
  | cons b pre ih =>
    obtain ⟨hb, hpre⟩ := List.forall_mem_cons.1 hpre
    rw [List.cons_append, scanFrom_next (next_ascii hb)]
    exact ih hpre

/-- Wherever a text lies, the scanner with its fast paths consumes the longest part of it that is valid, without
leaving it, and the test is that of the bare table. -/
theorem fastScan_exact (addr : Nat) (text : List UInt8) :
    (∃ n, utf8GenericScanFastAscii addr text = some n ∧ n ≤ text.length ∧
      isStructurallyValidUtf8 (text.take n) = true ∧
      ∀ m ≤ text.length, isStructurallyValidUtf8 (text.take m) = true → m ≤ n) ∧
    isStructurallyValidUtf8At addr text = isStructurallyValidUtf8 text := by
  have hlongest : ∃ n, utf8GenericScanFastAscii addr text = some n ∧ n ≤ text.length ∧
      isStructurallyValidUtf8 (text.take n) = true ∧
      ∀ m ≤ text.length, isStructurallyValidUtf8 (text.take m) = true → m ≤ n := by
    unfold utf8GenericScanFastAscii
    split
    · rename_i hnil
      subst hnil
      exact ⟨0, rfl, Nat.le_refl 0, rfl, fun m hm _ => hm⟩
    · have hskips : Skips text ((if (addr + (text.length - (skipToAligned addr text).length)) % 8 = 0 then
          skipAsciiGroups (skipToAligned addr text) else skipToAligned addr text).dropWhile fun b =>
            b.toNat < 0x80) := by
        refine Skips.trans ?_ (.dropWhile _)
        split
        · exact (skips_toAligned addr text).trans (skips_asciiGroups _)
        · exact skips_toAligned addr text
      dsimp only
      generalize (if (addr + (text.length - (skipToAligned addr text).length)) % 8 = 0 then
          skipAsciiGroups (skipToAligned addr text) else skipToAligned addr text).dropWhile _ = src at hskips ⊢
      obtain ⟨pre, rfl, hpre⟩ := hskips
      obtain ⟨n, hn, hle, hvalid, hmax⟩ := scanEnd_longest src
      have hlength : (pre ++ src).length - src.length = pre.length := by
        rw [List.length_append]
        omega
      rw [hlength, utf8GenericScan_eq, hn]
      refine ⟨pre.length + n, rfl, by rw [List.length_append]; omega, ?_, fun m hm hm' => ?_⟩
      · rw [List.take_length_add_append, valid_append_ascii hpre, hvalid]
      · by_contra hlt
        obtain ⟨j, rfl⟩ : ∃ j, m = pre.length + j := ⟨m - pre.length, by omega⟩
        rw [List.take_length_add_append, valid_append_ascii hpre] at hm'
        rw [List.length_append] at hm
        have hj := hmax j (by omega) hm'
        omega
  refine ⟨hlongest, ?_⟩
  obtain ⟨n, hn, hle, hvalid, hmax⟩ := hlongest
  rw [Bool.eq_iff_iff, isStructurallyValidUtf8At, decide_eq_true_iff, hn, Option.some.injEq]
  constructor
  · rintro rfl
    rwa [List.take_length] at hvalid
  · intro hall
    exact Nat.le_antisymm hle (hmax text.length (Nat.le_refl _) (by rwa [List.take_length]))

example : utf8GenericScanFastAscii 3 [0x61, 0x62, 0xE2, 0x82] = some 2 := by decide

end Protobuf
