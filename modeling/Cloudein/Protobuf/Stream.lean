import Cloudein.Lib.Varint
import Mathlib.Data.BitVec
import Mathlib.Tactic.Ring

/-!
# Reading and writing the primitive values of the protobuf runtime

What `parse_context.h` reads and `coded_stream.h` writes, on a text as the list of its bytes.  A read that needs more
bytes than there are fails here at once; the source reads on into the slop region and fails when the parse loop next
calls `Done`, or when the limit is popped.  The varint readers add `(byte - 1) << (7 * i)`, where the minus one takes
back the high bit of the byte before; they agree with `Varint.read` (`readTag_eq`, `readVarint64_eq`, `readSize_eq`),
and the size computed from the logarithm is the length of what is written (`varintSize_eq`).
-/

namespace Protobuf

/-- One round of the loops that read a varint. -/
def accumulate {w : Nat} (res : BitVec w) (i : Nat) (b : UInt8) : BitVec w :=
  res + (BitVec.ofNat w b.toNat - 1) <<< (7 * i)

/-- At most `n` rounds, from the byte `i` on. -/
def varintRounds {w : Nat} : Nat → Nat → BitVec w → List UInt8 → Option (BitVec w × List UInt8)
  | 0, _, _, _ => none
  | _ + 1, _, _, [] => none
  | n + 1, i, res, b :: p =>
    if b.toNat < 128 then some (accumulate res i b, p) else varintRounds n (i + 1) (accumulate res i b) p

/-- `ReadTag` with `ReadTagFallback`, which accept five bytes at most. -/
def readTag : List UInt8 → Option (UInt32 × List UInt8)
  | [] => none
  | b :: p =>
    if b.toNat < 128 then some (UInt32.ofNat b.toNat, p)
    else (varintRounds 4 1 (BitVec.ofNat 32 b.toNat) p).map fun r => (UInt32.ofBitVec r.1, r.2)

/-- `ReadVarint64`: `VarintParse` takes two bytes in a `uint32`, `VarintParseSlow64` the others in a `uint64`. -/
def readVarint64 : List UInt8 → Option (UInt64 × List UInt8)
  | [] => none
  | b :: p =>
    if b.toNat < 128 then some (UInt64.ofNat b.toNat, p)
    else match p with
      | [] => none
      | c :: p =>
        let res := accumulate (BitVec.ofNat 32 b.toNat) 1 c
        if c.toNat < 128 then some (UInt64.ofBitVec (res.setWidth 64), p)
        else (varintRounds 8 2 (res.setWidth 64) p).map fun r => (UInt64.ofBitVec r.1, r.2)

/-- `INT_MAX - kSlopBytes`. -/
def maxSize : Nat := 2147483647 - 16

/-- `ReadSize` with `ReadSizeFallback`, which takes four bytes in a loop and rejects a fifth byte from 8 on and a size
above `INT_MAX - kSlopBytes`. -/
def readSize : List UInt8 → Option (Nat × List UInt8)
  | [] => none
  | b :: p =>
    if b.toNat < 128 then some (b.toNat, p)
    else sizeRounds 3 1 (BitVec.ofNat 32 b.toNat) p
where
  sizeRounds : Nat → Nat → BitVec 32 → List UInt8 → Option (Nat × List UInt8)
    | _, _, _, [] => none
    | 0, i, res, b :: p =>
      if 8 ≤ b.toNat then none
      else if maxSize < (accumulate res i b).toNat then none
      else some ((accumulate res i b).toNat, p)
    | n + 1, i, res, b :: p =>
      if b.toNat < 128 then some ((accumulate res i b).toNat, p)
      else sizeRounds n (i + 1) (accumulate res i b) p

/-- `ReadString`. -/
def readString (size : Nat) (p : List UInt8) : Option (List UInt8 × List UInt8) :=
  if size ≤ p.length then some (p.take size, p.drop size) else none

/-- A size and as many bytes: what `InlineGreedyStringParser` and `ParseMessage` cut off the text. -/
def readDelimited (p : List UInt8) : Option (List UInt8 × List UInt8) :=
  match readSize p with
  | none => none
  | some (size, p) => readString size p

/-- `UnalignedLoad<uint32>`, on a little-endian machine as on any other. -/
def readFixed32 (p : List UInt8) : Option (UInt32 × List UInt8) :=
  (Varint.readFixed 4 p).map fun r => (UInt32.ofNat r.1, r.2)

/-- `UnalignedLoad<uint64>`. -/
def readFixed64 (p : List UInt8) : Option (UInt64 × List UInt8) :=
  (Varint.readFixed 8 p).map fun r => (UInt64.ofNat r.1, r.2)

/-- `WriteTagToArray`.  The loop of `UnsafeVarint` is that of `Varint.write`. -/
def writeTag (number wireType : Nat) : List UInt8 := Varint.write (8 * number + wireType)

def writeVarint64 (value : UInt64) : List UInt8 := Varint.write value.toNat

/-- The size and the bytes, as `WriteString` writes them behind the tag. -/
def writeString (s : List UInt8) : List UInt8 := Varint.write s.length ++ s

def writeFixed32 (value : UInt32) : List UInt8 := Varint.writeFixed 4 value.toNat

def writeFixed64 (value : UInt64) : List UInt8 := Varint.writeFixed 8 value.toNat

/-- `CodedOutputStream::VarintSize32` and `VarintSize64`. -/
def varintSize (value : Nat) : Nat := (Nat.log2 (value ||| 1) * 9 + 73) / 64

/-! ### The readers against `Varint.read` -/

private theorem accumulate_ofNat (w x i : Nat) (b : UInt8) :
    accumulate (BitVec.ofNat w (x + 128 ^ i)) i b = BitVec.ofNat w (x + b.toNat * 128 ^ i) := by
  have hpow : BitVec.twoPow w (7 * i) = BitVec.ofNat w (128 ^ i) := by
    apply BitVec.eq_of_toNat_eq
    rw [BitVec.toNat_twoPow, BitVec.toNat_ofNat, Nat.pow_mul]
  rw [accumulate, BitVec.shiftLeft_eq_mul_twoPow, hpow, BitVec.ofNat_add, BitVec.ofNat_add, BitVec.ofNat_mul]
  ring

private theorem uint32_ofBitVec (n : Nat) : UInt32.ofBitVec (BitVec.ofNat 32 n) = UInt32.ofNat n := rfl

private theorem uint64_ofBitVec (n : Nat) : UInt64.ofBitVec (BitVec.ofNat 64 n) = UInt64.ofNat n := rfl

/-- Before the round `i` the high bit of the byte before stands for `128 ^ i`, beside the value `x` of all the bytes.
-/
theorem varintRounds_eq (w n i x : Nat) (p : List UInt8) :
    varintRounds n i (BitVec.ofNat w (x + 128 ^ i)) p =
      (Varint.read n p).map fun r => (BitVec.ofNat w (x + r.1 * 128 ^ i), r.2) := by
  induction n generalizing i x p with
  | zero => rfl
  | succ n ih =>
    cases p with
    | nil => rfl
    | cons b p =>
      rw [varintRounds, accumulate_ofNat]
      by_cases hb : b.toNat < 128
      · rw [if_pos hb, Varint.read_last hb, Option.map_some]
      · have hnext : x + b.toNat * 128 ^ i = x + (b.toNat - 128) * 128 ^ i + 128 ^ (i + 1) := by
          have hsplit : b.toNat = b.toNat - 128 + 128 := by omega
          rw [Nat.pow_succ]
          conv_lhs => rw [hsplit]
          ring
        rw [if_neg hb, hnext, ih, Varint.read_more (by omega), Option.map_map]
        refine Option.map_congr fun r _ => ?_
        have hval : x + (b.toNat - 128) * 128 ^ i + r.1 * 128 ^ (i + 1) =
            x + (b.toNat - 128 + 128 * r.1) * 128 ^ i := by
          ring
        simp only [Function.comp_apply, hval]

private theorem readTag_eq (p : List UInt8) :
    readTag p = (Varint.read 5 p).map fun r => (UInt32.ofNat r.1, r.2) := by
  cases p with
  | nil => rfl
  | cons b p =>
    by_cases hb : b.toNat < 128
    · rw [readTag, if_pos hb, Varint.read_last hb, Option.map_some]
    · have hfirst : b.toNat = b.toNat - 128 + 128 ^ 1 := by omega
      have hrounds := varintRounds_eq 32 4 1 (b.toNat - 128) p
      rw [← hfirst] at hrounds
      rw [readTag, if_neg hb, hrounds, Varint.read_more (by omega), Option.map_map, Option.map_map]
      refine Option.map_congr fun r _ => ?_
      have hval : b.toNat - 128 + r.1 * 128 ^ 1 = b.toNat - 128 + 128 * r.1 := by omega
      simp only [Function.comp_apply, hval, uint32_ofBitVec]

private theorem readVarint64_eq (p : List UInt8) :
    readVarint64 p = (Varint.read 10 p).map fun r => (UInt64.ofNat r.1, r.2) := by
  cases p with
  | nil => rfl
  | cons b p =>
    by_cases hb : b.toNat < 128
    · rw [readVarint64.eq_def]
      simp only
      rw [if_pos hb, Varint.read_last hb, Option.map_some]
    · have hfirst : b.toNat = b.toNat - 128 + 128 ^ 1 := by omega
      rw [readVarint64.eq_def, Varint.read_more (by omega), Option.map_map]
      simp only
      rw [if_neg hb]
      cases p with
      | nil => rfl
      | cons c p =>
        have hb' : b.toNat < 256 := b.toNat_lt
        have hc' : c.toNat < 256 := c.toNat_lt
        have hacc : accumulate (BitVec.ofNat 32 b.toNat) 1 c =
            BitVec.ofNat 32 (b.toNat - 128 + c.toNat * 128 ^ 1) := by
          conv_lhs => rw [hfirst]
          exact accumulate_ofNat 32 (b.toNat - 128) 1 c
        -- Two bytes fit the 32 bits, so nothing is lost before the sum is widened.
        have hwide : (BitVec.ofNat 32 (b.toNat - 128 + c.toNat * 128 ^ 1)).setWidth 64 =
            BitVec.ofNat 64 (b.toNat - 128 + c.toNat * 128 ^ 1) := by
          apply BitVec.eq_of_toNat_eq
          rw [BitVec.toNat_setWidth, BitVec.toNat_ofNat, BitVec.toNat_ofNat]
          omega
        simp only [hacc, hwide]
        by_cases hc : c.toNat < 128
        · have hval : b.toNat - 128 + c.toNat * 128 ^ 1 = b.toNat - 128 + 128 * c.toNat := by omega
          rw [if_pos hc, Varint.read_last hc, Option.map_some, hval, uint64_ofBitVec, Function.comp_apply]
        · have hnext : b.toNat - 128 + c.toNat * 128 ^ 1 = b.toNat - 128 + (c.toNat - 128) * 128 + 128 ^ 2 := by omega
          have hrounds := varintRounds_eq 64 8 2 (b.toNat - 128 + (c.toNat - 128) * 128) p
          rw [if_neg hc, hnext, hrounds, Varint.read_more (by omega), Option.map_map, Option.map_map]
          refine Option.map_congr fun r _ => ?_
          have hval : b.toNat - 128 + (c.toNat - 128) * 128 + r.1 * 128 ^ 2 =
              b.toNat - 128 + 128 * (c.toNat - 128 + 128 * r.1) := by
            ring
          simp only [Function.comp_apply, hval, uint64_ofBitVec]

private theorem sizeRounds_eq (n i x : Nat) (hi : n + i = 4) (hx : x < 128 ^ i) (p : List UInt8) :
    readSize.sizeRounds n i (BitVec.ofNat 32 (x + 128 ^ i)) p =
      ((Varint.read (n + 1) p).map fun r => (x + r.1 * 128 ^ i, r.2)).filter fun r => r.1 ≤ maxSize := by
  induction n generalizing i x p with
  | zero =>
    obtain rfl : i = 4 := by omega
    cases p with
    | nil => rfl
    | cons b p =>
      have hmax : maxSize = 2147483631 := rfl
      rw [readSize.sizeRounds, accumulate_ofNat]
      by_cases h8 : 8 ≤ b.toNat
      · rw [if_pos h8]
        by_cases hb : b.toNat < 128
        · have hlarge : ¬ x + b.toNat * 128 ^ 4 ≤ maxSize := by omega
          rw [Varint.read_last hb, Option.map_some, Option.filter_some, if_neg (by simpa using hlarge)]
        · rw [Varint.read_more (by omega)]
          rfl
      · have hval : (BitVec.ofNat 32 (x + b.toNat * 128 ^ 4)).toNat = x + b.toNat * 128 ^ 4 := by
          rw [BitVec.toNat_ofNat]
          omega
        rw [if_neg h8, hval, Varint.read_last (by omega), Option.map_some, Option.filter_some]
        by_cases hsize : x + b.toNat * 128 ^ 4 ≤ maxSize
        · rw [if_neg (by omega), if_pos (by simpa using hsize)]
        · rw [if_pos (by omega), if_neg (by simpa using hsize)]
  | succ n ih =>
    cases p with
    | nil => rfl
    | cons b p =>
      have hpow : 128 ^ (i + 1) ≤ 128 ^ 4 := Nat.pow_le_pow_right (by omega) (by omega)
      have hbyte : b.toNat < 256 := b.toNat_lt
      rw [readSize.sizeRounds, accumulate_ofNat]
      by_cases hb : b.toNat < 128
      · have hlt : x + b.toNat * 128 ^ i < 128 ^ (i + 1) := by
          have hle : b.toNat * 128 ^ i ≤ 127 * 128 ^ i := Nat.mul_le_mul_right _ (by omega)
          rw [Nat.pow_succ]
          omega
        have hval : (BitVec.ofNat 32 (x + b.toNat * 128 ^ i)).toNat = x + b.toNat * 128 ^ i := by
          rw [BitVec.toNat_ofNat]
          omega
        have hsize : x + b.toNat * 128 ^ i ≤ maxSize := by
          have hmax : maxSize = 2147483631 := rfl
          omega
        rw [if_pos hb, hval, Varint.read_last hb, Option.map_some, Option.filter_some, if_pos (by simpa using hsize)]
      · have hsplit : b.toNat = b.toNat - 128 + 128 := by omega
        have hnext : x + b.toNat * 128 ^ i = x + (b.toNat - 128) * 128 ^ i + 128 ^ (i + 1) := by
          rw [Nat.pow_succ]
          conv_lhs => rw [hsplit]
          ring
        have hlt : x + (b.toNat - 128) * 128 ^ i < 128 ^ (i + 1) := by
          have hle : (b.toNat - 128) * 128 ^ i ≤ 127 * 128 ^ i := Nat.mul_le_mul_right _ (by omega)
          rw [Nat.pow_succ]
          omega
        rw [if_neg hb, hnext, ih (i + 1) _ (by omega) hlt, Varint.read_more (by omega), Option.map_map]
        congr 2
        funext r
        have hval : x + (b.toNat - 128) * 128 ^ i + r.1 * 128 ^ (i + 1) =
            x + (b.toNat - 128 + 128 * r.1) * 128 ^ i := by
          ring
        simp only [Function.comp_apply, hval]

/-- `ReadSize` rejects the sizes above `INT_MAX - kSlopBytes` and no others. -/
theorem readSize_eq (p : List UInt8) : readSize p = (Varint.read 5 p).filter fun r => r.1 ≤ maxSize := by
  cases p with
  | nil => rfl
  | cons b p =>
    have hmax : maxSize = 2147483631 := rfl
    by_cases hb : b.toNat < 128
    · have hsize : b.toNat ≤ maxSize := by omega
      rw [readSize, if_pos hb, Varint.read_last hb, Option.filter_some, if_pos (by simpa using hsize)]
    · have hbyte : b.toNat < 256 := b.toNat_lt
      have hfirst : b.toNat = b.toNat - 128 + 128 ^ 1 := by omega
      have hrounds := sizeRounds_eq 3 1 (b.toNat - 128) rfl (by omega) p
      rw [← hfirst] at hrounds
      rw [readSize, if_neg hb, hrounds, Varint.read_more (by omega)]
      congr 2
      funext r
      have hval : b.toNat - 128 + r.1 * 128 ^ 1 = b.toNat - 128 + 128 * r.1 := by omega
      simp only [hval]

/-! ### What is read back, and what a reader leaves -/

theorem readTag_write {n : Nat} (h : n < 2 ^ 32) (p : List UInt8) :
    readTag (Varint.write n ++ p) = some (UInt32.ofNat n, p) := by
  rw [readTag_eq, Varint.read_write (by omega), Option.map_some]

theorem readVarint64_write (v : UInt64) (p : List UInt8) : readVarint64 (writeVarint64 v ++ p) = some (v, p) := by
  have hlt : v.toNat < 2 ^ 64 := v.toNat_lt
  rw [readVarint64_eq, writeVarint64, Varint.read_write (by omega), Option.map_some, UInt64.ofNat_toNat]

theorem readSize_write {n : Nat} (h : n ≤ maxSize) (p : List UInt8) :
    readSize (Varint.write n ++ p) = some (n, p) := by
  have hmax : maxSize = 2147483631 := rfl
  rw [readSize_eq, Varint.read_write (by omega), Option.filter_some, if_pos (by simpa using h)]

theorem readString_length (s p : List UInt8) : readString s.length (s ++ p) = some (s, p) := by
  have hle : s.length ≤ (s ++ p).length := by simp
  rw [readString, if_pos hle, List.take_left, List.drop_left]

theorem readFixed32_write (v : UInt32) (p : List UInt8) : readFixed32 (writeFixed32 v ++ p) = some (v, p) := by
  have hlt : v.toNat < 2 ^ 32 := v.toNat_lt
  rw [readFixed32, writeFixed32, Varint.readFixed_writeFixed (by omega), Option.map_some, UInt32.ofNat_toNat]

theorem readFixed64_write (v : UInt64) (p : List UInt8) : readFixed64 (writeFixed64 v ++ p) = some (v, p) := by
  have hlt : v.toNat < 2 ^ 64 := v.toNat_lt
  rw [readFixed64, writeFixed64, Varint.readFixed_writeFixed (by omega), Option.map_some, UInt64.ofNat_toNat]

private theorem of_readTag {p q : List UInt8} {tag : UInt32} (h : readTag p = some (tag, q)) :
    ∃ v, Varint.read 5 p = some (v, q) ∧ tag = UInt32.ofNat v := by
  rw [readTag_eq, Option.map_eq_some_iff] at h
  obtain ⟨⟨v, q'⟩, hr, hv⟩ := h
  simp only [Prod.mk.injEq] at hv
  obtain ⟨rfl, rfl⟩ := hv
  exact ⟨v, hr, rfl⟩

private theorem of_readVarint64 {p q : List UInt8} {value : UInt64} (h : readVarint64 p = some (value, q)) :
    ∃ v, Varint.read 10 p = some (v, q) ∧ value = UInt64.ofNat v := by
  rw [readVarint64_eq, Option.map_eq_some_iff] at h
  obtain ⟨⟨v, q'⟩, hr, hv⟩ := h
  simp only [Prod.mk.injEq] at hv
  obtain ⟨rfl, rfl⟩ := hv
  exact ⟨v, hr, rfl⟩

theorem of_readSize {p q : List UInt8} {size : Nat} (h : readSize p = some (size, q)) :
    Varint.read 5 p = some (size, q) ∧ size ≤ maxSize := by
  rw [readSize_eq, Option.filter_eq_some_iff] at h
  exact ⟨h.1, by simpa using h.2⟩

theorem of_readString {size : Nat} {p s q : List UInt8} (h : readString size p = some (s, q)) :
    p = s ++ q ∧ s.length = size := by
  unfold readString at h
  split at h
  · rename_i hle
    simp only [Option.some.injEq, Prod.mk.injEq] at h
    obtain ⟨rfl, rfl⟩ := h
    exact ⟨(List.take_append_drop size p).symm, List.length_take_of_le hle⟩
  · cases h

theorem of_readFixed32 {p q : List UInt8} {value : UInt32} (h : readFixed32 p = some (value, q)) :
    ∃ bs, p = bs ++ q ∧ bs.length = 4 := by
  rw [readFixed32, Option.map_eq_some_iff] at h
  obtain ⟨⟨v, q'⟩, hr, hv⟩ := h
  simp only [Prod.mk.injEq] at hv
  obtain ⟨-, rfl⟩ := hv
  obtain ⟨bs, hp, hlen, -⟩ := Varint.of_readFixed hr
  exact ⟨bs, hp, hlen⟩

theorem of_readFixed64 {p q : List UInt8} {value : UInt64} (h : readFixed64 p = some (value, q)) :
    ∃ bs, p = bs ++ q ∧ bs.length = 8 := by
  rw [readFixed64, Option.map_eq_some_iff] at h
  obtain ⟨⟨v, q'⟩, hr, hv⟩ := h
  simp only [Prod.mk.injEq] at hv
  obtain ⟨-, rfl⟩ := hv
  obtain ⟨bs, hp, hlen, -⟩ := Varint.of_readFixed hr
  exact ⟨bs, hp, hlen⟩

/-! ### What is behind does not matter -/

theorem readTag_append {p q : List UInt8} {tag : UInt32} (h : readTag p = some (tag, q)) (r : List UInt8) :
    readTag (p ++ r) = some (tag, q ++ r) := by
  obtain ⟨v, hr, rfl⟩ := of_readTag h
  rw [readTag_eq, Varint.read_append hr, Option.map_some]

theorem readVarint64_append {p q : List UInt8} {value : UInt64} (h : readVarint64 p = some (value, q))
    (r : List UInt8) : readVarint64 (p ++ r) = some (value, q ++ r) := by
  obtain ⟨v, hr, rfl⟩ := of_readVarint64 h
  rw [readVarint64_eq, Varint.read_append hr, Option.map_some]

theorem readSize_append {p q : List UInt8} {size : Nat} (h : readSize p = some (size, q)) (r : List UInt8) :
    readSize (p ++ r) = some (size, q ++ r) := by
  obtain ⟨hr, hsize⟩ := of_readSize h
  rw [readSize_eq, Varint.read_append hr, Option.filter_some, if_pos (by simpa using hsize)]

theorem readString_append {size : Nat} {p s q : List UInt8} (h : readString size p = some (s, q)) (r : List UInt8) :
    readString size (p ++ r) = some (s, q ++ r) := by
  obtain ⟨rfl, rfl⟩ := of_readString h
  rw [List.append_assoc]
  exact readString_length s (q ++ r)

theorem readFixed32_append {p q : List UInt8} {value : UInt32} (h : readFixed32 p = some (value, q))
    (r : List UInt8) :
    readFixed32 (p ++ r) = some (value, q ++ r) := by
  rw [readFixed32, Option.map_eq_some_iff] at h
  obtain ⟨⟨v, q'⟩, hr, hv⟩ := h
  simp only [Prod.mk.injEq] at hv
  obtain ⟨rfl, rfl⟩ := hv
  rw [readFixed32, Varint.readFixed_append hr, Option.map_some]

theorem readFixed64_append {p q : List UInt8} {value : UInt64} (h : readFixed64 p = some (value, q))
    (r : List UInt8) :
    readFixed64 (p ++ r) = some (value, q ++ r) := by
  rw [readFixed64, Option.map_eq_some_iff] at h
  obtain ⟨⟨v, q'⟩, hr, hv⟩ := h
  simp only [Prod.mk.injEq] at hv
  obtain ⟨rfl, rfl⟩ := hv
  rw [readFixed64, Varint.readFixed_append hr, Option.map_some]

theorem length_of_readTag {p q : List UInt8} {tag : UInt32} (h : readTag p = some (tag, q)) :
    q.length < p.length := by
  obtain ⟨v, hr, -⟩ := of_readTag h
  exact Varint.length_of_read hr

theorem length_of_readVarint64 {p q : List UInt8} {value : UInt64} (h : readVarint64 p = some (value, q)) :
    q.length < p.length := by
  obtain ⟨v, hr, -⟩ := of_readVarint64 h
  exact Varint.length_of_read hr

theorem length_of_readSize {p q : List UInt8} {size : Nat} (h : readSize p = some (size, q)) : q.length < p.length :=
  Varint.length_of_read (of_readSize h).1

theorem length_of_readString {size : Nat} {p s q : List UInt8} (h : readString size p = some (s, q)) :
    q.length + size = p.length := by
  obtain ⟨rfl, rfl⟩ := of_readString h
  rw [List.length_append]
  omega

theorem readDelimited_append {p s q : List UInt8} (h : readDelimited p = some (s, q)) (r : List UInt8) :
    readDelimited (p ++ r) = some (s, q ++ r) := by
  unfold readDelimited at h ⊢
  split at h
  · cases h
  · rename_i size p' hsize
    rw [readSize_append hsize]
    exact readString_append h r

theorem readDelimited_length {p s q : List UInt8} (h : readDelimited p = some (s, q)) :
    s.length + q.length < p.length ∧ s.length ≤ maxSize := by
  unfold readDelimited at h
  split at h
  · cases h
  · rename_i size p' hsize
    have hlt := length_of_readSize hsize
    have hle := (of_readSize hsize).2
    obtain ⟨rfl, rfl⟩ := of_readString h
    rw [List.length_append] at hlt
    exact ⟨hlt, hle⟩

theorem readDelimited_write {n : Nat} {s : List UInt8} (hn : n = s.length) (h : n ≤ maxSize) (p : List UInt8) :
    readDelimited (Varint.write n ++ (s ++ p)) = some (s, p) := by
  subst hn
  rw [readDelimited, readSize_write h]
  exact readString_length s p

/-! ### Sizes -/

private theorem log_or_one {v : Nat} (h : v ≠ 0) : Nat.log 2 (v ||| 1) = Nat.log 2 v := by
  have hor : (v ||| 1) / 2 = v / 2 := by
    have hshift := Nat.shiftRight_or_distrib (a := v) (b := 1) (i := 1)
    simpa [Nat.shiftRight_eq_div_pow] using hshift
  by_cases h1 : v = 1
  · subst h1
    rfl
  · have hle : v ≤ v ||| 1 := Nat.left_le_or
    rw [Nat.log_of_one_lt_of_le (by omega) (show 2 ≤ v ||| 1 by omega), hor,
      Nat.log_of_one_lt_of_le (by omega) (show 2 ≤ v by omega)]

/-- The size the runtime computes for a value of 32 or 64 bits is the number of bytes it writes. -/
theorem varintSize_eq {v : Nat} (h : v < 2 ^ 64) : varintSize v = (Varint.write v).length := by
  rw [Varint.length_write, varintSize, Nat.log2_eq_log_two]
  by_cases h0 : v = 0
  · subst h0
    rfl
  · have hlog : Nat.log 2 v < 64 := Nat.log_lt_of_lt_pow h0 h
    rw [if_neg h0, log_or_one h0]
    omega

end Protobuf
