import Cloudein.Protobuf.Stream

/-!
# The fields a message does not know

`UnknownFieldSet` keeps what the parser of a message meets and the message does not declare: numbers, strings of bytes
and groups, which hold fields of their own.  `wireFormatParser` is the parse loop of a group, with the recursion
budget `depth_` of the parse context; what `serializeUnknown` writes it reads back when no group is nested deeper than
the budget and no string is longer than a size may be (`parseFields_serialize`), and what it reads is like this
(`wireFormatParser_fits`).
-/

namespace Protobuf

structure FieldNumber where
  val : Nat
  pos : 0 < val
  lt : val < 2 ^ 29
deriving DecidableEq

/-- Literals.  The compiler takes none but those that are field numbers. -/
instance (n : Nat) : OfNat FieldNumber n where
  ofNat := if h : 0 < n ∧ n < 2 ^ 29 then ⟨n, h.1, h.2⟩ else ⟨1, by decide, by decide⟩

inductive UnknownField where
  | varint (number : FieldNumber) (value : UInt64)
  | fixed32 (number : FieldNumber) (value : UInt32)
  | fixed64 (number : FieldNumber) (value : UInt64)
  | lengthDelimited (number : FieldNumber) (value : List UInt8)
  | group (number : FieldNumber) (fields : List UnknownField)

/-! ### Writing -/

mutual

/-- One round of the loop of `InternalSerializeUnknownFieldsToArray`. -/
def UnknownField.serialize : UnknownField → List UInt8
  | .varint number value => writeTag number.val 0 ++ writeVarint64 value
  | .fixed32 number value => writeTag number.val 5 ++ writeFixed32 value
  | .fixed64 number value => writeTag number.val 1 ++ writeFixed64 value
  | .lengthDelimited number value => writeTag number.val 2 ++ writeString value
  | .group number fields => writeTag number.val 3 ++ serializeUnknown fields ++ writeTag number.val 4

/-- `InternalSerializeUnknownFieldsToArray`. -/
def serializeUnknown : List UnknownField → List UInt8
  | [] => []
  | f :: fs => f.serialize ++ serializeUnknown fs

end

mutual

def UnknownField.byteSize : UnknownField → Nat
  | .varint number value => varintSize (8 * number.val) + varintSize value.toNat
  | .fixed32 number _ => varintSize (8 * number.val + 5) + 4
  | .fixed64 number _ => varintSize (8 * number.val + 1) + 8
  | .lengthDelimited number value => varintSize (8 * number.val + 2) + varintSize value.length + value.length
  | .group number fields =>
    varintSize (8 * number.val + 3) + computeUnknownFieldsSize fields + varintSize (8 * number.val + 4)

/-- `ComputeUnknownFieldsSize`. -/
def computeUnknownFieldsSize : List UnknownField → Nat
  | [] => 0
  | f :: fs => f.byteSize + computeUnknownFieldsSize fs

end

/-! ### Reading -/

/-- How a parse loop ended: at its limit, or at a tag after which it does not go on. -/
inductive Ending where
  | limit
  | tag (t : UInt32)

/-- `(tag & 7) == 4 || tag == 0`. -/
def endsLoop (tag : UInt32) : Bool := tag.toNat % 8 = 4 || tag.toNat = 0

/-- The `switch` of `FieldParser` for the unknown fields, where `group` parses the fields of a group up to its end.  A
group must be ended by its own tag (`ConsumeEndGroup`). -/
def parseValue (group : List UInt8 → Option (List UnknownField × Ending × List UInt8)) (number : FieldNumber)
    (wireType : Nat) (p : List UInt8) : Option (UnknownField × List UInt8) :=
  match wireType with
  | 0 => (readVarint64 p).map fun r => (.varint number r.1, r.2)
  | 1 => (readFixed64 p).map fun r => (.fixed64 number r.1, r.2)
  | 2 => match readSize p with
    | none => none
    | some (size, p) => (readString size p).map fun r => (.lengthDelimited number r.1, r.2)
  | 3 => match group p with
    | some (fields, .tag t, p) =>
      if t - 1 = UInt32.ofNat (8 * number.val + 3) then some (.group number fields, p) else none
    | _ => none
  | 5 => (readFixed32 p).map fun r => (.fixed32 number r.1, r.2)
  | _ => none

/-- `FieldParser`, which rejects the number 0. -/
def fieldParser (group : List UInt8 → Option (List UnknownField × Ending × List UInt8)) (tag : UInt32)
    (p : List UInt8) : Option (UnknownField × List UInt8) :=
  if h : 0 < tag.toNat / 8 then
    have hlt : tag.toNat < 2 ^ 32 := tag.toNat_lt
    parseValue group ⟨tag.toNat / 8, h, by omega⟩ (tag.toNat % 8) p
  else none

/-- The loop of `WireFormatParser`, with the fields read so far; a round and a group both take one off the `fuel`. -/
def wireFormatParser : Nat → Nat → List UnknownField → List UInt8 → Option (List UnknownField × Ending × List UInt8)
  | 0, _, _, _ => none
  | fuel + 1, depth, fields, p =>
    if p = [] then some (fields, .limit, [])
    else match readTag p with
      | none => none
      | some (tag, q) =>
        if endsLoop tag then some (fields, .tag tag, q)
        else
          -- `ParseGroup` takes one off the budget and fails when there is none left.
          match fieldParser (fun q => match depth with
            | 0 => none
            | depth + 1 => wireFormatParser fuel depth [] q) tag q with
          | none => none
          | some (f, r) => wireFormatParser fuel depth (fields ++ [f]) r

/-- `ParseGroup` up to the end of the group. -/
def parseGroup (fuel : Nat) : Nat → List UInt8 → Option (List UnknownField × Ending × List UInt8)
  | 0, _ => none
  | depth + 1, p => wireFormatParser fuel depth [] p

/-- The loop with enough fuel for the text. -/
def parseFields (depth : Nat) (fields : List UnknownField) (p : List UInt8) :
    Option (List UnknownField × Ending × List UInt8) :=
  wireFormatParser (p.length + 1) depth fields p

/-! ### The loop without the fuel -/

private theorem fieldParser_congr {group group' : List UInt8 → Option (List UnknownField × Ending × List UInt8)}
    {p : List UInt8} (h : group p = group' p) (tag : UInt32) :
    fieldParser group tag p = fieldParser group' tag p := by
  simp only [fieldParser, parseValue, h]

/-- What `parseValue` reads, and what it leaves. -/
inductive ParsedValue (group : List UInt8 → Option (List UnknownField × Ending × List UInt8)) (number : FieldNumber)
    (p : List UInt8) : Nat → UnknownField → List UInt8 → Prop
  | varint {value : UInt64} {q : List UInt8} (h : readVarint64 p = some (value, q)) :
    ParsedValue group number p 0 (.varint number value) q
  | fixed64 {value : UInt64} {q : List UInt8} (h : readFixed64 p = some (value, q)) :
    ParsedValue group number p 1 (.fixed64 number value) q
  | lengthDelimited {size : Nat} {value p' q : List UInt8} (hsize : readSize p = some (size, p'))
      (h : readString size p' = some (value, q)) : ParsedValue group number p 2 (.lengthDelimited number value) q
  | group {fields : List UnknownField} {t : UInt32} {q : List UInt8} (h : group p = some (fields, .tag t, q))
      (ht : t - 1 = UInt32.ofNat (8 * number.val + 3)) : ParsedValue group number p 3 (.group number fields) q
  | fixed32 {value : UInt32} {q : List UInt8} (h : readFixed32 p = some (value, q)) :
    ParsedValue group number p 5 (.fixed32 number value) q

private theorem parseValue_cases {group : List UInt8 → Option (List UnknownField × Ending × List UInt8)}
    {number : FieldNumber} {wireType : Nat} {p q : List UInt8} {f : UnknownField}
    (h : parseValue group number wireType p = some (f, q)) :
    ParsedValue group number p wireType f q := by
  unfold parseValue at h
  split at h
  · obtain ⟨⟨value, q'⟩, hr, hv⟩ := Option.map_eq_some_iff.1 h
    cases hv
    exact .varint hr
  · obtain ⟨⟨value, q'⟩, hr, hv⟩ := Option.map_eq_some_iff.1 h
    cases hv
    exact .fixed64 hr
  · split at h
    · cases h
    · rename_i size p' hsize
      obtain ⟨⟨value, q'⟩, hr, hv⟩ := Option.map_eq_some_iff.1 h
      cases hv
      exact .lengthDelimited hsize hr
  · split at h
    · rename_i fields t p' hgroup
      split at h
      · rename_i ht
        cases h
        exact .group hgroup ht
      · cases h
    · cases h
  · obtain ⟨⟨value, q'⟩, hr, hv⟩ := Option.map_eq_some_iff.1 h
    cases hv
    exact .fixed32 hr
  · cases h

private theorem fieldParser_cases {group : List UInt8 → Option (List UnknownField × Ending × List UInt8)}
    {tag : UInt32} {p q : List UInt8} {f : UnknownField} (h : fieldParser group tag p = some (f, q)) :
    ∃ number : FieldNumber, number.val = tag.toNat / 8 ∧ ParsedValue group number p (tag.toNat % 8) f q := by
  unfold fieldParser at h
  split at h
  · exact ⟨_, rfl, parseValue_cases h⟩
  · cases h

/-- A value leaves no more than there was, when a group leaves no more. -/
theorem ParsedValue.length_le {group : List UInt8 → Option (List UnknownField × Ending × List UInt8)}
    {number : FieldNumber} {wireType : Nat} {p q : List UInt8} {f : UnknownField}
    (hgroup : ∀ fields e r, group p = some (fields, e, r) → r.length ≤ p.length)
    (h : ParsedValue group number p wireType f q) : q.length ≤ p.length := by
  cases h with
  | varint h => exact Nat.le_of_lt (length_of_readVarint64 h)
  | fixed64 h =>
    obtain ⟨bs, rfl, -⟩ := of_readFixed64 h
    simp
  | lengthDelimited hsize h =>
    have hlt := length_of_readSize hsize
    have hle := length_of_readString h
    omega
  | group h ht => exact hgroup _ _ _ h
  | fixed32 h =>
    obtain ⟨bs, rfl, -⟩ := of_readFixed32 h
    simp

private theorem wireFormatParser_succ (fuel depth : Nat) (fields : List UnknownField) (p : List UInt8) :
    wireFormatParser (fuel + 1) depth fields p =
      if p = [] then some (fields, .limit, [])
      else match readTag p with
        | none => none
        | some (tag, q) =>
          if endsLoop tag then some (fields, .tag tag, q)
          else match fieldParser (parseGroup fuel depth) tag q with
            | none => none
            | some (f, r) => wireFormatParser fuel depth (fields ++ [f]) r := by
  cases depth <;> rfl

private theorem wireFormatParser_length {fuel depth : Nat} {fields fields' : List UnknownField} {p q : List UInt8}
    {e : Ending} (h : wireFormatParser fuel depth fields p = some (fields', e, q)) : q.length ≤ p.length := by
  induction fuel generalizing depth fields fields' p q e with
  | zero => cases h
  | succ fuel ih =>
    rw [wireFormatParser_succ] at h
    split at h
    · cases h
      exact Nat.zero_le _
    · split at h
      · cases h
      · rename_i tag q' htag
        have hlt := length_of_readTag htag
        split at h
        · cases h
          exact Nat.le_of_lt hlt
        · split at h
          · cases h
          · rename_i f r hfield
            obtain ⟨number, -, hvalue⟩ := fieldParser_cases hfield
            have hr : r.length ≤ q'.length := by
              refine hvalue.length_le fun fields e r hgroup => ?_
              cases depth with
              | zero => cases hgroup
              | succ depth => exact ih hgroup
            have hq := ih h
            omega

private theorem parseGroup_length {fuel depth : Nat} {fields : List UnknownField} {p q : List UInt8} {e : Ending}
    (h : parseGroup fuel depth p = some (fields, e, q)) : q.length ≤ p.length := by
  cases depth with
  | zero => cases h
  | succ depth => exact wireFormatParser_length h

theorem fieldParser_length {fuel depth : Nat} {tag : UInt32} {p q : List UInt8} {f : UnknownField}
    (h : fieldParser (parseGroup fuel depth) tag p = some (f, q)) : q.length ≤ p.length := by
  obtain ⟨number, -, hvalue⟩ := fieldParser_cases h
  exact hvalue.length_le fun fields e r hgroup => parseGroup_length hgroup

/-- Fuel beyond the length of the text makes no difference. -/
theorem wireFormatParser_fuel {fuel fuel' depth : Nat} {p : List UInt8} (h : p.length < fuel) (h' : p.length < fuel')
    (fields : List UnknownField) : wireFormatParser fuel depth fields p = wireFormatParser fuel' depth fields p := by
  induction fuel generalizing fuel' depth fields p with
  | zero => omega
  | succ fuel ih =>
    obtain ⟨fuel', rfl⟩ : ∃ n, fuel' = n + 1 := ⟨fuel' - 1, by omega⟩
    rw [wireFormatParser_succ, wireFormatParser_succ]
    by_cases hp : p = []
    · rw [if_pos hp, if_pos hp]
    · rw [if_neg hp, if_neg hp]
      cases htag : readTag p with
      | none => rfl
      | some r =>
        obtain ⟨tag, q⟩ := r
        have hlt := length_of_readTag htag
        have hgroup : parseGroup fuel depth q = parseGroup fuel' depth q := by
          cases depth with
          | zero => rfl
          | succ depth => exact ih (by omega) (by omega) []
        simp only [fieldParser_congr hgroup]
        split
        · rfl
        · cases hfield : fieldParser (parseGroup fuel' depth) tag q with
          | none => rfl
          | some r =>
            have hr := fieldParser_length hfield
            exact ih (by omega) (by omega) _

private theorem parseGroup_fuel {fuel fuel' : Nat} {p : List UInt8} (h : p.length < fuel) (h' : p.length < fuel')
    (depth : Nat) : parseGroup fuel depth p = parseGroup fuel' depth p := by
  cases depth with
  | zero => rfl
  | succ depth => exact wireFormatParser_fuel h h' []

/-- One round of the loop. -/
theorem parseFields_round {depth : Nat} {p q : List UInt8} {tag : UInt32} (htag : readTag p = some (tag, q))
    (fields : List UnknownField) :
    parseFields depth fields p =
      if endsLoop tag then some (fields, .tag tag, q)
      else match fieldParser (parseGroup (q.length + 1) depth) tag q with
        | none => none
        | some (f, r) => parseFields depth (fields ++ [f]) r := by
  have hlt := length_of_readTag htag
  have hp : p ≠ [] := by
    rintro rfl
    cases htag
  rw [parseFields, wireFormatParser_succ, if_neg hp, htag]
  have hfuel : parseGroup p.length depth q = parseGroup (q.length + 1) depth q := parseGroup_fuel hlt (by omega) depth
  simp only [fieldParser_congr hfuel]
  split
  · rfl
  · cases hfield : fieldParser (parseGroup (q.length + 1) depth) tag q with
    | none => rfl
    | some r =>
      have hr := fieldParser_length hfield
      exact wireFormatParser_fuel (by omega) (by omega) _

/-! ### What is behind does not matter -/

theorem ParsedValue.append {group : List UInt8 → Option (List UnknownField × Ending × List UInt8)}
    {number : FieldNumber} {wireType : Nat} {p q : List UInt8} {f : UnknownField}
    {group' : List UInt8 → Option (List UnknownField × Ending × List UInt8)} (s : List UInt8)
    (hgroup : ∀ fields t r, group p = some (fields, .tag t, r) → group' (p ++ s) = some (fields, .tag t, r ++ s))
    (h : ParsedValue group number p wireType f q) :
    parseValue group' number wireType (p ++ s) = some (f, q ++ s) := by
  cases h with
  | varint h =>
    rw [parseValue, readVarint64_append h]
    rfl
  | fixed64 h =>
    rw [parseValue, readFixed64_append h]
    rfl
  | lengthDelimited hsize h =>
    rw [parseValue, readSize_append hsize]
    simp only [readString_append h]
    rfl
  | group h ht =>
    rw [parseValue, hgroup _ _ _ h]
    exact if_pos ht
  | fixed32 h =>
    rw [parseValue, readFixed32_append h]
    rfl

/-- A field that is read is read in front of any text. -/
theorem fieldParser_append {group group' : List UInt8 → Option (List UnknownField × Ending × List UInt8)}
    {tag : UInt32} {p q : List UInt8} {f : UnknownField} (s : List UInt8)
    (hgroup : ∀ fields t r, group p = some (fields, .tag t, r) → group' (p ++ s) = some (fields, .tag t, r ++ s))
    (h : fieldParser group tag p = some (f, q)) : fieldParser group' tag (p ++ s) = some (f, q ++ s) := by
  unfold fieldParser at h ⊢
  split at h
  · rename_i hpos
    rw [dif_pos hpos]
    exact (parseValue_cases h).append s hgroup
  · cases h

/-- The loop ends at the tag at which it ends in front of any text. -/
theorem wireFormatParser_append {fuel fuel' depth : Nat} {fields fields' : List UnknownField} {p q : List UInt8}
    {t : UInt32} (s : List UInt8) (h : wireFormatParser fuel depth fields p = some (fields', .tag t, q))
    (hfuel : (p ++ s).length < fuel') :
    wireFormatParser fuel' depth fields (p ++ s) = some (fields', .tag t, q ++ s) := by
  induction fuel generalizing fuel' depth fields fields' p q t with
  | zero => cases h
  | succ fuel ih =>
    obtain ⟨fuel', rfl⟩ : ∃ n, fuel' = n + 1 := ⟨fuel' - 1, by omega⟩
    rw [wireFormatParser_succ] at h ⊢
    split at h
    · cases h
    · rename_i hp
      have hps : p ++ s ≠ [] := fun hnil => hp (List.append_eq_nil_iff.1 hnil).1
      rw [if_neg hps]
      split at h
      · cases h
      · rename_i tag q' htag
        rw [readTag_append htag]
        simp only
        have hlt := length_of_readTag htag
        rw [List.length_append] at hfuel
        split at h
        · rename_i hend
          cases h
          rw [if_pos hend]
        · rename_i hend
          rw [if_neg hend]
          split at h
          · cases h
          · rename_i f r hfield
            have hgroup : ∀ fields t r, parseGroup fuel depth q' = some (fields, .tag t, r) →
                parseGroup fuel' depth (q' ++ s) = some (fields, .tag t, r ++ s) := by
              intro fields t r hgroup
              cases depth with
              | zero => cases hgroup
              | succ depth => exact ih hgroup (by rw [List.length_append]; omega)
            have hr := fieldParser_length hfield
            rw [fieldParser_append s hgroup hfield]
            exact ih h (by rw [List.length_append]; omega)

theorem parseGroup_append {fuel fuel' depth : Nat} {fields : List UnknownField} {p q : List UInt8} {t : UInt32}
    (s : List UInt8) (h : parseGroup fuel depth p = some (fields, .tag t, q)) (hfuel : (p ++ s).length < fuel') :
    parseGroup fuel' depth (p ++ s) = some (fields, .tag t, q ++ s) := by
  cases depth with
  | zero => cases h
  | succ depth => exact wireFormatParser_append s h hfuel

/-! ### What is written is read back -/

def FieldNumber.tag (number : FieldNumber) (wireType : Nat) : UInt32 := UInt32.ofNat (8 * number.val + wireType)

section

variable (number : FieldNumber) {wireType : Nat} (hw : wireType < 8)
include hw

private theorem FieldNumber.toNat_tag : (number.tag wireType).toNat = 8 * number.val + wireType := by
  have hlt := number.lt
  rw [FieldNumber.tag, UInt32.toNat_ofNat']
  exact Nat.mod_eq_of_lt (by omega)

theorem readTag_writeTag (p : List UInt8) :
    readTag (writeTag number.val wireType ++ p) = some (number.tag wireType, p) := by
  have hlt := number.lt
  exact readTag_write (by omega) p

theorem endsLoop_tag : endsLoop (number.tag wireType) = decide (wireType = 4) := by
  have hpos := number.pos
  rw [endsLoop, number.toNat_tag hw, ← Bool.decide_or]
  apply decide_eq_decide.2
  omega

private theorem fieldParser_tag (group : List UInt8 → Option (List UnknownField × Ending × List UInt8))
    (p : List UInt8) :
    fieldParser group (number.tag wireType) p = parseValue group number wireType p := by
  have hpos := number.pos
  have hdiv : (8 * number.val + wireType) / 8 = number.val := by omega
  have hmod : (8 * number.val + wireType) % 8 = wireType := by omega
  simp only [fieldParser, number.toNat_tag hw, hdiv, hmod, dif_pos hpos]

end

mutual

/-- No string is longer than a size may be, and no group is nested deeper than the budget. -/
def UnknownField.fits : Nat → UnknownField → Bool
  | _, .varint .. => true
  | _, .fixed32 .. => true
  | _, .fixed64 .. => true
  | _, .lengthDelimited _ value => value.length ≤ maxSize
  | depth, .group _ fields => 0 < depth && fieldsFit (depth - 1) fields

def fieldsFit : Nat → List UnknownField → Bool
  | _, [] => true
  | depth, f :: fs => f.fits depth && fieldsFit depth fs

end

mutual

/-- No group is nested deeper than the budget. -/
def UnknownField.nests : Nat → UnknownField → Bool
  | _, .varint .. => true
  | _, .fixed32 .. => true
  | _, .fixed64 .. => true
  | _, .lengthDelimited .. => true
  | depth, .group _ fields => 0 < depth && fieldsNest (depth - 1) fields

def fieldsNest : Nat → List UnknownField → Bool
  | _, [] => true
  | depth, f :: fs => f.nests depth && fieldsNest depth fs

end

def UnknownField.tag : UnknownField → UInt32
  | .varint number _ => number.tag 0
  | .fixed32 number _ => number.tag 5
  | .fixed64 number _ => number.tag 1
  | .lengthDelimited number _ => number.tag 2
  | .group number _ => number.tag 3

theorem UnknownField.endsLoop_tag (f : UnknownField) : endsLoop f.tag = false := by
  cases f <;> exact Protobuf.endsLoop_tag _ (by omega)

mutual

/-- Behind its tag, a field is read back with any fuel for what is there. -/
theorem UnknownField.read_serialize {depth : Nat} :
    ∀ f : UnknownField, f.fits depth = true → ∀ p : List UInt8, ∃ q, readTag (f.serialize ++ p) = some (f.tag, q) ∧
      ∀ fuel, q.length < fuel → fieldParser (parseGroup fuel depth) f.tag q = some (f, p)
  | .varint number value, _, p => by
    refine ⟨writeVarint64 value ++ p, ?_, fun fuel _ => ?_⟩
    · rw [UnknownField.serialize, List.append_assoc]
      exact readTag_writeTag number (by omega) _
    · rw [UnknownField.tag, fieldParser_tag number (by omega), parseValue, readVarint64_write, Option.map_some]
  | .fixed32 number value, _, p => by
    refine ⟨writeFixed32 value ++ p, ?_, fun fuel _ => ?_⟩
    · rw [UnknownField.serialize, List.append_assoc]
      exact readTag_writeTag number (by omega) _
    · rw [UnknownField.tag, fieldParser_tag number (by omega), parseValue, readFixed32_write, Option.map_some]
  | .fixed64 number value, _, p => by
    refine ⟨writeFixed64 value ++ p, ?_, fun fuel _ => ?_⟩
    · rw [UnknownField.serialize, List.append_assoc]
      exact readTag_writeTag number (by omega) _
    · rw [UnknownField.tag, fieldParser_tag number (by omega), parseValue, readFixed64_write, Option.map_some]
  | .lengthDelimited number value, h, p => by
    have hsize : value.length ≤ maxSize := by simpa [UnknownField.fits] using h
    refine ⟨writeString value ++ p, ?_, fun fuel _ => ?_⟩
    · rw [UnknownField.serialize, List.append_assoc]
      exact readTag_writeTag number (by omega) _
    · rw [UnknownField.tag, fieldParser_tag number (by omega), parseValue, writeString, List.append_assoc,
        readSize_write hsize]
      simp only [readString_length, Option.map_some]
  | .group number group, h, p => by
    obtain ⟨hpos, hgroup⟩ : 0 < depth ∧ fieldsFit (depth - 1) group = true := by
      simpa [UnknownField.fits] using h
    obtain ⟨depth, rfl⟩ : ∃ d, depth = d + 1 := ⟨depth - 1, by omega⟩
    refine ⟨serializeUnknown group ++ (writeTag number.val 4 ++ p), ?_, fun fuel hfuel => ?_⟩
    · rw [UnknownField.serialize, List.append_assoc, List.append_assoc]
      exact readTag_writeTag number (by omega) _
    · -- The fields of the group are read up to its end tag, which `ConsumeEndGroup` accepts.
      have hread := parseFields_serialize group hgroup [] (writeTag number.val 4 ++ p)
      rw [parseFields_round (readTag_writeTag number (by omega) _), Protobuf.endsLoop_tag number (by omega)] at hread
      have hend : parseGroup fuel (depth + 1) (serializeUnknown group ++ (writeTag number.val 4 ++ p)) =
          some (group, .tag (number.tag 4), p) := by
        rw [parseGroup, wireFormatParser_fuel hfuel (Nat.lt_succ_self _) []]
        exact hread
      have hconsume : number.tag 4 - 1 = UInt32.ofNat (8 * number.val + 3) := by
        have hlt := number.lt
        have hone : (1 : UInt32).toNat = 1 := rfl
        apply UInt32.toNat_inj.1
        rw [UInt32.toNat_sub, number.toNat_tag (by omega), UInt32.toNat_ofNat']
        omega
      rw [UnknownField.tag, fieldParser_tag number (by omega), parseValue, hend]
      exact if_pos hconsume

private theorem parseFields_serialize {depth : Nat} :
    ∀ fs : List UnknownField, fieldsFit depth fs = true → ∀ (fields : List UnknownField) (p : List UInt8),
      parseFields depth fields (serializeUnknown fs ++ p) = parseFields depth (fields ++ fs) p
  | [], _, fields, p => by
    rw [serializeUnknown, List.nil_append, List.append_nil]
  | f :: fs, h, fields, p => by
    obtain ⟨hf, hfs⟩ : f.fits depth = true ∧ fieldsFit depth fs = true := by simpa [fieldsFit] using h
    obtain ⟨q, htag, hfield⟩ := f.read_serialize hf (serializeUnknown fs ++ p)
    rw [serializeUnknown, List.append_assoc, parseFields_round htag, f.endsLoop_tag, hfield _ (Nat.lt_succ_self _)]
    have happend : fields ++ f :: fs = fields ++ [f] ++ fs := by simp
    rw [happend]
    exact parseFields_serialize fs hfs (fields ++ [f]) p

end

/-! ### Sizes -/

mutual

theorem UnknownField.byteSize_eq {depth : Nat} :
    ∀ f : UnknownField, f.fits depth = true → f.byteSize = f.serialize.length
  | .varint number value, _ => by
    have hn := number.lt
    have hv : value.toNat < 2 ^ 64 := value.toNat_lt
    rw [UnknownField.byteSize, UnknownField.serialize, varintSize_eq (by omega), varintSize_eq hv, List.length_append]
    rfl
  | .fixed32 number value, _ => by
    have hn := number.lt
    rw [UnknownField.byteSize, UnknownField.serialize, varintSize_eq (by omega), List.length_append, writeFixed32,
      Varint.length_writeFixed]
    rfl
  | .fixed64 number value, _ => by
    have hn := number.lt
    rw [UnknownField.byteSize, UnknownField.serialize, varintSize_eq (by omega), List.length_append, writeFixed64,
      Varint.length_writeFixed]
    rfl
  | .lengthDelimited number value, h => by
    have hn := number.lt
    have hmax : maxSize = 2147483631 := rfl
    have hsize : value.length ≤ maxSize := by simpa [UnknownField.fits] using h
    rw [UnknownField.byteSize, UnknownField.serialize, varintSize_eq (by omega), varintSize_eq (by omega),
      List.length_append, writeString, List.length_append, Nat.add_assoc]
    rfl
  | .group number fields, h => by
    have hn := number.lt
    obtain ⟨-, hfields⟩ : 0 < depth ∧ fieldsFit (depth - 1) fields = true := by simpa [UnknownField.fits] using h
    rw [UnknownField.byteSize, UnknownField.serialize, varintSize_eq (by omega), varintSize_eq (by omega),
      computeUnknownFieldsSize_eq fields hfields, List.length_append, List.length_append]
    rfl

theorem computeUnknownFieldsSize_eq {depth : Nat} :
    ∀ fs : List UnknownField, fieldsFit depth fs = true → computeUnknownFieldsSize fs = (serializeUnknown fs).length
  | [], _ => rfl
  | f :: fs, h => by
    obtain ⟨hf, hfs⟩ : f.fits depth = true ∧ fieldsFit depth fs = true := by simpa [fieldsFit] using h
    rw [computeUnknownFieldsSize, serializeUnknown, f.byteSize_eq hf, computeUnknownFieldsSize_eq fs hfs,
      List.length_append]

end

mutual

/-- Within a text that is no longer than a size may be, every string fits. -/
theorem UnknownField.fits_of_nests {depth : Nat} :
    ∀ f : UnknownField, f.nests depth = true → f.byteSize ≤ maxSize → f.fits depth = true
  | .varint .., _, _ => rfl
  | .fixed32 .., _, _ => rfl
  | .fixed64 .., _, _ => rfl
  | .lengthDelimited number value, _, hsize => by
    rw [UnknownField.byteSize] at hsize
    exact decide_eq_true (by omega)
  | .group number fields, h, hsize => by
    obtain ⟨hpos, hfields⟩ : 0 < depth ∧ fieldsNest (depth - 1) fields = true := by simpa [UnknownField.nests] using h
    rw [UnknownField.byteSize] at hsize
    have hfit := fieldsFit_of_nest fields hfields (by omega)
    simp [UnknownField.fits, hpos, hfit]

theorem fieldsFit_of_nest {depth : Nat} :
    ∀ fs : List UnknownField, fieldsNest depth fs = true → computeUnknownFieldsSize fs ≤ maxSize →
      fieldsFit depth fs = true
  | [], _, _ => rfl
  | f :: fs, h, hsize => by
    obtain ⟨hf, hfs⟩ : f.nests depth = true ∧ fieldsNest depth fs = true := by simpa [fieldsNest] using h
    rw [computeUnknownFieldsSize] at hsize
    have hfit := f.fits_of_nests hf (by omega)
    have hfits := fieldsFit_of_nest fs hfs (by omega)
    simp [fieldsFit, hfit, hfits]

end

theorem varintSize_le_five {v : Nat} (h : v < 2 ^ 32) : varintSize v ≤ 5 := by
  rw [varintSize_eq (by omega)]
  exact Varint.length_write_le (by omega)

theorem varintSize_le_ten {v : Nat} (h : v < 2 ^ 64) : varintSize v ≤ 10 := by
  rw [varintSize_eq h]
  exact Varint.length_write_le (by omega)

theorem computeUnknownFieldsSize_append (fs gs : List UnknownField) :
    computeUnknownFieldsSize (fs ++ gs) = computeUnknownFieldsSize fs + computeUnknownFieldsSize gs := by
  induction fs with
  | nil => rw [List.nil_append, computeUnknownFieldsSize, Nat.zero_add]
  | cons f fs ih => rw [List.cons_append, computeUnknownFieldsSize, computeUnknownFieldsSize, ih, Nat.add_assoc]

theorem fieldsFit_append {depth : Nat} {fs gs : List UnknownField} :
    fieldsFit depth (fs ++ gs) = true ↔ fieldsFit depth fs = true ∧ fieldsFit depth gs = true := by
  induction fs with
  | nil => simp [fieldsFit]
  | cons f fs ih => simp [fieldsFit, ih, and_assoc]

theorem fieldsFit_singleton {depth : Nat} {f : UnknownField} :
    fieldsFit depth [f] = true ↔ f.fits depth = true := by
  simp [fieldsFit]

/-! ### What is read fits -/

/-- A value that is read fits, and is written with at most sixteen bytes for each byte read. -/
theorem ParsedValue.fits {group : List UInt8 → Option (List UnknownField × Ending × List UInt8)}
    {number : FieldNumber} {wireType depth : Nat} {p q : List UInt8} {f : UnknownField}
    (hgroup : ∀ fields t r, group p = some (fields, .tag t, r) → 0 < depth ∧ fieldsFit (depth - 1) fields = true ∧
      computeUnknownFieldsSize fields + 16 * r.length + 16 ≤ 16 * p.length)
    (h : ParsedValue group number p wireType f q) :
    f.fits depth = true ∧ f.byteSize + 16 * q.length ≤ 16 * p.length := by
  have hn := number.lt
  cases h with
  | @varint value _ h =>
    have hlt := length_of_readVarint64 h
    have hv := varintSize_le_ten value.toNat_lt
    have htag := varintSize_le_five (v := 8 * number.val) (by omega)
    refine ⟨rfl, ?_⟩
    rw [UnknownField.byteSize]
    omega
  | fixed64 h =>
    obtain ⟨bs, rfl, hbs⟩ := of_readFixed64 h
    have htag := varintSize_le_five (v := 8 * number.val + 1) (by omega)
    refine ⟨rfl, ?_⟩
    rw [UnknownField.byteSize, List.length_append]
    omega
  | @lengthDelimited size value _ _ hsize h =>
    have hlt := length_of_readSize hsize
    have hle := length_of_readString h
    obtain ⟨-, hmax⟩ := of_readSize hsize
    obtain ⟨-, rfl⟩ := of_readString h
    have hmax' : maxSize = 2147483631 := rfl
    have hv := varintSize_le_five (v := value.length) (by omega)
    have htag := varintSize_le_five (v := 8 * number.val + 2) (by omega)
    refine ⟨by simpa [UnknownField.fits] using hmax, ?_⟩
    rw [UnknownField.byteSize]
    omega
  | group h ht =>
    obtain ⟨hpos, hfields, hsize⟩ := hgroup _ _ _ h
    have hstart := varintSize_le_five (v := 8 * number.val + 3) (by omega)
    have hend := varintSize_le_five (v := 8 * number.val + 4) (by omega)
    refine ⟨by simp [UnknownField.fits, hpos, hfields], ?_⟩
    rw [UnknownField.byteSize]
    omega
  | fixed32 h =>
    obtain ⟨bs, rfl, hbs⟩ := of_readFixed32 h
    have htag := varintSize_le_five (v := 8 * number.val + 5) (by omega)
    refine ⟨rfl, ?_⟩
    rw [UnknownField.byteSize, List.length_append]
    omega

/-- What `ending` says of the bytes read: a loop that stopped at a tag has read it. -/
def Ending.slack : Ending → Nat
  | .limit => 0
  | .tag _ => 16

private theorem wireFormatParser_fits {fuel depth : Nat} {fields fields' : List UnknownField} {p q : List UInt8}
    {e : Ending} (h : wireFormatParser fuel depth fields p = some (fields', e, q))
    (hfields : fieldsFit depth fields = true) :
    fieldsFit depth fields' = true ∧
      computeUnknownFieldsSize fields' + 16 * q.length + e.slack ≤
        computeUnknownFieldsSize fields + 16 * p.length := by
  induction fuel generalizing depth fields fields' p q e with
  | zero => cases h
  | succ fuel ih =>
    rw [wireFormatParser_succ] at h
    split at h
    · cases h
      refine ⟨hfields, ?_⟩
      simp [Ending.slack]
    · split at h
      · cases h
      · rename_i tag q' htag
        have hlt := length_of_readTag htag
        split at h
        · cases h
          refine ⟨hfields, ?_⟩
          rw [Ending.slack]
          omega
        · split at h
          · cases h
          · rename_i f r hfield
            obtain ⟨number, -, hvalue⟩ := fieldParser_cases hfield
            have hgroup : ∀ fields t r, parseGroup fuel depth q' = some (fields, .tag t, r) → 0 < depth ∧
                fieldsFit (depth - 1) fields = true ∧
                computeUnknownFieldsSize fields + 16 * r.length + 16 ≤ 16 * q'.length := by
              intro fields t r hgroup
              cases depth with
              | zero => cases hgroup
              | succ depth =>
                obtain ⟨hfit, hsize⟩ := ih hgroup rfl
                refine ⟨Nat.succ_pos _, hfit, ?_⟩
                simpa [Ending.slack, computeUnknownFieldsSize] using hsize
            obtain ⟨hfit, hsize⟩ := hvalue.fits hgroup
            obtain ⟨hfit', hsize'⟩ := ih h (fieldsFit_append.2 ⟨hfields, fieldsFit_singleton.2 hfit⟩)
            refine ⟨hfit', ?_⟩
            rw [computeUnknownFieldsSize_append, computeUnknownFieldsSize, computeUnknownFieldsSize] at hsize'
            omega

theorem fieldParser_fits {fuel depth : Nat} {tag : UInt32} {p q : List UInt8} {f : UnknownField}
    (h : fieldParser (parseGroup fuel depth) tag p = some (f, q)) :
    f.fits depth = true ∧ f.byteSize + 16 * q.length ≤ 16 * p.length := by
  obtain ⟨number, -, hvalue⟩ := fieldParser_cases h
  refine hvalue.fits fun fields t r hgroup => ?_
  cases depth with
  | zero => cases hgroup
  | succ depth =>
    obtain ⟨hfit, hsize⟩ := wireFormatParser_fits hgroup rfl
    refine ⟨Nat.succ_pos _, hfit, ?_⟩
    simpa [Ending.slack, computeUnknownFieldsSize] using hsize

/-- The field that is read keeps the tag. -/
theorem fieldParser_tag_eq {group : List UInt8 → Option (List UnknownField × Ending × List UInt8)} {tag : UInt32}
    {p q : List UInt8} {f : UnknownField} (h : fieldParser group tag p = some (f, q)) : f.tag = tag := by
  obtain ⟨number, hnumber, hvalue⟩ := fieldParser_cases h
  have htag : ∀ w, tag.toNat % 8 = w → number.tag w = tag := by
    intro w hw
    apply UInt32.toNat_inj.1
    rw [number.toNat_tag (by omega)]
    omega
  generalize hw : tag.toNat % 8 = w at hvalue
  cases hvalue with
  | varint _ => exact htag _ hw
  | fixed64 _ => exact htag _ hw
  | lengthDelimited _ _ => exact htag _ hw
  | group _ _ => exact htag _ hw
  | fixed32 _ => exact htag _ hw

end Protobuf
