import Cloudein.Protobuf.RoundTrip

/-!
# What the messages of a type have in common

A `MessageSpec` says what it takes for the messages of a type to be read back: that the sizes and the unknown fields
in them fit, and that the strings are valid.  From it come the round trip (`parseFromString_serialize`), that a text
behind an accepted one is merged (`parseFromString_append`), that the size is the length (`byteSize_eq`), and that a
message that was parsed is written as a text that is parsed to the same message (`reparse`).
-/

namespace Protobuf

section

variable {α : Type} {number : FieldNumber} {depth : Nat} {a a' : α} {p q : List UInt8}

/-! ### Numbers -/

/-- The bytes of a number with its tag. -/
def scalarSize {β : Type} [DecidableEq β] (zero : β) (size : β → Nat) (value : β) : Nat :=
  if value = zero then 0 else 1 + size value

section

variable {β : Type} [DecidableEq β] {zero : β} {ofVarint : UInt64 → β} {toVarint : β → UInt64} {size : β → Nat}
  {get : α → β} {set : β → α → α}

theorem scalarSize_le {n : Nat} {value : β} (h : size value ≤ n) : scalarSize zero size value ≤ n + 1 := by
  unfold scalarSize
  split <;> omega

private theorem varintField_merge {source : α} (h : set zero a = a) :
    (varintField number zero ofVarint toVarint size get set).merge a source = set (get source) a := by
  by_cases hs : get source = zero
  · rw [hs, h]
    exact if_pos hs
  · exact if_neg hs

private theorem varintField_parse
    (h : (varintField number zero ofVarint toVarint size get set).parse depth a p = some (a', q)) :
    ∃ value, a' = set (ofVarint value) a ∧ q.length < p.length := by
  simp only [varintField] at h
  split at h
  · cases h
  · rename_i value q' hvalue
    cases h
    exact ⟨value, rfl, length_of_readVarint64 hvalue⟩

end

section

variable {get : α → Int32} {set : Int32 → α → α}

theorem int32Field_byteSize : (int32Field number get set).byteSize a = scalarSize 0 int32Size (get a) := rfl

theorem int32Field_merge {source : α} (h : set 0 a = a) :
    (int32Field number get set).merge a source = set (get source) a :=
  varintField_merge h

theorem int32Size_le (value : Int32) : int32Size value ≤ 10 := by
  rw [int32Size_eq, writeVarint64]
  exact Varint.length_write_le (by have hvalue := (varintOfInt32 value).toNat_lt; omega)

theorem int32Field_parse (h : (int32Field number get set).parse depth a p = some (a', q)) :
    ∃ value, a' = set value a ∧
      scalarSize 0 int32Size value + 16 * q.length ≤ scalarSize 0 int32Size (get a) + 16 * p.length := by
  obtain ⟨value, rfl, hlt⟩ := varintField_parse h
  have hsize : scalarSize 0 int32Size (int32OfVarint value) ≤ 11 := scalarSize_le (int32Size_le _)
  exact ⟨_, rfl, by omega⟩

end

section

variable {get : α → UInt64} {set : UInt64 → α → α}

theorem uint64Field_byteSize :
    (uint64Field number get set).byteSize a = scalarSize 0 (fun value => varintSize value.toNat) (get a) := rfl

theorem uint64Field_merge {source : α} (h : set 0 a = a) :
    (uint64Field number get set).merge a source = set (get source) a :=
  varintField_merge h

theorem uint64Field_parse (h : (uint64Field number get set).parse depth a p = some (a', q)) :
    ∃ value, a' = set value a ∧ scalarSize 0 (fun value => varintSize value.toNat) value + 16 * q.length ≤
      scalarSize 0 (fun value => varintSize value.toNat) (get a) + 16 * p.length := by
  obtain ⟨value, rfl, hlt⟩ := varintField_parse h
  have hsize : scalarSize 0 (fun value => varintSize value.toNat) value ≤ 11 :=
    scalarSize_le (varintSize_le_ten value.toNat_lt)
  exact ⟨value, rfl, by omega⟩

end

/-! ### Strings -/

/-- The bytes of a string with its tag and its size. -/
def stringSize (s : List UInt8) : Nat := if s = [] then 0 else 1 + lengthDelimitedSize s.length

theorem length_le_of_stringSize {s : List UInt8} {n : Nat} (h : stringSize s ≤ n) : s.length ≤ n := by
  by_cases hs : s = []
  · simp [hs]
  · rw [stringSize, if_neg hs, lengthDelimitedSize] at h
    omega

section

variable {get : α → List UInt8} {set : List UInt8 → α → α}

theorem stringField_byteSize : (stringField number get set).byteSize a = stringSize (get a) := rfl

theorem stringField_merge {source : α} (h : set [] a = a) :
    (stringField number get set).merge a source = set (get source) a := by
  by_cases hs : get source = []
  · rw [hs, h]
    exact if_pos hs
  · exact if_neg hs

theorem stringField_parse (h : (stringField number get set).parse depth a p = some (a', q)) :
    ∃ s, a' = set s a ∧ isStructurallyValidUtf8 s = true ∧ s.length ≤ maxSize ∧
      stringSize s + 16 * q.length ≤ stringSize (get a) + 16 * p.length := by
  simp only [stringField] at h
  split at h
  · cases h
  · rename_i s q' hs
    obtain ⟨hlt, hmax⟩ := readDelimited_length hs
    have hlimit : maxSize = 2147483631 := rfl
    have hprefix := varintSize_le_five (v := s.length) (by omega)
    split at h
    · rename_i hutf
      cases h
      refine ⟨s, rfl, hutf, hmax, ?_⟩
      rw [stringSize, lengthDelimitedSize]
      split <;> omega
    · cases h

end

end

/-! ### Messages -/

/-- The part of `ByteSizeLong` for the declared fields. -/
def MessageCodec.declaredSize {α : Type} (c : MessageCodec α) (a : α) : Nat :=
  (c.fields.map fun f => f.byteSize a).sum

section

variable {x x' rest rest' n m : Nat}

/-- The first field of a sum has grown by at most what was read. -/
theorem grow_head (h : x' + 16 * n ≤ x + 16 * m) : x' + rest + 16 * n ≤ x + rest + 16 * m := by
  omega

/-- One of the other fields has. -/
theorem grow_tail (h : rest' + 16 * n ≤ rest + 16 * m) : x + rest' + 16 * n ≤ x + rest + 16 * m := by
  omega

theorem le_of_head (h : x + rest + n ≤ m) : x + n ≤ m := by
  omega

theorem le_of_tail (h : x + rest + n ≤ m) : rest + n ≤ m := by
  omega

end

private theorem MessageCodec.byteSize_def {α : Type} (c : MessageCodec α) (m : Message α) :
    c.byteSize m = c.declaredSize m.fields + computeUnknownFieldsSize m.unknownFields := rfl

theorem MessageCodec.serializeToString_eq {α : Type} {c : MessageCodec α} {m : Message α}
    (h : c.byteSize m ≤ maxSize) :
    c.serializeToString m = some (c.serialize m) := by
  have hmax : maxSize = 2147483631 := rfl
  exact if_neg (by omega)

/-- What it takes for the messages of a type to be read back. -/
structure MessageSpec {α : Type} (c : MessageCodec α) where
  /-- The sizes in front of the fields, and what is unknown within them, are as the parser takes them. -/
  Fits : Nat → α → Prop
  /-- What is unknown within the fields is not declared there and nested within the budget. -/
  Nests : Nat → α → Prop
  /-- The strings are valid. -/
  Valid : α → Prop
  reads : ∀ {depth a}, Fits depth a → Valid a → ∀ f ∈ c.fields, f.Reads depth a
  rejects : ∀ {depth a}, Fits depth a → ¬ Valid a →
    (∀ f ∈ c.fields, f.Reads depth a ∨ f.Rejects depth a) ∧ ∃ f ∈ c.fields, f.Rejects depth a
  sized : ∀ {depth a}, Fits depth a → ∀ f ∈ c.fields, f.Sized a
  /-- `MergeFrom` into a message that is cleared copies. -/
  merge_default : ∀ source, c.fields.foldl (fun a f => f.merge a source) c.default = source
  fits_default : ∀ depth, Fits depth c.default
  fits_of_nests : ∀ {depth a}, Nests depth a → c.declaredSize a ≤ maxSize → Fits depth a
  valid_default : Valid c.default
  declaredSize_default : c.declaredSize c.default = 0
  /-- What a field reads fits and is valid, and is written with at most sixteen bytes for each byte read. -/
  parse : ∀ {depth a a' p q}, ∀ f ∈ c.fields, f.parse depth a p = some (a', q) → Fits depth a → Valid a →
    c.declaredSize a + 16 * p.length ≤ maxSize →
      Fits depth a' ∧ Valid a' ∧ c.declaredSize a' + 16 * q.length ≤ c.declaredSize a + 16 * p.length

namespace MessageSpec

variable {α : Type} {c : MessageCodec α} (s : MessageSpec c)

/-- The declared fields fit, and the unknown ones. -/
structure FitsMessage (depth : Nat) (m : Message α) : Prop where
  fields : s.Fits depth m.fields
  unknown : c.Unknown depth m.unknownFields

/-- The unknown fields of the message, and of those within it, are not declared there and nested within the budget. -/
structure NestsMessage (depth : Nat) (m : Message α) : Prop where
  fields : s.Nests depth m.fields
  nest : fieldsNest depth m.unknownFields = true
  undeclared : ∀ u ∈ m.unknownFields, c.caseOf u.tag = none

/-- A message fits when it is as a whole no longer than a size may be. -/
theorem fitsMessage_of_nests {depth : Nat} {m : Message α} (h : s.NestsMessage depth m)
    (hsize : c.byteSize m ≤ maxSize) :
    s.FitsMessage depth m := by
  rw [c.byteSize_def] at hsize
  have hunknown := fieldsFit_of_nest m.unknownFields h.nest (by omega)
  exact ⟨s.fits_of_nests h.fields (by omega), hunknown, h.undeclared⟩

include s in
private theorem mergeFrom_clear (m : Message α) : c.mergeFrom c.clear m = m := by
  have hfields := s.merge_default m.fields
  simp only [MessageCodec.mergeFrom, MessageCodec.clear, hfields, List.nil_append]

private theorem fitsMessage_clear (depth : Nat) : s.FitsMessage depth c.clear :=
  ⟨s.fits_default depth, c.unknown_nil depth⟩

include s in
private theorem byteSize_clear : c.byteSize c.clear = 0 := by
  rw [c.byteSize_def]
  exact s.declaredSize_default

theorem byteSize_eq {depth : Nat} {m : Message α} (h : s.FitsMessage depth m) :
    c.byteSize m = (c.serialize m).length :=
  c.byteSize_eq (s.sized h.fields) h.unknown.fit

/-- Behind an accepted text, the text of a message is merged into what was parsed. -/
theorem parseFromString_append {p : List UInt8} {m source : Message α} (hp : c.parseFromString p = some m)
    (h : s.FitsMessage MessageCodec.recursionLimit source) (hvalid : s.Valid source.fields) :
    c.parseFromString (p ++ c.serialize source) = some (c.mergeFrom m source) := by
  obtain ⟨q, hparse⟩ := c.of_parseFromString hp
  have hserialize := c.internalParse_serialize (s.reads h.fields hvalid) h.unknown m []
  rw [List.append_nil, c.internalParse_nil] at hserialize
  rw [MessageCodec.parseFromString, MessageCodec.mergeFromString, c.internalParse_append hparse, hserialize]

theorem parseFromString_serialize {m : Message α} (h : s.FitsMessage MessageCodec.recursionLimit m)
    (hvalid : s.Valid m.fields) : c.parseFromString (c.serialize m) = some m := by
  have happend := s.parseFromString_append (p := []) (m := c.clear) rfl h hvalid
  rw [List.nil_append, s.mergeFrom_clear] at happend
  exact happend

theorem parseFromString_serialize_invalid {m : Message α} (h : s.FitsMessage MessageCodec.recursionLimit m)
    (hvalid : ¬ s.Valid m.fields) : c.parseFromString (c.serialize m) = none := by
  obtain ⟨hread, hbad⟩ := s.rejects h.fields hvalid
  have hnone := c.internalParse_rejects (fun f hf => hf) hread hbad c.clear (serializeUnknown m.unknownFields)
  rw [MessageCodec.parseFromString, MessageCodec.mergeFromString, MessageCodec.serialize, hnone]

/-- The text of a message is parsed to the message when its strings are valid, and rejected otherwise. -/
theorem parseFromString_serialize_iff {m : Message α} (h : s.FitsMessage MessageCodec.recursionLimit m) :
    c.parseFromString (c.serialize m) = some m ↔ s.Valid m.fields := by
  constructor
  · intro hparse
    by_contra hvalid
    rw [s.parseFromString_serialize_invalid h hvalid] at hparse
    cases hparse
  · exact s.parseFromString_serialize h

/-! ### What was parsed -/

/-- What the parser makes of a message that fits and is valid is like this as well. -/
theorem internalParse_fits {depth : Nat} {m m' : Message α} {p q : List UInt8} {e : Ending}
    (h : c.internalParse depth m p = some (m', e, q)) (hm : s.FitsMessage depth m) (hvalid : s.Valid m.fields)
    (hsize : c.byteSize m + 16 * p.length ≤ maxSize) :
    s.FitsMessage depth m' ∧ s.Valid m'.fields ∧ c.byteSize m' + 16 * q.length ≤ c.byteSize m + 16 * p.length := by
  induction hn : p.length using Nat.strongRecOn generalizing m p with
  | ind n ih =>
    subst hn
    cases htag : readTag p with
    | none =>
      by_cases hp : p = []
      · subst hp
        cases h
        exact ⟨hm, hvalid, Nat.le_refl _⟩
      · rw [c.internalParse_none hp htag] at h
        cases h
    | some r =>
      obtain ⟨tag, q'⟩ := r
      have hlt := length_of_readTag htag
      rw [c.internalParse_round htag] at h
      cases hcase : c.caseOf tag with
      | some f =>
        rw [hcase] at h
        simp only at h
        split at h
        · cases h
        · rename_i a r hparse
          have hle := f.parse_length hparse
          rw [c.byteSize_def] at hsize
          obtain ⟨hfits, hvalid', hgrow⟩ :=
            s.parse f (c.of_caseOf hcase).1 hparse hm.fields hvalid (by omega)
          have hdef : c.byteSize { m with fields := a } =
              c.declaredSize a + computeUnknownFieldsSize m.unknownFields :=
            rfl
          obtain ⟨hfits', hvalid'', hgrow'⟩ :=
            ih r.length (by omega) h ⟨hfits, hm.unknown⟩ hvalid' (by rw [hdef]; omega) rfl
          refine ⟨hfits', hvalid'', ?_⟩
          rw [hdef] at hgrow'
          rw [c.byteSize_def m]
          omega
      | none =>
        rw [hcase] at h
        simp only at h
        split at h
        · cases h
          exact ⟨hm, hvalid, by omega⟩
        · split at h
          · cases h
          · rename_i u r hfield
            have hle := fieldParser_length hfield
            obtain ⟨hfit, hgrow⟩ := fieldParser_fits hfield
            have hunknown : c.Unknown depth (m.unknownFields ++ [u]) := by
              refine ⟨fieldsFit_append.2 ⟨hm.unknown.fit, fieldsFit_singleton.2 hfit⟩, fun v hv => ?_⟩
              rcases List.mem_append.1 hv with hv | hv
              · exact hm.unknown.undeclared v hv
              · rw [List.mem_singleton.1 hv, fieldParser_tag_eq hfield]
                exact hcase
            have hdef : c.byteSize { m with unknownFields := m.unknownFields ++ [u] } =
                c.byteSize m + u.byteSize := by
              simp only [c.byteSize_def, computeUnknownFieldsSize_append, computeUnknownFieldsSize]
              omega
            obtain ⟨hfits', hvalid', hgrow'⟩ :=
              ih r.length (by omega) h ⟨hm.fields, hunknown⟩ hvalid (by rw [hdef]; omega) rfl
            rw [hdef] at hgrow'
            exact ⟨hfits', hvalid', by omega⟩

theorem parseFromString_fits {p : List UInt8} {m : Message α} (h : c.parseFromString p = some m)
    (hp : 16 * p.length ≤ maxSize) :
    s.FitsMessage MessageCodec.recursionLimit m ∧ s.Valid m.fields ∧ c.byteSize m ≤ 16 * p.length := by
  obtain ⟨q, hparse⟩ := c.of_parseFromString h
  have hclear := s.byteSize_clear
  obtain ⟨hfits, hvalid, hgrow⟩ := s.internalParse_fits hparse (s.fitsMessage_clear _) s.valid_default (by omega)
  exact ⟨hfits, hvalid, by omega⟩

include s in
/-- A message that was parsed is written as a text that is parsed to the same message. -/
theorem reparse {p : List UInt8} {m : Message α} (h : c.parseFromString p = some m) (hp : 16 * p.length ≤ maxSize) :
    c.parseFromString (c.serialize m) = some m := by
  obtain ⟨hfits, hvalid, -⟩ := s.parseFromString_fits h hp
  exact s.parseFromString_serialize hfits hvalid

include s in
theorem length_serialize_le {p : List UInt8} {m : Message α} (h : c.parseFromString p = some m)
    (hp : 16 * p.length ≤ maxSize) : (c.serialize m).length ≤ 16 * p.length := by
  obtain ⟨hfits, -, hsize⟩ := s.parseFromString_fits h hp
  rw [← s.byteSize_eq hfits]
  exact hsize

end MessageSpec

/-! ### Messages within messages -/

/-- The bytes of a message with its tag and its size. -/
def messageSize {β : Type} (sub : MessageCodec β) : Option (Message β) → Nat
  | none => 0
  | some m => 1 + lengthDelimitedSize (sub.byteSize m)

section

variable {β : Type} {number : FieldNumber} {sub : MessageCodec β}

/-- A message within a field fits one level further down. -/
def MessageSpec.FitsField (s : MessageSpec sub) (depth : Nat) (m : Option (Message β)) : Prop :=
  ∀ m', m = some m' → ∃ d, depth = d + 1 ∧ s.FitsMessage d m' ∧ sub.byteSize m' ≤ maxSize

/-- What is unknown within the message of a field is as it should be, one level further down. -/
def MessageSpec.NestsField (s : MessageSpec sub) (depth : Nat) (m : Option (Message β)) : Prop :=
  ∀ m', m = some m' → ∃ d, depth = d + 1 ∧ s.NestsMessage d m'

theorem MessageSpec.NestsField.fits {s : MessageSpec sub} {depth : Nat} {m : Option (Message β)}
    (h : s.NestsField depth m) (hsize : messageSize sub m ≤ maxSize) : s.FitsField depth m := by
  rintro m' rfl
  obtain ⟨d, hd, hnests⟩ := h m' rfl
  have hle : sub.byteSize m' ≤ maxSize := by
    rw [messageSize, lengthDelimitedSize] at hsize
    omega
  exact ⟨d, hd, s.fitsMessage_of_nests hnests hle, hle⟩

/-- The message within a field is valid. -/
def MessageSpec.ValidField (s : MessageSpec sub) (m : Option (Message β)) : Prop :=
  ∀ m', m = some m' → s.Valid m'.fields

theorem MessageSpec.fitsField_none (s : MessageSpec sub) (depth : Nat) : s.FitsField depth none := by
  rintro m' ⟨⟩

variable {α : Type} {get : α → Option (Message β)} {set : Option (Message β) → α → α} {a : α}

theorem messageField_byteSize : (messageField number sub get set).byteSize a = messageSize sub (get a) := by
  cases h : get a with
  | none => simp only [messageField, messageSize, h]
  | some m => simp only [messageField, messageSize, h]

theorem MessageSpec.field_merge (s : MessageSpec sub) {source : α} (hget : get a = none) (h : set none a = a) :
    (messageField number sub get set).merge a source = set (get source) a := by
  cases hs : get source with
  | none => simp only [messageField, hs, h]
  | some m => simp only [messageField, hs, hget, Option.getD_none, s.mergeFrom_clear]

theorem MessageSpec.field_reads (s : MessageSpec sub) {depth : Nat} (h : s.FitsField depth (get a))
    (hvalid : s.ValidField (get a)) : (messageField number sub get set).Reads depth a := by
  cases hm : get a with
  | none => exact messageField_reads_none hm depth
  | some m =>
    obtain ⟨d, rfl, hfits, hsize⟩ := h m hm
    exact messageField_reads hm (s.reads hfits.fields (hvalid m hm)) hfits.unknown (s.byteSize_eq hfits) hsize

theorem MessageSpec.field_sized (s : MessageSpec sub) (hnumber : number.val < 16) {depth : Nat}
    (h : s.FitsField depth (get a)) : (messageField number sub get set).Sized a := by
  refine messageField_sized hnumber fun m hm => ?_
  obtain ⟨d, -, hfits, hsize⟩ := h m hm
  exact ⟨s.byteSize_eq hfits, hsize⟩

private theorem messageField_parse {depth : Nat} {a' : α} {p q : List UInt8}
    (h : (messageField number sub get set).parse depth a p = some (a', q)) :
    ∃ d s m r, depth = d + 1 ∧ sub.internalParse d ((get a).getD sub.clear) s = some (m, .limit, r) ∧
      a' = set (some m) a ∧ s.length + q.length < p.length := by
  simp only [messageField] at h
  split at h
  · cases h
  · rename_i s q' hs
    obtain ⟨hlt, -⟩ := readDelimited_length hs
    split at h
    · cases h
    · rename_i d
      split at h
      · rename_i m r hparse
        cases h
        exact ⟨d, s, m, r, rfl, hparse, rfl, hlt⟩
      · cases h

theorem MessageSpec.field_parse (s : MessageSpec sub) {depth : Nat} {a' : α} {p q : List UInt8}
    (h : (messageField number sub get set).parse depth a p = some (a', q)) (hfits : s.FitsField depth (get a))
    (hvalid : s.ValidField (get a)) (hsize : messageSize sub (get a) + 16 * p.length ≤ maxSize) :
    ∃ m, a' = set (some m) a ∧ s.FitsField depth (some m) ∧ s.ValidField (some m) ∧
      messageSize sub (some m) + 16 * q.length ≤ messageSize sub (get a) + 16 * p.length := by
  obtain ⟨d, text, m, r, rfl, hparse, rfl, hlt⟩ := messageField_parse h
  have hstart : s.FitsMessage d ((get a).getD sub.clear) ∧ s.Valid ((get a).getD sub.clear).fields ∧
      sub.byteSize ((get a).getD sub.clear) ≤ messageSize sub (get a) := by
    cases hm : get a with
    | none =>
      refine ⟨s.fitsMessage_clear d, s.valid_default, ?_⟩
      rw [Option.getD_none, s.byteSize_clear]
      exact Nat.zero_le _
    | some m₀ =>
      obtain ⟨d', hd, hfits₀, -⟩ := hfits m₀ hm
      obtain rfl : d' = d := by omega
      refine ⟨hfits₀, hvalid m₀ hm, ?_⟩
      rw [Option.getD_some, messageSize, lengthDelimitedSize]
      omega
  obtain ⟨hfits₀, hvalid₀, hsize₀⟩ := hstart
  obtain ⟨hfits', hvalid', hgrow⟩ := s.internalParse_fits hparse hfits₀ hvalid₀ (by omega)
  have hmax : maxSize = 2147483631 := rfl
  have hprefix := varintSize_le_five (v := sub.byteSize m) (by omega)
  refine ⟨m, rfl, ?_, ?_, ?_⟩
  · rintro m' ⟨⟩
    exact ⟨d, rfl, hfits', by omega⟩
  · rintro m' ⟨⟩
    exact hvalid'
  · rw [messageSize, lengthDelimitedSize]
    omega

end

end Protobuf
