import Cloudein.Protobuf.Message

/-!
# What a message parser does with a serialized message

Parsing the text of a message into another message is `MergeFrom` (`internalParse_serialize`), as long as every string
is valid UTF-8, no size is above the limit and the unknown fields fit; a string that is not valid makes the parser
reject the text (`internalParse_rejects`).  A text that was accepted may be followed by another one
(`internalParse_append`).
-/

namespace Protobuf

namespace MessageCodec

variable {α : Type} (c : MessageCodec α)

/-! ### The loop without the fuel -/

theorem of_caseOf {tag : UInt32} {f : FieldCodec α} (h : c.caseOf tag = some f) : f ∈ c.fields ∧ f.tag = tag :=
  ⟨List.mem_of_find?_eq_some h, by simpa using List.find?_some h⟩

private theorem caseOf_tag {f : FieldCodec α} (h : f ∈ c.fields) : c.caseOf f.tag = some f := by
  cases hg : c.caseOf f.tag with
  | none =>
    have hnone := List.find?_eq_none.1 hg f h
    simp at hnone
  | some g =>
    obtain ⟨hmem, htag⟩ := c.of_caseOf hg
    rw [List.inj_on_of_nodup_map c.distinct hmem h htag]

/-- Fuel beyond the length of the text makes no difference. -/
theorem parseLoop_fuel {fuel fuel' depth : Nat} {p : List UInt8} (h : p.length < fuel) (h' : p.length < fuel')
    (m : Message α) : c.parseLoop fuel depth m p = c.parseLoop fuel' depth m p := by
  induction fuel generalizing fuel' m p with
  | zero => omega
  | succ fuel ih =>
    obtain ⟨fuel', rfl⟩ : ∃ n, fuel' = n + 1 := ⟨fuel' - 1, by omega⟩
    rw [parseLoop, parseLoop]
    by_cases hp : p = []
    · rw [if_pos hp, if_pos hp]
    · rw [if_neg hp, if_neg hp]
      cases htag : readTag p with
      | none => rfl
      | some r =>
        obtain ⟨tag, q⟩ := r
        have hlt := length_of_readTag htag
        simp only
        cases c.caseOf tag with
        | some f =>
          simp only
          cases hparse : f.parse depth m.fields q with
          | none => rfl
          | some r =>
            have hle := f.parse_length hparse
            exact ih (by omega) (by omega) _
        | none =>
          simp only
          split
          · rfl
          · cases hfield : fieldParser (parseGroup (q.length + 1) depth) tag q with
            | none => rfl
            | some r =>
              have hle := fieldParser_length hfield
              exact ih (by omega) (by omega) _

@[simp] theorem internalParse_nil (depth : Nat) (m : Message α) :
    c.internalParse depth m [] = some (m, .limit, []) := rfl

/-- One round of the loop of `_InternalParse`. -/
theorem internalParse_round {depth : Nat} {p q : List UInt8} {tag : UInt32} (htag : readTag p = some (tag, q))
    (m : Message α) :
    c.internalParse depth m p = match c.caseOf tag with
      | some f => match f.parse depth m.fields q with
        | none => none
        | some (a, r) => c.internalParse depth { m with fields := a } r
      | none =>
        if endsLoop tag then some (m, .tag tag, q)
        else match fieldParser (parseGroup (q.length + 1) depth) tag q with
          | none => none
          | some (u, r) => c.internalParse depth { m with unknownFields := m.unknownFields ++ [u] } r := by
  have hlt := length_of_readTag htag
  have hp : p ≠ [] := by
    rintro rfl
    cases htag
  rw [internalParse, parseLoop, if_neg hp, htag]
  simp only
  cases c.caseOf tag with
  | some f =>
    simp only
    cases hparse : f.parse depth m.fields q with
    | none => rfl
    | some r =>
      have hle := f.parse_length hparse
      exact c.parseLoop_fuel (by omega) (by omega) _
  | none =>
    simp only
    split
    · rfl
    · cases hfield : fieldParser (parseGroup (q.length + 1) depth) tag q with
      | none => rfl
      | some r =>
        have hle := fieldParser_length hfield
        exact c.parseLoop_fuel (by omega) (by omega) _

theorem internalParse_none {depth : Nat} {p : List UInt8} (hp : p ≠ []) (htag : readTag p = none) (m : Message α) :
    c.internalParse depth m p = none := by
  rw [internalParse, parseLoop, if_neg hp, htag]

theorem of_parseFromString {p : List UInt8} {m : Message α} (h : c.parseFromString p = some m) :
    ∃ q, c.internalParse recursionLimit c.clear p = some (m, .limit, q) := by
  rw [parseFromString, mergeFromString] at h
  split at h
  · rename_i m' q hparse
    cases h
    exact ⟨q, hparse⟩
  · cases h

/-- Behind a text that was accepted to its end, the parser goes on with the message it has. -/
theorem internalParse_append {depth : Nat} {m m' : Message α} {p q : List UInt8}
    (h : c.internalParse depth m p = some (m', .limit, q)) (s : List UInt8) :
    c.internalParse depth m (p ++ s) = c.internalParse depth m' s := by
  induction hn : p.length using Nat.strongRecOn generalizing m p with
  | ind n ih =>
    cases htag : readTag p with
    | none =>
      by_cases hp : p = []
      · subst hp
        cases h
        rfl
      · rw [c.internalParse_none hp htag] at h
        cases h
    | some r =>
      obtain ⟨tag, q'⟩ := r
      have hlt := length_of_readTag htag
      rw [c.internalParse_round htag] at h
      rw [c.internalParse_round (readTag_append htag s)]
      cases hcase : c.caseOf tag with
      | some f =>
        rw [hcase] at h
        simp only at h ⊢
        split at h
        · cases h
        · rename_i a r hparse
          have hle := f.parse_length hparse
          rw [f.parse_append hparse s]
          exact ih r.length (by omega) h rfl
      | none =>
        rw [hcase] at h
        simp only at h ⊢
        split at h
        · cases h
        · rename_i hend
          rw [if_neg hend]
          split at h
          · cases h
          · rename_i u r hfield
            have hle := fieldParser_length hfield
            have hgroup : ∀ fields t r, parseGroup (q'.length + 1) depth q' = some (fields, .tag t, r) →
                parseGroup ((q' ++ s).length + 1) depth (q' ++ s) = some (fields, .tag t, r ++ s) :=
              fun fields t r hgroup => parseGroup_append s hgroup (Nat.lt_succ_self _)
            rw [fieldParser_append s hgroup hfield]
            exact ih r.length (by omega) h rfl

end MessageCodec

/-! ### A field that is written -/

section

variable {α : Type}

/-- The parser reads the field of `source` as `MergeFrom` would set it: it is not written and there is nothing to set,
or what is written behind its tag is what the parser takes. -/
def FieldCodec.Reads (f : FieldCodec α) (depth : Nat) (source : α) : Prop :=
  f.serialize source = [] ∧ (∀ a, f.merge a source = a) ∨
    ∃ bs, f.serialize source = writeTag f.number.val f.wireType ++ bs ∧
      ∀ a p, f.parse depth a (bs ++ p) = some (f.merge a source, p)

/-- The field of `source` is written and the parser rejects it. -/
def FieldCodec.Rejects (f : FieldCodec α) (depth : Nat) (source : α) : Prop :=
  ∃ bs, f.serialize source = writeTag f.number.val f.wireType ++ bs ∧ ∀ a p, f.parse depth a (bs ++ p) = none

def FieldCodec.Sized (f : FieldCodec α) (source : α) : Prop := f.byteSize source = (f.serialize source).length

namespace MessageCodec

variable (c : MessageCodec α)

/-- The unknown fields of a message are not declared, and they fit. -/
structure Unknown (depth : Nat) (us : List UnknownField) : Prop where
  fit : fieldsFit depth us = true
  undeclared : ∀ u ∈ us, c.caseOf u.tag = none

theorem unknown_nil (depth : Nat) : c.Unknown depth [] := ⟨rfl, by simp⟩

private theorem internalParse_field {depth : Nat} {f : FieldCodec α} (hf : f ∈ c.fields) (bs : List UInt8)
    (m : Message α) :
    c.internalParse depth m (writeTag f.number.val f.wireType ++ bs) = match f.parse depth m.fields bs with
      | none => none
      | some (a, r) => c.internalParse depth { m with fields := a } r := by
  have hw := c.wireType_lt f hf
  rw [c.internalParse_round (readTag_writeTag f.number (by omega) bs)]
  have hcase : c.caseOf (f.number.tag f.wireType) = some f := c.caseOf_tag hf
  rw [hcase]

private theorem internalParse_fields {depth : Nat} {source : α} {fs : List (FieldCodec α)}
    (hfs : ∀ f ∈ fs, f ∈ c.fields) (h : ∀ f ∈ fs, f.Reads depth source) (m : Message α) (p : List UInt8) :
    c.internalParse depth m (fs.flatMap (fun f => f.serialize source) ++ p) =
      c.internalParse depth { m with fields := fs.foldl (fun a f => f.merge a source) m.fields } p := by
  induction fs generalizing m with
  | nil => rfl
  | cons f fs ih =>
    have hrest := ih (fun g hg => hfs g (List.mem_cons_of_mem f hg)) (fun g hg => h g (List.mem_cons_of_mem f hg))
    rw [List.flatMap_cons, List.append_assoc, List.foldl_cons]
    rcases h f List.mem_cons_self with ⟨hnil, hmerge⟩ | ⟨bs, hbs, hparse⟩
    · rw [hnil, List.nil_append, hrest, hmerge]
    · rw [hbs, List.append_assoc, c.internalParse_field (hfs f List.mem_cons_self), hparse]
      exact hrest { m with fields := f.merge m.fields source }

private theorem internalParse_unknown {depth : Nat} {us : List UnknownField} (h : c.Unknown depth us) (m : Message α)
    (p : List UInt8) :
    c.internalParse depth m (serializeUnknown us ++ p) =
      c.internalParse depth { m with unknownFields := m.unknownFields ++ us } p := by
  obtain ⟨hfit, hundeclared⟩ := h
  induction us generalizing m with
  | nil => rw [serializeUnknown, List.nil_append, List.append_nil]
  | cons u us ih =>
    obtain ⟨hu, hus⟩ : u.fits depth = true ∧ fieldsFit depth us = true := by simpa [fieldsFit] using hfit
    obtain ⟨q, htag, hfield⟩ := u.read_serialize hu (serializeUnknown us ++ p)
    have hcase : c.caseOf u.tag = none := hundeclared u List.mem_cons_self
    have hend : ¬ endsLoop u.tag = true := by
      rw [u.endsLoop_tag]
      simp
    rw [serializeUnknown, List.append_assoc, c.internalParse_round htag, hcase]
    simp only [if_neg hend, hfield _ (Nat.lt_succ_self _)]
    have happend : m.unknownFields ++ u :: us = m.unknownFields ++ [u] ++ us := by simp
    rw [ih _ hus fun v hv => hundeclared v (List.mem_cons_of_mem u hv), happend]

/-- Parsing the text of a message into another one merges it. -/
theorem internalParse_serialize {depth : Nat} {source : Message α}
    (hfields : ∀ f ∈ c.fields, f.Reads depth source.fields) (hunknown : c.Unknown depth source.unknownFields)
    (m : Message α) (p : List UInt8) :
    c.internalParse depth m (c.serialize source ++ p) = c.internalParse depth (c.mergeFrom m source) p := by
  rw [serialize, List.append_assoc, c.internalParse_fields (fun f hf => hf) hfields, c.internalParse_unknown hunknown]
  rfl

/-- A field that is rejected, behind fields that are read, makes the parser fail. -/
theorem internalParse_rejects {depth : Nat} {source : α} {fs : List (FieldCodec α)} (hfs : ∀ f ∈ fs, f ∈ c.fields)
    (h : ∀ f ∈ fs, f.Reads depth source ∨ f.Rejects depth source) (hbad : ∃ f ∈ fs, f.Rejects depth source)
    (m : Message α) (p : List UInt8) :
    c.internalParse depth m (fs.flatMap (fun f => f.serialize source) ++ p) = none := by
  induction fs generalizing m with
  | nil =>
    obtain ⟨f, hf, -⟩ := hbad
    cases hf
  | cons f fs ih =>
    have hmem := hfs f List.mem_cons_self
    have hrejects : ∀ m : Message α, f.Rejects depth source →
        c.internalParse depth m ((f :: fs).flatMap (fun f => f.serialize source) ++ p) = none := by
      rintro m ⟨bs, hbs, hparse⟩
      rw [List.flatMap_cons, List.append_assoc, hbs, List.append_assoc, c.internalParse_field hmem, hparse]
    rcases h f List.mem_cons_self with hreads | hrej
    · by_cases hrej : f.Rejects depth source
      · exact hrejects m hrej
      · have hbad' : ∃ g ∈ fs, g.Rejects depth source := by
          obtain ⟨g, hg, hgrej⟩ := hbad
          rcases List.mem_cons.1 hg with rfl | hg
          · exact absurd hgrej hrej
          · exact ⟨g, hg, hgrej⟩
        have hrest := ih (fun g hg => hfs g (List.mem_cons_of_mem f hg))
            (fun g hg => h g (List.mem_cons_of_mem f hg)) hbad'
        rw [List.flatMap_cons, List.append_assoc]
        rcases hreads with ⟨hnil, -⟩ | ⟨bs, hbs, hparse⟩
        · rw [hnil, List.nil_append, hrest]
        · rw [hbs, List.append_assoc, c.internalParse_field hmem, hparse]
          exact hrest _
    · exact hrejects m hrej

/-- `ByteSizeLong` is the number of bytes written. -/
theorem byteSize_eq {depth : Nat} {m : Message α} (hfields : ∀ f ∈ c.fields, f.Sized m.fields)
    (hunknown : fieldsFit depth m.unknownFields = true) : c.byteSize m = (c.serialize m).length := by
  have hsum : (c.fields.map fun f => f.byteSize m.fields) = c.fields.map fun f => (f.serialize m.fields).length :=
    List.map_congr_left hfields
  rw [byteSize, serialize, List.length_append, List.length_flatMap, hsum, computeUnknownFieldsSize_eq _ hunknown]

end MessageCodec

/-! ### The kinds of fields -/

variable {number : FieldNumber}

private theorem length_writeTag (h : number.val < 16) {wireType : Nat} (hw : wireType < 8) :
    (writeTag number.val wireType).length = 1 := by
  rw [writeTag, Varint.write_of_lt (by omega), List.length_singleton]

section

variable {β : Type} [DecidableEq β] {zero : β} {ofVarint : UInt64 → β} {toVarint : β → UInt64} {size : β → Nat}
  {get : α → β} {set : β → α → α}

private theorem varintField_reads (hof : ∀ v, ofVarint (toVarint v) = v) (depth : Nat) (source : α) :
    (varintField number zero ofVarint toVarint size get set).Reads depth source := by
  by_cases h : get source = zero
  · exact Or.inl ⟨if_pos h, fun a => if_pos h⟩
  · refine Or.inr ⟨writeVarint64 (toVarint (get source)), if_neg h, fun a p => ?_⟩
    simp only [varintField, readVarint64_write, hof, if_neg h]

private theorem varintField_sized (hnumber : number.val < 16)
    (hsize : ∀ v, size v = (writeVarint64 (toVarint v)).length) (source : α) :
    (varintField number zero ofVarint toVarint size get set).Sized source := by
  by_cases h : get source = zero
  · simp only [FieldCodec.Sized, varintField, if_pos h, List.length_nil]
  · have htag := length_writeTag hnumber (show 0 < 8 by omega)
    simp only [FieldCodec.Sized, varintField, if_neg h, List.length_append, htag, hsize]

end

private theorem int32OfVarint_varintOfInt32 (v : Int32) : int32OfVarint (varintOfInt32 v) = v := by
  apply Int32.toBitVec_inj.1
  apply BitVec.eq_of_toNat_eq
  have hlt : v.toBitVec.toNat < 2 ^ 32 := v.toBitVec.isLt
  simp only [int32OfVarint, varintOfInt32, Int32.toBitVec_toInt64, Int64.toBitVec_toUInt64,
    UInt64.toBitVec_toUInt32, UInt32.toBitVec_toInt32]
  rw [BitVec.toNat_setWidth, BitVec.toNat_signExtend, BitVec.toNat_setWidth]
  split <;> omega

/-- A negative value has its upper 32 bits set. -/
theorem toNat_varintOfInt32 (v : Int32) :
    (varintOfInt32 v).toNat = if v < 0 then v.toUInt32.toNat + (2 ^ 64 - 2 ^ 32) else v.toUInt32.toNat := by
  have hlt : v.toBitVec.toNat < 2 ^ 32 := v.toBitVec.isLt
  have hneg : v < 0 ↔ v.toBitVec.msb = true := by
    rw [Int32.lt_iff_toBitVec_slt, BitVec.msb_eq_toInt, BitVec.slt_iff_toInt_lt]
    simp
  have hsign : (varintOfInt32 v).toNat = (v.toBitVec.signExtend 64).toNat := rfl
  have hv : v.toUInt32.toNat = v.toBitVec.toNat := rfl
  rw [hsign, BitVec.toNat_signExtend, BitVec.toNat_setWidth]
  by_cases h : v < 0
  · rw [if_pos h, if_pos (hneg.1 h)]
    omega
  · rw [if_neg h, if_neg fun hm => h (hneg.2 hm)]
    omega

theorem int32Size_eq (v : Int32) : int32Size v = (writeVarint64 (varintOfInt32 v)).length := by
  have hlt : v.toUInt32.toNat < 2 ^ 32 := v.toUInt32.toNat_lt
  rw [int32Size, writeVarint64, toNat_varintOfInt32]
  by_cases h : v < 0
  · rw [if_pos h, if_pos h, Varint.length_write, if_neg (by omega)]
    have hlow : 63 ≤ Nat.log 2 (v.toUInt32.toNat + (2 ^ 64 - 2 ^ 32)) := Nat.le_log_of_pow_le (by omega) (by omega)
    have hhigh : Nat.log 2 (v.toUInt32.toNat + (2 ^ 64 - 2 ^ 32)) < 64 := Nat.log_lt_of_lt_pow (by omega) (by omega)
    omega
  · rw [if_neg h, if_neg h, varintSize_eq (by omega)]

section

variable {get : α → Int32} {set : Int32 → α → α}

theorem int32Field_reads (depth : Nat) (source : α) : (int32Field number get set).Reads depth source :=
  varintField_reads int32OfVarint_varintOfInt32 depth source

theorem int32Field_sized (hnumber : number.val < 16) (source : α) : (int32Field number get set).Sized source :=
  varintField_sized hnumber int32Size_eq source

end

section

variable {get : α → UInt64} {set : UInt64 → α → α}

theorem uint64Field_reads (depth : Nat) (source : α) : (uint64Field number get set).Reads depth source :=
  varintField_reads (fun _ => rfl) depth source

theorem uint64Field_sized (hnumber : number.val < 16) (source : α) : (uint64Field number get set).Sized source :=
  varintField_sized hnumber (fun v => varintSize_eq v.toNat_lt) source

end

section

variable {get : α → List UInt8} {set : List UInt8 → α → α} {source : α}

theorem stringField_reads (hsize : (get source).length ≤ maxSize) (h : isStructurallyValidUtf8 (get source) = true)
    (depth : Nat) : (stringField number get set).Reads depth source := by
  by_cases hnil : get source = []
  · exact Or.inl ⟨if_pos hnil, fun a => if_pos hnil⟩
  · refine Or.inr ⟨writeString (get source), if_neg hnil, fun a p => ?_⟩
    simp only [stringField, writeString, List.append_assoc, readDelimited_write rfl hsize, if_pos h, if_neg hnil]

theorem stringField_rejects (hsize : (get source).length ≤ maxSize)
    (h : ¬ isStructurallyValidUtf8 (get source) = true) (depth : Nat) :
    (stringField number get set).Rejects depth source := by
  have hne : get source ≠ [] := by
    intro hnil
    rw [hnil] at h
    exact h (by decide)
  refine ⟨writeString (get source), if_neg hne, fun a p => ?_⟩
  simp only [stringField, writeString, List.append_assoc, readDelimited_write rfl hsize, if_neg h]

private theorem lengthDelimitedSize_eq {n : Nat} (h : n ≤ maxSize) :
    lengthDelimitedSize n = n + (Varint.write n).length := by
  have hmax : maxSize = 2147483631 := rfl
  rw [lengthDelimitedSize, varintSize_eq (by omega)]

theorem stringField_sized (hnumber : number.val < 16) (hsize : (get source).length ≤ maxSize) :
    (stringField number get set).Sized source := by
  by_cases h : get source = []
  · simp only [FieldCodec.Sized, stringField, if_pos h, List.length_nil]
  · have htag := length_writeTag hnumber (show 2 < 8 by omega)
    simp only [FieldCodec.Sized, stringField, if_neg h, List.length_append, htag, writeString,
      lengthDelimitedSize_eq hsize]
    omega

end

section

variable {β : Type} {sub : MessageCodec β} {get : α → Option (Message β)} {set : Option (Message β) → α → α}
  {source : α}

theorem messageField_reads_none (h : get source = none) (depth : Nat) :
    (messageField number sub get set).Reads depth source := by
  refine Or.inl ⟨?_, fun a => ?_⟩
  · simp only [messageField, h]
  · simp only [messageField, h]

theorem messageField_reads {m : Message β} (h : get source = some m) {depth : Nat}
    (hfields : ∀ f ∈ sub.fields, f.Reads depth m.fields) (hunknown : sub.Unknown depth m.unknownFields)
    (hsized : sub.byteSize m = (sub.serialize m).length) (hsize : sub.byteSize m ≤ maxSize) :
    (messageField number sub get set).Reads (depth + 1) source := by
  refine Or.inr ⟨Varint.write (sub.byteSize m) ++ sub.serialize m, by simp only [messageField, h], fun a p => ?_⟩
  have hparse : ∀ m', sub.internalParse depth m' (sub.serialize m) = some (sub.mergeFrom m' m, .limit, []) := by
    intro m'
    have hserialize := sub.internalParse_serialize hfields hunknown m' []
    rw [List.append_nil, sub.internalParse_nil] at hserialize
    exact hserialize
  simp only [messageField, List.append_assoc, readDelimited_write hsized hsize, hparse, h]

theorem messageField_sized (hnumber : number.val < 16)
    (h : ∀ m, get source = some m → sub.byteSize m = (sub.serialize m).length ∧ sub.byteSize m ≤ maxSize) :
    (messageField number sub get set).Sized source := by
  cases hm : get source with
  | none => simp only [FieldCodec.Sized, messageField, hm, List.length_nil]
  | some m =>
    obtain ⟨hsized, hsize⟩ := h m hm
    have htag := length_writeTag hnumber (show 2 < 8 by omega)
    simp only [FieldCodec.Sized, messageField, hm, List.length_append, htag, lengthDelimitedSize_eq hsize, ← hsized]
    omega

end

end

end Protobuf
