import Cloudein.Protobuf.MessageSpec
import Cloudein.Session.Common

/-!
# The messages of the session services

The classes of `CloudeinAPI.pb.cc` as codecs, and what it takes for their messages to be read back: every string must
be valid UTF-8.
-/

namespace Cloudein.Pb

open Protobuf

structure Request where
  region : List UInt8
  txName : List UInt8

structure Response where
  region : List UInt8

structure AllocateResponse where
  region : List UInt8
  allocatePort1 : UInt64
  allocatePort2 : UInt64
  allocatePort3 : UInt64
  allocatePort4 : UInt64
  allocatePort5 : UInt64

structure OperationRequest where
  region : List UInt8
  txIp : List UInt8
  operationType : Int32

/-- `AllocateRequest` to `AuthFailRequest`: the ten classes have the same fields. -/
def requestCodec : MessageCodec Request where
  default := ⟨[], []⟩
  fields := [
    stringField 1 Request.region fun v m => { m with region := v },
    stringField 2 Request.txName fun v m => { m with txName := v }]
  distinct := by decide
  wireType_lt := by simp [stringField]

/-- `PrepareResponse` to `AuthFailResponse`, and `OperationResponse`. -/
def responseCodec : MessageCodec Response where
  default := ⟨[]⟩
  fields := [stringField 1 Response.region fun v _ => ⟨v⟩]
  distinct := by decide
  wireType_lt := by simp [stringField]

def allocateResponseCodec : MessageCodec AllocateResponse where
  default := ⟨[], 0, 0, 0, 0, 0⟩
  fields := [
    stringField 1 AllocateResponse.region fun v m => { m with region := v },
    uint64Field 11 AllocateResponse.allocatePort1 fun v m => { m with allocatePort1 := v },
    uint64Field 12 AllocateResponse.allocatePort2 fun v m => { m with allocatePort2 := v },
    uint64Field 13 AllocateResponse.allocatePort3 fun v m => { m with allocatePort3 := v },
    uint64Field 14 AllocateResponse.allocatePort4 fun v m => { m with allocatePort4 := v },
    uint64Field 15 AllocateResponse.allocatePort5 fun v m => { m with allocatePort5 := v }]
  distinct := by decide
  wireType_lt := by simp [stringField, uint64Field, varintField]

def operationRequestCodec : MessageCodec OperationRequest where
  default := ⟨[], [], 0⟩
  fields := [
    stringField 1 OperationRequest.region fun v m => { m with region := v },
    stringField 2 OperationRequest.txIp fun v m => { m with txIp := v },
    int32Field 3 OperationRequest.operationType fun v m => { m with operationType := v }]
  distinct := by decide
  wireType_lt := by simp [stringField, int32Field, varintField]

/-! ### What it takes to be read back -/

/-- Two strings in front of other fields. -/
theorem stringFields_fit {s s' : List UInt8} {n : Nat} (h : stringSize s + (stringSize s' + n) ≤ maxSize) :
    s.length ≤ maxSize ∧ s'.length ≤ maxSize := by
  have hfirst : stringSize s ≤ maxSize := by omega
  have hsecond : stringSize s' ≤ maxSize := by omega
  exact ⟨length_le_of_stringSize hfirst, length_le_of_stringSize hsecond⟩

/-- One of two strings that is not valid is rejected, and the other one is read or rejected. -/
theorem stringFields_reject {α : Type} {number number' : FieldNumber} {get get' : α → List UInt8}
    {set set' : List UInt8 → α → α} {a : α} (hsize : (get a).length ≤ maxSize) (hsize' : (get' a).length ≤ maxSize)
    (h : ¬ (isStructurallyValidUtf8 (get a) = true ∧ isStructurallyValidUtf8 (get' a) = true)) (depth : Nat) :
    ((stringField number get set).Reads depth a ∨ (stringField number get set).Rejects depth a) ∧
      ((stringField number' get' set').Reads depth a ∨ (stringField number' get' set').Rejects depth a) ∧
      ((stringField number get set).Rejects depth a ∨ (stringField number' get' set').Rejects depth a) := by
  by_cases hv : isStructurallyValidUtf8 (get a) = true
  · have hv' : ¬ isStructurallyValidUtf8 (get' a) = true := fun hv' => h ⟨hv, hv'⟩
    have hrej : (stringField number' get' set').Rejects depth a := stringField_rejects hsize' hv' depth
    exact ⟨Or.inl (stringField_reads hsize hv depth), Or.inr hrej, Or.inr hrej⟩
  · have hrej : (stringField number get set).Rejects depth a := stringField_rejects hsize hv depth
    refine ⟨Or.inr hrej, ?_, Or.inl hrej⟩
    by_cases hv' : isStructurallyValidUtf8 (get' a) = true
    · exact Or.inl (stringField_reads hsize' hv' depth)
    · exact Or.inr (stringField_rejects hsize' hv' depth)

def requestSpec : MessageSpec requestCodec where
  Fits _ r := r.region.length ≤ maxSize ∧ r.txName.length ≤ maxSize
  Nests _ _ := True
  Valid r := isStructurallyValidUtf8 r.region = true ∧ isStructurallyValidUtf8 r.txName = true
  reads h hvalid := by
    simp only [requestCodec, List.forall_mem_cons]
    exact ⟨stringField_reads h.1 hvalid.1 _, stringField_reads h.2 hvalid.2 _, by simp⟩
  rejects h hvalid := by
    simp only [requestCodec, List.forall_mem_cons]
    obtain ⟨hregion, htxName, hbad⟩ := stringFields_reject h.1 h.2 hvalid _
    exact ⟨⟨hregion, htxName, by simp⟩, hbad.elim (fun hrej => ⟨_, List.mem_cons_self, hrej⟩)
      fun hrej => ⟨_, List.mem_cons_of_mem _ List.mem_cons_self, hrej⟩⟩
  sized h := by
    simp only [requestCodec, List.forall_mem_cons]
    exact ⟨stringField_sized (by decide) h.1, stringField_sized (by decide) h.2, by simp⟩
  merge_default source := by
    simp only [requestCodec, List.foldl_cons, List.foldl_nil, stringField_merge]
  fits_default _ := ⟨Nat.zero_le _, Nat.zero_le _⟩
  fits_of_nests h hsize := by
    simp only [requestCodec, MessageCodec.declaredSize, List.map_cons, List.map_nil, List.sum_cons, List.sum_nil,
      stringField_byteSize] at hsize
    exact stringFields_fit hsize
  valid_default := by decide
  declaredSize_default := rfl
  parse := by
    simp only [requestCodec, List.forall_mem_cons, MessageCodec.declaredSize, List.map_cons, List.map_nil,
      List.sum_cons, List.sum_nil, stringField_byteSize]
    refine ⟨fun h hfits hvalid hsize => ?_, fun h hfits hvalid hsize => ?_, by simp⟩
    · obtain ⟨region, rfl, hregion, hmax, hgrow⟩ := stringField_parse h
      exact ⟨⟨hmax, hfits.2⟩, ⟨hregion, hvalid.2⟩, grow_head hgrow⟩
    · obtain ⟨txName, rfl, htxName, hmax, hgrow⟩ := stringField_parse h
      exact ⟨⟨hfits.1, hmax⟩, ⟨hvalid.1, htxName⟩, grow_tail (grow_head hgrow)⟩

def responseSpec : MessageSpec responseCodec where
  Fits _ r := r.region.length ≤ maxSize
  Nests _ _ := True
  Valid r := isStructurallyValidUtf8 r.region = true
  reads h hvalid := by
    simp only [responseCodec, List.forall_mem_cons]
    exact ⟨stringField_reads h hvalid _, by simp⟩
  rejects h hvalid := by
    simp only [responseCodec, List.forall_mem_cons]
    exact ⟨⟨Or.inr (stringField_rejects h hvalid _), by simp⟩, _, List.mem_cons_self, stringField_rejects h hvalid _⟩
  sized h := by
    simp only [responseCodec, List.forall_mem_cons]
    exact ⟨stringField_sized (by decide) h, by simp⟩
  merge_default source := by
    simp only [responseCodec, List.foldl_cons, List.foldl_nil, stringField_merge]
  fits_default _ := Nat.zero_le _
  fits_of_nests h hsize := by
    simp only [responseCodec, MessageCodec.declaredSize, List.map_cons, List.map_nil, List.sum_cons, List.sum_nil,
      stringField_byteSize] at hsize
    exact length_le_of_stringSize (by omega)
  valid_default := by decide
  declaredSize_default := rfl
  parse := by
    simp only [responseCodec, List.forall_mem_cons, MessageCodec.declaredSize, List.map_cons, List.map_nil,
      List.sum_cons, List.sum_nil, stringField_byteSize]
    refine ⟨fun h _ _ _ => ?_, by simp⟩
    obtain ⟨region, rfl, hregion, hmax, hgrow⟩ := stringField_parse h
    exact ⟨hmax, hregion, grow_head hgrow⟩

def allocateResponseSpec : MessageSpec allocateResponseCodec where
  Fits _ r := r.region.length ≤ maxSize
  Nests _ _ := True
  Valid r := isStructurallyValidUtf8 r.region = true
  reads h hvalid := by
    simp only [allocateResponseCodec, List.forall_mem_cons]
    exact ⟨stringField_reads h hvalid _, uint64Field_reads _ _, uint64Field_reads _ _, uint64Field_reads _ _,
      uint64Field_reads _ _, uint64Field_reads _ _, by simp⟩
  rejects h hvalid := by
    simp only [allocateResponseCodec, List.forall_mem_cons]
    exact ⟨⟨Or.inr (stringField_rejects h hvalid _), Or.inl (uint64Field_reads _ _), Or.inl (uint64Field_reads _ _),
      Or.inl (uint64Field_reads _ _), Or.inl (uint64Field_reads _ _), Or.inl (uint64Field_reads _ _), by simp⟩, _,
      List.mem_cons_self, stringField_rejects h hvalid _⟩
  sized h := by
    simp only [allocateResponseCodec, List.forall_mem_cons]
    exact ⟨stringField_sized (by decide) h, uint64Field_sized (by decide) _, uint64Field_sized (by decide) _,
      uint64Field_sized (by decide) _, uint64Field_sized (by decide) _, uint64Field_sized (by decide) _, by simp⟩
  merge_default source := by
    simp only [allocateResponseCodec, List.foldl_cons, List.foldl_nil, stringField_merge, uint64Field_merge]
  fits_default _ := Nat.zero_le _
  fits_of_nests h hsize := by
    simp only [allocateResponseCodec, MessageCodec.declaredSize, List.map_cons, List.map_nil,
      List.sum_cons, List.sum_nil, stringField_byteSize] at hsize
    exact length_le_of_stringSize (by omega)
  valid_default := by decide
  declaredSize_default := rfl
  parse := by
    simp only [allocateResponseCodec, List.forall_mem_cons, MessageCodec.declaredSize, List.map_cons, List.map_nil,
      List.sum_cons, List.sum_nil, stringField_byteSize, uint64Field_byteSize]
    refine ⟨fun h _ _ _ => ?_, fun h hfits hvalid _ => ?_, fun h hfits hvalid _ => ?_, fun h hfits hvalid _ => ?_,
      fun h hfits hvalid _ => ?_, fun h hfits hvalid _ => ?_, by simp⟩
    · obtain ⟨region, rfl, hregion, hmax, hgrow⟩ := stringField_parse h
      exact ⟨hmax, hregion, grow_head hgrow⟩
    · obtain ⟨port, rfl, hgrow⟩ := uint64Field_parse h
      exact ⟨hfits, hvalid, grow_tail (grow_head hgrow)⟩
    · obtain ⟨port, rfl, hgrow⟩ := uint64Field_parse h
      exact ⟨hfits, hvalid, grow_tail (grow_tail (grow_head hgrow))⟩
    · obtain ⟨port, rfl, hgrow⟩ := uint64Field_parse h
      exact ⟨hfits, hvalid, grow_tail (grow_tail (grow_tail (grow_head hgrow)))⟩
    · obtain ⟨port, rfl, hgrow⟩ := uint64Field_parse h
      exact ⟨hfits, hvalid, grow_tail (grow_tail (grow_tail (grow_tail (grow_head hgrow))))⟩
    · obtain ⟨port, rfl, hgrow⟩ := uint64Field_parse h
      exact ⟨hfits, hvalid, grow_tail (grow_tail (grow_tail (grow_tail (grow_tail (grow_head hgrow)))))⟩

def operationRequestSpec : MessageSpec operationRequestCodec where
  Fits _ r := r.region.length ≤ maxSize ∧ r.txIp.length ≤ maxSize
  Nests _ _ := True
  Valid r := isStructurallyValidUtf8 r.region = true ∧ isStructurallyValidUtf8 r.txIp = true
  reads h hvalid := by
    simp only [operationRequestCodec, List.forall_mem_cons]
    exact ⟨stringField_reads h.1 hvalid.1 _, stringField_reads h.2 hvalid.2 _, int32Field_reads _ _, by simp⟩
  rejects h hvalid := by
    simp only [operationRequestCodec, List.forall_mem_cons]
    obtain ⟨hregion, htxIp, hbad⟩ := stringFields_reject h.1 h.2 hvalid _
    exact ⟨⟨hregion, htxIp, Or.inl (int32Field_reads _ _), by simp⟩,
      hbad.elim (fun hrej => ⟨_, List.mem_cons_self, hrej⟩)
        fun hrej => ⟨_, List.mem_cons_of_mem _ List.mem_cons_self, hrej⟩⟩
  sized h := by
    simp only [operationRequestCodec, List.forall_mem_cons]
    exact ⟨stringField_sized (by decide) h.1, stringField_sized (by decide) h.2, int32Field_sized (by decide) _,
      by simp⟩
  merge_default source := by
    simp only [operationRequestCodec, List.foldl_cons, List.foldl_nil, stringField_merge, int32Field_merge]
  fits_default _ := ⟨Nat.zero_le _, Nat.zero_le _⟩
  fits_of_nests h hsize := by
    simp only [operationRequestCodec, MessageCodec.declaredSize, List.map_cons, List.map_nil,
      List.sum_cons, List.sum_nil, stringField_byteSize] at hsize
    exact stringFields_fit hsize
  valid_default := by decide
  declaredSize_default := rfl
  parse := by
    simp only [operationRequestCodec, List.forall_mem_cons, MessageCodec.declaredSize, List.map_cons, List.map_nil,
      List.sum_cons, List.sum_nil, stringField_byteSize, int32Field_byteSize]
    refine ⟨fun h hfits hvalid _ => ?_, fun h hfits hvalid _ => ?_, fun h hfits hvalid _ => ?_, by simp⟩
    · obtain ⟨region, rfl, hregion, hmax, hgrow⟩ := stringField_parse h
      exact ⟨⟨hmax, hfits.2⟩, ⟨hregion, hvalid.2⟩, grow_head hgrow⟩
    · obtain ⟨txIp, rfl, htxIp, hmax, hgrow⟩ := stringField_parse h
      exact ⟨⟨hfits.1, hmax⟩, ⟨hvalid.1, htxIp⟩, grow_tail (grow_head hgrow)⟩
    · obtain ⟨type, rfl, hgrow⟩ := int32Field_parse h
      exact ⟨hfits, hvalid, grow_tail (grow_tail (grow_head hgrow))⟩

end Cloudein.Pb
