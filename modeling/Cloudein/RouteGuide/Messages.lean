import Cloudein.Protobuf.MessageSpec
import Cloudein.RouteGuide.RecordRoute

/-!
# The messages of the route guide

The classes of `route_guide.pb.cc` as codecs, and what it takes for their messages to be read back: the name of a
`Feature` and the message of a `RouteNote` must be valid UTF-8, the other messages are always read back.
-/

namespace Cloudein.RouteGuide.Pb

open Protobuf

structure Rectangle where
  lo : Option (Message Point)
  hi : Option (Message Point)

structure Feature where
  name : List UInt8
  location : Option (Message Point)

structure RouteNote where
  location : Option (Message Point)
  message : List UInt8

def pointCodec : MessageCodec Point where
  default := ⟨0, 0⟩
  fields := [
    int32Field 1 Point.latitude fun v m => { m with latitude := v },
    int32Field 2 Point.longitude fun v m => { m with longitude := v }]
  distinct := by decide
  wireType_lt := by simp [int32Field, varintField]

def rectangleCodec : MessageCodec Rectangle where
  default := ⟨none, none⟩
  fields := [
    messageField 1 pointCodec Rectangle.lo fun v m => { m with lo := v },
    messageField 2 pointCodec Rectangle.hi fun v m => { m with hi := v }]
  distinct := by decide
  wireType_lt := by simp [messageField]

def featureCodec : MessageCodec Feature where
  default := ⟨[], none⟩
  fields := [
    stringField 1 Feature.name fun v m => { m with name := v },
    messageField 2 pointCodec Feature.location fun v m => { m with location := v }]
  distinct := by decide
  wireType_lt := by simp [messageField, stringField]

def routeNoteCodec : MessageCodec RouteNote where
  default := ⟨none, []⟩
  fields := [
    messageField 1 pointCodec RouteNote.location fun v m => { m with location := v },
    stringField 2 RouteNote.message fun v m => { m with message := v }]
  distinct := by decide
  wireType_lt := by simp [messageField, stringField]

def routeSummaryCodec : MessageCodec RouteSummary where
  default := ⟨0, 0, 0, 0⟩
  fields := [
    int32Field 1 RouteSummary.pointCount fun v m => { m with pointCount := v },
    int32Field 2 RouteSummary.featureCount fun v m => { m with featureCount := v },
    int32Field 3 RouteSummary.distance fun v m => { m with distance := v },
    int32Field 4 RouteSummary.elapsedTime fun v m => { m with elapsedTime := v }]
  distinct := by decide
  wireType_lt := by simp [int32Field, varintField]

/-! ### What it takes to be read back -/

def pointSpec : MessageSpec pointCodec where
  Fits _ _ := True
  Nests _ _ := True
  Valid _ := True
  reads _ _ := by
    simp only [pointCodec, List.forall_mem_cons]
    exact ⟨int32Field_reads _ _, int32Field_reads _ _, by simp⟩
  rejects _ h := absurd trivial h
  sized _ := by
    simp only [pointCodec, List.forall_mem_cons]
    exact ⟨int32Field_sized (by decide) _, int32Field_sized (by decide) _, by simp⟩
  merge_default source := by
    simp only [pointCodec, List.foldl_cons, List.foldl_nil, int32Field_merge]
  fits_default _ := trivial
  fits_of_nests _ _ := trivial
  valid_default := trivial
  declaredSize_default := rfl
  parse := by
    simp only [pointCodec, List.forall_mem_cons, MessageCodec.declaredSize, List.map_cons, List.map_nil,
      List.sum_cons, List.sum_nil, int32Field_byteSize]
    refine ⟨fun h _ _ _ => ⟨trivial, trivial, ?_⟩, fun h _ _ _ => ⟨trivial, trivial, ?_⟩, by simp⟩
    · obtain ⟨latitude, rfl, hgrow⟩ := int32Field_parse h
      exact grow_head hgrow
    · obtain ⟨longitude, rfl, hgrow⟩ := int32Field_parse h
      exact grow_tail (grow_head hgrow)

def rectangleSpec : MessageSpec rectangleCodec where
  Fits depth r := pointSpec.FitsField depth r.lo ∧ pointSpec.FitsField depth r.hi
  Nests depth r := pointSpec.NestsField depth r.lo ∧ pointSpec.NestsField depth r.hi
  Valid _ := True
  reads h _ := by
    simp only [rectangleCodec, List.forall_mem_cons]
    exact ⟨pointSpec.field_reads h.1 fun _ _ => trivial, pointSpec.field_reads h.2 fun _ _ => trivial, by simp⟩
  rejects _ h := absurd trivial h
  sized h := by
    simp only [rectangleCodec, List.forall_mem_cons]
    exact ⟨pointSpec.field_sized (by decide) h.1, pointSpec.field_sized (by decide) h.2, by simp⟩
  merge_default source := by
    simp only [rectangleCodec, List.foldl_cons, List.foldl_nil, pointSpec.field_merge]
  fits_default depth := ⟨pointSpec.fitsField_none depth, pointSpec.fitsField_none depth⟩
  fits_of_nests h hsize := by
    simp only [rectangleCodec, MessageCodec.declaredSize, List.map_cons, List.map_nil, List.sum_cons, List.sum_nil,
      messageField_byteSize] at hsize
    exact ⟨h.1.fits (by omega), h.2.fits (by omega)⟩
  valid_default := trivial
  declaredSize_default := rfl
  parse := by
    simp only [rectangleCodec, List.forall_mem_cons, MessageCodec.declaredSize, List.map_cons, List.map_nil,
      List.sum_cons, List.sum_nil, messageField_byteSize]
    refine ⟨fun h hfits _ hsize => ?_, fun h hfits _ hsize => ?_, by simp⟩
    · obtain ⟨m, rfl, hm, -, hgrow⟩ := pointSpec.field_parse h hfits.1 (fun _ _ => trivial) (le_of_head hsize)
      exact ⟨⟨hm, hfits.2⟩, trivial, grow_head hgrow⟩
    · have htail := le_of_head (le_of_tail hsize)
      obtain ⟨m, rfl, hm, -, hgrow⟩ := pointSpec.field_parse h hfits.2 (fun _ _ => trivial) htail
      exact ⟨⟨hfits.1, hm⟩, trivial, grow_tail (grow_head hgrow)⟩

def featureSpec : MessageSpec featureCodec where
  Fits depth f := f.name.length ≤ maxSize ∧ pointSpec.FitsField depth f.location
  Nests depth f := pointSpec.NestsField depth f.location
  Valid f := isStructurallyValidUtf8 f.name = true
  reads h hvalid := by
    simp only [featureCodec, List.forall_mem_cons]
    exact ⟨stringField_reads h.1 hvalid _, pointSpec.field_reads h.2 fun _ _ => trivial, by simp⟩
  rejects h hvalid := by
    simp only [featureCodec, List.forall_mem_cons]
    refine ⟨⟨Or.inr ?_, Or.inl (pointSpec.field_reads h.2 fun _ _ => trivial), by simp⟩, _, List.mem_cons_self, ?_⟩
    all_goals exact stringField_rejects h.1 hvalid _
  sized h := by
    simp only [featureCodec, List.forall_mem_cons]
    exact ⟨stringField_sized (by decide) h.1, pointSpec.field_sized (by decide) h.2, by simp⟩
  merge_default source := by
    simp only [featureCodec, List.foldl_cons, List.foldl_nil, stringField_merge, pointSpec.field_merge]
  fits_default depth := ⟨Nat.zero_le _, pointSpec.fitsField_none depth⟩
  fits_of_nests h hsize := by
    simp only [featureCodec, MessageCodec.declaredSize, List.map_cons, List.map_nil, List.sum_cons, List.sum_nil,
      messageField_byteSize, stringField_byteSize] at hsize
    exact ⟨length_le_of_stringSize (by omega), h.fits (by omega)⟩
  valid_default := by decide
  declaredSize_default := rfl
  parse := by
    simp only [featureCodec, List.forall_mem_cons, MessageCodec.declaredSize, List.map_cons, List.map_nil,
      List.sum_cons, List.sum_nil, messageField_byteSize, stringField_byteSize]
    refine ⟨fun h hfits _ hsize => ?_, fun h hfits hvalid hsize => ?_, by simp⟩
    · obtain ⟨name, rfl, hname, hmax, hgrow⟩ := stringField_parse h
      exact ⟨⟨hmax, hfits.2⟩, hname, grow_head hgrow⟩
    · have htail := le_of_head (le_of_tail hsize)
      obtain ⟨m, rfl, hm, -, hgrow⟩ := pointSpec.field_parse h hfits.2 (fun _ _ => trivial) htail
      exact ⟨⟨hfits.1, hm⟩, hvalid, grow_tail (grow_head hgrow)⟩

def routeNoteSpec : MessageSpec routeNoteCodec where
  Fits depth n := pointSpec.FitsField depth n.location ∧ n.message.length ≤ maxSize
  Nests depth n := pointSpec.NestsField depth n.location
  Valid n := isStructurallyValidUtf8 n.message = true
  reads h hvalid := by
    simp only [routeNoteCodec, List.forall_mem_cons]
    exact ⟨pointSpec.field_reads h.1 fun _ _ => trivial, stringField_reads h.2 hvalid _, by simp⟩
  rejects h hvalid := by
    simp only [routeNoteCodec, List.forall_mem_cons]
    refine ⟨⟨Or.inl (pointSpec.field_reads h.1 fun _ _ => trivial), Or.inr ?_, by simp⟩, _,
      List.mem_cons_of_mem _ List.mem_cons_self, ?_⟩
    all_goals exact stringField_rejects h.2 hvalid _
  sized h := by
    simp only [routeNoteCodec, List.forall_mem_cons]
    exact ⟨pointSpec.field_sized (by decide) h.1, stringField_sized (by decide) h.2, by simp⟩
  merge_default source := by
    simp only [routeNoteCodec, List.foldl_cons, List.foldl_nil, stringField_merge, pointSpec.field_merge]
  fits_default depth := ⟨pointSpec.fitsField_none depth, Nat.zero_le _⟩
  fits_of_nests h hsize := by
    simp only [routeNoteCodec, MessageCodec.declaredSize, List.map_cons, List.map_nil, List.sum_cons, List.sum_nil,
      messageField_byteSize, stringField_byteSize] at hsize
    exact ⟨h.fits (by omega), length_le_of_stringSize (by omega)⟩
  valid_default := by decide
  declaredSize_default := rfl
  parse := by
    simp only [routeNoteCodec, List.forall_mem_cons, MessageCodec.declaredSize, List.map_cons, List.map_nil,
      List.sum_cons, List.sum_nil, messageField_byteSize, stringField_byteSize]
    refine ⟨fun h hfits hvalid hsize => ?_, fun h hfits _ hsize => ?_, by simp⟩
    · obtain ⟨m, rfl, hm, -, hgrow⟩ := pointSpec.field_parse h hfits.1 (fun _ _ => trivial) (le_of_head hsize)
      exact ⟨⟨hm, hfits.2⟩, hvalid, grow_head hgrow⟩
    · obtain ⟨message, rfl, hmessage, hmax, hgrow⟩ := stringField_parse h
      exact ⟨⟨hfits.1, hmax⟩, hmessage, grow_tail (grow_head hgrow)⟩

def routeSummarySpec : MessageSpec routeSummaryCodec where
  Fits _ _ := True
  Nests _ _ := True
  Valid _ := True
  reads _ _ := by
    simp only [routeSummaryCodec, List.forall_mem_cons]
    exact ⟨int32Field_reads _ _, int32Field_reads _ _, int32Field_reads _ _, int32Field_reads _ _, by simp⟩
  rejects _ h := absurd trivial h
  sized _ := by
    simp only [routeSummaryCodec, List.forall_mem_cons]
    exact ⟨int32Field_sized (by decide) _, int32Field_sized (by decide) _, int32Field_sized (by decide) _,
      int32Field_sized (by decide) _, by simp⟩
  merge_default source := by
    simp only [routeSummaryCodec, List.foldl_cons, List.foldl_nil, int32Field_merge]
  fits_default _ := trivial
  fits_of_nests _ _ := trivial
  valid_default := trivial
  declaredSize_default := rfl
  parse := by
    simp only [routeSummaryCodec, List.forall_mem_cons, MessageCodec.declaredSize, List.map_cons, List.map_nil,
      List.sum_cons, List.sum_nil, int32Field_byteSize]
    refine ⟨fun h _ _ _ => ⟨trivial, trivial, ?_⟩, fun h _ _ _ => ⟨trivial, trivial, ?_⟩,
      fun h _ _ _ => ⟨trivial, trivial, ?_⟩, fun h _ _ _ => ⟨trivial, trivial, ?_⟩, by simp⟩
    · obtain ⟨pointCount, rfl, hgrow⟩ := int32Field_parse h
      exact grow_head hgrow
    · obtain ⟨featureCount, rfl, hgrow⟩ := int32Field_parse h
      exact grow_tail (grow_head hgrow)
    · obtain ⟨distance, rfl, hgrow⟩ := int32Field_parse h
      exact grow_tail (grow_tail (grow_head hgrow))
    · obtain ⟨elapsedTime, rfl, hgrow⟩ := int32Field_parse h
      exact grow_tail (grow_tail (grow_tail (grow_head hgrow)))

end Cloudein.RouteGuide.Pb
