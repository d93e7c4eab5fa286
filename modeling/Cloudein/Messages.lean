import Cloudein.RouteGuide.Messages
import Cloudein.Session.Messages

/-!
# The generated messages

The message classes of `route_guide.pb.cc` and `CloudeinAPI.pb.cc`, and what holds for all of them: the text of a
message is parsed to the message when its strings are UTF-8 and rejected otherwise, a text behind an accepted one is
merged into what was parsed, and a message that was parsed can be sent on.
-/

namespace Cloudein

open Protobuf

inductive MessageType where
  | point
  | rectangle
  | feature
  | routeNote
  | routeSummary
  /-- The ten classes `AllocateRequest` to `AuthFailRequest`. -/
  | request
  | allocateResponse
  /-- The nine classes `PrepareResponse` to `AuthFailResponse`, and `OperationResponse`. -/
  | response
  | operationRequest

namespace MessageType

/-- The declared fields. -/
def Fields : MessageType → Type
  | point => RouteGuide.Point
  | rectangle => RouteGuide.Pb.Rectangle
  | feature => RouteGuide.Pb.Feature
  | routeNote => RouteGuide.Pb.RouteNote
  | routeSummary => RouteGuide.RouteSummary
  | request => Pb.Request
  | allocateResponse => Pb.AllocateResponse
  | response => Pb.Response
  | operationRequest => Pb.OperationRequest

def codec : (t : MessageType) → MessageCodec t.Fields
  | point => RouteGuide.Pb.pointCodec
  | rectangle => RouteGuide.Pb.rectangleCodec
  | feature => RouteGuide.Pb.featureCodec
  | routeNote => RouteGuide.Pb.routeNoteCodec
  | routeSummary => RouteGuide.Pb.routeSummaryCodec
  | request => Pb.requestCodec
  | allocateResponse => Pb.allocateResponseCodec
  | response => Pb.responseCodec
  | operationRequest => Pb.operationRequestCodec

def spec : (t : MessageType) → MessageSpec t.codec
  | point => RouteGuide.Pb.pointSpec
  | rectangle => RouteGuide.Pb.rectangleSpec
  | feature => RouteGuide.Pb.featureSpec
  | routeNote => RouteGuide.Pb.routeNoteSpec
  | routeSummary => RouteGuide.Pb.routeSummarySpec
  | request => Pb.requestSpec
  | allocateResponse => Pb.allocateResponseSpec
  | response => Pb.responseSpec
  | operationRequest => Pb.operationRequestSpec

/-- The strings of a message. -/
def strings : (t : MessageType) → t.Fields → List (List UInt8)
  | point, _ => []
  | rectangle, _ => []
  | feature, f => [RouteGuide.Pb.Feature.name f]
  | routeNote, n => [RouteGuide.Pb.RouteNote.message n]
  | routeSummary, _ => []
  | request, r => [Pb.Request.region r, Pb.Request.txName r]
  | allocateResponse, r => [Pb.AllocateResponse.region r]
  | response, r => [Pb.Response.region r]
  | operationRequest, r => [Pb.OperationRequest.region r, Pb.OperationRequest.txIp r]

/-- A text in UTF-8. -/
def IsUtf8 (s : List UInt8) : Prop := ∃ cs : List Char, s = cs.flatMap String.utf8EncodeChar

theorem valid_iff (t : MessageType) (a : t.Fields) : t.spec.Valid a ↔ ∀ s ∈ t.strings a, IsUtf8 s := by
  simp only [IsUtf8, ← isStructurallyValidUtf8_iff]
  cases t with
  | point => simp [spec, strings, RouteGuide.Pb.pointSpec]
  | rectangle => simp [spec, strings, RouteGuide.Pb.rectangleSpec]
  | feature => simp [spec, strings, RouteGuide.Pb.featureSpec]
  | routeNote => simp [spec, strings, RouteGuide.Pb.routeNoteSpec]
  | routeSummary => simp [spec, strings, RouteGuide.Pb.routeSummarySpec]
  | request => simp [spec, strings, Pb.requestSpec]
  | allocateResponse => simp [spec, strings, Pb.allocateResponseSpec]
  | response => simp [spec, strings, Pb.responseSpec]
  | operationRequest => simp [spec, strings, Pb.operationRequestSpec]

variable (t : MessageType)

/-- A message that is no longer than a size may be is written, and its text is parsed to the message exactly when its
strings are UTF-8, and is rejected otherwise. -/
theorem parse_serialize {m : Message t.Fields} (h : t.spec.NestsMessage MessageCodec.recursionLimit m)
    (hsize : t.codec.byteSize m ≤ maxSize) :
    ∃ text, t.codec.serializeToString m = some text ∧
      (t.codec.parseFromString text = some m ↔ ∀ s ∈ t.strings m.fields, IsUtf8 s) ∧
      (t.codec.parseFromString text = none ↔ ¬ ∀ s ∈ t.strings m.fields, IsUtf8 s) := by
  have hfits := t.spec.fitsMessage_of_nests h hsize
  rw [← t.valid_iff]
  refine ⟨t.codec.serialize m, MessageCodec.serializeToString_eq hsize,
    t.spec.parseFromString_serialize_iff hfits, ?_, t.spec.parseFromString_serialize_invalid hfits⟩
  intro hnone hvalid
  rw [t.spec.parseFromString_serialize hfits hvalid] at hnone
  cases hnone

/-- A note at a point, with a group that the message does not know. -/
def sampleNote : Message RouteGuide.Pb.RouteNote :=
  ⟨⟨some ⟨⟨407838351, -746143763⟩, []⟩, [0xED, 0x95, 0x9C]⟩, [.group 15 [.varint 1 300]]⟩

private theorem sampleNote_nests : routeNote.spec.NestsMessage MessageCodec.recursionLimit sampleNote := by
  refine ⟨?_, rfl, by simp [sampleNote, UnknownField.tag]; decide⟩
  rintro m ⟨⟩
  exact ⟨99, rfl, trivial, rfl, by simp⟩

theorem parse_serialize_sampleNote :
    ∃ text, routeNote.codec.serializeToString sampleNote = some text ∧
      (routeNote.codec.parseFromString text = some sampleNote ↔ ∀ s ∈ routeNote.strings sampleNote.fields, IsUtf8 s) ∧
      (routeNote.codec.parseFromString text = none ↔ ¬ ∀ s ∈ routeNote.strings sampleNote.fields, IsUtf8 s) :=
  routeNote.parse_serialize sampleNote_nests (by decide)

/-- Behind a text that is accepted, the text of a message is merged into what was parsed, as long as both together are
no longer than a size may be. -/
theorem parse_append_serialize {p : List UInt8} {m source : Message t.Fields}
    (hp : t.codec.parseFromString p = some m) (h : t.spec.NestsMessage MessageCodec.recursionLimit source)
    (hsize : p.length + t.codec.byteSize source ≤ maxSize) (hutf : ∀ s ∈ t.strings source.fields, IsUtf8 s) :
    ∃ text, t.codec.serializeToString source = some text ∧
      t.codec.parseFromString (p ++ text) = some (t.codec.mergeFrom m source) := by
  have hsource : t.codec.byteSize source ≤ maxSize := Nat.le_of_add_left_le hsize
  exact ⟨_, MessageCodec.serializeToString_eq hsource,
    t.spec.parseFromString_append hp (t.spec.fitsMessage_of_nests h hsource) ((t.valid_iff source.fields).2 hutf)⟩

theorem parse_append_serialize_sampleNote :
    ∃ text, routeNote.codec.serializeToString sampleNote = some text ∧
      routeNote.codec.parseFromString ([0x12, 0x01, 0x41] ++ text) =
        some (routeNote.codec.mergeFrom ⟨⟨none, [0x41]⟩, []⟩ sampleNote) := by
  have hutf : ∀ s ∈ routeNote.strings sampleNote.fields, IsUtf8 s := by
    intro s hs
    rw [List.mem_singleton.1 hs]
    exact ⟨['한'], by decide⟩
  exact routeNote.parse_append_serialize (p := [0x12, 0x01, 0x41]) rfl sampleNote_nests (by decide) hutf

/-- A message that was parsed is written, sizes and unknown fields included, as a text that is parsed to the same
message.  The text written can be longer than the one that was parsed, but not by more than a factor of 16. -/
theorem parse_serialize_of_parse {p : List UInt8} {m : Message t.Fields} (h : t.codec.parseFromString p = some m)
    (hp : 16 * p.length ≤ maxSize) :
    ∃ text, t.codec.serializeToString m = some text ∧ t.codec.parseFromString text = some m ∧
      text.length ≤ 16 * p.length := by
  obtain ⟨-, -, hsize⟩ := t.spec.parseFromString_fits h hp
  exact ⟨_, MessageCodec.serializeToString_eq (hsize.trans hp), t.spec.reparse h hp, t.spec.length_serialize_le h hp⟩

/-- A size that takes a byte more than it needs. -/
theorem parse_serialize_of_parse_long_size :
    ∃ text, routeNote.codec.serializeToString ⟨⟨none, [0x41]⟩, []⟩ = some text ∧
      routeNote.codec.parseFromString text = some ⟨⟨none, [0x41]⟩, []⟩ ∧
      text.length ≤ 16 * [0x12, 0x81, 0x00, (0x41 : UInt8)].length :=
  routeNote.parse_serialize_of_parse (p := [0x12, 0x81, 0x00, 0x41]) rfl (by decide)

end MessageType

end Cloudein
