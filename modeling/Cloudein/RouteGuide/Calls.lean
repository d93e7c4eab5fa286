import Cloudein.RouteGuide.Client
import Cloudein.RouteGuide.Messages
import Mathlib.Order.Interval.Set.UnorderedInterval

/-!
# The calls of the route guide client

The methods of `RouteGuideClient` against those of `RouteGuideImpl`: requests and responses travel as the texts of
their messages.  What gRPC does with the texts is a parameter (`Grpc`), and `Grpc.Parses` says what the calls rely on.
A point and a summary are always read back, a feature is exactly when its name is UTF-8, and the name comes out of the
database file, which nothing checks.
-/

namespace Cloudein.RouteGuide

open Protobuf

/-! ### Texts on a stream -/

/-- What a side gets from the synchronous API of gRPC of the texts that the other side sends, on a connection that
does not break. -/
structure Grpc where
  /-- The message of a request or a response, or that the call fails. -/
  receive : {α : Type} → MessageCodec α → List UInt8 → Option (Message α)
  /-- The messages of a stream with which `Read` returns true. -/
  read : {α : Type} → MessageCodec α → List (List UInt8) → List (Message α)

/-- The default limit for messages that are received, which neither side changes. -/
def maxReceive : Nat := 4194304

/-- The messages of the texts up to the first that is not parsed. -/
def parsedMessages {α : Type} (codec : MessageCodec α) : List (List UInt8) → List (Message α)
  | [] => []
  | text :: texts => match codec.parseFromString text with
    | none => []
    | some m => m :: parsedMessages codec texts

/-- Texts within the limit are parsed with the class of the message.  A call whose message is not parsed fails, and
`Read` returns false when its message is not. -/
structure Grpc.Parses (g : Grpc) : Prop where
  receive : ∀ {α : Type} (codec : MessageCodec α) (text : List UInt8), text.length ≤ maxReceive →
    g.receive codec text = codec.parseFromString text
  read : ∀ {α : Type} (codec : MessageCodec α) (texts : List (List UInt8)),
    (∀ text ∈ texts, text.length ≤ maxReceive) →
    g.read codec texts = parsedMessages codec texts

/-- A gRPC that does no more than `Grpc.Parses` asks. -/
def plainGrpc : Grpc := ⟨fun codec text => codec.parseFromString text, fun codec texts => parsedMessages codec texts⟩

theorem plainGrpc_parses : plainGrpc.Parses := ⟨fun _ _ _ => rfl, fun _ _ _ => rfl⟩

/-- A message without groups beyond the budget that gRPC takes. -/
def Received {α : Type} {codec : MessageCodec α} (spec : MessageSpec codec) (m : Message α) : Prop :=
  spec.NestsMessage MessageCodec.recursionLimit m ∧ codec.byteSize m ≤ maxReceive

namespace Received

variable {α : Type} {codec : MessageCodec α} {spec : MessageSpec codec} {m : Message α}

theorem fits (h : Received spec m) : spec.FitsMessage MessageCodec.recursionLimit m := by
  have hlimit : maxReceive ≤ maxSize := by decide
  exact spec.fitsMessage_of_nests h.1 (h.2.trans hlimit)

theorem length_le (h : Received spec m) : (codec.serialize m).length ≤ maxReceive := by
  rw [← spec.byteSize_eq h.fits]
  exact h.2

end Received

namespace Grpc.Parses

variable {g : Grpc} {α : Type} {codec : MessageCodec α} {spec : MessageSpec codec} (hg : g.Parses)

include hg

private theorem receive_valid {m : Message α} (h : Received spec m) (hvalid : spec.Valid m.fields) :
    g.receive codec (codec.serialize m) = some m := by
  rw [hg.receive codec _ h.length_le, spec.parseFromString_serialize h.fits hvalid]

private theorem receive_invalid {m : Message α} (h : Received spec m) (hvalid : ¬ spec.Valid m.fields) :
    g.receive codec (codec.serialize m) = none := by
  rw [hg.receive codec _ h.length_le, spec.parseFromString_serialize_invalid h.fits hvalid]

/-- The messages are read up to the first that is not valid. -/
theorem read_serialize {valid : α → Bool} (hvalid : ∀ a, valid a = true ↔ spec.Valid a) {ms : List (Message α)}
    (h : ∀ m ∈ ms, Received spec m) :
    g.read codec (ms.map codec.serialize) = ms.takeWhile fun m => valid m.fields := by
  have hlength : ∀ text ∈ ms.map codec.serialize, text.length ≤ maxReceive := by
    intro text htext
    obtain ⟨m, hm, rfl⟩ := List.mem_map.1 htext
    exact (h m hm).length_le
  rw [hg.read codec _ hlength]
  clear hlength
  induction ms with
  | nil => rfl
  | cons m ms ih =>
    obtain ⟨hm, hms⟩ := List.forall_mem_cons.1 h
    rw [List.map_cons, parsedMessages, List.takeWhile_cons]
    by_cases hv : spec.Valid m.fields
    · rw [spec.parseFromString_serialize hm.fits hv, ih hms, (hvalid m.fields).2 hv]
      rfl
    · rw [spec.parseFromString_serialize_invalid hm.fits hv,
        Bool.eq_false_iff.2 fun hm => hv ((hvalid m.fields).1 hm)]
      rfl

end Grpc.Parses

/-! ### Messages -/

/-- The bytes of a `std::string`; the parser of the database takes every byte for a character. -/
def bytes (s : List Char) : List UInt8 := s.map Char.toUInt8

/-- The message of a point, without unknown fields. -/
def Point.message (p : Point) : Message Point := ⟨p, []⟩

/-- A feature of the database, as `ParseDb` fills it. -/
def Feature.message (f : Feature) : Message Pb.Feature := ⟨⟨bytes f.name, some f.location.message⟩, []⟩

def utf8Name (f : Pb.Feature) : Bool := isStructurallyValidUtf8 f.name

private theorem point_byteSize_le (p : Point) : Pb.pointCodec.byteSize p.message ≤ 22 := by
  have hlat : scalarSize 0 int32Size p.latitude ≤ 11 := scalarSize_le (int32Size_le p.latitude)
  have hlon : scalarSize 0 int32Size p.longitude ≤ 11 := scalarSize_le (int32Size_le p.longitude)
  have hsize : Pb.pointCodec.byteSize p.message =
      scalarSize 0 int32Size p.latitude + (scalarSize 0 int32Size p.longitude + 0) + 0 := rfl
  rw [hsize]
  omega

private theorem point_nests (depth : Nat) (p : Point) : Pb.pointSpec.NestsMessage depth p.message :=
  ⟨trivial, rfl, by simp [Point.message]⟩

private theorem point_received (p : Point) : Received Pb.pointSpec p.message :=
  ⟨point_nests _ p, (point_byteSize_le p).trans (by decide)⟩

/-- A point within another message. -/
theorem point_nestsField (p : Point) : Pb.pointSpec.NestsField MessageCodec.recursionLimit (some p.message) := by
  rintro m ⟨⟩
  exact ⟨99, rfl, point_nests 99 p⟩

private theorem point_messageSize_le (p : Point) : messageSize Pb.pointCodec (some p.message) ≤ 24 := by
  have hsize := point_byteSize_le p
  have hprefix : varintSize (Pb.pointCodec.byteSize p.message) = 1 := by
    rw [varintSize_eq (by omega), Varint.write_of_lt (by omega), List.length_singleton]
  rw [messageSize, lengthDelimitedSize, hprefix]
  omega

/-- A feature within the limit of gRPC. -/
theorem feature_received {name : List UInt8} {p : Point}
    (h : Pb.featureCodec.byteSize ⟨⟨name, some p.message⟩, []⟩ ≤ maxReceive) :
    Received Pb.featureSpec ⟨⟨name, some p.message⟩, []⟩ :=
  ⟨⟨point_nestsField p, rfl, by simp⟩, h⟩

/-! ### GetFeature -/

/-- `RouteGuideImpl::GetFeature`. -/
def getFeature (features : List Feature) (point : Message Point) : Message Pb.Feature :=
  ⟨⟨bytes (getFeatureName point.fields features), some point⟩, []⟩

/-- What `GetOneFeature` prints. -/
inductive FeatureLine where
  | rpcFailed
  | incomplete
  | notFound (location : Point)
  | found (name : List UInt8) (location : Point)
deriving DecidableEq

/-- `RouteGuideClient::GetOneFeature`, with the features of the server. -/
def getOneFeature (g : Grpc) (features : List Feature) (point : Point) : FeatureLine :=
  match g.receive Pb.pointCodec (Pb.pointCodec.serialize point.message) with
  | none => .rpcFailed
  | some request => match g.receive Pb.featureCodec (Pb.featureCodec.serialize (getFeature features request)) with
    | none => .rpcFailed
    | some feature => match feature.fields.location with
      | none => .incomplete
      | some location =>
        if feature.fields.name = [] then .notFound location.fields
        else .found feature.fields.name location.fields

private theorem getOneFeature_eq {g : Grpc} (hg : g.Parses) {features : List Feature} {point : Point}
    (h : Pb.featureCodec.byteSize (getFeature features point.message) ≤ maxReceive) :
    getOneFeature g features point =
      if isStructurallyValidUtf8 (bytes (getFeatureName point features)) = true then
        if getFeatureName point features = [] then .notFound point
        else .found (bytes (getFeatureName point features)) point
      else .rpcFailed := by
  have hreceived : Received Pb.featureSpec (getFeature features point.message) := feature_received h
  rw [getOneFeature, hg.receive_valid (point_received point) trivial]
  by_cases hvalid : isStructurallyValidUtf8 (bytes (getFeatureName point features)) = true
  · have hempty : bytes (getFeatureName point features) = [] ↔ getFeatureName point features = [] :=
        List.map_eq_nil_iff
    simp only [hg.receive_valid hreceived hvalid, if_pos hvalid]
    simp only [getFeature, Point.message, hempty]
  · simp only [hg.receive_invalid hreceived hvalid, if_neg hvalid]

/-! ### ListFeatures -/

/-- The point lies in the closed rectangle with the two corners, whichever they are. -/
def Point.Within (p lo hi : Point) : Prop :=
  p.latitude.toInt ∈ Set.uIcc lo.latitude.toInt hi.latitude.toInt ∧
    p.longitude.toInt ∈ Set.uIcc lo.longitude.toInt hi.longitude.toInt

/-- The test in the loop of `ListFeatures`. -/
def inRectangle (rectangle : Pb.Rectangle) (f : Feature) : Bool :=
  let lo := (rectangle.lo.getD Pb.pointCodec.clear).fields
  let hi := (rectangle.hi.getD Pb.pointCodec.clear).fields
  let left := min lo.longitude.toInt hi.longitude.toInt
  let right := max lo.longitude.toInt hi.longitude.toInt
  let top := max lo.latitude.toInt hi.latitude.toInt
  let bottom := min lo.latitude.toInt hi.latitude.toInt
  decide (f.location.longitude.toInt ≥ left ∧ f.location.longitude.toInt ≤ right ∧
    f.location.latitude.toInt ≥ bottom ∧ f.location.latitude.toInt ≤ top)

/-- `RouteGuideImpl::ListFeatures`, with the features it writes. -/
def listFeatures (features : List Feature) (rectangle : Message Pb.Rectangle) : List (Message Pb.Feature) :=
  (features.filter (inRectangle rectangle.fields)).map Feature.message

/-- `RouteGuideClient::ListFeatures` between two corners: the features it prints. -/
def clientListFeatures (g : Grpc) (features : List Feature) (lo hi : Point) : List (Message Pb.Feature) :=
  match g.receive Pb.rectangleCodec (Pb.rectangleCodec.serialize ⟨⟨some lo.message, some hi.message⟩, []⟩) with
  | none => []
  | some rectangle => g.read Pb.featureCodec ((listFeatures features rectangle).map Pb.featureCodec.serialize)

private theorem inRectangle_iff (lo hi : Point) (f : Feature) :
    inRectangle ⟨some lo.message, some hi.message⟩ f = true ↔ f.location.Within lo hi := by
  refine decide_eq_true_iff.trans ?_
  simp only [Point.Within, Option.getD_some, Point.message, Set.uIcc, Set.mem_Icc]
  constructor
  · rintro ⟨hleft, hright, hbottom, htop⟩
    exact ⟨⟨hbottom, htop⟩, hleft, hright⟩
  · rintro ⟨⟨hbottom, htop⟩, hleft, hright⟩
    exact ⟨hleft, hright, hbottom, htop⟩

instance (p lo hi : Point) : Decidable (p.Within lo hi) :=
  inferInstanceAs (Decidable ((_ ∧ _) ∧ (_ ∧ _)))

/-- The features of a database within the limit of gRPC. -/
def Sendable (features : List Feature) : Prop := ∀ f ∈ features, Pb.featureCodec.byteSize f.message ≤ maxReceive

instance (features : List Feature) : Decidable (Sendable features) :=
  inferInstanceAs (Decidable (∀ f ∈ features, Pb.featureCodec.byteSize f.message ≤ maxReceive))

section

variable {g : Grpc} (hg : g.Parses) {features : List Feature} (h : Sendable features)

include hg h

private theorem clientListFeatures_eq (lo hi : Point) :
    clientListFeatures g features lo hi =
      ((features.filter fun f => f.location.Within lo hi).map Feature.message).takeWhile fun m =>
        utf8Name m.fields := by
  have hrectangle : Received Pb.rectangleSpec ⟨⟨some lo.message, some hi.message⟩, []⟩ := by
    refine ⟨⟨⟨point_nestsField lo, point_nestsField hi⟩, rfl, by simp⟩, ?_⟩
    have hlo := point_messageSize_le lo
    have hhi := point_messageSize_le hi
    have hsize : Pb.rectangleCodec.byteSize ⟨⟨some lo.message, some hi.message⟩, []⟩ =
        messageSize Pb.pointCodec (some lo.message) + (messageSize Pb.pointCodec (some hi.message) + 0) + 0 := rfl
    rw [hsize, maxReceive]
    omega
  have hfilter : features.filter (inRectangle ⟨some lo.message, some hi.message⟩) =
      features.filter fun f => f.location.Within lo hi := by
    refine List.filter_congr fun f _ => ?_
    rw [Bool.eq_iff_iff, inRectangle_iff, decide_eq_true_iff]
  rw [clientListFeatures, hg.receive_valid hrectangle trivial]
  simp only [listFeatures, hfilter]
  have hvalid : ∀ f : Pb.Feature, utf8Name f = true ↔ Pb.featureSpec.Valid f := fun f => Iff.rfl
  refine hg.read_serialize hvalid fun m hm => ?_
  obtain ⟨f, hf, rfl⟩ := List.mem_map.1 hm
  exact feature_received (h f (List.mem_of_mem_filter hf))

omit hg h in
private theorem Point.within_comm (p lo hi : Point) : p.Within hi lo ↔ p.Within lo hi := by
  simp only [Point.Within, Set.uIcc_comm hi.latitude.toInt, Set.uIcc_comm hi.longitude.toInt]

/-- The client prints the features of the server in the closed rectangle, in the order of the database, up to the
first whose name is not UTF-8, and it does not matter which of the corners of the rectangle are named. -/
theorem clientListFeatures_exact (lo hi : Point) :
    clientListFeatures g features lo hi =
        (((features.filter fun f => f.location.Within lo hi).map Feature.message).takeWhile fun m =>
          utf8Name m.fields) ∧
      clientListFeatures g features hi lo = clientListFeatures g features lo hi ∧
      clientListFeatures g features ⟨lo.latitude, hi.longitude⟩ ⟨hi.latitude, lo.longitude⟩ =
        clientListFeatures g features lo hi := by
  refine ⟨clientListFeatures_eq hg h lo hi, ?_, ?_⟩
  · rw [clientListFeatures_eq hg h, clientListFeatures_eq hg h]
    simp only [Point.within_comm]
  · have hother : ∀ p : Point, p.Within ⟨lo.latitude, hi.longitude⟩ ⟨hi.latitude, lo.longitude⟩ ↔ p.Within lo hi := by
      intro p
      simp only [Point.Within, Set.uIcc_comm hi.longitude.toInt]
    rw [clientListFeatures_eq hg h, clientListFeatures_eq hg h]
    simp only [hother]

end

/-- A feature with a name, one whose name is half of a character, and one without a name. -/
def samplePlaces : List Feature :=
  [⟨407838351, -746143763, "Patriots Path".toList⟩, ⟨408122808, -743999179, [Char.ofNat 0xC3]⟩, ⟨1, 2, []⟩]

private theorem samplePlaces_sendable : Sendable samplePlaces := by decide

theorem clientListFeatures_exact_samplePlaces :
    (clientListFeatures plainGrpc samplePlaces ⟨400000000, -750000000⟩ ⟨420000000, -730000000⟩).length = 1 ∧
      clientListFeatures plainGrpc samplePlaces ⟨420000000, -730000000⟩ ⟨400000000, -750000000⟩ =
        clientListFeatures plainGrpc samplePlaces ⟨400000000, -750000000⟩ ⟨420000000, -730000000⟩ := by
  obtain ⟨hlist, hcorners, -⟩ := clientListFeatures_exact plainGrpc_parses samplePlaces_sendable
    ⟨400000000, -750000000⟩ ⟨420000000, -730000000⟩
  exact ⟨by rw [hlist]; decide +kernel, hcorners⟩

/-! ### The two calls agree -/

private theorem Point.within_self_iff (p point : Point) : p.Within point point ↔ p = point := by
  simp only [Point.Within, Set.uIcc_self, Set.mem_singleton_iff, Int32.toInt_inj]
  constructor
  · rintro ⟨hlat, hlon⟩
    cases p
    cases point
    simp_all
  · rintro rfl
    exact ⟨rfl, rfl⟩

/-- The name that `GetFeatureName` finds is that of the first feature at the point. -/
theorem getFeatureName_eq_head (point : Point) (features : List Feature) :
    getFeatureName point features =
      ((features.filter fun f => f.location.Within point point).head?.map Feature.name).getD [] := by
  induction features with
  | nil => rfl
  | cons f features ih =>
    have hiff : f.location.latitude = point.latitude ∧ f.location.longitude = point.longitude ↔
        f.location.Within point point := by
      rw [Point.within_self_iff]
      constructor
      · rintro ⟨hlat, hlon⟩
        cases hf : f.location
        cases point
        simp_all
      · intro hf
        rw [hf]
        exact ⟨rfl, rfl⟩
    rw [getFeatureName]
    by_cases hwithin : f.location.Within point point
    · rw [if_pos (hiff.2 hwithin), List.filter_cons_of_pos (by simpa using hwithin)]
      rfl
    · rw [if_neg (fun hf => hwithin (hiff.1 hf)), List.filter_cons_of_neg (by simpa using hwithin), ih]

/-- What `GetFeature` answers is the first feature at the point, or one without a name. -/
theorem getFeature_eq (features : List Feature) (point : Point) :
    getFeature features point.message =
      ((features.filter fun f => f.location.Within point point).head?.map Feature.message).getD
        ⟨⟨[], some point.message⟩, []⟩ := by
  rw [getFeature]
  simp only [Point.message, getFeatureName_eq_head]
  cases hfirst : (features.filter fun f => f.location.Within point point).head? with
  | none => rfl
  | some f =>
    have hf : f.location = point :=
      (Point.within_self_iff _ _).1 (of_decide_eq_true (List.mem_filter.1 (List.mem_of_head? hfirst)).2)
    simp [Feature.message, Point.message, hf]

/-- At a point `GetOneFeature` finds what `ListFeatures` prints first in the rectangle of the point alone.  When
`ListFeatures` prints nothing, it finds no feature, or fails when there is one at the point. -/
theorem getOneFeature_exact {g : Grpc} (hg : g.Parses) {features : List Feature} (h : Sendable features)
    (point : Point) :
    getOneFeature g features point = match clientListFeatures g features point point with
      | m :: _ => if m.fields.name = [] then .notFound point else .found m.fields.name point
      | [] => if ∃ f ∈ features, f.location = point then .rpcFailed else .notFound point := by
  have hexists : (∃ f ∈ features, f.location = point) ↔
      features.filter (fun f => f.location.Within point point) ≠ [] := by
    simp [List.filter_eq_nil_iff, Point.within_self_iff]
  have hsize : Pb.featureCodec.byteSize (getFeature features point.message) ≤ maxReceive := by
    rw [getFeature_eq]
    cases hfirst : (features.filter fun f => f.location.Within point point).head? with
    | none =>
      have hpoint := point_messageSize_le point
      have hbytes : Pb.featureCodec.byteSize ⟨⟨[], some point.message⟩, []⟩ =
          stringSize [] + (messageSize Pb.pointCodec (some point.message) + 0) + 0 := rfl
      rw [Option.map_none, Option.getD_none, hbytes, stringSize, if_pos rfl, maxReceive]
      omega
    | some f => exact h f (List.mem_of_mem_filter (List.mem_of_head? hfirst))
  rw [getOneFeature_eq hg hsize, clientListFeatures_eq hg h, getFeatureName_eq_head]
  simp only [hexists]
  cases features.filter fun f => f.location.Within point point with
  | nil => rfl
  | cons f _ =>
    have hname : utf8Name f.message.fields = isStructurallyValidUtf8 (bytes f.name) := rfl
    have hempty : f.message.fields.name = [] ↔ f.name = [] := List.map_eq_nil_iff
    simp only [List.head?_cons, Option.map_some, Option.getD_some, List.map_cons, List.takeWhile_cons, hname]
    by_cases hvalid : isStructurallyValidUtf8 (bytes f.name) = true
    · simp only [hvalid, if_true, hempty]
      rfl
    · simp only [Bool.not_eq_true] at hvalid
      simp [hvalid]

theorem getOneFeature_exact_samplePlaces :
    getOneFeature plainGrpc samplePlaces ⟨408122808, -743999179⟩ = .rpcFailed := by
  have hlist : clientListFeatures plainGrpc samplePlaces ⟨408122808, -743999179⟩ ⟨408122808, -743999179⟩ = [] := by
    rw [clientListFeatures_eq plainGrpc_parses samplePlaces_sendable]
    rfl
  rw [getOneFeature_exact plainGrpc_parses samplePlaces_sendable, hlist]
  exact if_pos (by decide)

/-! ### RecordRoute -/

/-- `RecordRoute` of the server on the points that it reads.  The sum of the floats of `GetDistance`, as the field
stores it, is a parameter; nothing else depends on it. -/
def serverRecordRoute (metres : List Point → Int32) (features : List Feature) (points : List Point)
    (startTime endTime : Int) : RouteSummary :=
  let counts := points.foldl (fun counts point =>
    (counts.1 + 1, if getFeatureName point features ≠ [] then counts.2 + 1 else counts.2)) ((0, 0) : Int32 × Int32)
  ⟨counts.1, counts.2, metres points, .ofInt ((endTime - startTime).tdiv 1000000000)⟩

private theorem serverRecordRoute_eq (metres : List Point → Int32) (features : List Feature) (points : List Point)
    (startTime endTime : Int) :
    serverRecordRoute metres features points startTime endTime =
      ⟨.ofNat points.length, .ofNat (named features points), metres points,
        .ofInt ((endTime - startTime).tdiv 1000000000)⟩ := by
  have hcounts : points.foldl (fun counts point =>
      (counts.1 + 1, if getFeatureName point features ≠ [] then counts.2 + 1 else counts.2))
      ((0, 0) : Int32 × Int32) = (.ofNat points.length, .ofNat (named features points)) := by
    induction points using List.reverseRecOn with
    | nil => rfl
    | append_singleton points point ih =>
      rw [List.foldl_append, ih, List.foldl_cons, List.foldl_nil, List.length_append, List.length_singleton]
      by_cases hname : getFeatureName point features = []
      · have hcount : named features (points ++ [point]) = named features points := by simp [named, hname]
        rw [if_neg (not_not_intro hname), hcount, Int32.ofNat_add]
        rfl
      · have hcount : named features (points ++ [point]) = named features points + 1 := by simp [named, hname]
        rw [if_pos hname, hcount, Int32.ofNat_add, Int32.ofNat_add]
        rfl
  rw [serverRecordRoute, hcounts]

/-- With distances in whole metres this is the summary of `recordRoute`. -/
theorem recordRoute_eq_server (d : Distance) (features : List Feature) {points : List Point}
    (h : points.length < 2 ^ 31) (startTime endTime : Int) :
    recordRoute d features points startTime endTime =
      some (serverRecordRoute (fun points => .ofNat (travelled d points)) features points startTime endTime) := by
  rw [recordRoute_eq d features h, serverRecordRoute_eq]

namespace RouteGuideClient

variable {c : RouteGuideClient} {σ : Type}

end RouteGuideClient

/-! ### RouteChat -/

section

variable {ι : Type} [DecidableEq ι]

namespace Served

variable {es : List (ChatEvent ι)} {served : List (ι × RouteNote)} {s : Chat ι}

end Served

end

end Cloudein.RouteGuide
