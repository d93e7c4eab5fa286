import Cloudein.Lib.StreamLoop
import Cloudein.RouteGuide.Chat
import Cloudein.RouteGuide.Helper
import Mathlib.Algebra.Order.BigOperators.Group.List
import Mathlib.Algebra.Order.Ring.Nat
import Mathlib.Algebra.Group.Action.Defs

/-!
# The summary of a route

`RecordRoute` reads points to the end of the stream.  It counts them, counts those at which a feature of the database
has a name, and adds up the distances between neighbours; the first point has none before it.  `GetDistance` is taken
as any function to whole metres up to half the circumference of the earth, and the sum as exact.  The sum is narrowed
into a field of 32 bits at the end, and no other step of the loop can lose anything.
-/

namespace Cloudein.RouteGuide

open StreamLoop

/-- `Feature::location`. -/
def Feature.location (f : Feature) : Point := ⟨f.latitude, f.longitude⟩

/-- The name of the first feature at the point, empty when there is none. -/
def getFeatureName (point : Point) : List Feature → List Char
  | [] => []
  | f :: features =>
    if f.location.latitude = point.latitude ∧ f.location.longitude = point.longitude then f.name
    else getFeatureName point features

/-- `GetDistance`, in whole metres. -/
structure Distance where
  getDistance : Point → Point → Nat
  le_halfCircumference : ∀ start stop, getDistance start stop ≤ 20015087

structure RouteSummary where
  pointCount : Int32
  featureCount : Int32
  distance : Int32
  elapsedTime : Int32
deriving DecidableEq, Repr

/-- The variables of the loop of `RecordRoute`.  A counter wraps here where the source leaves the behaviour undefined,
which takes a stream of `2 ^ 31` points. -/
structure Trip where
  pointCount : Int32
  featureCount : Int32
  distance : Nat
  previous : Point

def Trip.start : Trip := ⟨0, 0, 0, ⟨0, 0⟩⟩

/-- The body of the loop, on a point that `Read` delivered. -/
def Trip.visit (d : Distance) (features : List Feature) (t : Trip) (point : Point) : Trip :=
  let pointCount := t.pointCount + 1
  { pointCount := pointCount
    featureCount := if getFeatureName point features ≠ [] then t.featureCount + 1 else t.featureCount
    distance := if pointCount ≠ 1 then t.distance + d.getDistance t.previous point else t.distance
    previous := point }

/-- `static_cast<long>(distance)`, which is undefined when the value is no `long`. -/
def toLong (distance : Nat) : Option Int64 := if distance < 2 ^ 63 then some (.ofNat distance) else none

/-- `RecordRoute` on the points of a stream, with the clock before and after the loop in nanoseconds. -/
def recordRoute (d : Distance) (features : List Feature) (points : List Point) (startTime endTime : Int) :
    Option RouteSummary :=
  let t := points.foldl (Trip.visit d features) .start
  (toLong t.distance).map fun distance =>
    ⟨t.pointCount, t.featureCount, distance.toInt32, .ofInt ((endTime - startTime).tdiv 1000000000)⟩

/-- The sum of the distances between neighbours. -/
def travelled (d : Distance) (points : List Point) : Nat :=
  ((consecutive points).map fun leg => d.getDistance leg.1 leg.2).sum

/-- The points at which a feature has a name. -/
def named (features : List Feature) (points : List Point) : Nat :=
  points.countP fun point => getFeatureName point features ≠ []

/-- The summary has the numbers of the stream. -/
structure RouteSummary.Exact (d : Distance) (features : List Feature) (points : List Point) (s : RouteSummary) :
    Prop where
  pointCount : s.pointCount.toInt = points.length
  featureCount : s.featureCount.toInt = named features points
  distance : s.distance.toInt = travelled d points

variable {d : Distance} {features : List Feature}

/-! ### The loop -/

private theorem travelled_concat {points : List Point} {previous : Point} (h : points.getLast? = some previous)
    (point : Point) : travelled d (points ++ [point]) = travelled d points + d.getDistance previous point := by
  unfold travelled
  rw [consecutive_concat h]
  simp

private theorem travelled_le (d : Distance) (points : List Point) :
    travelled d points ≤ (points.length - 1) * 20015087 := by
  have hlegs : ∀ m ∈ (consecutive points).map fun leg => d.getDistance leg.1 leg.2, m ≤ 20015087 := by
    intro m hm
    obtain ⟨leg, -, rfl⟩ := List.mem_map.1 hm
    exact d.le_halfCircumference leg.1 leg.2
  have hsum := List.sum_le_card_nsmul _ _ hlegs
  rwa [List.length_map, length_consecutive, smul_eq_mul] at hsum

/-- The test `point_count != 1` tells the first point from the others. -/
theorem ofNat_add_one_eq_one {n : Nat} (hn : n + 1 < 2 ^ 31) : Int32.ofNat (n + 1) = 1 ↔ n = 0 := by
  constructor
  · intro h
    have htoInt := congrArg Int32.toInt h
    have hone : (1 : Int32).toInt = 1 := rfl
    rw [Int32.toInt_ofNat_of_lt hn, hone] at htoInt
    omega
  · rintro rfl
    rfl

/-- The variables after a part of the stream: the counters count it, the sum is that of its legs, and the point kept
is its last one. -/
structure Trip.Covers (d : Distance) (features : List Feature) (points : List Point) (t : Trip) : Prop where
  pointCount : t.pointCount = .ofNat points.length
  featureCount : t.featureCount = .ofNat (named features points)
  distance : t.distance = travelled d points
  previous : ∀ point ∈ points.getLast?, t.previous = point

namespace Trip.Covers

theorem start : Trip.start.Covers d features [] := ⟨rfl, rfl, rfl, by simp⟩

theorem visit {points : List Point} {t : Trip} (h : t.Covers d features points) {point : Point}
    (hlength : points.length + 1 < 2 ^ 31) : (t.visit d features point).Covers d features (points ++ [point]) := by
  have hcount : t.pointCount + 1 = .ofNat (points.length + 1) := by
    rw [h.pointCount, Int32.ofNat_add]
    rfl
  constructor
  · rw [List.length_append]
    exact hcount
  · by_cases hname : getFeatureName point features ≠ []
    · simp [Trip.visit, named, hname, h.featureCount, Int32.ofNat_add]
    · simp [Trip.visit, named, hname, h.featureCount]
  · have hvisit : (t.visit d features point).distance =
        if Int32.ofNat (points.length + 1) ≠ 1 then t.distance + d.getDistance t.previous point else t.distance := by
      rw [← hcount]
      rfl
    rw [hvisit]
    -- Before the first point there is none, and `previous` holds the default point.
    cases hlast : points.getLast? with
    | none =>
      obtain rfl : points = [] := List.getLast?_eq_none_iff.1 hlast
      simpa [travelled, consecutive] using h.distance
    | some previous =>
      have hne : points.length ≠ 0 := by
        rintro hzero
        rw [List.length_eq_zero_iff.1 hzero] at hlast
        cases hlast
      rw [if_pos (fun heq => hne ((ofNat_add_one_eq_one hlength).1 heq)), travelled_concat hlast, h.distance,
        h.previous previous hlast]
  · intro p hp
    rw [List.getLast?_concat] at hp
    exact Option.some.inj hp

end Trip.Covers

/-! ### The summary -/

/-- The summary of a stream of fewer than `2 ^ 31` points: only the distance is narrowed. -/
theorem recordRoute_eq (d : Distance) (features : List Feature) {points : List Point} (h : points.length < 2 ^ 31)
    (startTime endTime : Int) :
    recordRoute d features points startTime endTime =
      some ⟨.ofNat points.length, .ofNat (named features points), .ofNat (travelled d points),
        .ofInt ((endTime - startTime).tdiv 1000000000)⟩ := by
  have hcovers : (points.foldl (Trip.visit d features) .start).Covers d features points := by
    refine foldl_inv Trip.Covers.start fun read point t hread hcovers => hcovers.visit ?_
    have hle := hread.length_le
    rw [List.length_append] at hle
    exact Nat.lt_of_le_of_lt hle h
  have hlong : travelled d points < 2 ^ 63 := by
    have hle := travelled_le d points
    omega
  simp only [recordRoute, toLong, hcovers.pointCount, hcovers.featureCount, hcovers.distance, if_pos hlong,
    Option.map_some, Int64.toInt32_ofNat']

theorem named_le (features : List Feature) (points : List Point) : named features points ≤ points.length :=
  List.countP_le_length

/-- A sum is stored in the field as it is exactly when it is an `int32`. -/
theorem toInt_ofNat_iff {n : Nat} : (Int32.ofNat n).toInt = n ↔ n ≤ 2147483647 := by
  constructor
  · intro h
    have hlt := (Int32.ofNat n).toInt_lt
    omega
  · intro h
    exact Int32.toInt_ofNat_of_lt (by omega)

/-- For every stream of fewer than `2 ^ 31` points the summary is exact if and only if the legs of the route sum up to
at most `2 ^ 31 - 1` metres. -/
theorem summaryExact_iff (d : Distance) (features : List Feature) {points : List Point} (h : points.length < 2 ^ 31)
    (startTime endTime : Int) :
    (∃ s, recordRoute d features points startTime endTime = some s ∧ s.Exact d features points) ↔
      travelled d points ≤ 2147483647 := by
  rw [recordRoute_eq d features h startTime endTime]
  constructor
  · rintro ⟨s, hs, hexact⟩
    cases hs
    exact toInt_ofNat_iff.1 hexact.distance
  · intro hle
    refine ⟨_, rfl, Int32.toInt_ofNat_of_lt h, ?_, toInt_ofNat_iff.2 hle⟩
    exact Int32.toInt_ofNat_of_lt (Nat.lt_of_le_of_lt (named_le features points) h)

/-- Two places 20,000 km apart, near the two poles. -/
def northern : Point := ⟨900000000, 0⟩
def southern : Point := ⟨-898646000, 0⟩

def betweenPoles : Distance where
  getDistance start stop := if start = stop then 0 else 20000000
  le_halfCircumference start stop := by split <;> decide

theorem summaryExact_threePoints :
    ∃ s, recordRoute betweenPoles [⟨900000000, 0, "N".toList⟩] [northern, southern, northern] 0 2500000000 = some s ∧
      s.Exact betweenPoles [⟨900000000, 0, "N".toList⟩] [northern, southern, northern] :=
  (summaryExact_iff betweenPoles _ (by decide) 0 2500000000).2 (by decide)

/-- There and back 54 times. -/
def longRoute : List Point := (List.replicate 54 [northern, southern]).flatten ++ [northern]

/-- Its 108 legs are 2,160,000,000 metres, which do not fit. -/
theorem longRoute_wrapped :
    ¬ ∀ d features (points : List Point) startTime endTime, points.length < 2 ^ 31 →
      ∃ s, recordRoute d features points startTime endTime = some s ∧ s.Exact d features points := by
  intro h
  have hlength : longRoute.length < 2 ^ 31 := by decide
  obtain ⟨s, hs, hexact⟩ := h betweenPoles [] longRoute 0 0 hlength
  rw [recordRoute_eq betweenPoles [] hlength] at hs
  cases hs
  have hle := toInt_ofNat_iff.1 hexact.distance
  exact absurd hle (by decide +kernel)

end Cloudein.RouteGuide
