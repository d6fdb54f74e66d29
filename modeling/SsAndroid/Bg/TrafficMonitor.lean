import SsAndroid.Utils.DirectBoot

/-!
# Traffic of a session

`TrafficMonitor` belongs to one session of a proxy.  The native process reports the totals of the
session (`acceptInternal`), and `persistStats` adds the current totals to the stored profile: to its
row, or to its device-protected copy while the database cannot be opened.  The sums are `Long`s, so
they are the sums of the numbers as long as these stay below `2 ^ 63` bytes (`toLong_of_range`).

`persisted` refers to the same object as `current` once it is set, so what it says later is only that
`persistStats` has run before: its value is the current one (`persistedStats`).
-/

namespace SsAndroid

@[ext] structure TrafficStats where
  txRate : Int := 0
  rxRate : Int := 0
  txTotal : Int := 0
  rxTotal : Int := 0
  deriving DecidableEq

structure TrafficMonitor where
  current : TrafficStats := {}
  dirty : Bool := false
  /-- `persisted` is not null, that is, it is `current`. -/
  persisted : Bool := false

namespace TrafficMonitor

/-- What `persisted` refers to. -/
def persistedStats (m : TrafficMonitor) : Option TrafficStats :=
  if m.persisted then some m.current else none

/-- `acceptInternal`, on a report that has been read. -/
def acceptInternal (m : TrafficMonitor) (tx rx : Int) : TrafficMonitor :=
  let m :=
    if m.current.txTotal ≠ tx then
      { m with current := { m.current with txTotal := tx }, dirty := true }
    else m
  if m.current.rxTotal ≠ rx then
    { m with current := { m.current with rxTotal := rx }, dirty := true }
  else m

/-- The totals of a session on top of what a profile has. -/
def addTotals (p : Profile) (current : TrafficStats) : Profile :=
  { p with tx := toLong (p.tx + current.txTotal), rx := toLong (p.rx + current.rxTotal) }

/-- A profile with more traffic. -/
def withTraffic (p : Profile) (t : Int × Int) : Profile :=
  { p with tx := toLong (p.tx + t.1), rx := toLong (p.rx + t.2) }

theorem addTotals_eq (p : Profile) (current : TrafficStats) :
    addTotals p current = withTraffic p (current.txTotal, current.rxTotal) := rfl

theorem withTraffic_add (p : Profile) (t u : Int × Int) :
    withTraffic (withTraffic p t) u = withTraffic p (t.1 + u.1, t.2 + u.2) := by
  simp only [withTraffic, toLong_add, add_assoc]

/-- The `IOException` branch: the copy in the device-protected file gets the totals. -/
def persistToDevice (s : Storage) (id : Int) (current : TrafficStats) : Storage × Option Exn :=
  match s.device with
  | none => (s, some .nullPointer)
  | some (profile, fallback) =>
      match (profile :: fallback.toList).filter (fun c => c.profile.id = id) with
      | [c] => s.updateDevice (some { profile := addTotals c.profile current, dirty := true })
      | [] => (s, some .noSuchElement)
      | _ => (s, some (.illegalArgument "Collection contains more than one matching element."))

/-- `persistStats(id)`. -/
def persistStats (m : TrafficMonitor) (s : Storage) (id : Int) :
    TrafficMonitor × Storage × Option Exn :=
  if m.persistedStats = none ∨ m.persistedStats = some m.current then
    let m := { m with persisted := true }
    match s.getProfile id with
    | .ok none => (m, s, none)
    | .ok (some p) =>
        let (s, exn) := s.updateProfile (addTotals p m.current)
        (m, s, exn)
    | .error e =>
        if s.directBootAware then
          let (s, exn) := persistToDevice s id m.current
          (m, s, exn)
        else (m, s, some e)
  else (m, s, some (.illegalState "Data loss occurred"))

end TrafficMonitor

end SsAndroid
