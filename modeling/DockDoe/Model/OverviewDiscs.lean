import DockDoe.Foundations.RingBuffers
import DockDoe.Model.Overview

/-! The discs of a dashboard: what `overview.js` remembers of the payloads it is given, how it
lays the sectors out, and what the pointer finds. Angles are exact; the circle is that of the
constant `Math.PI`.
-/

namespace DockDoe

/-- The data of an `overview` event, or of the seed in the page. -/
structure OverviewPayload where
  tsMs : ℕ
  containers : List OverviewEntry

def Dashboard.overview (dash : Dashboard) : OverviewPayload where
  tsMs := dash.generatedAtUnixMs
  containers := overviewEntries dash

/-- The two discs. -/
inductive DiscMetric
  | cpu
  | mem
  deriving DecidableEq

/-- An entry of a trail. -/
structure TrailSample where
  cpu : Option ℚ
  mem : Option ℕ
  deriving DecidableEq

def TrailSample.value (sample : TrailSample) : DiscMetric → Option ℚ
  | .cpu => sample.cpu
  | .mem => sample.mem.map (fun mem => (mem : ℚ))

def OverviewEntry.sample (c : OverviewEntry) : TrailSample where
  cpu := c.cpu
  mem := c.mem

/-- `TRAIL`: samples of history per sector. -/
def trailLength : ℕ :=
  24

-----------------------------------------------------------------------------------------
-- The layout
-----------------------------------------------------------------------------------------

/-- `Math.PI`. -/
def mathPi : ℚ :=
  884279719003555 / 281474976710656

/-- `GAP`: radians between sectors. -/
def gap : ℚ :=
  12 / 1000

/-- `GROUP_GAP`: radians between stacks. -/
def groupGap : ℚ :=
  6 / 100

structure Sector where
  a0 : ℚ
  a1 : ℚ

/-- What lies between two neighbours. -/
def gapBetween (c next : OverviewEntry) : ℚ :=
  if next.stack ≠ c.stack then groupGap else gap

/-- How often the stack changes after a container. -/
def boundaries : OverviewEntry → List OverviewEntry → ℕ
  | _, [] => 0
  | c, next :: rest => (if next.stack ≠ c.stack then 1 else 0) + boundaries next rest

/-- The width of every sector. -/
def sectorWidth (c : OverviewEntry) (rest : List OverviewEntry) : ℚ :=
  let n := rest.length + 1
  (2 * mathPi - boundaries c rest * groupGap - (n - boundaries c rest) * gap) / n

/-- The sectors from an angle on. -/
def sectorsFrom (width : ℚ) : ℚ → OverviewEntry → List OverviewEntry → List Sector
  | a, _, [] => [{ a0 := a, a1 := a + width }]
  | a, c, next :: rest =>
      { a0 := a, a1 := a + width } :: sectorsFrom width (a + width + gapBetween c next) next rest

/-- `computeLayout`: equal widths from twelve o'clock on, clockwise. -/
def computeLayout : List OverviewEntry → List Sector
  | [] => []
  | c :: rest => sectorsFrom (sectorWidth c rest) (-mathPi / 2) c rest

/-- An angle of the left upper quadrant comes after all others. -/
def clockwise (angle : ℚ) : ℚ :=
  if angle < -mathPi / 2 then angle + 2 * mathPi else angle

def hitSector (layout : List Sector) (angle : ℚ) : Option ℕ :=
  let a := clockwise angle
  layout.findIdx? (fun sector => decide (sector.a0 ≤ a ∧ a ≤ sector.a1))

-----------------------------------------------------------------------------------------
-- The script
-----------------------------------------------------------------------------------------

/-- What a readout says after the name. -/
inductive ReadoutText
  | down
  | unknown
  | value (v : ℚ)
  deriving DecidableEq

/-- The name in a readout. A stack without a name is left out. -/
def OverviewEntry.fullName (c : OverviewEntry) : String :=
  match c.stack with
  | some stack => if stack.isEmpty then c.name else stack ++ "/" ++ c.name
  | none => c.name

/-- The text for the latest value of a container, which may be down. -/
def readoutText (down : Bool) (latest : Option ℚ) : ReadoutText :=
  if down then .down
  else
    match latest with
    | none => .unknown
    | some v => .value v

/-- What a click on a disc does. -/
inductive ClickOutcome
  | ignored
  | fails
  | opens (id : String)
  deriving DecidableEq

/-- A disc: the sector that the pointer's last move found, and the readout. -/
structure Disc where
  hover : Option ℕ
  readout : Option (String × ReadoutText)

/-- The variables of `overview.js`. A container without a buffer has an empty one. -/
structure Discs where
  list : List OverviewEntry
  hist : String → List TrailSample
  layout : List Sector
  lastTs : ℕ
  disc : DiscMetric → Disc

namespace Discs

def initial : Discs where
  list := []
  hist := fun _ => []
  layout := []
  lastTs := 0
  disc := fun _ => { hover := none, readout := none }

/-- `latest`: the last value of a buffer. -/
def latest (discs : Discs) (id : String) (metric : DiscMetric) : Option ℚ :=
  (discs.hist id).getLast?.bind (fun sample => sample.value metric)

/-- The container that the list has at the hovered sector's index. -/
def hovered (discs : Discs) (metric : DiscMetric) : Option OverviewEntry :=
  (discs.disc metric).hover.bind (fun i => discs.list[i]?)

/-- What `updateReadout` shows. -/
def readout (discs : Discs) (metric : DiscMetric) : Option (String × ReadoutText) :=
  (discs.hovered metric).map (fun c =>
    (c.fullName, readoutText c.down (discs.latest c.id metric)))

def updateReadout (discs : Discs) (metric : DiscMetric) : Discs :=
  let updated := { discs.disc metric with readout := discs.readout metric }
  { discs with disc := Function.update discs.disc metric updated }

/-- The sample of a container goes into its buffer. -/
def record (hist : String → List TrailSample) (c : OverviewEntry) : String → List TrailSample :=
  Function.update hist c.id (RingBuffers.push trailLength (hist c.id) c.sample)

/-- `apply`: a payload that is not the last one again. The sectors are laid out anew, and
`disc.hover` is left as it is: the script does not look where the pointer is now.
-/
def apply (discs : Discs) (payload : Option OverviewPayload) : Discs :=
  match payload with
  | none => discs
  | some payload =>
      if payload.tsMs = discs.lastTs then
        discs
      else
        let list := payload.containers
        let recorded := list.foldl record discs.hist
        let seen id := list.any (fun c => c.id = id)
        let applied := {
          discs with
          lastTs := payload.tsMs
          list
          hist := fun id => if seen id then recorded id else []
          layout := computeLayout list
        }
        (applied.updateReadout .cpu).updateReadout .mem

/-- The pointer is on another sector than before. -/
def hover (discs : Discs) (metric : DiscMetric) (idx : Option ℕ) : Discs :=
  if idx = (discs.disc metric).hover then
    discs
  else
    let moved := { discs.disc metric with hover := idx }
    ({ discs with disc := Function.update discs.disc metric moved }).updateReadout metric

/-- `mousemove`: inside the rim, at an angle. -/
def mousemove (discs : Discs) (metric : DiscMetric) (inside : Bool) (angle : ℚ) : Discs :=
  discs.hover metric (if inside then hitSector discs.layout angle else none)

/-- `mouseleave`. -/
def mouseleave (discs : Discs) (metric : DiscMetric) : Discs :=
  discs.hover metric none

/-- `click`: on a sector that the list no longer has, `list[disc.hover].id` throws. -/
def click (discs : Discs) (metric : DiscMetric) : ClickOutcome :=
  match (discs.disc metric).hover with
  | none => .ignored
  | some i => (discs.list[i]?).elim .fails (fun c => .opens c.id)

end Discs

/-- What the page is told, and what the pointer does. -/
inductive DiscEvent
  | overview (payload : Option OverviewPayload)
  | mousemove (metric : DiscMetric) (inside : Bool) (angle : ℚ)
  | mouseleave (metric : DiscMetric)

namespace Discs

def handle (discs : Discs) : DiscEvent → Discs
  | .overview payload => discs.apply payload
  | .mousemove metric inside angle => discs.mousemove metric inside angle
  | .mouseleave metric => discs.mouseleave metric

/-- The page after some events. -/
def after (events : List DiscEvent) : Discs :=
  events.foldl handle initial

end Discs

end DockDoe
