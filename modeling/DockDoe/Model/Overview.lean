import DockDoe.Foundations.JsonTexts
import DockDoe.Foundations.StableSorts
import DockDoe.Model.Containers
import DockDoe.Model.Texts

/-! The containers of a host as the dashboard shows them: the table, grouped by stack, and the
sectors of the overview discs.
-/

namespace DockDoe

open KeyedFolds StableSorts

/-- Key that sorts named stacks alphabetically before standalone containers. -/
inductive StackKey
  | named (name : String)
  | standalone
  deriving DecidableEq

namespace StackKey

def rank : StackKey → WithTop String
  | .named name => name
  | .standalone => ⊤

theorem rank_injective : Function.Injective rank := by
  intro left right same
  cases left <;> cases right <;> simp_all [rank]

instance : LinearOrder StackKey :=
  LinearOrder.lift' rank rank_injective

end StackKey

/-- A host's snapshot. -/
structure Dashboard where
  generatedAtUnixMs : ℕ
  cpuCount : ℕ
  containers : List ContainerMetrics

def stackKey (c : ContainerMetrics) : StackKey :=
  match c.stack with
  | some name => .named name
  | none => .standalone

section Table

/-- The table of one stack; rows stand for their containers. -/
structure StackSection where
  title : String
  link : Option String
  count : ℕ
  rows : List ContainerMetrics

/-- The container table. -/
inductive ContainerSection
  | noContainers (text : String)
  | stacks (sections : List StackSection)

def stackSection (host : String) (key : StackKey) (members : List ContainerMetrics)
    : StackSection where
  title :=
    match key with
    | .named name => name
    | .standalone => "Standalone"
  link :=
    match key with
    | .named name => some ("/host/" ++ host ++ "/stack/" ++ name)
    | .standalone => none
  count := members.length
  rows := members

/-- All containers, grouped by stack, by name in each. -/
def containerSection (host : String) (containers : List ContainerMetrics) : ContainerSection :=
  if containers.isEmpty then
    .noContainers "No containers found."
  else
    .stacks ((groups stackKey containers).map (fun group =>
      stackSection host group.1 (group.2.mergeSort (byName ContainerMetrics.name))))

/-- The rows of the table, from top to bottom. -/
def ContainerSection.rows : ContainerSection → List ContainerMetrics
  | .noContainers _ => []
  | .stacks sections => sections.flatMap StackSection.rows

end Table

section Discs

/-- One container's slice of the overview discs. -/
structure OverviewEntry where
  id : String
  name : String
  stack : Option String
  cpu : Option ℚ
  mem : Option ℕ
  down : Bool

def overviewEntry (c : ContainerMetrics) : OverviewEntry where
  id := c.id
  name := c.name
  stack := c.stack
  cpu := c.cpuPercent
  mem := c.memUsed
  down := c.state == .exited || c.state == .dead

/-- The containers in the order of their sectors. -/
def overviewContainers (dash : Dashboard) : List ContainerMetrics :=
  dash.containers.mergeSort (byKeyThenName stackKey ContainerMetrics.name)

def overviewEntries (dash : Dashboard) : List OverviewEntry :=
  (overviewContainers dash).map overviewEntry

/-- An object as a map keeps it: its fields, which have different names, in the order of the
names.
-/
def jsonObject (fields : List (Text × Json.Value)) : Json.Value :=
  .object (fields.mergeSort (byName Prod.fst))

/-- An absent value is null. -/
def jsonOption {α : Type} (value : α → Json.Value) : Option α → Json.Value
  | none => .null
  | some a => value a

/-- `floatText` writes a finite float. -/
def OverviewEntry.json (floatText : ℚ → Json.Literal) (entry : OverviewEntry) : Json.Value :=
  jsonObject [
    ("id".toList, .string entry.id.toList),
    ("name".toList, .string entry.name.toList),
    ("stack".toList, jsonOption (fun stack => .string stack.toList) entry.stack),
    ("cpu".toList, jsonOption (fun cpu => .number (floatText cpu)) entry.cpu),
    ("mem".toList, jsonOption (fun mem => .number (.ofNat mem)) entry.mem),
    ("down".toList, .bool entry.down)
  ]

def overviewPayload (floatText : ℚ → Json.Literal) (dash : Dashboard) : Json.Value :=
  jsonObject [
    ("ts_ms".toList, .number (.ofNat dash.generatedAtUnixMs)),
    ("containers".toList, .array ((overviewEntries dash).map (·.json floatText)))
  ]

/-- The overview payload as it stands in the page. -/
def overviewJson (floatText : ℚ → Json.Literal) (dash : Dashboard) : Text :=
  Json.replaceAll '<' "\\u003c".toList
    ((overviewPayload floatText dash).text Json.standardEscape)

end Discs

end DockDoe
