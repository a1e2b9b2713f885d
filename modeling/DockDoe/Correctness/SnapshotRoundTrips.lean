import DockDoe.Model.Snapshots

/-! A hub reads a node's snapshot back, also from a node of another version: fields that the
hub does not know are skipped, states that it does not know become `unknown`, and fields with
a default may be missing.
-/

namespace DockDoe

open Json (Reader Keeps Grown Additive)

-----------------------------------------------------------------------------------------
-- The contract between versions
-----------------------------------------------------------------------------------------

/-- A newer node reports a state that no known variant names. -/
def Revises (key : Text) (value other : Json.Value) : Prop :=
  (key = "state".toList
    ∧ value = jsonString ContainerState.unknown.name
    ∧ ∃ name,
      other = .string name ∧ ∀ variant ∈ ContainerState.named, name ≠ variant.1.toList)
  ∨ key = "health".toList
    ∧ value = jsonString HealthState.none.name
    ∧ ∃ name,
      other = .string name ∧ ∀ variant ∈ HealthState.named, name ≠ variant.1.toList

/-- A field may be missing where it would say the default. -/
def Omits (key : Text) (value : Json.Value) : Prop :=
  key = "read_only".toList ∧ value = .bool false ∨ value = .null

/-- A container with its floats as they are read again. -/
def ContainerMetrics.mapFloats (f : ℚ → ℚ) (c : ContainerMetrics) : ContainerMetrics where
  id := c.id
  name := c.name
  image := c.image
  state := c.state
  status := c.status
  health := c.health
  stack := c.stack
  cpuPercent := c.cpuPercent.map f
  memUsed := c.memUsed
  memLimit := c.memLimit
  netRxBps := c.netRxBps.map f
  netTxBps := c.netTxBps.map f
  diskReadBps := c.diskReadBps.map f
  diskWriteBps := c.diskWriteBps.map f
  ports := c.ports

def Dashboard.mapFloats (f : ℚ → ℚ) (dash : Dashboard) : Dashboard :=
  { dash with containers := dash.containers.map (·.mapFloats f) }

def NodeSnapshot.mapFloats (f : ℚ → ℚ) (snapshot : NodeSnapshot) : NodeSnapshot :=
  { snapshot with dashboard := snapshot.dashboard.mapFloats f }

-----------------------------------------------------------------------------------------
-- Fields
-----------------------------------------------------------------------------------------

/-- The fields of a record have different names, also as lists of characters. -/
theorem distinct_record {fields : List (String × Json.Value)}
    (distinct : (fields.map Prod.fst).Nodup)
    : ((fields.map (fun field => (field.1.toList, field.2))).map Prod.fst).Nodup := by
  rw [List.map_map]
  have names
      : (fields.map (Prod.fst ∘ fun field => (field.1.toList, field.2)))
        = (fields.map Prod.fst).map String.toList := by
    rw [List.map_map]
    rfl
  rw [names]
  exact distinct.map (fun _ _ same => String.toList_injective same)

/-- Every field of a record has grown among the members of an object. -/
def AllGrown (fields : List (String × Json.Value)) (members : List (Text × Json.Value)) : Prop :=
  ∀ key value, (key, value) ∈ fields → Grown Revises Omits key.toList value members

/-- What grows out of a record is an object in which every field has grown. -/
theorem allGrown_of_record {fields : List (String × Json.Value)}
    (distinct : (fields.map Prod.fst).Nodup) {later : Json.Value}
    (additive : Additive Revises Omits (jsonRecord fields) later)
    : ∃ members, later = .object members ∧ AllGrown fields members := by
  obtain ⟨members, same, grown⟩ := additive.grown (distinct_record distinct)
  refine ⟨members, same, ?_⟩
  intro key value written
  exact grown _ (List.mem_map_of_mem written)

section Fields

variable {α : Type} {read : Reader α} {fields : List (String × Json.Value)}
variable {members : List (Text × Json.Value)}

/-- A field with a value of its own is read back, since the revisions and omissions are about two
variants and a flag.
-/
theorem AllGrown.field_eq (grown : AllGrown fields members) (key : String) {value : Json.Value}
    {absent : Option α} {a : α} (keeps : Keeps Revises Omits read value a) (notNull : value ≠ .null)
    (written : (key, value) ∈ fields) (plain : key ∉ ["state", "health", "read_only"])
    : Reader.field read absent key.toList members = some a := by
  refine (grown key value written).field_eq keeps ?_ ?_
  · intro other revision
    rcases revision with ⟨same, _⟩ | ⟨same, _⟩ <;>
      rw [String.toList_injective same] at plain <;> exact absurd plain (by decide)
  · intro omission
    rcases omission with ⟨same, _⟩ | same
    · rw [String.toList_injective same] at plain
      exact absurd plain (by decide)
    · exact absurd same notNull

/-- An optional field is read back; where it is missing, it is none. By cases on the value: null
is only kept, and a value is not null.
-/
theorem AllGrown.optional_map_eq {β : Type} (grown : AllGrown fields members) (key : String)
    (value : Option β) {write : β → Json.Value} {result : β → α}
    (keeps : ∀ b ∈ value, Keeps Revises Omits read (write b) (result b))
    (present : read .null = none) (written : (key, jsonOption write value) ∈ fields)
    (plain : key ∉ ["state", "health", "read_only"])
    : optional read key members = some (value.map result) := by
  cases value with
  | none =>
      refine (grown key .null written).field_eq Json.keeps_null ?_ (fun _ => rfl)
      intro other revision
      rcases revision with ⟨_, same, _⟩ | ⟨_, same, _⟩ <;> cases same
  | some b =>
      have reads := keeps b rfl
      have notNull : write b ≠ .null := by
        intro null
        have read := reads _ (.same _)
        rw [null, present] at read
        cases read
      exact grown.field_eq key (Json.keeps_some reads present) notNull written plain

theorem AllGrown.required_eq (grown : AllGrown fields members) (key : String) {value : Json.Value}
    {a : α} (keeps : Keeps Revises Omits read value a) (notNull : value ≠ .null)
    (written : (key, value) ∈ fields) (plain : key ∉ ["state", "health", "read_only"])
    : required read key members = some a :=
  grown.field_eq key keeps notNull written plain

theorem AllGrown.optional_eq (grown : AllGrown fields members) (key : String)
    (value : Option α) {write : α → Json.Value}
    (keeps : ∀ a ∈ value, Keeps Revises Omits read (write a) a)
    (present : read .null = none) (written : (key, jsonOption write value) ∈ fields)
    (plain : key ∉ ["state", "health", "read_only"])
    : optional read key members = some value := by
  have read := grown.optional_map_eq key value keeps present written plain
  rwa [Option.map_id'] at read

end Fields

-----------------------------------------------------------------------------------------
-- States
-----------------------------------------------------------------------------------------

/-- A name that no variant has is read as the fallback. -/
theorem readVariant_unknown {α : Type} {named : List (String × α)} {fallback : α} {name : Text}
    (unknown : ∀ variant ∈ named, name ≠ variant.1.toList)
    : readVariant named fallback (.string name) = some fallback := by
  have missing : named.find? (fun variant => variant.1.toList == name) = none := by
    apply List.find?_eq_none.mpr
    intro variant member
    simpa using (unknown variant member).symm
  simp [readVariant, Reader.variantName, missing]

theorem ContainerState.read_name (state : ContainerState)
    : ContainerState.read (jsonString state.name) = some state := by
  cases state <;> rfl

theorem HealthState.read_name (health : HealthState)
    : HealthState.read (jsonString health.name) = some health := by
  cases health <;> rfl

/-- The state of a container is read back; a state that only a newer node knows is unknown. By
cases on how the field has grown.
-/
theorem state_eq {state : ContainerState} {members : List (Text × Json.Value)}
    (grown : Grown Revises Omits "state".toList (jsonString state.name) members)
    : required ContainerState.read "state" members = some state := by
  refine grown.field_eq ?_ ?_ ?_
  · intro later additive
    cases additive
    exact ContainerState.read_name state
  · intro other revision
    rcases revision with ⟨_, same, name, rfl, unknown⟩ | ⟨key, _⟩
    · rw [ContainerState.read, readVariant_unknown unknown, ← ContainerState.read_name state, same]
      rfl
    · exact absurd (String.toList_injective key) (by decide)
  · intro omission
    rcases omission with ⟨_, same⟩ | same <;> cases same

/-- The health of a container is read back likewise. -/
theorem health_eq {health : HealthState} {members : List (Text × Json.Value)}
    (grown : Grown Revises Omits "health".toList (jsonString health.name) members)
    : required HealthState.read "health" members = some health := by
  refine grown.field_eq ?_ ?_ ?_
  · intro later additive
    cases additive
    exact HealthState.read_name health
  · intro other revision
    rcases revision with ⟨key, _⟩ | ⟨_, same, name, rfl, unknown⟩
    · exact absurd (String.toList_injective key) (by decide)
    · rw [HealthState.read, readVariant_unknown unknown, ← HealthState.read_name health, same]
      rfl
  · intro omission
    rcases omission with ⟨_, same⟩ | same <;> cases same

/-- A node that predates the flag is not read-only, and the flag of any other is read back. -/
theorem readOnly_eq {flag : Bool} {members : List (Text × Json.Value)}
    (grown : Grown Revises Omits "read_only".toList (.bool flag) members)
    : Reader.field Reader.bool (some false) "read_only".toList members = some flag := by
  refine grown.field_eq (Json.keeps_bool flag) ?_ ?_
  · intro other revision
    rcases revision with ⟨_, same, _⟩ | ⟨_, same, _⟩ <;> cases same
  · intro omission
    rcases omission with ⟨_, same⟩ | same <;> cases same
    rfl

-----------------------------------------------------------------------------------------
-- Records
-----------------------------------------------------------------------------------------

theorem keeps_jsonString (s : String)
    : Keeps Revises Omits readString (jsonString s) s := by
  intro later additive
  rw [readString, Json.keeps_string s.toList later additive]
  exact congrArg some String.ofList_toList

theorem keeps_jsonNat {bound n : ℕ} (small : n < bound)
    : Keeps Revises Omits (Reader.nat bound) (jsonNat n) n :=
  Json.keeps_nat small

/-- A step that yields is passed. -/
theorem bind_some_of {α β : Type} {first : Option α} {next : α → Option β} {a : α}
    (yields : first = some a)
    : (first >>= next) = next a := by
  rw [yields]
  rfl

/-- A port is read back, field by field. -/
theorem Port.keeps {port : Port} (inRange : port.InRange)
    : Keeps Revises Omits Port.read port.json port := by
  intro later additive
  obtain ⟨members, rfl, grown⟩ := allGrown_of_record (by simp) additive
  have privatePort := grown.required_eq "private" (keeps_jsonNat inRange.1)
    nofun (by simp) (by decide)
  have publicPort := grown.optional_eq "public" port.publicPort
    (fun n isPort => keeps_jsonNat (inRange.2 n isPort)) rfl (by simp) (by decide)
  have proto := grown.required_eq "proto" (keeps_jsonString port.proto)
    nofun (by simp) (by decide)
  rw [Port.read, Reader.members, bind_some_of rfl, bind_some_of privatePort,
    bind_some_of publicPort, bind_some_of proto]
  rfl

section Floats

variable (floats : FloatFormat)

theorem keeps_jsonFloat (x : ℚ)
    : Keeps Revises Omits (readFloat floats) (jsonFloat floats x) (floats.reread x) :=
  Json.keeps_number (floats.read_text x)

/-- A container of a later version is read as the container that it was, by its fields. -/
theorem ContainerMetrics.keeps {c : ContainerMetrics} (inRange : c.InRange)
    : Keeps Revises Omits (ContainerMetrics.read floats) (c.json floats)
        (c.mapFloats floats.reread) := by
  intro later additive
  obtain ⟨members, rfl, grown⟩ := allGrown_of_record (by simp) additive
  have id := grown.required_eq "id" (keeps_jsonString c.id) nofun (by simp) (by decide)
  have name := grown.required_eq "name" (keeps_jsonString c.name) nofun (by simp) (by decide)
  have image := grown.required_eq "image" (keeps_jsonString c.image) nofun (by simp) (by decide)
  have state := state_eq (grown "state" (jsonString c.state.name) (by simp))
  have status := grown.required_eq "status" (keeps_jsonString c.status) nofun (by simp) (by decide)
  have health := health_eq (grown "health" (jsonString c.health.name) (by simp))
  have stack := grown.optional_eq "stack" c.stack (fun s _ => keeps_jsonString s) rfl
    (by simp) (by decide)
  have float (key : String) (value : Option ℚ)
      (written : (key, jsonOption (jsonFloat floats) value) ∈ _)
      (plain : key ∉ ["state", "health", "read_only"]) :=
    grown.optional_map_eq key value (fun x _ => keeps_jsonFloat floats x) rfl written plain
  have cpuPercent := float "cpu_percent" c.cpuPercent (by simp) (by decide)
  have memUsed := grown.optional_eq "mem_used" c.memUsed
    (fun n present => keeps_jsonNat (inRange.memUsed n present)) rfl (by simp) (by decide)
  have memLimit := grown.optional_eq "mem_limit" c.memLimit
    (fun n present => keeps_jsonNat (inRange.memLimit n present)) rfl (by simp) (by decide)
  have netRxBps := float "net_rx_bps" c.netRxBps (by simp) (by decide)
  have netTxBps := float "net_tx_bps" c.netTxBps (by simp) (by decide)
  have diskReadBps := float "disk_read_bps" c.diskReadBps (by simp) (by decide)
  have diskWriteBps := float "disk_write_bps" c.diskWriteBps (by simp) (by decide)
  have ports := grown.required_eq "ports"
    (Json.keeps_list (fun port member => Port.keeps (inRange.ports port member)))
    nofun (by simp) (by decide)
  rw [List.map_id'] at ports
  rw [ContainerMetrics.read, Reader.members, bind_some_of rfl, bind_some_of id, bind_some_of name,
    bind_some_of image, bind_some_of state, bind_some_of status, bind_some_of health,
    bind_some_of stack, bind_some_of cpuPercent, bind_some_of memUsed, bind_some_of memLimit,
    bind_some_of netRxBps, bind_some_of netTxBps, bind_some_of diskReadBps,
    bind_some_of diskWriteBps, bind_some_of ports]
  rfl

/-- A dashboard is read back, field by field; its containers item by item. -/
theorem Dashboard.keeps {dash : Dashboard} (inRange : dash.InRange)
    : Keeps Revises Omits (Dashboard.read floats) (dash.json floats)
        (dash.mapFloats floats.reread) := by
  intro later additive
  obtain ⟨members, rfl, grown⟩ := allGrown_of_record (by simp) additive
  have generatedAtUnixMs := grown.required_eq "generated_at_unix_ms"
    (keeps_jsonNat inRange.generatedAtUnixMs) nofun (by simp) (by decide)
  have cpuCount := grown.required_eq "cpu_count" (keeps_jsonNat inRange.cpuCount)
    nofun (by simp) (by decide)
  have containers := grown.required_eq "containers"
    (Json.keeps_list (fun c member => ContainerMetrics.keeps floats (inRange.containers c member)))
    nofun (by simp) (by decide)
  rw [Dashboard.read, Reader.members, bind_some_of rfl, bind_some_of generatedAtUnixMs,
    bind_some_of cpuCount, bind_some_of containers]
  rfl

/-- A snapshot is read back, field by field; the dashboard is one of them. -/
theorem NodeSnapshot.keeps {snapshot : NodeSnapshot} (inRange : snapshot.dashboard.InRange)
    : Keeps Revises Omits (NodeSnapshot.read floats) (snapshot.json floats)
        (snapshot.mapFloats floats.reread) := by
  intro later additive
  obtain ⟨members, rfl, grown⟩ := allGrown_of_record (by simp) additive
  have version := grown.required_eq "version" (Json.keeps_string snapshot.version)
    nofun (by simp) (by decide)
  have readOnly := readOnly_eq (grown "read_only" (.bool snapshot.readOnly) (by simp))
  have dashboard := grown.required_eq "dashboard" (Dashboard.keeps floats inRange)
    nofun (by simp) (by decide)
  rw [NodeSnapshot.read, Reader.members, bind_some_of rfl, bind_some_of version,
    bind_some_of readOnly, bind_some_of dashboard]
  rfl

/-- What a hub reads of a node's snapshot is the snapshot, up to the floats' last digits,
whether the node runs the same version or another one. Witness: the fields, each of which is
read from the one member under its key.
-/
theorem NodeSnapshot.fromJson_of_additive {snapshot : NodeSnapshot}
    (inRange : snapshot.dashboard.InRange) {later : Json.Value}
    (additive : Additive Revises Omits (snapshot.json floats) later) {s : Text}
    (written : Json.parse s = some later)
    : NodeSnapshot.fromJson floats s = some (snapshot.mapFloats floats.reread) := by
  rw [NodeSnapshot.fromJson, written, Option.bind_some]
  exact NodeSnapshot.keeps floats inRange later additive

/-- Floats that are 12.5 or zero. -/
def sampleFloats : FloatFormat where
  text x :=
    if x = 25 / 2 then { text := ['1', '2', '.', '5'], valid := by decide }
    else { text := ['0', '.', '0'], valid := by decide }
  read literal := some (if literal.text = ['1', '2', '.', '5'] then 25 / 2 else 0)
  reread x := if x = 25 / 2 then 25 / 2 else 0
  read_text x := by
    split_ifs <;> simp_all

def sampleContainer : ContainerMetrics where
  id := "deadbeef"
  name := "web"
  image := "nginx:latest"
  state := .unknown
  status := "Up 2 hours (healthy)"
  health := .healthy
  stack := some "blog"
  cpuPercent := some (25 / 2)
  memUsed := some 67108864
  memLimit := none
  netRxBps := none
  netTxBps := none
  diskReadBps := none
  diskWriteBps := some 0
  ports := [{ privatePort := 80, publicPort := some 8080, proto := "tcp" }]

def sampleSnapshot : NodeSnapshot where
  version := "0.99.0".toList
  readOnly := false
  dashboard := { generatedAtUnixMs := 1, cpuCount := 2, containers := [sampleContainer] }

/-- The sample as a newer node writes it: with new fields, in a state that is new, without
its memory limit, and without the flag.
-/
def newerSample : Json.Value :=
  jsonRecord [
    ("version", .string "0.99.0".toList),
    ("brand_new_field", jsonRecord [("nested", .bool true)]),
    ("dashboard", jsonRecord [
      ("cpu_count", jsonNat 2),
      ("generated_at_unix_ms", jsonNat 1),
      ("future_field", jsonNat 42),
      ("containers", .array [jsonRecord [
        ("id", jsonString "deadbeef"),
        ("name", jsonString "web"),
        ("image", jsonString "nginx:latest"),
        ("state", jsonString "hibernating"),
        ("status", jsonString "Up 2 hours (healthy)"),
        ("health", jsonString "healthy"),
        ("stack", jsonString "blog"),
        ("cpu_percent", jsonFloat sampleFloats (25 / 2)),
        ("mem_used", jsonNat 67108864),
        ("net_rx_bps", .null),
        ("net_tx_bps", .null),
        ("disk_read_bps", .null),
        ("disk_write_bps", jsonFloat sampleFloats 0),
        ("ports", .array [Port.json { privatePort := 80, publicPort := some 8080, proto := "tcp" }])
      ]])
    ])
  ]

/-- The members of a record under a key are its fields of that name. -/
theorem filter_record (fields : List (String × Json.Value)) (key : String)
    : (fields.map (fun field => (field.1.toList, field.2))).filter
        (fun member => member.1 == key.toList)
      = (fields.filter (fun field => field.1 == key)).map
        (fun field => (field.1.toList, field.2)) := by
  rw [List.filter_map]
  congr 2
  funext field
  exact Bool.eq_iff_iff.mpr (by simp [String.toList_inj])

/-- A record grows when each of its fields is kept, revised or omitted. -/
theorem additive_record {earlier later : List (String × Json.Value)}
    (grown
      : ∀ field ∈ earlier,
        (∃ value,
          later.filter (fun other => other.1 == field.1) = [(field.1, value)]
          ∧ (Additive Revises Omits field.2 value ∨ Revises field.1.toList field.2 value))
        ∨ Omits field.1.toList field.2
          ∧ later.filter (fun other => other.1 == field.1) = [])
    : Additive Revises Omits (jsonRecord earlier) (jsonRecord later) := by
  refine .object ?_
  intro member isMember
  obtain ⟨field, written, rfl⟩ := List.mem_map.mp isMember
  rcases grown field written with ⟨value, only, additive | revision⟩ | ⟨omission, lacks⟩
  · exact .kept (by rw [filter_record, only]; rfl) additive
  · exact .revised (by rw [filter_record, only]; rfl) revision
  · exact .omitted (by rw [filter_record, lacks]; rfl) omission

/-- A field that has grown under its name. -/
theorem kept_record {later : List (String × Json.Value)} {key : String} {value other : Json.Value}
    (only : later.filter (fun field => field.1 == key) = [(key, other)])
    (additive : Additive Revises Omits value other)
    : (∃ value',
        later.filter (fun field => field.1 == key) = [(key, value')]
        ∧ (Additive Revises Omits value value' ∨ Revises key.toList value value'))
      ∨ Omits key.toList value ∧ later.filter (fun field => field.1 == key) = [] :=
  .inl ⟨other, only, .inl additive⟩

theorem newerSample_additive
    : Additive Revises Omits (sampleSnapshot.json sampleFloats) newerSample := by
  refine additive_record (List.forall_mem_cons.mpr ⟨kept_record rfl (.same _), ?_⟩)
  refine List.forall_mem_cons.mpr ⟨.inr ⟨.inl ⟨rfl, rfl⟩, rfl⟩, ?_⟩
  refine List.forall_mem_cons.mpr ⟨kept_record rfl ?_, by simp⟩
  refine additive_record (List.forall_mem_cons.mpr ⟨kept_record rfl (.same _), ?_⟩)
  refine List.forall_mem_cons.mpr ⟨kept_record rfl (.same _), ?_⟩
  refine List.forall_mem_cons.mpr ⟨kept_record rfl (.array (.cons ?_ .nil)), by simp⟩
  refine additive_record ?_
  simp only [List.forall_mem_cons]
  refine ⟨kept_record rfl (.same _), kept_record rfl (.same _), kept_record rfl (.same _), ?_,
    kept_record rfl (.same _), kept_record rfl (.same _), kept_record rfl (.same _),
    kept_record rfl (.same _), kept_record rfl (.same _), .inr ⟨.inr rfl, rfl⟩,
    kept_record rfl (.same _), kept_record rfl (.same _), kept_record rfl (.same _),
    kept_record rfl (.same _), kept_record rfl (.same _), by simp⟩
  refine .inl ⟨jsonString "hibernating", rfl, .inr (.inl ⟨rfl, rfl, _, rfl, ?_⟩)⟩
  simp only [ContainerState.named, List.forall_mem_cons]
  simp

theorem sampleSnapshot_inRange : sampleSnapshot.dashboard.InRange := by
  have container : sampleContainer.InRange := {
    memUsed := by simp [sampleContainer]
    memLimit := by simp [sampleContainer]
    ports := by simp [sampleContainer, Port.InRange]
  }
  exact {
    generatedAtUnixMs := by simp [sampleSnapshot]
    cpuCount := by simp [sampleSnapshot]
    containers := by simpa [sampleSnapshot] using container
  }

/-- The newer node's sample is read as the sample. -/
theorem NodeSnapshot.fromJson_newerSample
    : NodeSnapshot.fromJson sampleFloats (newerSample.text Json.standardEscape)
      = some (sampleSnapshot.mapFloats sampleFloats.reread) :=
  NodeSnapshot.fromJson_of_additive sampleFloats sampleSnapshot_inRange newerSample_additive
    (Json.parse_text Json.standardEscape_escapes newerSample)

/-- A snapshot is read back from its own text. -/
theorem NodeSnapshot.fromJson_toJson {snapshot : NodeSnapshot}
    (inRange : snapshot.dashboard.InRange)
    : NodeSnapshot.fromJson floats (snapshot.toJson floats)
      = some (snapshot.mapFloats floats.reread) := by
  have written := Json.parse_text Json.standardEscape_escapes (snapshot.json floats)
  rw [NodeSnapshot.fromJson, NodeSnapshot.toJson, written, Option.bind_some]
  exact NodeSnapshot.keeps floats inRange _ (.same _)

end Floats

end DockDoe
