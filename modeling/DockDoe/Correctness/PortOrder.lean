import DockDoe.Foundations.StableSorts
import DockDoe.Model.DockerClient

/-! When the ports of a container are presented in a stable order. The sort compares a part of
a port only, and leaves those that tie in the order in which Docker lists them.
-/

namespace DockDoe

open ListedContainer StableSorts

namespace ListedContainer

/-- What a listing says of ports, with its repetitions. -/
def listedPorts (summary : ListedContainer) : List Port :=
  (summary.ports.getD []).map listedPort

end ListedContainer

/-- Ports that are shown at one place: published at one host port, or internal with one
container port.
-/
def Tied (a b : Port) : Prop :=
  a.publicPort = b.publicPort ∧ (a.publicPort = none → a.privatePort = b.privatePort)

/-- The order of the ports is total and transitive, by cases on which of the ports are published. -/
theorem portLe_preorder : IsPreorder portLe := by
  constructor
  · intro a b c forth further
    unfold portLe at *
    cases ha : a.publicPort <;> cases hb : b.publicPort <;> cases hc : c.publicPort <;>
      simp_all <;> omega
  · intro a b
    unfold portLe
    cases ha : a.publicPort <;> cases hb : b.publicPort <;> simp <;> omega

/-- Ports compare both ways when they tie. -/
theorem portLe_both_iff {a b : Port}
    : (portLe a b = true ∧ portLe b a = true) ↔ Tied a b := by
  unfold portLe Tied
  cases ha : a.publicPort <;> cases hb : b.publicPort <;> simp <;> omega

/-- Ports as they are to be presented: each once, the published ones by host port, then the
others by container port.
-/
structure Presented (listed ports : List Port) : Prop where
  once : ports.Nodup
  same : ∀ port, port ∈ ports ↔ port ∈ listed
  order
    : ∃ published internal,
        ports = published ++ internal
        ∧ (∀ port ∈ published, port.publicPort.isSome = true)
        ∧ (published.filterMap Port.publicPort).Pairwise (· ≤ ·)
        ∧ (∀ port ∈ internal, port.publicPort = none)
        ∧ (internal.map Port.privatePort).Pairwise (· ≤ ·)

/-- Sorted ports are presented as they are to be: `sortedOnce_spec` gives a sorted list with each
port once, whose published ports form its front.
-/
theorem exposedPorts_presented (summary : ListedContainer)
    : Presented summary.listedPorts summary.exposedPorts := by
  obtain ⟨once, same, sorted⟩ := sortedOnce_spec portLe_preorder summary.listedPorts
  change summary.exposedPorts.Nodup at once
  change ∀ port, port ∈ summary.exposedPorts ↔ _ at same
  change summary.exposedPorts.Pairwise _ at sorted
  have parts : summary.exposedPorts
      = summary.exposedPorts.filter (·.publicPort.isSome)
        ++ summary.exposedPorts.filter (!·.publicPort.isSome) := by
    refine filter_append_filter (sorted.imp ?_)
    intro a b before published
    unfold portLe at before
    cases ha : a.publicPort <;> cases hb : b.publicPort <;> simp_all
  refine ⟨once, same, _, _, parts, ?_, ?_, ?_, ?_⟩
  · intro port member
    exact (List.mem_filter.mp member).2
  · refine List.Pairwise.filterMap _ ?_ (sorted.sublist List.filter_sublist)
    intro a b before x first y second
    unfold portLe at before
    simpa [Option.mem_def.mp first, Option.mem_def.mp second] using before
  · intro port member
    simpa using (List.mem_filter.mp member).2
  · refine List.pairwise_map.mpr ((sorted.sublist List.filter_sublist).imp_of_mem ?_)
    intro a b inside alsoInside before
    have first : a.publicPort = none := by simpa using (List.mem_filter.mp inside).2
    have second : b.publicPort = none := by simpa using (List.mem_filter.mp alsoInside).2
    unfold portLe at before
    simpa [first, second] using before

/-- The ports of a container are presented in one order, whatever the order in which Docker lists
them, exactly when no two different ones tie. Witness: a stable sort forgets the order of its
input up to ties, and shows that of the ties.
-/
theorem exposedPorts_stable_iff (summary : ListedContainer)
    : (Presented summary.listedPorts summary.exposedPorts
        ∧ ∀ others : List PortSummary, others.Perm (summary.ports.getD [])
          → { summary with ports := some others }.exposedPorts = summary.exposedPorts)
      ↔ ∀ a ∈ summary.listedPorts, ∀ b ∈ summary.listedPorts, Tied a b → a = b := by
  have noTies
      : NoTies portLe summary.listedPorts
        ↔ ∀ a ∈ summary.listedPorts, ∀ b ∈ summary.listedPorts, Tied a b → a = b := by
    simp only [NoTies, ← portLe_both_iff, and_imp]
  rw [← noTies]
  constructor
  · intro property
    exact (sortedOnce_stable_iff portLe_preorder listedPort _).mp property.2
  · intro distinct
    exact ⟨exposedPorts_presented summary,
      (sortedOnce_stable_iff portLe_preorder listedPort _).mpr distinct⟩

/-- A container that publishes port 53 over TCP and UDP. -/
def dnsPorts : List PortSummary :=
  [{ privatePort := 53, publicPort := some 53, typ := some .tcp },
    { privatePort := 53, publicPort := some 53, typ := some .udp }]

/-- A container with listed ports and nothing else. -/
def withPorts (ports : List PortSummary) : ListedContainer where
  id := none
  names := none
  image := none
  state := none
  status := none
  labels := none
  ports := some ports

/-- Ports that are listed once and in order are presented so. -/
theorem exposedPorts_of_sorted {ports : List PortSummary}
    (once : (ports.map listedPort).eraseDups = ports.map listedPort)
    (sorted : (ports.map listedPort).Pairwise (portLe · · = true))
    : (withPorts ports).exposedPorts = ports.map listedPort := by
  change (ports.map listedPort).eraseDups.mergeSort portLe = _
  rw [once, List.mergeSort_of_pairwise sorted]

/-- One number over TCP and UDP is presented in the order of the listing. -/
theorem dnsPorts_unstable
    : dnsPorts.reverse.Perm dnsPorts
      ∧ (withPorts dnsPorts).exposedPorts.map Port.proto = ["tcp", "udp"]
      ∧ (withPorts dnsPorts.reverse).exposedPorts.map Port.proto = ["udp", "tcp"] := by
  refine ⟨List.reverse_perm _, ?_, ?_⟩
  · rw [exposedPorts_of_sorted (by decide) (by decide)]
    rfl
  · rw [exposedPorts_of_sorted (by decide) (by decide)]
    rfl

end DockDoe
