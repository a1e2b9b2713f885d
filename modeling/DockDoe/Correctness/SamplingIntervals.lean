import DockDoe.Model.Config

/-! When a loaded configuration samples every host at a positive interval.
The command line and the hosts are checked for a zero, the global interval of the file is not.
-/

namespace DockDoe

open FallibleLists

theorem bailIf_ok_iff {ε : Type} {condition : Bool} {error : ε} {done : Unit}
    : bailIf condition error = .ok done ↔ condition = false := by
  cases condition <;> simp [bailIf]

/-- What every host of a validated list has: an endpoint, and no zero interval of its own. -/
structure Monitored (host : HostConfig) : Prop where
  endpoint : ∃ url, host.endpointUrl = some url
  interval : host.intervalSecs ≠ some 0

theorem endpoint_of_validateEndpoint {host : HostConfig} (valid : validateEndpoint host = .ok ())
    : ∃ url, host.endpointUrl = some url := by
  unfold validateEndpoint at valid
  unfold HostConfig.endpointUrl
  cases docker : host.docker with
  | some url => exact ⟨url, rfl⟩
  | none =>
      cases node : host.dockdoe with
      | some url => exact ⟨url, rfl⟩
      | none =>
          rw [docker, node] at valid
          cases valid

theorem monitored_of_validateHost {seen : List Text} {host : HostConfig}
    (valid : validateHost seen host = .ok ())
    : Monitored host := by
  simp only [validateHost, bind_eq_ok_iff, bailIf_ok_iff] at valid
  obtain ⟨_, _, _, _, _, endpoint, _, _, _, _, interval⟩ := valid
  exact ⟨endpoint_of_validateEndpoint endpoint, by simpa using interval⟩

/-- Every host of a validated list is monitored, by induction on the list. -/
theorem monitored_of_validateEach {seen : List Text} {hosts : List HostConfig}
    (valid : validateEach seen hosts = .ok ())
    : ∀ host ∈ hosts, Monitored host := by
  induction hosts generalizing seen with
  | nil => simp
  | cons first rest ih =>
      rw [validateEach] at valid
      split at valid
      · cases valid
      next here =>
        intro host member
        rcases List.mem_cons.mp member with same | inRest
        · exact same ▸ monitored_of_validateHost here
        · exact ih valid host inRest

/-- A host whose collector ticks: its interval is known and not zero. -/
def Ticks (globalDefault : ℕ) (host : HostConfig) : Prop :=
  ∃ secs, host.effectiveIntervalSecs globalDefault = some secs ∧ 1 ≤ secs

/-- A host that samples as often as the configuration says in general. -/
def Inherits (host : HostConfig) : Prop :=
  host.intervalSecs = none ∧ host.isLocalEndpoint = some true

/-- Only an inherited zero keeps a host from ticking: its own interval is checked, and the
defaults of both kinds of endpoint are positive.
-/
theorem ticks_iff {globalDefault : ℕ} {host : HostConfig} (monitored : Monitored host)
    : Ticks globalDefault host ↔ ¬ (globalDefault = 0 ∧ Inherits host) := by
  unfold Ticks Inherits HostConfig.effectiveIntervalSecs
  cases own : host.intervalSecs with
  | some secs =>
      have positive : secs ≠ 0 := by
        intro zero
        apply monitored.interval
        rw [own, zero]
      simp
      omega
  | none =>
      obtain ⟨url, endpoint⟩ := monitored.endpoint
      have known : ∃ isLocal, host.isLocalEndpoint = some isLocal := by
        rw [HostConfig.isLocalEndpoint, endpoint]
        exact ⟨_, rfl⟩
      obtain ⟨isLocal, classified⟩ := known
      rw [classified]
      cases isLocal with
      | true =>
          simp
          omega
      | false => simp [remoteDefaultIntervalSecs]

namespace Startup

variable {startup : Startup} {path : Option Text} {cli : Cli} {file : FileConfig}
  {cfg : AppConfig}

/-- A loaded configuration has the validated hosts, and the interval of the file or else of the
command line. The checks before the resolution either fail or change nothing.
-/
theorem load_ok (read : startup.fileConfig path = .ok file)
    (loaded : startup.load path cli = .ok cfg)
    : cfg.hosts = startup.configuredHosts file cli
      ∧ cfg.intervalSecs = file.intervalSecs.getD cli.intervalSecs
      ∧ ∀ host ∈ cfg.hosts, Monitored host := by
  simp only [load, read, bind_eq_ok_iff, bailIf_ok_iff, Except.ok.injEq, exists_eq_left'] at loaded
  obtain ⟨_, valid, _, _, _, _, _, _, resolved⟩ := loaded
  cases resolved
  refine ⟨rfl, rfl, ?_⟩
  unfold validateHosts at valid
  split at valid
  · cases valid
  · exact monitored_of_validateEach valid

/-- Every host of a loaded configuration ticks exactly when none inherits a zero. Witness: what
loading guards are the hosts' own intervals and the one of the command line, not the file's.
-/
theorem allTick_iff (read : startup.fileConfig path = .ok file)
    (loaded : startup.load path cli = .ok cfg)
    : (∀ host ∈ cfg.hosts, Ticks cfg.intervalSecs host)
      ↔ ¬ (file.intervalSecs = some 0
          ∧ ∃ host ∈ startup.configuredHosts file cli, Inherits host) := by
  obtain ⟨sameHosts, sameInterval, monitored⟩ := load_ok read loaded
  have zero : cfg.intervalSecs = 0 ↔ file.intervalSecs = some 0 := by
    have sampled := cli.sampled
    rw [sameInterval]
    cases file.intervalSecs with
    | none =>
        simp
        omega
    | some secs => simp
  rw [← sameHosts, ← zero]
  constructor
  · intro allTick h
    obtain ⟨isZero, host, member, inherits⟩ := h
    exact (ticks_iff (monitored host member)).mp (allTick host member) ⟨isZero, inherits⟩
  · intro none host member
    apply (ticks_iff (monitored host member)).mpr
    intro h
    obtain ⟨isZero, inherits⟩ := h
    exact none ⟨isZero, host, member, inherits⟩

end Startup

section ZeroInterval

/-- A start with a file that consists of a global interval. -/
def startWith (secs : ℕ) : Startup where
  readToString _ := .ok []
  fromToml _ := .ok { intervalSecs := some secs }
  dockerHost := none

/-- A positive interval of the file is one at which the local host ticks. -/
theorem allTick_five
    : ∃ cfg,
        (startWith 5).load (some "config.toml".toList) {} = .ok cfg
        ∧ ∀ host ∈ cfg.hosts, Ticks cfg.intervalSecs host := by
  have read
      : (startWith 5).fileConfig (some "config.toml".toList) = .ok { intervalSecs := some 5 } :=
    rfl
  have loaded : ∃ cfg, (startWith 5).load (some "config.toml".toList) {} = .ok cfg :=
    ⟨_, rfl⟩
  obtain ⟨cfg, loaded⟩ := loaded
  refine ⟨cfg, loaded, (Startup.allTick_iff read loaded).mpr ?_⟩
  intro h
  obtain ⟨zero, _⟩ := h
  cases zero

/-- A zero of the file is accepted, and the local host gets it. -/
theorem zeroInterval_loaded
    : ∃ cfg host,
        (startWith 0).load (some "config.toml".toList) {} = .ok cfg
        ∧ host ∈ cfg.hosts
        ∧ host.effectiveIntervalSecs cfg.intervalSecs = some 0 :=
  ⟨_, _, rfl, List.mem_cons_self, rfl⟩

end ZeroInterval

end DockDoe
