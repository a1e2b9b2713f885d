import DockDoe.Foundations.FallibleLists
import DockDoe.Model.Texts

/-! The configuration: the file and the command line merged, and the hosts to monitor. -/

namespace DockDoe

open Cuts

inductive ScaleMode
  | linear | sqrt | log
  deriving DecidableEq

/-- Parameters of the dashboard overview discs. -/
structure OverviewConfig where
  cpuScale : ScaleMode
  memScale : ScaleMode
  memCap : ℕ

def overviewMemFloor : ℕ :=
  16 * 1024 * 1024

/-- Why a byte size is not one. -/
inductive SizeError
  | invalid (s : Text)
  | suffix (unit : Text)
  | overflows (s : Text)

/-- The power of two that a suffix stands for. -/
def sizeShift (unit : Text) : Option ℕ :=
  let upper := String.ofList (unit.map Char.toUpper)
  if upper = "" ∨ upper = "B" then
    some 0
  else if upper = "K" ∨ upper = "KB" ∨ upper = "KIB" then
    some 10
  else if upper = "M" ∨ upper = "MB" ∨ upper = "MIB" then
    some 20
  else if upper = "G" ∨ upper = "GB" ∨ upper = "GIB" then
    some 30
  else if upper = "T" ∨ upper = "TB" ∨ upper = "TIB" then
    some 40
  else
    none

/-- A byte size with an optional suffix. -/
def parseSize (s : Text) : Except SizeError ℕ :=
  let s := trim s
  let digits := s.rdropWhile (fun c => !c.isDigit)
  match parseU64 digits with
  | none => .error (.invalid s)
  | some value =>
      let unit := trim (s.drop digits.length)
      match sizeShift unit with
      | none => .error (.suffix unit)
      | some shift =>
          -- Fewer leading zeros than places to shift: the top bits are lost.
          if 2 ^ (64 - shift) ≤ value then .error (.overflows s) else .ok (value * 2 ^ shift)

/-- A host to monitor. -/
structure HostConfig where
  name : Text
  docker : Option Text
  dockdoe : Option Text
  token : Option Text
  nodeHost : Option Text
  publicHost : Option Text
  intervalSecs : Option ℕ
  tlsCa : Option Text
  tlsInsecure : Bool

def remoteDefaultIntervalSecs : ℕ :=
  10

namespace HostConfig

/-- The endpoint, of whichever kind; without one, asking for it panics. -/
def endpointUrl (host : HostConfig) : Option Text :=
  host.docker <|> host.dockdoe

def isLocalEndpoint (host : HostConfig) : Option Bool :=
  host.endpointUrl.map (fun url =>
    let endpoint := trim url
    let scheme :=
      match cut "://".toList endpoint with
      | none => endpoint
      | some (s, _) => s
    eqIgnoreAsciiCase scheme "unix".toList || eqIgnoreAsciiCase scheme "npipe".toList)

/-- The sampling interval, unless asking for the endpoint panics. -/
def effectiveIntervalSecs (host : HostConfig) (globalDefault : ℕ) : Option ℕ :=
  match host.intervalSecs with
  | some secs => some secs
  | none =>
      host.isLocalEndpoint.map (fun isLocal =>
        if isLocal then globalDefault else remoteDefaultIntervalSecs)

def isNode (host : HostConfig) : Bool :=
  host.dockdoe.isSome

end HostConfig

/-- The resolved configuration. -/
structure AppConfig where
  bind : Text
  dbPath : Text
  intervalSecs : ℕ
  rawRetentionSecs : ℕ
  trendBucketSecs : ℕ
  trendRetentionSecs : ℕ
  pruneIntervalSecs : ℕ
  allowedHosts : List Text
  appriseUrl : Option Text
  notifyDelaySecs : ℕ
  authUser : Option Text
  authPassword : Option Text
  cookieSecure : Bool
  apiToken : Option Text
  log : Text
  overview : OverviewConfig
  hosts : List HostConfig

/-- The configuration file; what it omits defers to the command line. -/
structure FileConfig where
  bind : Option Text := none
  dbPath : Option Text := none
  intervalSecs : Option ℕ := none
  rawRetentionSecs : Option ℕ := none
  trendBucketSecs : Option ℕ := none
  trendRetentionSecs : Option ℕ := none
  pruneIntervalSecs : Option ℕ := none
  allowedHosts : Option (List Text) := none
  appriseUrl : Option Text := none
  notifyDelaySecs : Option ℕ := none
  authUser : Option Text := none
  authPassword : Option Text := none
  cookieSecure : Option Bool := none
  apiToken : Option Text := none
  log : Option Text := none
  overviewCpuScale : Option ScaleMode := none
  overviewMemScale : Option ScaleMode := none
  overviewMemCap : Option Text := none
  host : List HostConfig := []

/-- The command line, with the values parsed from it or their defaults. -/
structure Cli where
  bind : Text := "127.0.0.1:8080".toList
  dbPath : Text := "dockdoe.sqlite".toList
  intervalSecs : ℕ := 3
  /-- The range that the value parser accepts. -/
  sampled : 1 ≤ intervalSecs := by decide
  rawRetentionSecs : ℕ := 3600
  trendBucketSecs : ℕ := 60
  trendRetentionSecs : ℕ := 30 * 24 * 3600
  pruneIntervalSecs : ℕ := 3600
  allowedHosts : List Text := []
  appriseUrl : Option Text := none
  notifyDelaySecs : ℕ := 30
  authUser : Option Text := none
  authPassword : Option Text := none
  cookieSecure : Bool := false
  apiToken : Option Text := none
  portHost : Option Text := none
  overviewCpuScale : ScaleMode := .log
  overviewMemScale : ScaleMode := .log
  overviewMemCap : ℕ := 64 * 2 ^ 30
  log : Text := "info".toList

/-- What is wrong with a host. -/
inductive HostFault
  | invalidName | duplicateName | emptyDocker
  | notHttp (url : Text)
  | twoEndpoints | noEndpoint | strayToken | emptyToken | zeroInterval

inductive ConfigError
  | reading (path cause : Text)
  | parsing (path cause : Text)
  | noHosts
  | host (name : Text) (fault : HostFault)
  | memCap (error : SizeError)
  | smallMemCap
  | emptyApiToken

section Messages

-- Quoting a string is `Debug` of `str`.
variable (quoted : Text → Text)

def SizeError.message : SizeError → Text
  | .invalid s =>
      "invalid size ".toList ++ quoted s
      ++ ": expected digits with an optional K/M/G/T suffix".toList
  | .suffix unit =>
      "invalid size suffix ".toList ++ quoted unit ++ ": use K, M, G or T".toList
  | .overflows s =>
      "size ".toList ++ quoted s ++ " overflows".toList

def HostFault.message (name : Text) : HostFault → Text
  | .invalidName =>
      "invalid host name ".toList ++ quoted name
      ++ ": use only letters, digits, '.', '_' and '-'".toList
  | .duplicateName =>
      "duplicate host name ".toList ++ quoted name
  | .emptyDocker =>
      "host ".toList ++ quoted name ++ " has an empty docker endpoint".toList
  | .notHttp url =>
      "host ".toList ++ quoted name
      ++ ": dockdoe must be an http:// or https:// URL, got ".toList ++ quoted url
  | .twoEndpoints =>
      "host ".toList ++ quoted name ++ " sets both docker and dockdoe; pick one per host".toList
  | .noEndpoint =>
      "host ".toList ++ quoted name
      ++ " needs an endpoint: docker (socket/proxy) or dockdoe (federated node)".toList
  | .strayToken =>
      "host ".toList ++ quoted name
      ++ ": token and node_host only apply to a dockdoe endpoint".toList
  | .emptyToken =>
      "host ".toList ++ quoted name ++ " has an empty token (unset it if none is needed)".toList
  | .zeroInterval =>
      "host ".toList ++ quoted name ++ " has interval_secs = 0; it must be at least 1".toList

/-- The texts of an error, the outermost context first. -/
def ConfigError.messages : ConfigError → List Text
  | .reading path cause => ["reading config file ".toList ++ path, cause]
  | .parsing path cause => ["parsing config file ".toList ++ path, cause]
  | .noHosts => ["no hosts configured".toList]
  | .host name fault => [fault.message quoted name]
  | .memCap error => ["parsing overview_mem_cap".toList, error.message quoted]
  | .smallMemCap => ["overview mem cap must be at least 32M".toList]
  | .emptyApiToken =>
      ["api_token must not be empty (unset it to disable token access)".toList]

end Messages

/-- Fail with an error under a condition. -/
def bailIf {ε : Type} (condition : Bool) (error : ε) : Except ε Unit :=
  if condition then .error error else .ok ()

def isValidSlug (s : Text) : Bool :=
  !s.isEmpty && s.all (fun c => c.isAlphanum || c == '.' || c == '_' || c == '-')

def isBlank (s : Text) : Bool :=
  (trim s).isEmpty

/-- The endpoints of a host: exactly one of the two kinds, and not a useless one. -/
def validateEndpoint (host : HostConfig) : Except HostFault Unit :=
  match host.docker, host.dockdoe with
  | some docker, none => if isBlank docker then .error .emptyDocker else .ok ()
  | none, some node =>
      let node := trim node
      if "http://".toList.isPrefixOf node || "https://".toList.isPrefixOf node then
        .ok ()
      else
        .error (.notHttp node)
  | some _, some _ => .error .twoEndpoints
  | none, none => .error .noEndpoint

/-- One host, after those whose names have been seen. -/
def validateHost (seen : List Text) (host : HostConfig) : Except HostFault Unit := do
  bailIf (!isValidSlug host.name) .invalidName
  bailIf (seen.contains host.name) .duplicateName
  validateEndpoint host
  bailIf (!host.isNode && (host.token.isSome || host.nodeHost.isSome)) .strayToken
  bailIf (host.token.any isBlank) .emptyToken
  -- Zero would panic in the collector's timer.
  bailIf (host.intervalSecs == some 0) .zeroInterval

def validateEach (seen : List Text) : List HostConfig → Except ConfigError Unit
  | [] => .ok ()
  | host :: rest =>
      match validateHost seen host with
      | .error fault => .error (.host host.name fault)
      | .ok () => validateEach (host.name :: seen) rest

def validateHosts (hosts : List HostConfig) : Except ConfigError Unit :=
  if hosts.isEmpty then .error .noHosts else validateEach [] hosts

/-- What loading finds around it: the file system, the TOML parser and `DOCKER_HOST`. -/
structure Startup where
  readToString : Text → Except Text Text
  fromToml : Text → Except Text FileConfig
  dockerHost : Option Text

namespace Startup

variable (startup : Startup)

def defaultDockerEndpoint : Text :=
  startup.dockerHost.getD "unix:///var/run/docker.sock".toList

/-- The configuration file, empty when there is none. -/
def fileConfig (path : Option Text) : Except ConfigError FileConfig :=
  match path with
  | none => .ok {}
  | some p =>
      match startup.readToString p with
      | .error cause => .error (.reading p cause)
      | .ok text =>
          match startup.fromToml text with
          | .error cause => .error (.parsing p cause)
          | .ok file => .ok file

/-- The hosts of the file, or one local host when it lists none. -/
def configuredHosts (file : FileConfig) (cli : Cli) : List HostConfig :=
  if file.host.isEmpty then
    [{
      name := "local".toList
      docker := some startup.defaultDockerEndpoint
      dockdoe := none
      token := none
      nodeHost := none
      publicHost := cli.portHost
      intervalSecs := none
      tlsCa := none
      tlsInsecure := false
    }]
  else
    file.host

def overviewMemCap (file : FileConfig) (cli : Cli) : Except ConfigError ℕ :=
  match file.overviewMemCap with
  | none => .ok cli.overviewMemCap
  | some s =>
      match parseSize s with
      | .error error => .error (.memCap error)
      | .ok size => .ok size

/-- Load and resolve the configuration. -/
def load (path : Option Text) (cli : Cli) : Except ConfigError AppConfig := do
  let file ← startup.fileConfig path
  let hosts := startup.configuredHosts file cli
  validateHosts hosts
  let memCap ← overviewMemCap file cli
  bailIf (memCap < 2 * overviewMemFloor) .smallMemCap
  let apiToken := file.apiToken <|> cli.apiToken
  bailIf (apiToken.any isBlank) .emptyApiToken
  pure {
    bind := file.bind.getD cli.bind
    dbPath := file.dbPath.getD cli.dbPath
    intervalSecs := file.intervalSecs.getD cli.intervalSecs
    rawRetentionSecs := file.rawRetentionSecs.getD cli.rawRetentionSecs
    trendBucketSecs := file.trendBucketSecs.getD cli.trendBucketSecs
    trendRetentionSecs := file.trendRetentionSecs.getD cli.trendRetentionSecs
    pruneIntervalSecs := file.pruneIntervalSecs.getD cli.pruneIntervalSecs
    allowedHosts := file.allowedHosts.getD cli.allowedHosts
    appriseUrl := file.appriseUrl <|> cli.appriseUrl
    notifyDelaySecs := file.notifyDelaySecs.getD cli.notifyDelaySecs
    authUser := file.authUser <|> cli.authUser
    authPassword := file.authPassword <|> cli.authPassword
    cookieSecure := file.cookieSecure.getD cli.cookieSecure
    apiToken
    log := file.log.getD cli.log
    overview := {
      cpuScale := file.overviewCpuScale.getD cli.overviewCpuScale
      memScale := file.overviewMemScale.getD cli.overviewMemScale
      memCap
    }
    hosts
  }

end Startup

end DockDoe
