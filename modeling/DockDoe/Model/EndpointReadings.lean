import DockDoe.Model.Config

/-! How the endpoint of a host is read: to connect to it, and for the links of its ports. -/

namespace DockDoe

/-- The constructors of the Docker library, each of which may fail. -/
structure Connectors (ε δ : Type) where
  connectWithUnix : Text → Except ε δ
  connectWithHttp : Text → Except ε δ
  connectHttps : Text → HostConfig → Except ε δ

inductive ConnectError (ε : Type)
  | noEndpoint
  | socket (url : Text) (cause : ε)
  | endpoint (url : Text) (cause : ε)
  | https (cause : ε)
  | unsupported (url : Text)

/-- A Docker connection for one host from its endpoint URL. -/
def connectEndpoint {ε δ : Type} (connectors : Connectors ε δ) (cfg : HostConfig)
    : Except (ConnectError ε) δ :=
  match cfg.docker with
  | none => .error .noEndpoint
  | some docker =>
      let url := trim docker
      if "unix://".toList.isPrefixOf url || "/".toList.isPrefixOf url then
        (connectors.connectWithUnix url).mapError (.socket url)
      else if "tcp://".toList.isPrefixOf url || "http://".toList.isPrefixOf url then
        (connectors.connectWithHttp url).mapError (.endpoint url)
      else if "https://".toList.isPrefixOf url then
        (connectors.connectHttps url cfg).mapError .https
      else
        .error (.unsupported url)

/-- How published ports link out. -/
inductive PortLinks
  /-- To whatever host the browser is pointed at. -/
  | browser
  /-- To a fixed host. -/
  | host (name : Text)
  /-- Not at all. -/
  | off
  deriving DecidableEq

def endpointSchemes : List Text :=
  ["tcp://".toList, "http://".toList, "https://".toList]

/-- The host part of an endpoint URL. -/
def endpointHost (url : Text) : Option Text :=
  match endpointSchemes.findSome? (stripPrefix · url) with
  | none => none
  | some rest =>
      match stripPrefix ['['] rest with
      -- A literal address: everything inside the brackets.
      | some after => some (after.takeWhile (· ≠ ']'))
      | none =>
          let host := rest.takeWhile (fun c => c ≠ '/' && c ≠ ':')
          if host.isEmpty then none else some host

/-- A public host that says something. -/
def publicHostSet (publicHost : Option Text) : Option Text :=
  (publicHost.map trim).filter (!·.isEmpty)

/-- The links of a host: its public host, or else the host of its endpoint, or else the
browser's.
-/
def PortLinks.fromConfig (publicHost : Option Text) (dockerUrl : Text) : PortLinks :=
  match publicHostSet publicHost with
  | some s =>
      if eqIgnoreAsciiCase s "off".toList || eqIgnoreAsciiCase s "none".toList
          || s == "-".toList then
        .off
      else
        .host s
  | none =>
      match endpointHost dockerUrl with
      | none => .browser
      | some name => .host name

/-- The links of a host, unless asking for the endpoint panics. -/
def HostConfig.links (host : HostConfig) : Option PortLinks :=
  host.endpointUrl.map (PortLinks.fromConfig host.publicHost)

end DockDoe
