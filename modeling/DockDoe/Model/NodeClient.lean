import DockDoe.Foundations.UrlPaths
import DockDoe.Model.DockerEndpoint
import DockDoe.Model.Requests

/-! The hub's client of a node: the URLs it asks for, and the requests that arrive there. -/

namespace DockDoe

open UrlPaths

/-- A raw query as a URL ends with it, unless it is empty. -/
def querySuffix (query : Option Text) : Text :=
  match query.filter (fun q => !q.isEmpty) with
  | some q => '?' :: q
  | none => []

/-- The HTTP client of a node. Its base URL is an origin, such as `http://host:8080`. -/
structure NodeClient where
  base : Origin
  nodeHost : Option Text
  authHeader : Option HeaderValue

namespace NodeClient

variable (client : NodeClient)

/-- The URL of a path under the node's host, once that is resolved. -/
def hostScoped (apiPath : Text) : Except Text Text :=
  match client.nodeHost with
  | none => .error "node not resolved yet (unreachable since startup)".toList
  | some nodeHost => .ok (client.base.text ++ "/host/".toList ++ nodeHost ++ apiPath)

/-- The URL of a forwarded GET with the query to relay. -/
def forwardGetUrl (apiPath : Text) (query : Option Text) : Except Text Text :=
  (client.hostScoped apiPath).map (fun url => url ++ querySuffix query)

/-- The URL of a forwarded lifecycle action. -/
def forwardActionUrl (apiPath : Text) : Except Text Text :=
  client.hostScoped apiPath

/-- The URL of a snapshot. -/
def snapshotUrl (nodeHost : Text) : Text :=
  client.base.text ++ "/host/".toList ++ nodeHost ++ "/api/snapshot".toList

/-- A header value without the blanks around it, as it is received. -/
def received (value : HeaderValue) : HeaderValue :=
  let isBlank (b : UInt8) := b == 32 || b == 9
  (value.dropWhile isBlank).rdropWhile isBlank

/-- The headers of a request to an authority, which the HTTP library names in a `Host` header. -/
def headers (hostHeader : Text → HeaderValue) (authority : Text) : HeaderMap :=
  ("host".toList, hostHeader authority)
  :: ("accept".toList, asBytes "*/*".toList)
  :: (client.authHeader.map received).toList.map (fun value => ("authorization".toList, value))

/-- A request as it arrives at the node. -/
def arriving (hostHeader : Text → HeaderValue) (method : Method) (url : Url) : Request :=
  .incoming method ('/' :: ['/'].intercalate url.path) url.query
    (client.headers hostHeader url.authority)

/-- The request for a URL, if it is one. -/
def request (hostHeader : Text → HeaderValue) (method : Method) (s : Text) : Option Request :=
  (UrlPaths.parse s).map (client.arriving hostHeader method)

end NodeClient

/-- The name of an action. -/
structure ActionName where
  name : Text
  parses : (Action.parse name).isSome = true

/-- What the hub relays to a node, with the parameters and the raw query of its own request. -/
inductive Relay
  | containerLogs (id : Text)
  | stackCompose (name : Text)
  | metricsContainer (id : Text) (query : Option Text)
  | metricsStack (name : Text) (query : Option Text)
  | historyContainer (id : Text) (query : Option Text)
  | historyStack (name : Text) (query : Option Text)
  | containerAction (id : Text) (action : ActionName)
  | stackAction (name : Text) (action : ActionName)

namespace Relay

/-- The path of a relay under the node's host. -/
def apiPath : Relay → Text
  | .containerLogs id => "/api/container/".toList ++ id ++ "/logs".toList
  | .stackCompose name => "/api/stack/".toList ++ name ++ "/compose".toList
  | .metricsContainer id _ => "/api/metrics/container/".toList ++ id
  | .metricsStack name _ => "/api/metrics/stack/".toList ++ name
  | .historyContainer id _ => "/api/history/container/".toList ++ id
  | .historyStack name _ => "/api/history/stack/".toList ++ name
  | .containerAction id action => "/api/container/".toList ++ id ++ '/' :: action.name
  | .stackAction name action => "/api/stack/".toList ++ name ++ '/' :: action.name

/-- The URL that the hub asks a node for. -/
def url (client : NodeClient) (relay : Relay) : Except Text Text :=
  match relay with
  | .containerLogs _ | .stackCompose _ => client.forwardGetUrl relay.apiPath none
  | .metricsContainer _ query | .metricsStack _ query => client.forwardGetUrl relay.apiPath query
  | .historyContainer _ query | .historyStack _ query => client.forwardGetUrl relay.apiPath query
  | .containerAction _ _ | .stackAction _ _ => client.forwardActionUrl relay.apiPath

end Relay

end DockDoe
