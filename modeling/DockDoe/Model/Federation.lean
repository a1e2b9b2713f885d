import DockDoe.Model.Handlers
import DockDoe.Model.NodeClient

/-! A hub and a node, and what passes between them when the hub forwards an action. -/

namespace DockDoe

open UrlPaths

/-- A hub with a host entry for a node, which runs on a platform in some state. -/
structure Federation where
  client : NodeClient
  hostHeader : Text → HeaderValue
  platform : Platform
  pages : Pages
  node : AppState

/-- What passes between a hub and a node: what the node serves, and how it ends for the hub. -/
structure Exchange where
  served : List Served
  last : Except Text Response

/-- Where an answer redirects to. A node's redirects are all 303 See Other. -/
def redirectTarget (response : Response) : Option Text :=
  if response.status = 303 then response.location else none

/-- How many redirects the HTTP library follows. -/
def maxRedirects : ℕ := 10

namespace Federation

variable (fed : Federation)

/-- The headers of the hub's requests. -/
def headers : HeaderMap :=
  fed.client.headers fed.hostHeader fed.client.base.authority

/-- The hub's request for a snapshot. -/
def snapshotRequest (nodeHost : Text) : Option Request :=
  fed.client.request fed.hostHeader .get (fed.client.snapshotUrl nodeHost)

/-- The hub's request for an action. -/
def actionRequest (relay : Relay) : Option Request :=
  (relay.url fed.client).toOption.bind (fed.client.request fed.hostHeader .post)

/-- The hub's request for a URL at the node. -/
def asked (method : Method) (url : Url) : Request :=
  fed.client.arriving fed.hostHeader method url

/-- Ask the node for a URL and follow its redirects, with a GET each. -/
def exchange (redirects : ℕ) (node : AppState) (method : Method) (url : Url) : Exchange :=
  match serve fed.platform fed.pages node (fed.asked method url) with
  | none => { served := [], last := .error "operation timed out".toList }
  | some served =>
      match redirectTarget served.response with
      | none => { served := [served], last := .ok served.response }
      | some target =>
          match redirects with
          | 0 => { served := [served], last := .error "too many redirects".toList }
          | redirects + 1 =>
              let rest := exchange redirects served.after .get (url.withPath target)
              { served := served :: rest.served, last := rest.last }

/-- What passes when the hub posts an action. -/
def actionExchange (apiPath : Text) : Except Text Exchange := do
  let s ← fed.client.forwardActionUrl apiPath
  match UrlPaths.parse s with
  | none => .error "builder error".toList
  | some url => return fed.exchange maxRedirects fed.node .post url

/-- The status and the body that the hub gets for an action. -/
def forwardAction (apiPath : Text) : Except Text (ℕ × Text) := do
  let exchange ← fed.actionExchange apiPath
  let response ← exchange.last
  return (response.status, fed.pages.render response.body)

end Federation

end DockDoe
