import DockDoe.Foundations.LossyUtf8
import DockDoe.Foundations.PercentCoding
import DockDoe.Model.Config
import DockDoe.Model.HostActions
import DockDoe.Model.Sessions

/-! The router of the web layer, and the middleware in front of its handlers. -/

namespace DockDoe

open Cuts

/-- A segment of a route's pattern: a text, one parameter, or the rest of the path. -/
inductive Segment
  | fixed (text : Text)
  | param
  | rest
  deriving DecidableEq

inductive Handler
  | hostIndex | dashboard | containerDetail | stackDetail
  | eventsDashboard | eventsContainer | eventsStack
  | containerLogs | stackCompose
  | metricsContainer | metricsStack | historyContainer | historyStack
  | apiHosts | apiSnapshot | apiEvents
  | containerAction | stackAction
  | loginPage | loginSubmit | logout
  | wsExec | asset
  deriving DecidableEq

/-- A route with its handlers, and whether the guard of the lifecycle actions is before them. -/
structure Route where
  pattern : List Segment
  get : Option Handler
  post : Option Handler
  htmxOnly : Bool

namespace Route

/-- A route that is read. -/
def reading (pattern : List Segment) (handler : Handler) : Route :=
  { pattern, get := some handler, post := none, htmxOnly := false }

/-- The handler of a method; `HEAD` is served as `GET` is. -/
def handler (route : Route) : Method → Option Handler
  | .get => route.get
  | .head => route.get
  | .post => route.post
  | .other _ => none

end Route

/-- A pattern below a host. -/
def underHost (pattern : List Segment) : List Segment :=
  .fixed "host".toList :: .param :: pattern

/-- The routes. Where two of them match a path, the one with a fixed segment comes first. -/
def routes : List Route :=
  let events := Segment.fixed "events".toList
  let api := Segment.fixed "api".toList
  let container := Segment.fixed "container".toList
  let stack := Segment.fixed "stack".toList
  let metrics := Segment.fixed "metrics".toList
  let history := Segment.fixed "history".toList
  [
    .reading [.fixed []] .hostIndex,
    .reading (underHost []) .dashboard,
    .reading (underHost [container, .param]) .containerDetail,
    .reading (underHost [stack, .param]) .stackDetail,
    .reading (underHost [events]) .eventsDashboard,
    .reading (underHost [events, container, .param]) .eventsContainer,
    .reading (underHost [events, stack, .param]) .eventsStack,
    .reading (underHost [api, container, .param, .fixed "logs".toList]) .containerLogs,
    .reading (underHost [api, stack, .param, .fixed "compose".toList]) .stackCompose,
    .reading (underHost [api, metrics, container, .param]) .metricsContainer,
    .reading (underHost [api, metrics, stack, .param]) .metricsStack,
    .reading (underHost [api, history, container, .param]) .historyContainer,
    .reading (underHost [api, history, stack, .param]) .historyStack,
    .reading [api, .fixed "hosts".toList] .apiHosts,
    .reading (underHost [api, .fixed "snapshot".toList]) .apiSnapshot,
    .reading (underHost [api, events]) .apiEvents,
    {
      pattern := underHost [api, container, .param, .param]
      get := none
      post := some .containerAction
      htmxOnly := true
    },
    {
      pattern := underHost [api, stack, .param, .param]
      get := none
      post := some .stackAction
      htmxOnly := true
    },
    {
      pattern := [.fixed "login".toList]
      get := some .loginPage
      post := some .loginSubmit
      htmxOnly := false
    },
    { pattern := [.fixed "logout".toList], get := none, post := some .logout, htmxOnly := false },
    .reading (underHost [.fixed "ws".toList, container, .param, .fixed "exec".toList]) .wsExec,
    .reading [.fixed "assets".toList, .rest] .asset
  ]

/-- The raw parameters of a path that matches a pattern. A parameter is a whole segment, which
may be empty in front of others; one that ends the path is not.
-/
def matchPattern : List Segment → List Text → Option (List Text)
  | [], [] => some []
  | .fixed text :: pattern, segment :: path =>
      if segment = text then matchPattern pattern path else none
  | .param :: pattern, segment :: path =>
      if path.isEmpty && segment.isEmpty then
        none
      else
        (matchPattern pattern path).map (segment :: ·)
  | [.rest], segment :: path =>
      let rest := ['/'].intercalate (segment :: path)
      if rest.isEmpty then none else some [rest]
  | _, _ => none

/-- The segments of a path. -/
def pathSegments (path : Text) : List Text :=
  match path.splitOn '/' with
  | [] :: segments => segments
  | _ => []

def findRoute (path : Text) : Option (Route × List Text) :=
  routes.findSome? (fun route =>
    (matchPattern route.pattern (pathSegments path)).map (fun params => (route, params)))

/-- A raw parameter decoded. It is UTF-8 if reading it as such loses nothing. -/
def decodeParam (raw : Text) : Option Text :=
  let bytes := PercentCoding.decode raw
  let text := LossyUtf8.fromUtf8Lossy bytes
  if asBytes text = bytes then some text else none

/-- Where a host's data and actions come from: a Docker endpoint with what has happened at
it, or a node with its answers to forwarded actions.
-/
inductive HostSource
  | docker (around : Surroundings) (events : List Event)
  | node (forwardAction : Text → Except Text (ℕ × Text))

structure HostRuntime where
  source : HostSource
  readOnly : Bool

/-- The state of the web layer. -/
structure AppState where
  hosts : List (Text × HostRuntime)
  hostOrder : List Text
  allowedHosts : List Text
  auth : Option Auth
  apiToken : Option ApiToken
  /-- The configured names are those of the hosts, and can stand in a URL. -/
  listed : ∀ name ∈ hostOrder, isValidSlug name = true ∧ (hosts.lookup name).isSome = true

/-- What a request is handled with: HMAC, the clock, and the extractors that reject a
query, a form or what is not an upgrade to a WebSocket.
-/
structure Platform where
  hmac : Hmac
  nowUnix : ℕ
  rejectQuery : Handler → Request → Option Response
  rejectForm : Request → Option Response
  rejectUpgrade : Request → Option Response

/-- The token of an `Authorization: Bearer` header. -/
def bearerToken (headers : HeaderMap) : Option Text :=
  ((headers.get "authorization".toList).bind toStr).bind (stripPrefix "Bearer ".toList)

def isHtmxRequest (headers : HeaderMap) : Bool :=
  headers.get "hx-request".toList == some (asBytes "true".toList)

/-- The hostname of a `Host` header: no port, and no brackets of an IPv6 literal. -/
def hostWithoutPort (host : Text) : Text :=
  match host with
  | '[' :: rest => rest.takeWhile (· ≠ ']')
  | _ =>
      match cutLast ':' host with
      | none => host
      | some (h, _) => h

def hostAllowed (headers : HeaderMap) (allowed : List Text) : Bool :=
  if allowed.isEmpty then
    true
  else
    match (headers.get "host".toList).bind toStr with
    | none => false
    | some host =>
        let host := toAsciiLowercase (hostWithoutPort (trim host))
        host == "localhost".toList || host == "127.0.0.1".toList || host == "::1".toList
        || allowed.contains host

/-- The allowlist as the requests are compared with it. -/
def normalizeAllowedHosts (hosts : List Text) : List Text :=
  (hosts.map (fun h => toAsciiLowercase (hostWithoutPort (trim h)))).filter (fun h => !h.isEmpty)

/-- The guard of the lifecycle actions: a request that htmx makes or a verified token. -/
def requireHtmx (req : Request) : Except Response Request :=
  if req.bearerAuthed || isHtmxRequest req.headers then
    .ok req
  else
    .error (.plain 403 "rejected: not an htmx request (missing HX-Request header)")

namespace Platform

variable (platform : Platform) (state : AppState)

/-- The guard that a request is for an allowed host. -/
def checkHost (req : Request) : Except Response Request :=
  if hostAllowed req.headers state.allowedHosts then
    .ok req
  else
    .error (.plain 403 "rejected: Host not allowed")

/-- A request without a token that counts: where a login is needed, it has a session or is for
a public path.
-/
def requireSession (req : Request) : Except Response Request :=
  match state.auth with
  | none => .ok req
  | some auth =>
      if req.path = "/login".toList ∨ "/assets/".toList.isPrefixOf req.path then
        .ok req
      else if requestIsAuthenticated platform.hmac auth req.headers platform.nowUnix then
        .ok req
      else if isHtmxRequest req.headers then
        .error { status := 401, body := .empty, location := none,
                 hxRedirect := some "/login".toList }
      else
        .error (.redirect "/login".toList)

/-- The guard that a request has a verified token, or passes without one. -/
def requireAuth (req : Request) : Except Response Request :=
  match state.apiToken, bearerToken req.headers with
  | some expected, some presented =>
      if expected.matches platform.hmac presented then
        .ok { req with bearerAuthed := true }
      else
        .error (.plain 401 "invalid API token")
  | _, _ => platform.requireSession state req

/-- What a handler's extractors reject. A form is not read without its content type. -/
def rejection (handler : Handler) (req : Request) : Option Response :=
  match handler with
  | .metricsContainer | .metricsStack | .historyContainer | .historyStack =>
      platform.rejectQuery handler req
  | .wsExec => platform.rejectQuery handler req <|> platform.rejectUpgrade req
  | .loginSubmit =>
      match req.headers.get "content-type".toList with
      | none =>
          some (.plain 415
            "Form requests must have `Content-Type: application/x-www-form-urlencoded`")
      | some _ => platform.rejectForm req
  | _ => none

end Platform

/-- A handler that runs, with its parameters and the request as it gets it. -/
structure Dispatched where
  handler : Handler
  params : List Text
  request : Request

/-- The guard of a route. -/
def Route.guard (route : Route) (req : Request) : Except Response Request :=
  if route.htmxOnly then requireHtmx req else .ok req

namespace Platform

variable (platform : Platform)

/-- The handler of a route, after the extractors. -/
def runHandler (route : Route) (raw : List Text) (req : Request) : Except Response Dispatched :=
  match route.handler req.method with
  | none => .error (.plain 405 "")
  | some handler =>
      match raw.mapM decodeParam with
      | none => .error (.plain 400 "Invalid URL")
      | some params =>
          match platform.rejection handler req with
          | some response => .error response
          | none => .ok { handler, params, request := req }

/-- The handler that runs for an authorised request. -/
def runRoute (req : Request) : Except Response Dispatched :=
  match findRoute req.path with
  | none => .error (.plain 404 "")
  | some (route, raw) => do platform.runHandler route raw (← route.guard req)

/-- The handler that runs for a request, or the answer of what is before it. -/
def dispatch (state : AppState) (req : Request) : Except Response Dispatched := do
  platform.runRoute (← platform.requireAuth state (← checkHost state req))

end Platform

end DockDoe
