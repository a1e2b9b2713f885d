import DockDoe.Correctness.AccessControl
import DockDoe.Correctness.Confinement
import DockDoe.Correctness.PlainPaths
import DockDoe.Model.Federation

/-! What a node lets its hub do.
The hub's requests carry no cookie and no header of htmx, so what they may do depends on the
node's token and login alone.
-/

namespace DockDoe

open UrlPaths

/-- The headers of a client that is not a browser: no header of htmx, no cookie and no form. -/
structure Machine (headers : HeaderMap) : Prop where
  htmx : headers.get "hx-request".toList = none
  cookie : headers.get "cookie".toList = none
  form : headers.get "content-type".toList = none

/-- A method and a path lead to a handler with its parameters. -/
def RoutedTo (method : Method) (path : Text) (handler : Handler) (params : List Text) : Prop :=
  ∃ route raw,
    findRoute path = some (route, raw)
    ∧ route.handler method = some handler
    ∧ raw.mapM decodeParam = some params

/-- A request leads to a handler. -/
def LeadsTo (req : Request) (handler : Handler) : Prop :=
  ∃ params, RoutedTo req.method req.path handler params

/-- A request is sent and leads to a handler. -/
def AsksFor (request : Option Request) (handler : Handler) : Prop :=
  ∃ req ∈ request, LeadsTo req handler

/-- A handler runs for a request. -/
def Serves (platform : Platform) (state : AppState) (req : Request) (handler : Handler) : Prop :=
  ∃ dispatched, platform.dispatch state req = .ok dispatched ∧ dispatched.handler = handler

section Machines

variable {platform : Platform} {state : AppState} {req : Request}

/-- The guard is before the lifecycle handlers only. -/
theorem htmxOnly_eq_isLifecycle
    : ∀ route ∈ routes,
        ∀ handler ∈ route.get.toList ++ route.post.toList,
          route.htmxOnly = handler.isLifecycle := by
  decide

theorem Machine.notHtmx {headers : HeaderMap} (machine : Machine headers)
    : isHtmxRequest headers = false := by
  rw [isHtmxRequest, machine.htmx]
  rfl

theorem Machine.notAuthenticated {headers : HeaderMap} (machine : Machine headers) (auth : Auth)
    : requestIsAuthenticated platform.hmac auth headers platform.nowUnix = false := by
  rw [requestIsAuthenticated, machine.cookie]
  rfl

/-- A request without a cookie has a session only where none is needed. -/
theorem Machine.session_iff (machine : Machine req.headers)
    : HasSession platform state req ↔ state.auth = none ∨ IsPublic req.path := by
  unfold HasSession
  cases state.auth with
  | none => simp
  | some auth => simp [machine.notAuthenticated auth]

/-- What a machine's request passes as: one with a verified token, or one without a token that
counts where no login is needed.
-/
inductive Passes (platform : Platform) (state : AppState) (req : Request) : Request → Prop
  | verified
    : tokenStanding platform.hmac state.apiToken req.headers = .verified
      → Passes platform state req { req with bearerAuthed := true }
  | ignored
    : tokenStanding platform.hmac state.apiToken req.headers = .ignored
      → state.auth = none ∨ IsPublic req.path
      → Passes platform state req req

/-- A machine's request passes the guard with a verified token, or with one that is ignored where
no session is asked for, as it has none.
-/
theorem Machine.requireAuth_ok_iff (machine : Machine req.headers) {passed : Request}
    : platform.requireAuth state req = .ok passed ↔ Passes platform state req passed := by
  rw [DockDoe.requireAuth_ok_iff, machine.session_iff]
  constructor
  · rintro (⟨verified, rfl⟩ | ⟨ignored, session, rfl⟩)
    · exact .verified verified
    · exact .ignored ignored session
  · intro passes
    cases passes with
    | verified verified => exact Or.inl ⟨verified, rfl⟩
    | ignored ignored session => exact Or.inr ⟨ignored, session, rfl⟩

theorem Passes.same {passed : Request} (passes : Passes platform state req passed)
    : passed.method = req.method ∧ passed.path = req.path ∧ passed.headers = req.headers := by
  cases passes <;> exact ⟨rfl, rfl, rfl⟩

/-- The guard of a route lets a machine's request pass to a lifecycle handler only if it has a
verified token.
-/
theorem Machine.guard_iff (machine : Machine req.headers) {passed : Request}
    (passes : Passes platform state req passed) {route : Route} {raw : List Text}
    {handler : Handler} {path : Text} (found : findRoute path = some (route, raw))
    (handles : route.handler req.method = some handler)
    : (route.htmxOnly = true → passed.bearerAuthed = true ∨ isHtmxRequest passed.headers = true)
      ↔ (handler.isLifecycle = true → passed.bearerAuthed = true) := by
  obtain ⟨member, _⟩ := findRoute_some found
  have listed : handler ∈ route.get.toList ++ route.post.toList := by
    simpa [Option.mem_toList] using Route.handler_cases handles
  rw [htmxOnly_eq_isLifecycle route member handler listed, passes.same.2.2, machine.notHtmx]
  simp

/-- A handler runs for a machine's request that is for an allowed host, passes and leads to it; a
lifecycle handler needs a verified token, as the request has no header of htmx.
-/
theorem Machine.dispatch_ok_iff (machine : Machine req.headers) {dispatched : Dispatched}
    : platform.dispatch state req = .ok dispatched
      ↔ hostAllowed req.headers state.allowedHosts = true
        ∧ Passes platform state req dispatched.request
        ∧ RoutedTo req.method req.path dispatched.handler dispatched.params
        ∧ (dispatched.handler.isLifecycle = true → dispatched.request.bearerAuthed = true)
        ∧ platform.rejection dispatched.handler dispatched.request = none := by
  rw [DockDoe.dispatch_ok_iff]
  apply and_congr_right
  intro _
  constructor
  · intro h
    obtain ⟨passed, authorised, route, raw, reaches⟩ := h
    have passes := machine.requireAuth_ok_iff.mp authorised
    obtain ⟨sameMethod, samePath, _⟩ := passes.same
    have found := reaches.found
    have handles := reaches.handles
    rw [samePath] at found
    rw [sameMethod] at handles
    rw [reaches.request]
    exact ⟨passes, ⟨route, raw, found, handles, reaches.params⟩,
      (machine.guard_iff passes found handles).mp reaches.guarded, reaches.accepted⟩
  · intro h
    obtain ⟨passes, ⟨route, raw, found, handles, decoded⟩, exempt, accepted⟩ := h
    obtain ⟨sameMethod, samePath, _⟩ := passes.same
    refine ⟨dispatched.request, machine.requireAuth_ok_iff.mpr passes, route, raw, ?_⟩
    exact {
      found := by rw [samePath, found]
      guarded := (machine.guard_iff passes found handles).mpr exempt
      handles := by rw [sameMethod, handles]
      params := decoded
      accepted
      request := rfl
    }

/-- A handler that is not public runs for a machine's request with a verified token, or without
one that counts where there is no login and the handler does not act on containers: its session
is the missing login.
-/
theorem Machine.serves_iff (machine : Machine req.headers) (fresh : req.bearerAuthed = false)
    {handler : Handler} (notPublic : handler.isPublic = false)
    (accepts : ∀ passed, platform.rejection handler passed = none)
    : Serves platform state req handler
      ↔ hostAllowed req.headers state.allowedHosts = true
        ∧ LeadsTo req handler
        ∧ (tokenStanding platform.hmac state.apiToken req.headers = .verified
          ∨ tokenStanding platform.hmac state.apiToken req.headers = .ignored
            ∧ state.auth = none
            ∧ handler.isLifecycle = false) := by
  constructor
  · rintro ⟨dispatched, runs, rfl⟩
    obtain ⟨allowed, passes, routed, exempt, _⟩ := machine.dispatch_ok_iff.mp runs
    refine ⟨allowed, ⟨_, routed⟩, ?_⟩
    generalize dispatched.request = passed at passes exempt
    cases passes with
    | verified verified => exact Or.inl verified
    | ignored ignored session =>
        refine Or.inr ⟨ignored, ?_, ?_⟩
        · rcases session with noLogin | isPublic
          · exact noLogin
          · obtain ⟨route, raw, found, handles, _⟩ := routed
            cases notPublic.symm.trans (isPublic_of_route isPublic found handles)
        · apply Bool.eq_false_iff.mpr
          intro lifecycle
          cases fresh.symm.trans (exempt lifecycle)
  · intro h
    obtain ⟨allowed, ⟨params, routed⟩, standing⟩ := h
    rcases standing with verified | ⟨ignored, noLogin, unguarded⟩
    · exact ⟨{ handler, params, request := { req with bearerAuthed := true } },
        machine.dispatch_ok_iff.mpr
          ⟨allowed, .verified verified, routed, fun _ => rfl, accepts _⟩,
        rfl⟩
    · exact ⟨{ handler, params, request := req },
        machine.dispatch_ok_iff.mpr
          ⟨allowed, .ignored ignored (Or.inl noLogin), routed,
            fun lifecycle => absurd lifecycle (Bool.eq_false_iff.mp unguarded), accepts _⟩,
        rfl⟩

end Machines

/-- The handler that an action is forwarded to. -/
def Relay.actionHandler : Relay → Option Handler
  | .containerAction _ _ => some .containerAction
  | .stackAction _ _ => some .stackAction
  | _ => none

namespace Federation

variable (fed : Federation)

/-- What becomes of the hub's token at the node. -/
def standing : Standing :=
  tokenStanding fed.platform.hmac fed.node.apiToken fed.headers

/-- The node's handler runs for a request of the hub. -/
def Runs (request : Option Request) (handler : Handler) : Prop :=
  ∃ req ∈ request, Serves fed.platform fed.node req handler

/-- The node shows its host to the hub, and the hub's token does not exempt an action from the
guard.
-/
structure ShowsOnly (nodeHost : Text) (relay : Relay) (handler : Handler) : Prop where
  host : hostAllowed fed.headers fed.node.allowedHosts = true
  admitted : fed.standing = .verified ∨ fed.standing = .ignored ∧ fed.node.auth = none
  routed : AsksFor (fed.snapshotRequest nodeHost) .apiSnapshot
  unexempted
    : ¬ (fed.standing = .verified ∧ AsksFor (fed.actionRequest relay) handler)

end Federation

section Requests

variable {fed : Federation}

theorem headers_machine (client : NodeClient) (hostHeader : Text → HeaderValue) (authority : Text)
    : Machine (client.headers hostHeader authority) := by
  unfold NodeClient.headers
  cases client.authHeader <;> exact ⟨rfl, rfl, rfl⟩

/-- A request for a path at the node has the hub's headers. -/
theorem request_headers (rest : Text) {client : NodeClient} {hostHeader : Text → HeaderValue}
    {method : Method} {s : Text} {req : Request} (path : s = client.base.text ++ '/' :: rest)
    (sent : client.request hostHeader method s = some req)
    : req.headers = client.headers hostHeader client.base.authority
      ∧ req.bearerAuthed = false := by
  obtain ⟨query, parsed⟩ := parse_origin client.base rest
  rw [path, NodeClient.request, parsed] at sent
  cases sent
  exact ⟨rfl, rfl⟩

/-- A handler runs for a request of the hub as the token and the login have it, as for any
machine's.
-/
theorem Federation.runs_iff {request : Option Request} (handler : Handler)
    (ours : ∀ req ∈ request, req.headers = fed.headers ∧ req.bearerAuthed = false)
    (notPublic : handler.isPublic = false)
    (accepts : ∀ passed, fed.platform.rejection handler passed = none)
    : fed.Runs request handler
      ↔ hostAllowed fed.headers fed.node.allowedHosts = true
        ∧ AsksFor request handler
        ∧ (fed.standing = .verified
          ∨ fed.standing = .ignored ∧ fed.node.auth = none ∧ handler.isLifecycle = false) := by
  constructor
  · intro h
    obtain ⟨req, sent, serves⟩ := h
    obtain ⟨same, fresh⟩ := ours req sent
    have machine : Machine req.headers := same ▸ headers_machine _ _ _
    obtain ⟨allowed, leads, admitted⟩ := (machine.serves_iff fresh notPublic accepts).mp serves
    rw [same] at allowed admitted
    exact ⟨allowed, ⟨req, sent, leads⟩, admitted⟩
  · intro h
    obtain ⟨allowed, ⟨req, sent, leads⟩, admitted⟩ := h
    obtain ⟨same, fresh⟩ := ours req sent
    have machine : Machine req.headers := same ▸ headers_machine _ _ _
    refine ⟨req, sent, (machine.serves_iff fresh notPublic accepts).mpr ?_⟩
    rw [same]
    exact ⟨allowed, leads, admitted⟩

theorem snapshotRequest_headers (nodeHost : Text)
    : ∀ req ∈ fed.snapshotRequest nodeHost,
        req.headers = fed.headers ∧ req.bearerAuthed = false := by
  intro req sent
  apply request_headers ("host/".toList ++ nodeHost ++ "/api/snapshot".toList) _ sent
  simp only [NodeClient.snapshotUrl, List.append_assoc]
  rfl

theorem actionRequest_headers {nodeHost : Text} (resolved : fed.client.nodeHost = some nodeHost)
    (relay : Relay)
    : ∀ req ∈ fed.actionRequest relay,
        req.headers = fed.headers ∧ req.bearerAuthed = false := by
  intro req sent
  rw [Federation.actionRequest, relay.url_eq resolved] at sent
  exact request_headers _ rfl sent

end Requests

section Plain

variable {fed : Federation} {nodeHost : Text}

/-- A request for a path of plain segments leads where they do: parsing the URL keeps them, and
the router decodes them again.
-/
theorem leadsTo_plain {client : NodeClient} {hostHeader : Text → HeaderValue} {method : Method}
    {handler : Handler} {segments : List Text} (nonempty : segments ≠ [])
    (plain : ∀ segment ∈ segments, isPlain segment = true)
    (visible : Relay.EndsVisibly (['/'].intercalate segments))
    (routed
      : ∀ path,
          pathSegments path = segments.map pathSegment
          → ∃ params, RoutedTo method path handler params)
    : AsksFor
        (client.request hostHeader method
          (client.base.text ++ '/' :: ['/'].intercalate segments))
        handler := by
  obtain ⟨url, parsed, path⟩ :=
    parse_plain client.base nonempty (Or.inl rfl) plain (fun _ => visible)
  rw [List.append_nil] at parsed
  refine ⟨client.arriving hostHeader method url, ?_, ?_⟩
  · rw [NodeClient.request, parsed]
    rfl
  · apply routed
    have kept : ∀ segment ∈ segments, isKept segment = true :=
      fun segment member => (isPlain_iff.mp (plain segment member)).2
    rw [← pathSegments_joined nonempty plain]
    simp only [NodeClient.arriving, Request.incoming, path, resolve_kept [] kept]
    rfl

/-- The request for the snapshot of a plainly named host leads to it. -/
theorem asksFor_snapshot (plain : isPlain nodeHost = true)
    : AsksFor (fed.snapshotRequest nodeHost) .apiSnapshot := by
  have written
      : fed.client.snapshotUrl nodeHost
        = fed.client.base.text
          ++ '/' :: ['/'].intercalate
            ["host".toList, nodeHost, "api".toList, "snapshot".toList] := by
    simp only [NodeClient.snapshotUrl, List.append_assoc]
    rfl
  rw [Federation.snapshotRequest, written]
  apply leadsTo_plain (List.cons_ne_nil _ _)
  · intro segment member
    simp only [List.mem_cons, List.not_mem_nil, or_false] at member
    rcases member with rfl | rfl | rfl | rfl
    · decide
    · exact plain
    · decide
    · decide
  · apply (Relay.endsVisibly_intercalate "host".toList "snapshot".toList
      [nodeHost, "api".toList]).mpr
    simp [Relay.EndsVisibly, isC0OrSpace]
  · intro path segments
    have decoded := decodeParam_pathSegment plain
    simp only [List.map_cons, List.map_nil] at segments
    have found
        : ∃ route, findRoute path = some (route, [pathSegment nodeHost])
          ∧ route.handler .get = some .apiSnapshot := by
      rw [findRoute, segments]
      exact ⟨_, rfl, rfl⟩
    obtain ⟨route, found, handles⟩ := found
    refine ⟨[nodeHost], route, _, found, handles, ?_⟩
    simp [decoded]

/-- The path of an action on a thing of some kind is routed to the kind's handler, by the names
of the actions.
-/
theorem routedTo_action {path kind id name : Text} {handler : Handler}
    (isKind
      : kind = "container".toList ∧ handler = .containerAction
        ∨ kind = "stack".toList ∧ handler = .stackAction)
    (segments
      : pathSegments path
        = ["host".toList, nodeHost, "api".toList, kind, id, name].map pathSegment)
    (plainHost : isPlain nodeHost = true) (plainId : isPlain id = true)
    (isAction : name = "start".toList ∨ name = "stop".toList ∨ name = "restart".toList)
    : RoutedTo .post path handler [nodeHost, id, name] := by
  have hostDecoded := decodeParam_pathSegment plainHost
  have idDecoded := decodeParam_pathSegment plainId
  have nameDecoded : decodeParam (pathSegment name) = some name := by
    rcases isAction with rfl | rfl | rfl <;> exact decodeParam_pathSegment (by decide)
  simp only [List.map_cons, List.map_nil] at segments
  have found
      : ∃ route,
          findRoute path
            = some (route, [pathSegment nodeHost, pathSegment id, pathSegment name])
          ∧ route.handler .post = some handler := by
    rw [findRoute, segments]
    rcases isKind with ⟨rfl, rfl⟩ | ⟨rfl, rfl⟩ <;> rcases isAction with rfl | rfl | rfl <;>
      exact ⟨_, rfl, rfl⟩
  obtain ⟨route, found, handles⟩ := found
  refine ⟨route, _, found, handles, ?_⟩
  simp [hostDecoded, idDecoded, nameDecoded]

/-- The request for a confined action leads to the handler of its kind, as its segments are
plain.
-/
theorem asksFor_action (resolved : fed.client.nodeHost = some nodeHost) {relay : Relay}
    {handler : Handler} (isAction : relay.actionHandler = some handler)
    (confined : relay.IsConfined nodeHost)
    : AsksFor (fed.actionRequest relay) handler := by
  obtain ⟨plain, visible⟩ := (Relay.segments_plain_iff nodeHost relay).mpr confined
  obtain ⟨plainHost, plainParam, _⟩ := confined
  have nothing : relay.behind = [] := by
    cases relay <;> cases isAction <;> rfl
  rw [Federation.actionRequest, relay.url_eq resolved, nothing, List.append_nil]
  apply leadsTo_plain (List.cons_ne_nil _ _) plain (visible nothing)
  intro path segments
  cases relay with
  | containerAction id action =>
      cases isAction
      exact ⟨_, routedTo_action (Or.inl ⟨rfl, rfl⟩) segments plainHost plainParam
        (Relay.action_cases action)⟩
  | stackAction name action =>
      cases isAction
      exact ⟨_, routedTo_action (Or.inr ⟨rfl, rfl⟩) segments plainHost plainParam
        (Relay.action_cases action)⟩
  | _ => cases isAction

/-- For plain names, the node shows its host only exactly when it ignores the hub's token and has
no login: both requests lead where they are meant to.
-/
theorem showsOnly_plain_iff (resolved : fed.client.nodeHost = some nodeHost) {relay : Relay}
    {handler : Handler} (isAction : relay.actionHandler = some handler)
    (confined : relay.IsConfined nodeHost)
    : fed.ShowsOnly nodeHost relay handler
      ↔ hostAllowed fed.headers fed.node.allowedHosts = true
        ∧ fed.standing = .ignored
        ∧ fed.node.auth = none := by
  have asked := asksFor_action resolved isAction confined
  constructor
  · intro showsOnly
    rcases showsOnly.admitted with verified | ⟨ignored, noLogin⟩
    · exact absurd ⟨verified, asked⟩ showsOnly.unexempted
    · exact ⟨showsOnly.host, ignored, noLogin⟩
  · intro h
    obtain ⟨host, ignored, noLogin⟩ := h
    exact {
      host
      admitted := Or.inr ⟨ignored, noLogin⟩
      routed := asksFor_snapshot confined.1
      unexempted := fun exempt => by cases exempt.1.symm.trans ignored
    }

end Plain

/-- Where the node shows its host to the hub, it lets the hub act on it, exactly unless it shows
it only. Witness: both requests meet the same allowlist and the same guard, and only a verified
token passes the second guard of the actions.
-/
theorem control_follows_display_iff (fed : Federation) {nodeHost : Text}
    (resolved : fed.client.nodeHost = some nodeHost) {relay : Relay} {handler : Handler}
    (isAction : relay.actionHandler = some handler)
    : (fed.Runs (fed.snapshotRequest nodeHost) .apiSnapshot
        → fed.Runs (fed.actionRequest relay) handler)
      ↔ ¬ fed.ShowsOnly nodeHost relay handler := by
  have action
      : handler.isPublic = false
        ∧ handler.isLifecycle = true
        ∧ ∀ passed, fed.platform.rejection handler passed = none := by
    cases relay <;> cases isAction <;> exact ⟨rfl, rfl, fun _ => rfl⟩
  obtain ⟨notPublic, lifecycle, accepts⟩ := action
  have shown := fed.runs_iff .apiSnapshot (snapshotRequest_headers nodeHost) rfl (fun _ => rfl)
  have acted := fed.runs_iff handler (actionRequest_headers resolved relay) notPublic accepts
  rw [shown, acted]
  constructor
  · intro follows showsOnly
    apply showsOnly.unexempted
    have admitted
        : fed.standing = .verified
          ∨ fed.standing = .ignored
            ∧ fed.node.auth = none
            ∧ Handler.apiSnapshot.isLifecycle = false := by
      rcases showsOnly.admitted with verified | ⟨ignored, noLogin⟩
      · exact Or.inl verified
      · exact Or.inr ⟨ignored, noLogin, rfl⟩
    obtain ⟨_, asked, verified | ⟨_, _, unguarded⟩⟩ :=
      follows ⟨showsOnly.host, showsOnly.routed, admitted⟩
    · exact ⟨verified, asked⟩
    · cases lifecycle.symm.trans unguarded
  · intro notOnly h
    obtain ⟨allowed, routed, admitted⟩ := h
    by_contra uncontrolled
    apply notOnly
    exact {
      host := allowed
      admitted := admitted.imp_right (And.imp_right And.left)
      routed
      unexempted := fun exempt => uncontrolled ⟨allowed, exempt.2, Or.inl exempt.1⟩
    }

section Tokens

/-- Pages that show nothing. -/
def emptyPages : Pages where
  render _ := []
  respond state _ := (.ok .empty, state)

/-- A hub with a token or without, and a node with a token or without, which has no login. -/
def smallFederation (token : Option HeaderValue) (apiToken : Option ApiToken) : Federation where
  client := { localClient with authHeader := token }
  hostHeader := asBytes
  platform := acceptingPlatform
  pages := emptyPages
  node := guardedState none apiToken

/-- A hub with the node's token. -/
def tokenFederation : Federation :=
  smallFederation (some (asBytes "Bearer t".toList)) (some ⟨"t".toList⟩)

def restartName : ActionName :=
  ⟨"restart".toList, rfl⟩

/-- The restart of a container. -/
def restartOne : Relay :=
  .containerAction "c1".toList restartName

/-- With the node's token, the hub controls what it is shown. -/
theorem control_follows_display_token
    : (tokenFederation.Runs (tokenFederation.snapshotRequest "local".toList) .apiSnapshot
        → tokenFederation.Runs (tokenFederation.actionRequest restartOne) .containerAction)
      ↔ ¬ tokenFederation.ShowsOnly "local".toList restartOne .containerAction :=
  control_follows_display_iff tokenFederation rfl rfl

/-- Without tokens, the node shows its host to the hub and rejects an action of it, by running
both requests.
-/
theorem tokenless_uncontrolled
    : (smallFederation none none).Runs
        ((smallFederation none none).snapshotRequest "local".toList) .apiSnapshot
      ∧ ¬ (smallFederation none none).Runs
          ((smallFederation none none).actionRequest restartOne) .containerAction := by
  constructor
  · exact ⟨_, rfl, _, rfl, rfl⟩
  · intro h
    obtain ⟨req, sent, dispatched, runs, _⟩ := h
    cases sent
    cases runs

end Tokens

end DockDoe
