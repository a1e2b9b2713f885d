import DockDoe.Correctness.AccessControl

/-! What the requests of a foreign page can run.
The lifecycle handlers are behind a guard of their own, and the terminal behind the login
only.
-/

namespace DockDoe

/-- The handlers that act on containers. -/
def Handler.isEffectful : Handler → Bool
  | .containerAction | .stackAction | .wsExec => true
  | _ => false

theorem isEffectful_iff {handler : Handler}
    : handler.isEffectful = true ↔ handler.isLifecycle = true ∨ handler = .wsExec := by
  cases handler <;> simp [Handler.isEffectful, Handler.isLifecycle]

/-- The headers of a request that a foreign page makes a browser send: no credentials, no
header of htmx and no session cookie.
-/
structure Foreign (headers : HeaderMap) : Prop where
  authorization : headers.get "authorization".toList = none
  htmx : headers.get "hx-request".toList = none
  session
    : ∀ cookies,
        (headers.get "cookie".toList).bind toStr = some cookies
        → cookieValue cookies cookieName = none

/-- The path of a terminal, with the parameters that its handler gets. -/
def TerminalPath (path : Text) : Prop :=
  ∃ host id,
    pathSegments path
      = ["host".toList, host, "ws".toList, "container".toList, id, "exec".toList]
    ∧ (decodeParam host).isSome = true
    ∧ (decodeParam id).isSome = true

/-- An upgrade to a terminal at a host that is allowed and has no login. -/
def OpensTerminal (platform : Platform) (state : AppState) (req : Request) : Prop :=
  state.auth = none
  ∧ hostAllowed req.headers state.allowedHosts = true
  ∧ (req.method = .get ∨ req.method = .head)
  ∧ TerminalPath req.path
  ∧ platform.rejection .wsExec req = none

section Headers

variable {platform : Platform} {state : AppState} {headers : HeaderMap}

/-- A foreign request has no token to present, by the cases of what is configured. -/
theorem Foreign.ignored (foreign : Foreign headers)
    : tokenStanding platform.hmac state.apiToken headers = .ignored := by
  have noToken : bearerToken headers = none := by
    rw [bearerToken, foreign.authorization]
    rfl
  unfold tokenStanding
  cases state.apiToken with
  | none => rfl
  | some expected => simp only [noToken]

theorem Foreign.notHtmx (foreign : Foreign headers) : isHtmxRequest headers = false := by
  rw [isHtmxRequest, foreign.htmx]
  rfl

/-- A foreign request has no session, for none of its cookies has the name of one. -/
theorem Foreign.notAuthenticated (foreign : Foreign headers) (auth : Auth)
    : requestIsAuthenticated platform.hmac auth headers platform.nowUnix = false := by
  rw [requestIsAuthenticated]
  cases sent : (headers.get "cookie".toList).bind toStr with
  | none => rfl
  | some cookies =>
      rw [Option.bind_some, foreign.session cookies sent]
      rfl

end Headers

section Terminal

/-- The terminal has one route, without the guard of the lifecycle actions. -/
theorem terminal_of_wsExec
    : ∀ route ∈ routes,
        Handler.wsExec ∈ route.get.toList ++ route.post.toList
        → route.pattern = underHost
            [.fixed "ws".toList, .fixed "container".toList, .param, .fixed "exec".toList]
          ∧ route.post = none := by
  decide

/-- The segments that match the pattern of the terminal, taken off one after the other. -/
theorem segments_of_terminal {path raw : List Text}
    (matching
      : matchPattern
          (underHost
            [.fixed "ws".toList, .fixed "container".toList, .param, .fixed "exec".toList])
          path
        = some raw)
    : ∃ host id,
        path = ["host".toList, host, "ws".toList, "container".toList, id, "exec".toList]
        ∧ raw = [host, id] := by
  obtain ⟨_, atHost, matching⟩ := matchPattern_fixed matching
  obtain ⟨host, _, _, atSlug, rawHost, matching⟩ := matchPattern_param matching
  obtain ⟨_, atWs, matching⟩ := matchPattern_fixed matching
  obtain ⟨_, atContainer, matching⟩ := matchPattern_fixed matching
  obtain ⟨id, _, _, atId, rawId, matching⟩ := matchPattern_param matching
  obtain ⟨rest, atExec, matching⟩ := matchPattern_fixed matching
  cases rest with
  | nil =>
      cases matching
      refine ⟨host, id, ?_, ?_⟩
      · rw [atHost, atSlug, atWs, atContainer, atId, atExec]
      · rw [rawHost, rawId]
  | cons => cases matching

/-- The path of a terminal is routed to it, as no earlier route matches its segments. -/
theorem findRoute_of_terminal {path : Text} (terminal : TerminalPath path)
    : ∃ route raw params,
        findRoute path = some (route, raw)
        ∧ route.htmxOnly = false
        ∧ route.get = some .wsExec
        ∧ raw.mapM decodeParam = some params := by
  obtain ⟨host, id, segments, hostDecoded, idDecoded⟩ := terminal
  obtain ⟨hostText, hostDecoded⟩ := Option.isSome_iff_exists.mp hostDecoded
  obtain ⟨idText, idDecoded⟩ := Option.isSome_iff_exists.mp idDecoded
  have found
      : ∃ route,
          findRoute path = some (route, [host, id])
          ∧ route.htmxOnly = false
          ∧ route.get = some .wsExec := by
    rw [findRoute, segments]
    exact ⟨_, rfl, rfl, rfl⟩
  obtain ⟨route, routed, unguarded, handles⟩ := found
  refine ⟨route, _, [hostText, idText], routed, unguarded, handles, ?_⟩
  simp [hostDecoded, idDecoded]

/-- What is routed to the terminal has its path and a method that reads, for only the one route
leads there.
-/
theorem terminal_of_findRoute {path : Text} {route : Route} {raw params : List Text}
    {method : Method} (found : findRoute path = some (route, raw))
    (handles : route.handler method = some .wsExec) (decoded : raw.mapM decodeParam = some params)
    : TerminalPath path ∧ (method = .get ∨ method = .head) := by
  obtain ⟨member, matching⟩ := findRoute_some found
  have listed : Handler.wsExec ∈ route.get.toList ++ route.post.toList := by
    simpa [Option.mem_toList] using Route.handler_cases handles
  obtain ⟨pattern, noPost⟩ := terminal_of_wsExec route member listed
  rw [pattern] at matching
  obtain ⟨host, id, segments, rfl⟩ := segments_of_terminal matching
  have decodes : ∀ raw ∈ [host, id], (decodeParam raw).isSome = true := by
    intro raw member
    cases one : decodeParam raw with
    | some text => rfl
    | none =>
        rcases List.mem_pair.mp member with rfl | rfl <;> simp [one] at decoded
  refine ⟨⟨host, id, segments, decodes host (by simp), decodes id (by simp)⟩, ?_⟩
  cases method with
  | get => exact Or.inl rfl
  | head => exact Or.inr rfl
  | post => cases noPost.symm.trans handles
  | other => cases handles

end Terminal

/-- A foreign request runs no effectful handler exactly when it does not open a terminal.
Witness: without a token, a session and htmx only an unguarded route is reached, and the
terminal's is the only effectful one of these.
-/
theorem foreign_harmless_iff (platform : Platform) (state : AppState) (method : Method)
    (path : Text) (query : Option Text) (headers : HeaderMap) (foreign : Foreign headers)
    : (∀ dispatched,
        platform.dispatch state (.incoming method path query headers) = .ok dispatched
        → dispatched.handler.isEffectful = false)
      ↔ ¬ OpensTerminal platform state (.incoming method path query headers) := by
  constructor
  · intro harmless h
    obtain ⟨noLogin, allowed, reads, terminal, accepted⟩ := h
    obtain ⟨route, raw, params, found, unguarded, handles, decoded⟩ :=
      findRoute_of_terminal terminal
    have session : HasSession platform state (.incoming method path query headers) := by
      intro auth configured
      cases noLogin.symm.trans configured
    have authorised := requireAuth_ok_iff.mpr (Or.inr ⟨foreign.ignored, session, rfl⟩)
    have reaches
        : Reaches platform (.incoming method path query headers)
            { handler := .wsExec, params, request := .incoming method path query headers }
            route raw := {
      found
      guarded := fun guarded => absurd guarded (by simp [unguarded])
      handles := by rcases reads with rfl | rfl <;> exact handles
      params := decoded
      accepted
      request := rfl
    }
    have safe := harmless _ (dispatch_ok_iff.mpr ⟨allowed, _, authorised, route, raw, reaches⟩)
    cases safe
  · intro closed dispatched runs
    obtain ⟨allowed, passed, authorised, route, raw, reaches⟩ := dispatch_ok_iff.mp runs
    rcases requireAuth_ok_iff.mp authorised with ⟨verified, _⟩ | ⟨_, session, rfl⟩
    · cases verified.symm.trans foreign.ignored
    · obtain ⟨member, _⟩ := findRoute_some reaches.found
      have listed : dispatched.handler ∈ route.get.toList ++ route.post.toList := by
        simpa [Option.mem_toList] using Route.handler_cases reaches.handles
      have notLifecycle : dispatched.handler.isLifecycle ≠ true := by
        intro lifecycle
        have guarded := htmxOnly_of_lifecycle route member dispatched.handler listed lifecycle
        rcases reaches.guarded guarded with marked | htmx
        · cases marked
        · cases htmx.symm.trans foreign.notHtmx
      have notTerminal : dispatched.handler ≠ .wsExec := by
        intro terminal
        apply closed
        have handles := reaches.handles
        have accepted := reaches.accepted
        rw [terminal] at handles accepted
        obtain ⟨isTerminal, reads⟩ := terminal_of_findRoute reaches.found handles reaches.params
        have noLogin : state.auth = none := by
          cases configured : state.auth with
          | none => rfl
          | some auth =>
              rcases session auth configured with isPublic | authenticated
              · cases isPublic_of_route isPublic reaches.found handles
              · cases authenticated.symm.trans (foreign.notAuthenticated auth)
        exact ⟨noLogin, allowed, reads, isTerminal, accepted⟩
      apply Bool.eq_false_iff.mpr
      intro effectful
      rcases isEffectful_iff.mp effectful with lifecycle | terminal
      · exact notLifecycle lifecycle
      · exact notTerminal terminal

section Examples

/-- The headers of a foreign page's upgrade to a WebSocket. -/
def foreignUpgrade : HeaderMap :=
  [("host".toList, asBytes "node:8080".toList),
    ("origin".toList, asBytes "https://elsewhere.example".toList),
    ("connection".toList, asBytes "Upgrade".toList),
    ("upgrade".toList, asBytes "websocket".toList),
    ("sec-websocket-version".toList, asBytes "13".toList),
    ("sec-websocket-key".toList, asBytes "dGhlIHNhbXBsZSBub25jZQ==".toList)]

theorem foreignUpgrade_foreign : Foreign foreignUpgrade where
  authorization := rfl
  htmx := rfl
  session := by
    intro cookies sent
    cases sent

/-- With a login, a foreign page opens no terminal. -/
theorem foreign_harmless_login
    : (∀ dispatched,
        acceptingPlatform.dispatch (guardedState (some adminAuth) none)
          (.incoming .get "/host/a/ws/container/web/exec".toList none foreignUpgrade)
          = .ok dispatched
        → dispatched.handler.isEffectful = false)
      ↔ ¬ OpensTerminal acceptingPlatform (guardedState (some adminAuth) none)
          (.incoming .get "/host/a/ws/container/web/exec".toList none foreignUpgrade) :=
  foreign_harmless_iff _ _ _ _ _ _ foreignUpgrade_foreign

/-- Without a login, a foreign page opens a terminal in a container, as the dispatch of its
request shows.
-/
theorem foreignUpgrade_effectful
    : Foreign foreignUpgrade
      ∧ ¬ ∀ dispatched,
          acceptingPlatform.dispatch (guardedState none none)
            (.incoming .get "/host/a/ws/container/web/exec".toList none foreignUpgrade)
            = .ok dispatched
          → dispatched.handler.isEffectful = false := by
  have opened
      : ∃ dispatched,
          acceptingPlatform.dispatch (guardedState none none)
            (.incoming .get "/host/a/ws/container/web/exec".toList none foreignUpgrade)
            = .ok dispatched
          ∧ dispatched.handler = .wsExec :=
    ⟨_, rfl, rfl⟩
  refine ⟨foreignUpgrade_foreign, ?_⟩
  intro harmless
  obtain ⟨dispatched, runs, terminal⟩ := opened
  have safe := harmless dispatched runs
  rw [terminal] at safe
  cases safe

end Examples

end DockDoe
