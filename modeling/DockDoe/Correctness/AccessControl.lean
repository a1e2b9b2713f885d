import DockDoe.Correctness.SessionCookies
import DockDoe.Model.Router

/-! What the middleware lets through to the handlers. -/

namespace DockDoe

/-- What becomes of the token that a request may present: it is ignored where none is
configured or none is presented.
-/
inductive Standing
  | ignored | verified | refused
  deriving DecidableEq

def tokenStanding (hmac : Hmac) (apiToken : Option ApiToken) (headers : HeaderMap) : Standing :=
  match apiToken, bearerToken headers with
  | some expected, some presented =>
      if expected.matches hmac presented then .verified else .refused
  | _, _ => .ignored

/-- The paths that need no login. -/
def IsPublic (path : Text) : Prop :=
  path = "/login".toList ∨ "/assets/".toList.isPrefixOf path = true

section Guards

variable {platform : Platform} {state : AppState} {req passed : Request}

/-- A token is verified if it is the configured one, by the cases of what is configured and
presented.
-/
theorem tokenStanding_verified_iff {hmac : Hmac} {apiToken : Option ApiToken}
    {headers : HeaderMap}
    : tokenStanding hmac apiToken headers = .verified
      ↔ ∃ expected presented,
          apiToken = some expected
          ∧ bearerToken headers = some presented
          ∧ expected.matches hmac presented = true := by
  unfold tokenStanding
  cases apiToken with
  | none => simp
  | some expected =>
      cases bearerToken headers with
      | none => simp
      | some presented => simp

/-- A guard that lets a request pass under a condition that holds. -/
theorem pass_iff {condition : Prop} (holds : condition)
    : (Except.ok req : Except Response Request) = .ok passed ↔ condition ∧ passed = req := by
  simp [holds, eq_comm]

/-- A guard that answers a request under a condition that does not hold. -/
theorem stop_iff {condition : Prop} (fails : ¬ condition) (response : Response)
    : (Except.error response : Except Response Request) = .ok passed
      ↔ condition ∧ passed = req := by
  simp [fails]

theorem checkHost_ok_iff
    : Platform.checkHost state req = .ok passed
      ↔ hostAllowed req.headers state.allowedHosts = true ∧ passed = req := by
  unfold Platform.checkHost
  split
  next allowed => exact pass_iff allowed
  next refused => exact stop_iff refused _

theorem requireHtmx_ok_iff
    : requireHtmx req = .ok passed
      ↔ (req.bearerAuthed = true ∨ isHtmxRequest req.headers = true) ∧ passed = req := by
  unfold requireHtmx
  rw [← Bool.or_eq_true]
  split
  next exempt => exact pass_iff exempt
  next refused => exact stop_iff refused _

/-- What lets a request pass without a token that counts. -/
def HasSession (platform : Platform) (state : AppState) (req : Request) : Prop :=
  ∀ auth,
    state.auth = some auth
    → IsPublic req.path
      ∨ requestIsAuthenticated platform.hmac auth req.headers platform.nowUnix = true

/-- The session guard lets a request pass unchanged or stops it, by the cases of a login, of a
public path and of a session.
-/
theorem requireSession_ok_iff
    : platform.requireSession state req = .ok passed
      ↔ HasSession platform state req ∧ passed = req := by
  unfold Platform.requireSession HasSession
  cases state.auth with
  | none =>
      apply pass_iff
      intro auth configured
      cases configured
  | some auth =>
      simp only [Option.some.injEq, forall_eq']
      split
      next isPublic => exact pass_iff (Or.inl isPublic)
      next notPublic =>
        split
        next session => exact pass_iff (Or.inr session)
        next noSession =>
          have fails
              : ¬ (IsPublic req.path
                ∨ requestIsAuthenticated platform.hmac auth req.headers platform.nowUnix = true) :=
            not_or.mpr ⟨notPublic, noSession⟩
          split
          next => exact stop_iff fails _
          next => exact stop_iff fails _

/-- The guard decides by the standing of the token, by the cases of what is configured and
presented.
-/
theorem requireAuth_eq
    : platform.requireAuth state req
      = match tokenStanding platform.hmac state.apiToken req.headers with
        | .verified => .ok { req with bearerAuthed := true }
        | .refused => .error (.plain 401 "invalid API token")
        | .ignored => platform.requireSession state req := by
  unfold Platform.requireAuth tokenStanding
  cases state.apiToken with
  | none => rfl
  | some expected =>
      cases bearerToken req.headers with
      | none => rfl
      | some presented =>
          by_cases matching : expected.matches platform.hmac presented = true <;> simp [matching]

theorem requireAuth_verified
    (verified : tokenStanding platform.hmac state.apiToken req.headers = .verified)
    : platform.requireAuth state req = .ok { req with bearerAuthed := true } := by
  rw [requireAuth_eq, verified]

theorem requireAuth_refused
    (refused : tokenStanding platform.hmac state.apiToken req.headers = .refused)
    : platform.requireAuth state req = .error (.plain 401 "invalid API token") := by
  rw [requireAuth_eq, refused]

theorem requireAuth_ignored
    (ignored : tokenStanding platform.hmac state.apiToken req.headers = .ignored)
    : platform.requireAuth state req = platform.requireSession state req := by
  rw [requireAuth_eq, ignored]

/-- A request passes with a verified token, which marks it, or with none that counts and a
session where one is needed.
-/
theorem requireAuth_ok_iff
    : platform.requireAuth state req = .ok passed
      ↔ (tokenStanding platform.hmac state.apiToken req.headers = .verified
          ∧ passed = { req with bearerAuthed := true })
        ∨ (tokenStanding platform.hmac state.apiToken req.headers = .ignored
          ∧ HasSession platform state req
          ∧ passed = req) := by
  cases standing : tokenStanding platform.hmac state.apiToken req.headers with
  | verified => simp [requireAuth_verified standing, eq_comm]
  | refused => simp [requireAuth_refused standing]
  | ignored => simp [requireAuth_ignored standing, requireSession_ok_iff]

end Guards

section Dispatch

variable {platform : Platform} {state : AppState} {req : Request} {dispatched : Dispatched}

/-- The route of a handler that runs, and what the guard and the extractors say to it. -/
structure Reaches (platform : Platform) (passed : Request) (dispatched : Dispatched)
    (route : Route) (raw : List Text)
    : Prop where
  found : findRoute passed.path = some (route, raw)
  guarded
    : route.htmxOnly = true → passed.bearerAuthed = true ∨ isHtmxRequest passed.headers = true
  handles : route.handler passed.method = some dispatched.handler
  params : raw.mapM decodeParam = some dispatched.params
  accepted : platform.rejection dispatched.handler passed = none
  request : dispatched.request = passed

/-- A route's own guard asks for htmx or a verified token where the route is for htmx only. -/
theorem guard_ok_iff {route : Route} {passed : Request}
    : route.guard req = .ok passed
      ↔ (route.htmxOnly = true → req.bearerAuthed = true ∨ isHtmxRequest req.headers = true)
        ∧ passed = req := by
  unfold Route.guard
  split
  next htmxOnly =>
    rw [requireHtmx_ok_iff]
    simp [htmxOnly]
  next unguarded => exact pass_iff (fun htmxOnly => absurd htmxOnly unguarded)

/-- A route runs a handler when nothing on the way to it rejects the request: by unfolding the
steps from the route that is found to the extractors.
-/
theorem runRoute_ok_iff
    : platform.runRoute req = .ok dispatched
      ↔ ∃ route raw, Reaches platform req dispatched route raw := by
  unfold Platform.runRoute
  constructor
  · intro runs
    split at runs
    next => cases runs
    next route raw found =>
      obtain ⟨passed, guarded, handled⟩ := FallibleLists.bind_eq_ok_iff.mp runs
      obtain ⟨exempt, rfl⟩ := guard_ok_iff.mp guarded
      unfold Platform.runHandler at handled
      split at handled
      next => cases handled
      next handler handles =>
        split at handled
        next => cases handled
        next params decoded =>
          split at handled
          next => cases handled
          next accepted =>
            cases handled
            exact ⟨route, raw, found, exempt, handles, decoded, accepted, rfl⟩
  · intro h
    obtain ⟨route, raw, reaches⟩ := h
    rw [reaches.found]
    apply FallibleLists.bind_eq_ok_iff.mpr
    refine ⟨req, guard_ok_iff.mpr ⟨reaches.guarded, rfl⟩, ?_⟩
    simp only [Platform.runHandler, reaches.handles, reaches.params, reaches.accepted]
    rw [← reaches.request]

/-- A handler runs for an allowed host, an authorised request and a route that reaches it, by
inverting the three layers one after the other.
-/
theorem dispatch_ok_iff
    : platform.dispatch state req = .ok dispatched
      ↔ hostAllowed req.headers state.allowedHosts = true
        ∧ ∃ passed,
            platform.requireAuth state req = .ok passed
            ∧ ∃ route raw, Reaches platform passed dispatched route raw := by
  rw [Platform.dispatch, FallibleLists.bind_eq_ok_iff]
  constructor
  · intro h
    obtain ⟨checked, hostPassed, runs⟩ := h
    obtain ⟨allowed, rfl⟩ := checkHost_ok_iff.mp hostPassed
    obtain ⟨passed, authorised, runs⟩ := FallibleLists.bind_eq_ok_iff.mp runs
    exact ⟨allowed, passed, authorised, runRoute_ok_iff.mp runs⟩
  · intro h
    obtain ⟨allowed, passed, authorised, reaches⟩ := h
    exact ⟨req, checkHost_ok_iff.mpr ⟨allowed, rfl⟩,
      FallibleLists.bind_eq_ok_iff.mpr ⟨passed, authorised, runRoute_ok_iff.mpr reaches⟩⟩

end Dispatch

section Routes

/-- The handlers that need no login. -/
def Handler.isPublic : Handler → Bool
  | .loginPage | .loginSubmit | .asset => true
  | _ => false

/-- The handlers that start, stop or restart something. -/
def Handler.isLifecycle : Handler → Bool
  | .containerAction | .stackAction => true
  | _ => false

theorem Route.handler_cases {route : Route} {method : Method} {handler : Handler}
    (handles : route.handler method = some handler)
    : route.get = some handler ∨ route.post = some handler := by
  cases method with
  | get => exact Or.inl handles
  | head => exact Or.inl handles
  | post => exact Or.inr handles
  | other => cases handles

theorem findRoute_some {path : Text} {route : Route} {raw : List Text}
    (found : findRoute path = some (route, raw))
    : route ∈ routes ∧ matchPattern route.pattern (pathSegments path) = some raw := by
  obtain ⟨candidate, member, result⟩ := List.exists_of_findSome?_eq_some found
  obtain ⟨params, matching, same⟩ := Option.map_eq_some_iff.mp result
  cases same
  exact ⟨member, matching⟩

/-- A text of a pattern is the first segment of what it matches. -/
theorem matchPattern_fixed {text : Text} {pattern : List Segment} {path raw : List Text}
    (matching : matchPattern (.fixed text :: pattern) path = some raw)
    : ∃ rest, path = text :: rest ∧ matchPattern pattern rest = some raw := by
  cases path with
  | nil => cases matching
  | cons segment rest =>
      rw [matchPattern] at matching
      split at matching
      next same => exact ⟨rest, by rw [same], matching⟩
      next => cases matching

/-- A parameter of a pattern is the first segment of what it matches. -/
theorem matchPattern_param {pattern : List Segment} {path raw : List Text}
    (matching : matchPattern (.param :: pattern) path = some raw)
    : ∃ value rest params,
        path = value :: rest
        ∧ raw = value :: params
        ∧ matchPattern pattern rest = some params := by
  cases path with
  | nil => cases matching
  | cons segment rest =>
      rw [matchPattern] at matching
      split at matching
      next => cases matching
      next =>
        obtain ⟨params, matched, same⟩ := Option.map_eq_some_iff.mp matching
        exact ⟨segment, rest, params, rfl, same.symm, matched⟩

/-- The lifecycle handlers are behind the guard. -/
theorem htmxOnly_of_lifecycle
    : ∀ route ∈ routes,
        ∀ handler ∈ route.get.toList ++ route.post.toList,
          handler.isLifecycle = true → route.htmxOnly = true := by
  decide

/-- The public handlers are where the public paths are. -/
theorem isPublic_of_head
    : ∀ route ∈ routes,
        ∀ handler ∈ route.get.toList ++ route.post.toList,
          (route.pattern.head? = some (.fixed "login".toList)
            ∨ route.pattern.head? = some (.fixed "assets".toList))
          → handler.isPublic = true := by
  decide

/-- Every pattern begins with a text. -/
theorem head_of_route
    : ∀ route ∈ routes,
        route.pattern.head? ≠ none
        ∧ route.pattern.head? ≠ some .param
        ∧ route.pattern.head? ≠ some .rest := by
  decide

/-- A path's first segment is the text that its route begins with, for every route begins with a
text.
-/
theorem head_of_findRoute {path : Text} {route : Route} {raw : List Text} {first : Text}
    {rest : List Text} (found : findRoute path = some (route, raw))
    (segments : pathSegments path = first :: rest)
    : route.pattern.head? = some (.fixed first) := by
  obtain ⟨member, matching⟩ := findRoute_some found
  obtain ⟨notNil, notParam, notRest⟩ := head_of_route route member
  cases pattern : route.pattern with
  | nil => exact absurd (by rw [pattern]; rfl) notNil
  | cons segment more =>
      cases segment with
      | param => exact absurd (by rw [pattern]; rfl) notParam
      | rest => exact absurd (by rw [pattern]; rfl) notRest
      | fixed text =>
          rw [pattern, segments, matchPattern] at matching
          split at matching
          next same => rw [same, List.head?_cons]
          next => cases matching

/-- A path that needs no login is routed to a handler that needs none: its first segment already
tells the routes of the login form and of the assets from all others.
-/
theorem isPublic_of_route {path : Text} {route : Route} {raw : List Text} {method : Method}
    {handler : Handler} (isPublic : IsPublic path) (found : findRoute path = some (route, raw))
    (handles : route.handler method = some handler)
    : handler.isPublic = true := by
  obtain ⟨member, _⟩ := findRoute_some found
  have listed : handler ∈ route.get.toList ++ route.post.toList := by
    simpa [Option.mem_toList] using Route.handler_cases handles
  apply isPublic_of_head route member handler listed
  rcases isPublic with login | assets
  · left
    apply head_of_findRoute found
    rw [login]
    rfl
  · right
    obtain ⟨rest, whole⟩ := List.isPrefixOf_iff_prefix.mp assets
    apply head_of_findRoute found
    have noSlash : '/' ∉ "assets".toList := by decide
    have parts : path = [] ++ '/' :: ("assets".toList ++ '/' :: rest) := whole.symm
    rw [pathSegments, parts, List.splitOn_append_cons_self_of_not_mem List.not_mem_nil,
      List.splitOn_append_cons_self_of_not_mem noSlash]

end Routes

/-- The request presents the token that is configured. -/
def TokenVerified (platform : Platform) (state : AppState) (headers : HeaderMap) : Prop :=
  ∃ expected presented,
    state.apiToken = some expected
    ∧ bearerToken headers = some presented
    ∧ expected.matches platform.hmac presented = true

/-- What the requests that a handler runs for have in common: an allowed host, a session or a
verified token where a login is needed, and for the lifecycle an htmx request or a verified
token, which alone marks the request.
-/
structure Admitted (platform : Platform) (state : AppState) (headers : HeaderMap)
    (dispatched : Dispatched)
    : Prop where
  host : state.allowedHosts ≠ [] → hostAllowed headers state.allowedHosts = true
  authenticated
    : ∀ auth,
        state.auth = some auth
        → dispatched.handler.isPublic = false
        → requestIsAuthenticated platform.hmac auth headers platform.nowUnix = true
          ∨ TokenVerified platform state headers
  lifecycle
    : dispatched.handler.isLifecycle = true
      → isHtmxRequest headers = true ∨ TokenVerified platform state headers
  exemption : dispatched.request.bearerAuthed = true ↔ TokenVerified platform state headers

/-- A handler runs for admitted requests only, by inverting the dispatch: the allowlist, the
guard that goes by the token or the session, and the route with its own guard have all let the
request pass.
-/
theorem dispatch_admitted (platform : Platform) (state : AppState) (method : Method) (path : Text)
    (query : Option Text) (headers : HeaderMap) (dispatched : Dispatched)
    (runs
      : platform.dispatch state (.incoming method path query headers) = .ok dispatched)
    : Admitted platform state headers dispatched := by
  obtain ⟨allowed, passed, authorised, route, raw, reaches⟩ := dispatch_ok_iff.mp runs
  obtain ⟨member, _⟩ := findRoute_some reaches.found
  have listed : dispatched.handler ∈ route.get.toList ++ route.post.toList := by
    simpa [Option.mem_toList] using Route.handler_cases reaches.handles
  have standing
      : tokenStanding platform.hmac state.apiToken headers = .verified
        ↔ TokenVerified platform state headers :=
    tokenStanding_verified_iff
  rcases requireAuth_ok_iff.mp authorised with ⟨verified, marked⟩ | ⟨ignored, session, same⟩
  · have token := standing.mp verified
    exact {
      host := fun _ => allowed
      authenticated := fun _ _ _ => Or.inr token
      lifecycle := fun _ => Or.inr token
      exemption := by
        rw [reaches.request, marked]
        exact iff_of_true rfl token
    }
  · have noToken : ¬ TokenVerified platform state headers := by
      intro token
      cases (standing.mpr token).symm.trans ignored
    refine {
      host := fun _ => allowed
      authenticated := ?_
      lifecycle := ?_
      exemption := ?_
    }
    · intro auth configured needsLogin
      rcases session auth configured with isPublic | authenticated
      · rw [same] at reaches
        rw [isPublic_of_route isPublic reaches.found reaches.handles] at needsLogin
        cases needsLogin
      · exact Or.inl authenticated
    · intro lifecycle
      have guarded := htmxOnly_of_lifecycle route member dispatched.handler listed lifecycle
      rcases reaches.guarded guarded with marked | htmx
      · rw [same] at marked
        cases marked
      · rw [same] at htmx
        exact Or.inl htmx
    · rw [reaches.request, same]
      exact iff_of_false Bool.false_ne_true noToken

section Snapshot

/-- A stand-in for HMAC that adds up the bytes. -/
def sumTag : Hmac :=
  fun key message => Vector.replicate 32 (key ++ message).sum

/-- A platform whose extractors reject nothing. -/
def acceptingPlatform : Platform where
  hmac := sumTag
  nowUnix := 1000000
  rejectQuery _ _ := none
  rejectForm _ := none
  rejectUpgrade _ := none

/-- A state without hosts, with a login or without, with a token or without. -/
def guardedState (auth : Option Auth) (apiToken : Option ApiToken) : AppState where
  hosts := []
  hostOrder := []
  allowedHosts := ["node".toList]
  auth
  apiToken
  listed := by simp

/-- A request with the token passes a login: it is dispatched, and so it is admitted. -/
theorem dispatch_admitted_snapshot
    : ∃ dispatched,
        acceptingPlatform.dispatch (guardedState (some adminAuth) (some ⟨"t".toList⟩))
          (.incoming .get "/host/a/api/snapshot".toList none
            [("host".toList, asBytes "node:8080".toList),
              ("authorization".toList, asBytes "Bearer t".toList)])
          = .ok dispatched
        ∧ Admitted acceptingPlatform (guardedState (some adminAuth) (some ⟨"t".toList⟩))
            [("host".toList, asBytes "node:8080".toList),
              ("authorization".toList, asBytes "Bearer t".toList)]
            dispatched := by
  have answered
      : ∃ dispatched,
          acceptingPlatform.dispatch (guardedState (some adminAuth) (some ⟨"t".toList⟩))
            (.incoming .get "/host/a/api/snapshot".toList none
              [("host".toList, asBytes "node:8080".toList),
                ("authorization".toList, asBytes "Bearer t".toList)])
            = .ok dispatched :=
    ⟨_, rfl⟩
  obtain ⟨dispatched, runs⟩ := answered
  exact ⟨dispatched, runs, dispatch_admitted _ _ _ _ _ _ _ runs⟩

end Snapshot

end DockDoe
