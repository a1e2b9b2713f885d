import DockDoe.Correctness.HubAccess

/-! Which handlers a machine's POST leads to, and how it is refused. -/

namespace DockDoe

section Posts

/-- The handlers that a POST can lead to. -/
theorem handler_of_post
    : ∀ route ∈ routes,
        ∀ handler ∈ route.post,
          handler = .containerAction
          ∨ handler = .stackAction
          ∨ handler = .loginSubmit
          ∨ handler = .logout := by
  decide

/-- The lifecycle handlers have three parameters. -/
theorem three_params_of_lifecycle
    : ∀ route ∈ routes,
        ∀ handler ∈ route.post,
          handler.isLifecycle = true
          → route.pattern.count .param = 3 ∧ .rest ∉ route.pattern := by
  decide

/-- A pattern without a rest has as many raw parameters as it says, by induction along the match. -/
theorem length_of_matchPattern {pattern : List Segment} {path raw : List Text}
    (matching : matchPattern pattern path = some raw) (noRest : .rest ∉ pattern)
    : raw.length = pattern.count .param := by
  fun_induction matchPattern pattern path generalizing raw with
  | case1 =>
      cases matching
      rfl
  | case2 pattern segment path ih =>
      rw [List.count_cons_of_ne (by simp)]
      exact ih matching (fun member => noRest (List.mem_cons_of_mem _ member))
  | case3 => cases matching
  | case4 => cases matching
  | case5 pattern segment path given ih =>
      obtain ⟨params, matched, same⟩ := Option.map_eq_some_iff.mp matching
      rw [← same, List.length_cons, List.count_cons_self,
        ih matched (fun member => noRest (List.mem_cons_of_mem _ member))]
  | case6 => exact absurd List.mem_cons_self noRest
  | case7 => exact absurd List.mem_cons_self noRest
  | case8 => cases matching

theorem params_of_lifecycle {path : Text} {handler : Handler} {params : List Text}
    (routed : RoutedTo .post path handler params) (lifecycle : handler.isLifecycle = true)
    : ∃ first second third, params = [first, second, third] := by
  obtain ⟨route, raw, found, handles, decoded⟩ := routed
  obtain ⟨member, matching⟩ := findRoute_some found
  obtain ⟨three, noRest⟩ := three_params_of_lifecycle route member handler handles lifecycle
  apply List.length_eq_three.mp
  rw [FallibleLists.length_of_mapM decoded, length_of_matchPattern matching noRest, three]

end Posts

section Refusals

variable {platform : Platform} {state : AppState} {req : Request} {response : Response}

/-- The node asks a machine for a login: it ignores the token, and the path is not public. -/
structure AsksLogin (platform : Platform) (state : AppState) (req : Request) : Prop where
  host : hostAllowed req.headers state.allowedHosts = true
  ignored : tokenStanding platform.hmac state.apiToken req.headers = .ignored
  login : state.auth ≠ none
  guarded : ¬ IsPublic req.path

/-- A host that is not allowed is refused with an error. -/
theorem checkHost_error (refused : Platform.checkHost state req = .error response)
    : 400 ≤ response.status := by
  unfold Platform.checkHost at refused
  split at refused
  next => cases refused
  next =>
    cases refused
    decide

/-- A request that a route's guard stops is refused with an error. -/
theorem guard_error {route : Route} (refused : route.guard req = .error response)
    : 400 ≤ response.status := by
  unfold Route.guard requireHtmx at refused
  split at refused
  next =>
    split at refused
    next => cases refused
    next =>
      cases refused
      decide
  next => cases refused

/-- A machine without a session is sent to the login, with a redirect, as it is not htmx. -/
theorem Machine.requireSession_error (machine : Machine req.headers)
    (refused : platform.requireSession state req = .error response)
    : state.auth ≠ none ∧ ¬ IsPublic req.path ∧ response = .redirect "/login".toList := by
  unfold Platform.requireSession at refused
  cases configured : state.auth with
  | none =>
      rw [configured] at refused
      cases refused
  | some auth =>
      simp only [configured, machine.notAuthenticated, machine.notHtmx, Bool.false_eq_true,
        if_false] at refused
      split at refused
      next => cases refused
      next notPublic =>
        cases refused
        exact ⟨Option.some_ne_none auth, notPublic, rfl⟩

/-- A machine's request that the guard stops is refused with an error or sent to the login, by
the standing of its token.
-/
theorem Machine.requireAuth_error (machine : Machine req.headers)
    (allowed : hostAllowed req.headers state.allowedHosts = true)
    (refused : platform.requireAuth state req = .error response)
    : 400 ≤ response.status
      ∨ AsksLogin platform state req ∧ response = .redirect "/login".toList := by
  cases standing : tokenStanding platform.hmac state.apiToken req.headers with
  | verified => cases (requireAuth_verified standing).symm.trans refused
  | refused =>
      cases (requireAuth_refused standing).symm.trans refused
      left
      decide
  | ignored =>
      rw [requireAuth_ignored standing] at refused
      obtain ⟨login, guarded, redirects⟩ := machine.requireSession_error refused
      exact Or.inr ⟨⟨allowed, standing, login, guarded⟩, redirects⟩

/-- A POST without a form is rejected by no extractor but the form's, by the handlers that take a
POST.
-/
theorem post_rejection {route : Route} {raw : List Text} {handler : Handler} {path : Text}
    (machine : Machine req.headers) (post : req.method = .post)
    (found : findRoute path = some (route, raw)) (handles : route.handler req.method = some handler)
    (rejected : platform.rejection handler req = some response)
    : 400 ≤ response.status := by
  obtain ⟨member, _⟩ := findRoute_some found
  rw [post] at handles
  rcases handler_of_post route member handler handles with rfl | rfl | rfl | rfl
  · cases rejected
  · cases rejected
  · simp only [Platform.rejection, machine.form, Option.some.injEq] at rejected
    rw [← rejected]
    decide
  · cases rejected

/-- A POST that stops on its way from the route to the handler is refused with an error, step by
step.
-/
theorem runRoute_error (machine : Machine req.headers) (post : req.method = .post)
    (refused : platform.runRoute req = .error response)
    : 400 ≤ response.status := by
  unfold Platform.runRoute at refused
  split at refused
  next =>
    cases refused
    decide
  next route raw found =>
    rcases FallibleLists.bind_eq_error_iff.mp refused with unguarded | ⟨passed, guarded, fails⟩
    · exact guard_error unguarded
    · obtain ⟨_, rfl⟩ := guard_ok_iff.mp guarded
      unfold Platform.runHandler at fails
      split at fails
      next =>
        cases fails
        decide
      next handler handles =>
        split at fails
        next =>
          cases fails
          decide
        next =>
          split at fails
          next rejected =>
            cases fails
            exact post_rejection machine post found handles rejected
          next => cases fails

/-- A machine's POST that no handler runs for is refused, or sent to the login, by the layer that
stops it.
-/
theorem Machine.post_error (machine : Machine req.headers) (post : req.method = .post)
    (refused : platform.dispatch state req = .error response)
    : 400 ≤ response.status
      ∨ AsksLogin platform state req ∧ response = .redirect "/login".toList := by
  unfold Platform.dispatch at refused
  rcases FallibleLists.bind_eq_error_iff.mp refused with wrongHost | ⟨checked, allowed, stops⟩
  · exact Or.inl (checkHost_error wrongHost)
  · obtain ⟨allowed, rfl⟩ := checkHost_ok_iff.mp allowed
    rcases FallibleLists.bind_eq_error_iff.mp stops with unauthorised | ⟨passed, passes, fails⟩
    · exact machine.requireAuth_error allowed unauthorised
    · left
      obtain ⟨sameMethod, _, sameHeaders⟩ := (machine.requireAuth_ok_iff.mp passes).same
      rw [← sameHeaders] at machine
      exact runRoute_error machine (sameMethod.trans post) fails

/-- The login is asked for exactly so: the host is allowed, and the guard can only have stopped
at the missing session.
-/
theorem Machine.dispatch_asksLogin (machine : Machine req.headers)
    (asks : AsksLogin platform state req)
    : platform.dispatch state req = .error (.redirect "/login".toList) := by
  have passed : Platform.checkHost state req = .ok req := checkHost_ok_iff.mpr ⟨asks.host, rfl⟩
  cases refused : platform.requireAuth state req with
  | ok passed =>
      cases machine.requireAuth_ok_iff.mp refused with
      | verified verified => cases verified.symm.trans asks.ignored
      | ignored _ session => exact absurd session (not_or.mpr ⟨asks.login, asks.guarded⟩)
  | error response =>
      rw [requireAuth_ignored asks.ignored] at refused
      obtain ⟨_, _, redirects⟩ := machine.requireSession_error refused
      rw [← requireAuth_ignored asks.ignored] at refused
      rw [Platform.dispatch, passed, ← redirects]
      change (platform.requireAuth state req >>= platform.runRoute) = _
      rw [refused]
      rfl

end Refusals

end DockDoe
