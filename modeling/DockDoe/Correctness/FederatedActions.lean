import DockDoe.Correctness.MachinePosts
import DockDoe.Correctness.RedirectChains

/-! What stands behind the success of a forwarded container action.
The hub goes by the status of the last answer, which may be that of a login page.
-/

namespace DockDoe

open UrlPaths

/-- What the node answers with success in place of an action. -/
inductive Federation.Misleads (fed : Federation) (req : Request) : Prop
  | login (asks : AsksLogin fed.platform fed.node req)
  | pretended {host id name}
    (allowed : hostAllowed fed.headers fed.node.allowedHosts = true)
    (verified : fed.standing = .verified)
    (routed : RoutedTo .post req.path .containerAction [host, id, name])
    (pretends : fed.node.Pretends host id name)
  | stack {host name action answer after}
    (allowed : hostAllowed fed.headers fed.node.allowedHosts = true)
    (verified : fed.standing = .verified)
    (routed : RoutedTo .post req.path .stackAction [host, name, action])
    (answered : fed.node.stackAction host name action = some (answer, after))
    (success : answer.status = 200)
  | logout {params}
    (allowed : hostAllowed fed.headers fed.node.allowedHosts = true)
    (admitted : fed.Admits)
    (routed : RoutedTo .post req.path .logout params)
    (shown : fed.node.auth = none → fed.node.HomeShown)

/-- A container action has been applied in an exchange. -/
def Exchange.Applies (exchange : Exchange) : Prop :=
  ∃ served ∈ exchange.served, served.Applied

/-- The three ways in which a POST of the hub ends: with an action that is applied, with a
success that is none, or without success.
-/
inductive PostEnd (fed : Federation) (req : Request) (exchange : Exchange) : Prop
  | applied (applies : exchange.Applies) (honest : ¬ fed.Misleads req)
  | misled (unapplied : ¬ exchange.Applies) (succeeds : exchange.Succeeds)
    (misleads : fed.Misleads req)
  | failed (fails : ¬ exchange.Succeeds) (honest : ¬ fed.Misleads req)

section Posted

variable {fed : Federation} {url : Url} {handler : Handler} {params : List Text}

/-- The handler that a POST of the hub is routed to runs if the node lets it, by a verified token
or where there is no login to ask for.
-/
theorem runs_of_post (ours : url.authority = fed.client.base.authority)
    (allowed : hostAllowed fed.headers fed.node.allowedHosts = true) (admitted : fed.Admits)
    (routed : RoutedTo .post (fed.asked .post url).path handler params)
    (guarded : handler.isLifecycle = true → fed.standing = .verified)
    (accepts : ∀ passed, fed.platform.rejection handler passed = none)
    : ∃ request,
        fed.platform.dispatch fed.node (fed.asked .post url)
        = .ok { handler, params, request } := by
  have machine : Machine (fed.asked .post url).headers := asked_machine _ _ _
  have headers := asked_headers .post ours
  rcases admitted with verified | ⟨ignored, noLogin⟩
  · refine ⟨_, machine.dispatch_ok_iff.mpr ⟨?_, .verified ?_, routed, fun _ => rfl, accepts _⟩⟩
    · rw [headers]
      exact allowed
    · rw [headers]
      exact verified
  · refine ⟨_, machine.dispatch_ok_iff.mpr
      ⟨?_, .ignored ?_ (Or.inl noLogin), routed, ?_, accepts _⟩⟩
    · rw [headers]
      exact allowed
    · rw [headers]
      exact ignored
    · intro lifecycle
      cases (guarded lifecycle).symm.trans ignored

/-- What a handler that runs answers with success in place of an action. -/
inductive Pretence (fed : Federation) (dispatched : Dispatched) : Prop
  | container {host id name} (handler : dispatched.handler = .containerAction)
    (params : dispatched.params = [host, id, name])
    (pretends : fed.node.Pretends host id name)
  | stack {host name action answer after} (handler : dispatched.handler = .stackAction)
    (params : dispatched.params = [host, name, action])
    (answered : fed.node.stackAction host name action = some (answer, after))
    (success : answer.status = 200)
  | logout (handler : dispatched.handler = .logout)
    (shown : fed.node.auth = none → fed.node.HomeShown)

/-- Where the node misleads the hub, it asks for a login, or a handler runs that does, by the
cases of misleading.
-/
theorem misleads_runs (ours : url.authority = fed.client.base.authority)
    (misleads : fed.Misleads (fed.asked .post url))
    : AsksLogin fed.platform fed.node (fed.asked .post url)
      ∨ ∃ dispatched,
        fed.platform.dispatch fed.node (fed.asked .post url) = .ok dispatched
        ∧ Pretence fed dispatched := by
  cases misleads with
  | login asks => exact Or.inl asks
  | pretended allowed verified routed pretends =>
      obtain ⟨_, runs⟩ := runs_of_post ours allowed (Or.inl verified) routed (fun _ => verified)
        (fun _ => rfl)
      exact Or.inr ⟨_, runs, .container rfl rfl pretends⟩
  | stack allowed verified routed answered success =>
      obtain ⟨_, runs⟩ := runs_of_post ours allowed (Or.inl verified) routed (fun _ => verified)
        (fun _ => rfl)
      exact Or.inr ⟨_, runs, .stack rfl rfl answered success⟩
  | logout allowed admitted routed shown =>
      obtain ⟨_, runs⟩ := runs_of_post ours allowed admitted routed
        (fun lifecycle => by cases lifecycle) (fun _ => rfl)
      exact Or.inr ⟨_, runs, .logout rfl shown⟩

/-- How the node misleads the hub is decided by the handler that runs. -/
theorem misleads_dispatched {dispatched : Dispatched}
    (ours : url.authority = fed.client.base.authority)
    (runs : fed.platform.dispatch fed.node (fed.asked .post url) = .ok dispatched)
    (misleads : fed.Misleads (fed.asked .post url))
    : Pretence fed dispatched := by
  rcases misleads_runs ours misleads with asks | ⟨other, runsOther, pretence⟩
  · cases ((asked_machine fed .post url).dispatch_asksLogin asks).symm.trans runs
  · cases runs.symm.trans runsOther
    exact pretence

/-- An exchange that goes on after a redirect is one of the redirect's target. -/
theorem succeeds_redirect_iff {redirects : ℕ} {node : AppState} {method : Method}
    {served : Served} {target : Text}
    (serves : serve fed.platform fed.pages node (fed.asked method url) = some served)
    (redirected : redirectTarget served.response = some target)
    : (fed.exchange (redirects + 1) node method url).Succeeds
      ↔ (fed.exchange redirects served.after .get (url.withPath target)).Succeeds := by
  rw [exchange_redirect serves redirected]
  exact Iff.rfl

/-- After a redirect, nothing is applied that was not before, for a redirect is followed with a
GET.
-/
theorem unapplied_redirect {redirects : ℕ} {node : AppState} {method : Method} {served : Served}
    {target : Text}
    (serves : serve fed.platform fed.pages node (fed.asked method url) = some served)
    (redirected : redirectTarget served.response = some target)
    (unapplied : ¬ served.Applied)
    : ¬ (fed.exchange (redirects + 1) node method url).Applies := by
  rw [exchange_redirect serves redirected]
  intro h
  obtain ⟨other, member, applied⟩ := h
  rcases List.mem_cons.mp member with same | later
  · rw [same] at applied
    exact unapplied applied
  · exact unapplied_of_get redirects served.after (url.withPath target) other later applied

theorem redirectTarget_ne {response : Response} (other : response.status ≠ 303)
    : redirectTarget response = none := by
  rw [redirectTarget, if_neg other]

/-- A final answer that reports no success ends an exchange without one. -/
theorem fails_final {redirects : ℕ} {node : AppState} {method : Method} {served : Served}
    (serves : serve fed.platform fed.pages node (fed.asked method url) = some served)
    (final : served.response.status ≠ 303) (reported : 300 ≤ served.response.status)
    : ¬ (fed.exchange redirects node method url).Succeeds := by
  rw [exchange_final serves (redirectTarget_ne final)]
  intro h
  obtain ⟨_, last, _, succeeds⟩ := h
  cases last
  omega

/-- A final answer to a request that applied nothing ends an exchange that did not either. -/
theorem unapplied_final {redirects : ℕ} {node : AppState} {method : Method} {served : Served}
    (serves : serve fed.platform fed.pages node (fed.asked method url) = some served)
    (final : served.response.status ≠ 303) (unapplied : ¬ served.Applied)
    : ¬ (fed.exchange redirects node method url).Applies := by
  rw [exchange_final serves (redirectTarget_ne final)]
  intro h
  obtain ⟨other, member, applied⟩ := h
  rw [List.mem_singleton.mp member] at applied
  exact unapplied applied

/-- What another handler than that of container actions does is no application. -/
theorem unapplied_of_handler {served : Served} {dispatched : Dispatched}
    (ran : served.ran = some dispatched) (other : dispatched.handler ≠ .containerAction)
    : ¬ served.Applied := by
  intro h
  obtain ⟨_, _, _, _, ranOther, isAction, _⟩ := h
  cases ran.symm.trans ranOther
  exact other isAction

/-- The login page ends an exchange with success where there is a login. -/
theorem login_succeeds (ours : url.authority = fed.client.base.authority)
    (allowed : hostAllowed fed.headers fed.node.allowedHosts = true)
    (unrefused : fed.standing = .verified ∨ fed.standing = .ignored)
    (login : fed.node.auth ≠ none) (redirects : ℕ)
    : (fed.exchange redirects fed.node .get (url.withPath "/login".toList)).Succeeds := by
  obtain ⟨ran, response, serves, _, shown⟩ := serve_login ours allowed unrefused
  rw [shown login] at serves
  rw [exchange_final serves rfl]
  exact succeeds_of_last rfl

/-- Without a login, the login page leads to the home page, and what follows succeeds as that
does.
-/
theorem login_home_iff (ours : url.authority = fed.client.base.authority)
    (allowed : hostAllowed fed.headers fed.node.allowedHosts = true) (admitted : fed.Admits)
    (noLogin : fed.node.auth = none) (redirects : ℕ)
    : (fed.exchange (redirects + 2) fed.node .get (url.withPath "/login".toList)).Succeeds
      ↔ fed.node.HomeShown := by
  obtain ⟨ran, response, serves, leads, _⟩ :=
    serve_login ours allowed (admitted.imp_right And.left)
  rw [leads noLogin] at serves
  rw [succeeds_redirect_iff serves rfl]
  have home
      : (fed.asked .get ((url.withPath "/login".toList).withPath "/".toList)).path
        = "/".toList := rfl
  have ours
      : ((url.withPath "/login".toList).withPath "/".toList).authority
        = fed.client.base.authority :=
    ours
  constructor
  · intro succeeds
    by_contra hidden
    exact home_fails ours allowed admitted home hidden (redirects + 1) succeeds
  · intro shown
    exact home_succeeds ours allowed admitted home shown redirects

/-- A POST that no handler runs for misleads the hub when it is sent to the login: any other
refusal is one that the hub reports as a failure.
-/
theorem post_refused {response : Response} (ours : url.authority = fed.client.base.authority)
    (refused : fed.platform.dispatch fed.node (fed.asked .post url) = .error response)
    (redirects : ℕ)
    : PostEnd fed (fed.asked .post url) (fed.exchange (redirects + 3) fed.node .post url) := by
  have machine := asked_machine fed .post url
  have serves
      : serve fed.platform fed.pages fed.node (fed.asked .post url)
        = some { before := fed.node, ran := none, response, after := fed.node } := by
    rw [serve, refused]
  rcases machine.post_error rfl refused with failed | ⟨asks, login⟩
  · have final : response.status ≠ 303 := by omega
    have reported : 300 ≤ response.status := by omega
    apply PostEnd.failed (fails_final serves final reported)
    intro misleads
    rcases misleads_runs ours misleads with asks | ⟨_, runs, _⟩
    · cases (machine.dispatch_asksLogin asks).symm.trans refused
      exact absurd failed (by decide)
    · cases runs.symm.trans refused
  · rw [login] at serves
    have headers := asked_headers .post ours
    have allowed := asks.host
    have ignored := asks.ignored
    rw [headers] at allowed ignored
    apply PostEnd.misled
    · apply unapplied_redirect serves rfl
      intro h
      obtain ⟨_, _, _, _, ran, _⟩ := h
      cases ran
    · rw [succeeds_redirect_iff serves rfl]
      exact login_succeeds ours allowed (Or.inr ignored) asks.login _
    · exact .login asks

/-- What the dispatch of a hub's POST says of its handler, by inverting it for a machine's
request.
-/
theorem posted_dispatch {dispatched : Dispatched} (ours : url.authority = fed.client.base.authority)
    (runs : fed.platform.dispatch fed.node (fed.asked .post url) = .ok dispatched)
    : hostAllowed fed.headers fed.node.allowedHosts = true
      ∧ RoutedTo .post (fed.asked .post url).path dispatched.handler dispatched.params
      ∧ (dispatched.handler.isLifecycle = true → fed.standing = .verified)
      ∧ (dispatched.handler.isPublic = false → fed.Admits)
      ∧ dispatched.handler ≠ .loginSubmit := by
  have machine := asked_machine fed .post url
  have headers := asked_headers .post ours
  have standing
      : tokenStanding fed.platform.hmac fed.node.apiToken (fed.asked .post url).headers
        = fed.standing := by
    rw [headers]
    rfl
  obtain ⟨allowed, passes, routed, exempt, accepted⟩ := machine.dispatch_ok_iff.mp runs
  rw [headers] at allowed
  refine ⟨allowed, routed, ?_, ?_, ?_⟩
  · intro lifecycle
    have marked := exempt lifecycle
    generalize dispatched.request = passed at passes marked
    cases passes with
    | verified verified => exact standing.symm.trans verified
    | ignored => cases marked
  · intro notPublic
    generalize dispatched.request = passed at passes
    cases passes with
    | verified verified => exact Or.inl (standing.symm.trans verified)
    | ignored ignored session =>
        refine Or.inr ⟨standing.symm.trans ignored, ?_⟩
        rcases session with noLogin | isPublic
        · exact noLogin
        · obtain ⟨route, raw, found, handles, _⟩ := routed
          cases notPublic.symm.trans (isPublic_of_route isPublic found handles)
  · intro form
    have noForm := machine.form
    rw [← passes.same.2.2] at noForm
    rw [form, Platform.rejection, noForm] at accepted
    cases accepted

/-- A POST that runs a container action ends with it applied, or with the node's pretence, or
fails, by how the action ends.
-/
theorem post_containerAction {dispatched : Dispatched}
    (ours : url.authority = fed.client.base.authority)
    (runs : fed.platform.dispatch fed.node (fed.asked .post url) = .ok dispatched)
    (isAction : dispatched.handler = .containerAction) (redirects : ℕ)
    : PostEnd fed (fed.asked .post url) (fed.exchange (redirects + 3) fed.node .post url) := by
  obtain ⟨allowed, routed, verified, _, _⟩ := posted_dispatch ours runs
  rw [isAction] at routed verified
  obtain ⟨host, id, name, params⟩ := params_of_lifecycle routed rfl
  rw [params] at routed
  have serves
      : serve fed.platform fed.pages fed.node (fed.asked .post url)
        = some {
            before := fed.node
            ran := some dispatched
            response := (fed.node.containerAction host id name).1
            after := (fed.node.containerAction host id name).2 } := by
    rw [serve, runs]
    simp only [respond, isAction, params, Option.map_some]
  have honesty (honest : ¬ fed.node.Pretends host id name)
      : ¬ fed.Misleads (fed.asked .post url) := by
    intro misleads
    cases misleads_dispatched ours runs misleads with
    | container _ other pretends =>
        cases params.symm.trans other
        exact honest pretends
    | stack other => cases isAction.symm.trans other
    | logout other => cases isAction.symm.trans other
  cases containerAction_end fed.node host id name with
  | applied recorded status honest =>
      have final : redirectTarget (fed.node.containerAction host id name).1 = none :=
        redirectTarget_ne (by omega)
      rw [exchange_final serves final]
      exact .applied
        ⟨_, List.mem_singleton_self _, dispatched, host, id, name, rfl, isAction, params, recorded⟩
        (honesty honest)
  | pretended unrecorded status pretends =>
      have final : (fed.node.containerAction host id name).1.status ≠ 303 := by omega
      apply PostEnd.misled
      · apply unapplied_final serves final
        intro h
        obtain ⟨other, _, _, _, ran, _, others, recorded⟩ := h
        cases ran
        cases params.symm.trans others
        exact unrecorded recorded
      · rw [exchange_final serves (redirectTarget_ne final)]
        exact ⟨(fed.node.containerAction host id name).1, rfl, by omega, by omega⟩
      · exact .pretended allowed (verified rfl) routed pretends
  | failed status honest =>
      have final : (fed.node.containerAction host id name).1.status ≠ 303 := by omega
      have reported : 300 ≤ (fed.node.containerAction host id name).1.status := by omega
      exact .failed (fails_final serves final reported) (honesty honest)

/-- A POST that runs a stack action instead misleads the hub when it succeeds, for then no
container action has run.
-/
theorem post_stackAction {dispatched : Dispatched}
    (ours : url.authority = fed.client.base.authority)
    (runs : fed.platform.dispatch fed.node (fed.asked .post url) = .ok dispatched)
    (isAction : dispatched.handler = .stackAction) (redirects : ℕ)
    : PostEnd fed (fed.asked .post url) (fed.exchange (redirects + 3) fed.node .post url) := by
  obtain ⟨allowed, routed, verified, _, _⟩ := posted_dispatch ours runs
  rw [isAction] at routed verified
  obtain ⟨host, name, action, params⟩ := params_of_lifecycle routed rfl
  rw [params] at routed
  have honesty
      (failed
        : ∀ answer after,
            fed.node.stackAction host name action = some (answer, after) → answer.status ≠ 200)
      : ¬ fed.Misleads (fed.asked .post url) := by
    intro misleads
    cases misleads_dispatched ours runs misleads with
    | container other => cases isAction.symm.trans other
    | stack _ other answered success =>
        cases params.symm.trans other
        exact failed _ _ answered success
    | logout other => cases isAction.symm.trans other
  have responds
      : serve fed.platform fed.pages fed.node (fed.asked .post url)
        = (fed.node.stackAction host name action).map (fun result =>
            { before := fed.node, ran := some dispatched, response := result.1
              after := result.2 }) := by
    rw [serve, runs]
    simp only [respond, isAction, params]
  cases answered : fed.node.stackAction host name action with
  | none =>
      rw [answered] at responds
      rw [exchange_unanswered responds]
      apply PostEnd.failed
      · intro h
        obtain ⟨_, last, _⟩ := h
        cases last
      · apply honesty
        intro answer after other
        cases answered.symm.trans other
  | some result =>
      obtain ⟨answer, after⟩ := result
      have status := stackAction_status answered
      rw [answered] at responds
      have final : answer.status ≠ 303 := by omega
      by_cases success : answer.status = 200
      · apply PostEnd.misled
        · exact unapplied_final responds final (unapplied_of_handler rfl (by simp [isAction]))
        · rw [exchange_final responds (redirectTarget_ne final)]
          exact ⟨answer, rfl, by omega, by omega⟩
        · exact .stack allowed (verified rfl) routed answered success
      · have reported : 300 ≤ answer.status := by omega
        apply PostEnd.failed (fails_final responds final reported)
        apply honesty
        intro other _ same
        cases answered.symm.trans same
        exact success

/-- A POST that logs out instead is redirected home, and misleads the hub when the home page
succeeds.
-/
theorem post_logout {dispatched : Dispatched} (ours : url.authority = fed.client.base.authority)
    (runs : fed.platform.dispatch fed.node (fed.asked .post url) = .ok dispatched)
    (isLogout : dispatched.handler = .logout) (redirects : ℕ)
    : PostEnd fed (fed.asked .post url) (fed.exchange (redirects + 3) fed.node .post url) := by
  obtain ⟨allowed, routed, _, admitted, _⟩ := posted_dispatch ours runs
  rw [isLogout] at routed admitted
  have admitted := admitted rfl
  have serves
      : serve fed.platform fed.pages fed.node (fed.asked .post url)
        = some {
            before := fed.node
            ran := some dispatched
            response := logout
            after := fed.node } := by
    rw [serve, runs]
    simp only [respond, isLogout, Option.map_some]
  have unapplied : ¬ (fed.exchange (redirects + 3) fed.node .post url).Applies :=
    unapplied_redirect serves rfl (unapplied_of_handler rfl (by simp [isLogout]))
  have ends
      : (fed.exchange (redirects + 3) fed.node .post url).Succeeds
        ↔ (fed.node.auth = none → fed.node.HomeShown) := by
    rw [succeeds_redirect_iff serves rfl]
    cases login : fed.node.auth with
    | none =>
        have leads := login_home_iff ours allowed admitted login redirects
        simpa using leads
    | some auth =>
        have shown := login_succeeds ours allowed (admitted.imp_right And.left)
          (by simp [login]) (redirects + 2)
        simpa using shown
  by_cases shown : fed.node.auth = none → fed.node.HomeShown
  · exact .misled unapplied (ends.mpr shown) (.logout allowed admitted routed shown)
  · apply PostEnd.failed (fun succeeds => shown (ends.mp succeeds))
    intro misleads
    cases misleads_dispatched ours runs misleads with
    | container other => cases isLogout.symm.trans other
    | stack other => cases isLogout.symm.trans other
    | logout _ other => exact shown other

/-- Witness: the handlers that a POST can lead to, and the refusals. -/
theorem post_end (ours : url.authority = fed.client.base.authority) (redirects : ℕ)
    : PostEnd fed (fed.asked .post url) (fed.exchange (redirects + 3) fed.node .post url) := by
  cases runs : fed.platform.dispatch fed.node (fed.asked .post url) with
  | error response => exact post_refused ours runs redirects
  | ok dispatched =>
      obtain ⟨_, ⟨route, raw, found, handles, _⟩, _, _, noForm⟩ := posted_dispatch ours runs
      have handler := handler_of_post route (findRoute_some found).1 dispatched.handler handles
      rcases handler with container | stack | form | leaves
      · exact post_containerAction ours runs container redirects
      · exact post_stackAction ours runs stack redirects
      · exact absurd form noForm
      · exact post_logout ours runs leaves redirects

end Posted

/-- The hub answers a forwarded container action by its branch for a success. -/
def Federation.ReportsSuccess (fed : Federation) (apiPath : Text) : Prop :=
  nodeOutcome (fed.forwardAction apiPath) = .applied

/-- The node's container action has run for the hub's request, and its Docker call has
succeeded.
-/
def Federation.Justified (fed : Federation) (apiPath : Text) : Prop :=
  ∃ exchange, fed.actionExchange apiPath = .ok exchange ∧ exchange.Applies

section Reports

variable {fed : Federation}

/-- An outcome is success when the last status is, by the cases of the answer. -/
theorem nodeOutcome_applied_iff {result : Except Text (ℕ × Text)}
    : nodeOutcome result = .applied
      ↔ ∃ status body, result = .ok (status, body) ∧ 200 ≤ status ∧ status < 300 := by
  cases result with
  | error => simp [nodeOutcome]
  | ok answer =>
      obtain ⟨status, body⟩ := answer
      unfold nodeOutcome
      dsimp only
      split
      next success => simpa using success
      next failed =>
        split
        next => simpa using failed
        next => simpa using failed

/-- The hub reports a success when its exchange ends with one, by inverting what it makes of the
last answer.
-/
theorem reportsSuccess_iff {apiPath : Text}
    : fed.ReportsSuccess apiPath
      ↔ ∃ exchange, fed.actionExchange apiPath = .ok exchange ∧ exchange.Succeeds := by
  rw [Federation.ReportsSuccess, nodeOutcome_applied_iff]
  unfold Federation.forwardAction Exchange.Succeeds
  constructor
  · intro h
    obtain ⟨status, body, result, low, high⟩ := h
    obtain ⟨exchange, exchanged, result⟩ := FallibleLists.bind_eq_ok_iff.mp result
    obtain ⟨response, last, result⟩ := FallibleLists.bind_eq_ok_iff.mp result
    cases result
    exact ⟨exchange, exchanged, response, last, low, high⟩
  · intro h
    obtain ⟨exchange, exchanged, response, last, low, high⟩ := h
    refine ⟨response.status, fed.pages.render response.body, ?_, low, high⟩
    apply FallibleLists.bind_eq_ok_iff.mpr
    refine ⟨exchange, exchanged, ?_⟩
    apply FallibleLists.bind_eq_ok_iff.mpr
    exact ⟨response, last, rfl⟩

/-- The request that an action is posted with, and the exchange that it starts: the URL is one of
the node's origin.
-/
theorem action_posted {nodeHost : Text} (resolved : fed.client.nodeHost = some nodeHost)
    (id : Text) (action : ActionName)
    : ∃ url,
        url.authority = fed.client.base.authority
        ∧ fed.actionRequest (.containerAction id action) = some (fed.asked .post url)
        ∧ fed.actionExchange (Relay.containerAction id action).apiPath
          = .ok (fed.exchange maxRedirects fed.node .post url) := by
  have sent := (Relay.containerAction id action).url_eq resolved
  have parses
      : ∃ url,
          UrlPaths.parse
              (fed.client.base.text
                ++ '/' :: (['/'].intercalate
                  ((Relay.containerAction id action).segments nodeHost)
                  ++ (Relay.containerAction id action).behind))
            = some url
          ∧ url.authority = fed.client.base.authority := by
    obtain ⟨query, parsed⟩ := parse_origin fed.client.base _
    exact ⟨_, parsed, rfl⟩
  obtain ⟨url, parsed, ours⟩ := parses
  refine ⟨url, ours, ?_, ?_⟩
  · rw [Federation.actionRequest, sent]
    change (UrlPaths.parse _).map _ = _
    rw [parsed]
    rfl
  · apply FallibleLists.bind_eq_ok_iff.mpr
    refine ⟨_, sent, ?_⟩
    rw [parsed]
    rfl

/-- Without the name of the node's host, nothing is sent, for there is no URL. -/
theorem action_unresolved (unresolved : fed.client.nodeHost = none) (id : Text)
    (action : ActionName)
    : fed.actionRequest (.containerAction id action) = none
      ∧ ¬ ∃ exchange,
          fed.actionExchange (Relay.containerAction id action).apiPath = .ok exchange := by
  have unsent (apiPath : Text)
      : fed.client.hostScoped apiPath
        = .error "node not resolved yet (unreachable since startup)".toList := by
    rw [NodeClient.hostScoped, unresolved]
  constructor
  · rw [Federation.actionRequest, Relay.url, NodeClient.forwardActionUrl, unsent]
    rfl
  · intro h
    obtain ⟨exchange, exchanged⟩ := h
    obtain ⟨_, sent, _⟩ := FallibleLists.bind_eq_ok_iff.mp exchanged
    cases (unsent _).symm.trans sent

end Reports

/-- A success that the hub reports of a container action is justified exactly when the node does
not mislead the hub. Witness: the POST ends with an applied action, a misleading page or a
failure, by the cases of the handler it leads to and of the redirects from there.
-/
theorem success_justified_iff (fed : Federation) (id : Text) (action : ActionName)
    : (fed.ReportsSuccess (Relay.containerAction id action).apiPath
        → fed.Justified (Relay.containerAction id action).apiPath)
      ↔ ∀ req ∈ fed.actionRequest (.containerAction id action), ¬ fed.Misleads req := by
  rw [reportsSuccess_iff, Federation.Justified]
  cases resolved : fed.client.nodeHost with
  | none =>
      obtain ⟨unsent, nothing⟩ := action_unresolved resolved id action
      rw [unsent]
      apply iff_of_true
      · intro h
        obtain ⟨exchange, exchanged, _⟩ := h
        exact absurd ⟨exchange, exchanged⟩ nothing
      · intro req sent
        cases sent
  | some nodeHost =>
      obtain ⟨url, ours, sent, exchanged⟩ := action_posted resolved id action
      rw [sent, exchanged]
      have ends := post_end ours (maxRedirects - 3)
      simp only [Except.ok.injEq, exists_eq_left', Option.mem_some_iff, forall_eq']
      change PostEnd _ _ (fed.exchange maxRedirects _ _ _) at ends
      cases ends with
      | applied applies honest => exact iff_of_true (fun _ => applies) honest
      | misled unapplied succeeds misleads =>
          exact iff_of_false (fun justified => unapplied (justified succeeds))
            (fun honest => honest misleads)
      | failed fails honest => exact iff_of_true (fun succeeds => absurd succeeds fails) honest

section SuccessExamples

/-- A node that was restarted with a login and without a token. -/
def restartedFederation : Federation where
  client := { localClient with authHeader := some (asBytes "Bearer t".toList) }
  hostHeader := asBytes
  platform := acceptingPlatform
  pages := emptyPages
  node := guardedState (some adminAuth) none

/-- The login page of a restarted node is taken for the success of an action: of the two requests
that were served, neither ran one.
-/
theorem login_reported
    : restartedFederation.ReportsSuccess
        (Relay.containerAction "c1".toList restartName).apiPath
      ∧ ¬ restartedFederation.Justified
          (Relay.containerAction "c1".toList restartName).apiPath := by
  constructor
  · rfl
  · intro h
    obtain ⟨exchange, exchanged, served, member, _, _, _, _, ran, isAction, _⟩ := h
    have handlers
        : exchange.served.map (fun served => served.ran.map Dispatched.handler)
          = [none, some .loginPage] := by
      cases exchanged
      rfl
    have listed := List.mem_map_of_mem (f := fun served => served.ran.map Dispatched.handler) member
    rw [handlers, ran, Option.map_some, isAction] at listed
    exact absurd listed (by decide)

end SuccessExamples

end DockDoe
