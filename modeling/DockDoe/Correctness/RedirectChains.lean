import DockDoe.Correctness.ActionAnswers
import DockDoe.Correctness.HubAccess

/-! Where the redirects of a node lead the hub. They are followed with a GET, so they never
lead to an action, but to the login page, to the home page or to a host's page.
-/

namespace DockDoe

open UrlPaths PercentCoding

/-- A request that a container action ran for, whose Docker call succeeded. -/
def Served.Applied (served : Served) : Prop :=
  ∃ dispatched host id name,
    served.ran = some dispatched
    ∧ dispatched.handler = .containerAction
    ∧ dispatched.params = [host, id, name]
    ∧ served.before.Recorded served.after host id name

/-- The home page is shown, or redirects to a host's page whose URL keeps the host's name. -/
def AppState.HomeShown (state : AppState) : Prop :=
  ∀ only, state.hostOrder = [only] → isPlain only = true

/-- A GET never leads to a container action. -/
theorem get_ne_containerAction
    : ∀ route ∈ routes, route.get ≠ some .containerAction := by
  decide

section Chains

variable {fed : Federation} {url : Url}

theorem exchange_final {redirects : ℕ} {node : AppState} {method : Method} {served : Served}
    (serves : serve fed.platform fed.pages node (fed.asked method url) = some served)
    (final : redirectTarget served.response = none)
    : fed.exchange redirects node method url
      = { served := [served], last := .ok served.response } := by
  rw [Federation.exchange.eq_def, serves]
  simp only [final]

theorem exchange_redirect {redirects : ℕ} {node : AppState} {method : Method} {served : Served}
    {target : Text}
    (serves : serve fed.platform fed.pages node (fed.asked method url) = some served)
    (redirected : redirectTarget served.response = some target)
    : fed.exchange (redirects + 1) node method url
      = {
          served :=
            served
            :: (fed.exchange redirects served.after .get (url.withPath target)).served
          last := (fed.exchange redirects served.after .get (url.withPath target)).last } := by
  rw [Federation.exchange.eq_def, serves]
  simp only [redirected]

theorem exchange_unanswered {redirects : ℕ} {node : AppState} {method : Method}
    (unanswered : serve fed.platform fed.pages node (fed.asked method url) = none)
    : fed.exchange redirects node method url
      = { served := [], last := .error "operation timed out".toList } := by
  rw [Federation.exchange.eq_def, unanswered]

/-- The exchange goes too far when the last redirect that is followed leads on. -/
theorem exchange_exhausted {node : AppState} {method : Method} {served : Served} {target : Text}
    (serves : serve fed.platform fed.pages node (fed.asked method url) = some served)
    (redirected : redirectTarget served.response = some target)
    : fed.exchange 0 node method url
      = { served := [served], last := .error "too many redirects".toList } := by
  rw [Federation.exchange.eq_def, serves]
  simp only [redirected]

theorem serve_ran {platform : Platform} {pages : Pages} {node : AppState} {req : Request}
    {served : Served} {dispatched : Dispatched}
    (serves : serve platform pages node req = some served)
    (ran : served.ran = some dispatched)
    : platform.dispatch node req = .ok dispatched := by
  unfold serve at serves
  split at serves
  next =>
    cases serves
    cases ran
  next other runs =>
    obtain ⟨_, _, same⟩ := Option.map_eq_some_iff.mp serves
    rw [← same] at ran
    cases ran
    exact runs

/-- A handler that runs is the one of the request's route. -/
theorem routedTo_of_dispatch {platform : Platform} {node : AppState} {req : Request}
    {dispatched : Dispatched} (runs : platform.dispatch node req = .ok dispatched)
    : RoutedTo req.method req.path dispatched.handler dispatched.params := by
  obtain ⟨_, passed, authorised, route, raw, reaches⟩ := DockDoe.dispatch_ok_iff.mp runs
  have same : passed.method = req.method ∧ passed.path = req.path := by
    rcases requireAuth_ok_iff.mp authorised with ⟨_, rfl⟩ | ⟨_, _, rfl⟩ <;> exact ⟨rfl, rfl⟩
  rw [← same.1, ← same.2]
  exact ⟨route, raw, reaches.found, reaches.handles, reaches.params⟩

/-- No redirect leads to a container action, since redirects are followed with a GET and the
route of an action takes none. By induction on the redirects left.
-/
theorem unapplied_of_get (redirects : ℕ) (node : AppState) (url : Url)
    : ∀ served ∈ (fed.exchange redirects node .get url).served, ¬ served.Applied := by
  have first {node : AppState} {url : Url} {served : Served}
      (serves : serve fed.platform fed.pages node (fed.asked .get url) = some served)
      : ¬ served.Applied := by
    intro h
    obtain ⟨dispatched, _, _, _, ran, isAction, _⟩ := h
    obtain ⟨route, _, found, handles, _⟩ := routedTo_of_dispatch (serve_ran serves ran)
    rw [isAction] at handles
    exact get_ne_containerAction route (findRoute_some found).1 handles
  generalize isGet : Method.get = method
  fun_induction Federation.exchange fed redirects node method url with
  | case1 => exact fun _ member => absurd member List.not_mem_nil
  | case2 redirects node method url served serves =>
      subst isGet
      exact List.forall_mem_singleton.mpr (first serves)
  | case3 node method url served serves =>
      subst isGet
      exact List.forall_mem_singleton.mpr (first serves)
  | case4 node method url served serves target _ redirects rest ih =>
      subst isGet
      exact List.forall_mem_cons.mpr ⟨first serves, ih rfl⟩

end Chains

section HostPaths

/-- A character of a slug stands for itself in a path, since the characters that do not lie
outside the ranges of a slug's.
-/
theorem slug_char {c : Char}
    (slug : (c.isAlphanum || c == '.' || c == '_' || c == '-') = true)
    : isSeparator c = false ∧ endsPath c = false ∧ isTabOrNewline c = false ∧ c ≠ '%' := by
  have bounds
      : (65 ≤ c.toNat ∧ c.toNat ≤ 90)
        ∨ (97 ≤ c.toNat ∧ c.toNat ≤ 122)
        ∨ (48 ≤ c.toNat ∧ c.toNat ≤ 57)
        ∨ c.toNat = 46
        ∨ c.toNat = 95
        ∨ c.toNat = 45 := by
    simpa [Char.isAlphanum, Char.isAlpha, Char.isUpper, Char.isLower, Char.isDigit,
      UInt32.le_iff_toNat_le, or_assoc, ← Char.toNat_inj] using slug
  simp only [isSeparator, endsPath, isTabOrNewline, Bool.or_eq_false_iff, beq_eq_false_iff_ne,
    ne_eq, ← Char.toNat_inj, Char.reduceToNat]
  omega

theorem slug_chars {name : Text} (slug : isValidSlug name = true)
    : name ≠ []
      ∧ ∀ c ∈ name,
          isSeparator c = false ∧ endsPath c = false ∧ isTabOrNewline c = false ∧ c ≠ '%' := by
  simp only [isValidSlug, Bool.and_eq_true, Bool.not_eq_true', List.isEmpty_eq_false_iff,
    List.all_eq_true] at slug
  exact ⟨slug.1, fun c member => slug_char (slug.2 c member)⟩

theorem noEscape_of_slug {name : Text} (slug : ∀ c ∈ name, c ≠ '%') : hasEscape name = false := by
  induction name with
  | nil => rfl
  | cons c rest ih =>
      rw [hasEscape_cons, ih (fun other member => slug other (List.mem_cons_of_mem _ member)),
        Bool.or_false]
      have plain := slug c List.mem_cons_self
      unfold startsEscape
      split
      next same => exact absurd (List.cons.inj same).1 plain
      next => rfl

/-- A slug is a plain segment unless it is a dot segment: its characters are kept as they are. -/
theorem isPlain_slug_iff {name : Text} (slug : isValidSlug name = true)
    : isPlain name = true ↔ isSingleDot name = false ∧ isDoubleDot name = false := by
  obtain ⟨_, chars⟩ := slug_chars slug
  rw [isPlain_iff, isKept, noEscape_of_slug (fun c member => (chars c member).2.2.2)]
  simp only [Bool.and_eq_true, Bool.not_eq_true', Bool.not_false, and_true]
  constructor
  · exact fun kept => kept.2
  · exact fun kept =>
      ⟨fun c member => ⟨(chars c member).1, (chars c member).2.1, (chars c member).2.2.1⟩, kept⟩

/-- The path of a host's page. Neither the fixed segment nor a slug ends the path or is changed
by parsing, so only dot segments are left to resolve.
-/
theorem parsePath_host {name : Text} (slug : isValidSlug name = true)
    : parsePath ("/host/".toList ++ name) = resolve [] ["host".toList, name] := by
  obtain ⟨_, chars⟩ := slug_chars slug
  have plain : isPlain "host".toList = true := by decide
  have fixed := (isPlain_iff.mp plain).1
  have whole
      : ("host".toList ++ '/' :: name).takeWhile (!endsPath ·) = "host".toList ++ '/' :: name := by
    rw [List.takeWhile_eq_self_iff]
    intro c member
    rcases List.mem_append.mp member with first | inside
    · rw [(fixed c first).2.1, Bool.not_false]
    · rcases List.mem_cons.mp inside with slash | inName
      · rw [slash]
        rfl
      · rw [(chars c inName).2.1, Bool.not_false]
  have split := List.splitOnP_append_cons_of_forall_mem (fun c member => (fixed c member).1) '/'
    rfl name
  rw [List.splitOnP_eq_singleton (fun c member => (chars c member).1)] at split
  calc
    parsePath ("/host/".toList ++ name)
        = resolve []
            ((("host".toList ++ '/' :: name).takeWhile (!endsPath ·)).splitOnP isSeparator) :=
      parsePath_slash _
    _ = resolve [] ["host".toList, name] := by rw [whole, split]

end HostPaths

section GetPages

variable {fed : Federation} {url : Url} {params : List Text}

theorem asked_machine (fed : Federation) (method : Method) (url : Url)
    : Machine (fed.asked method url).headers :=
  headers_machine _ _ _

theorem asked_headers (method : Method) (ours : url.authority = fed.client.base.authority)
    : (fed.asked method url).headers = fed.headers := by
  rw [Federation.headers, ← ours]
  rfl

/-- The node lets the hub in: the hub's token is verified, or ignored where there is no login. -/
def Federation.Admits (fed : Federation) : Prop :=
  fed.standing = .verified ∨ fed.standing = .ignored ∧ fed.node.auth = none

/-- A page that the hub is led to is served, once the host check and the login admit the request;
a GET needs no token of htmx.
-/
theorem serve_page (url : Url) {handler : Handler} (response : Response)
    (ours : url.authority = fed.client.base.authority)
    (allowed : hostAllowed fed.headers fed.node.allowedHosts = true)
    (admitted
      : fed.standing = .verified
        ∨ fed.standing = .ignored ∧ (fed.node.auth = none ∨ IsPublic (fed.asked .get url).path))
    (routed : RoutedTo .get (fed.asked .get url).path handler params)
    (unguarded : handler.isLifecycle = false)
    (accepts : ∀ passed, fed.platform.rejection handler passed = none)
    (answers
      : ∀ passed,
          passed.headers = fed.headers
          → respond fed.platform fed.pages fed.node { handler, params, request := passed }
            = some (response, fed.node))
    : ∃ ran,
        serve fed.platform fed.pages fed.node (fed.asked .get url)
        = some { before := fed.node, ran := some ran, response, after := fed.node } := by
  have machine : Machine (fed.asked .get url).headers := asked_machine _ _ _
  have headers := asked_headers .get ours
  have passes : ∃ passed, Passes fed.platform fed.node (fed.asked .get url) passed := by
    rcases admitted with verified | ⟨ignored, session⟩
    · exact ⟨_, .verified (by rw [headers]; exact verified)⟩
    · exact ⟨_, .ignored (by rw [headers]; exact ignored) session⟩
  obtain ⟨passed, passes⟩ := passes
  have runs : fed.platform.dispatch fed.node (fed.asked .get url)
      = .ok { handler, params, request := passed } := by
    apply machine.dispatch_ok_iff.mpr
    rw [headers]
    refine ⟨allowed, passes, routed, ?_, accepts passed⟩
    intro lifecycle
    cases unguarded.symm.trans lifecycle
  refine ⟨{ handler, params, request := passed }, ?_⟩
  rw [serve, runs]
  simp only [answers passed (passes.same.2.2.trans headers), Option.map_some]

/-- The login page, or where it leads if there is no login. The login route is open, so the
session is not asked for.
-/
theorem serve_login (ours : url.authority = fed.client.base.authority)
    (allowed : hostAllowed fed.headers fed.node.allowedHosts = true)
    (unrefused : fed.standing = .verified ∨ fed.standing = .ignored)
    : ∃ ran response,
        serve fed.platform fed.pages fed.node (fed.asked .get (url.withPath "/login".toList))
          = some { before := fed.node, ran := some ran, response, after := fed.node }
        ∧ (fed.node.auth = none → response = .redirect "/".toList)
        ∧ (fed.node.auth ≠ none → response = .ok (.loginShell false)) := by
  have ours : (url.withPath "/login".toList).authority = fed.client.base.authority := ours
  have routed
      : RoutedTo .get (fed.asked .get (url.withPath "/login".toList)).path .loginPage [] :=
    ⟨_, _, rfl, rfl, rfl⟩
  have admitted
      : fed.standing = .verified
        ∨ fed.standing = .ignored
          ∧ (fed.node.auth = none
            ∨ IsPublic (fed.asked .get (url.withPath "/login".toList)).path) :=
    unrefused.imp_right (fun ignored => ⟨ignored, Or.inr (Or.inl rfl)⟩)
  cases configured : fed.node.auth with
  | none =>
      obtain ⟨ran, serves⟩ := serve_page _ (.redirect "/".toList) ours allowed admitted routed
        rfl (fun _ => rfl) (by
          intro passed _
          simp only [respond, AppState.loginPage, configured])
      exact ⟨ran, _, serves, fun _ => rfl, fun login => absurd rfl login⟩
  | some auth =>
      obtain ⟨ran, serves⟩ := serve_page _ (.ok (.loginShell false)) ours allowed admitted
        routed rfl (fun _ => rfl) (by
          intro passed same
          have machine : Machine passed.headers := same ▸ headers_machine _ _ _
          simp only [respond, AppState.loginPage, configured, machine.notAuthenticated auth,
            Bool.false_eq_true, if_false])
      refine ⟨ran, _, serves, ?_, fun _ => rfl⟩
      intro missing
      cases missing

/-- The home page. -/
theorem serve_home (ours : url.authority = fed.client.base.authority)
    (allowed : hostAllowed fed.headers fed.node.allowedHosts = true) (admitted : fed.Admits)
    (home : (fed.asked .get url).path = "/".toList)
    : ∃ ran,
        serve fed.platform fed.pages fed.node (fed.asked .get url)
        = some {
            before := fed.node
            ran := some ran
            response := fed.node.hostIndex
            after := fed.node } := by
  have routed : RoutedTo .get (fed.asked .get url).path .hostIndex [] := by
    rw [home]
    exact ⟨_, _, rfl, rfl, rfl⟩
  exact serve_page url fed.node.hostIndex ours allowed
    (admitted.imp_right (And.imp_right Or.inl)) routed rfl
    (fun _ => rfl) (fun _ _ => rfl)

/-- The page of a host whose name is plain: the segment is matched and decodes to the name, under
which the node knows a runtime.
-/
theorem serve_dashboard (only : Text) (ours : url.authority = fed.client.base.authority)
    (allowed : hostAllowed fed.headers fed.node.allowedHosts = true) (admitted : fed.Admits)
    (member : only ∈ fed.node.hostOrder) (plain : isPlain only = true)
    : ∃ ran,
        serve fed.platform fed.pages fed.node
          (fed.asked .get (url.withPath ("/host/".toList ++ only)))
        = some {
            before := fed.node
            ran := some ran
            response := .ok (.dashboard only)
            after := fed.node } := by
  obtain ⟨slug, known⟩ := fed.node.listed only member
  obtain ⟨rt, found⟩ := Option.isSome_iff_exists.mp known
  have allPlain : ∀ segment ∈ ["host".toList, only], isPlain segment = true := by
    intro segment inside
    rcases List.mem_pair.mp inside with rfl | rfl
    · decide
    · exact plain
  have kept : ∀ segment ∈ ["host".toList, only], isKept segment = true :=
    fun segment inside => (isPlain_iff.mp (allPlain segment inside)).2
  have path
      : (fed.asked .get (url.withPath ("/host/".toList ++ only))).path
        = '/' :: ['/'].intercalate (["host".toList, only].map pathSegment) := by
    change '/' :: ['/'].intercalate (parsePath ("/host/".toList ++ only)) = _
    rw [parsePath_host slug, resolve_kept [] kept]
    rfl
  have routed
      : RoutedTo .get (fed.asked .get (url.withPath ("/host/".toList ++ only))).path
          .dashboard [only] := by
    obtain ⟨c, rest, spelled⟩ := List.exists_cons_of_ne_nil (pathSegment_ne_nil (slug_chars slug).1)
    have decoded := decodeParam_pathSegment plain
    have segments := pathSegments_joined (List.cons_ne_nil _ _) allPlain
    simp only [List.map_cons, List.map_nil, spelled] at segments path
    rw [spelled] at decoded
    have route
        : ∃ route, findRoute (fed.asked .get (url.withPath ("/host/".toList ++ only))).path
            = some (route, [c :: rest])
          ∧ route.handler .get = some .dashboard := by
      rw [path, findRoute, segments]
      exact ⟨_, rfl, rfl⟩
    obtain ⟨route, routed, handles⟩ := route
    exact ⟨route, _, routed, handles, by simp [decoded]⟩
  apply serve_page (url.withPath ("/host/".toList ++ only)) (.ok (.dashboard only)) ours allowed
    (admitted.imp_right (And.imp_right Or.inl)) routed rfl
    (fun _ => rfl)
  intro passed _
  simp only [respond, AppState.dashboard, found]

/-- A path without a route is answered with 404, behind the same checks as any page. -/
theorem serve_unrouted (url : Url) (ours : url.authority = fed.client.base.authority)
    (allowed : hostAllowed fed.headers fed.node.allowedHosts = true) (admitted : fed.Admits)
    (unrouted : findRoute (fed.asked .get url).path = none)
    : serve fed.platform fed.pages fed.node (fed.asked .get url)
      = some {
          before := fed.node
          ran := none
          response := .plain 404 ""
          after := fed.node } := by
  have machine : Machine (fed.asked .get url).headers := asked_machine _ _ _
  have headers := asked_headers .get ours
  have passes : ∃ passed, Passes fed.platform fed.node (fed.asked .get url) passed := by
    rcases admitted with verified | ⟨ignored, noLogin⟩
    · exact ⟨_, .verified (by rw [headers]; exact verified)⟩
    · exact ⟨_, .ignored (by rw [headers]; exact ignored) (Or.inl noLogin)⟩
  obtain ⟨passed, passes⟩ := passes
  have runs : fed.platform.dispatch fed.node (fed.asked .get url) = .error (.plain 404 "") := by
    have checked : Platform.checkHost fed.node (fed.asked .get url) = .ok (fed.asked .get url) :=
      checkHost_ok_iff.mpr ⟨by rw [headers]; exact allowed, rfl⟩
    apply FallibleLists.bind_eq_error_iff.mpr
    refine Or.inr ⟨_, checked, ?_⟩
    apply FallibleLists.bind_eq_error_iff.mpr
    refine Or.inr ⟨passed, machine.requireAuth_ok_iff.mpr passes, ?_⟩
    rw [Platform.runRoute, passes.same.2.1, unrouted]
  rw [serve, runs]

end GetPages

section Endings

variable {fed : Federation}

/-- The hub takes an exchange for a success. -/
def Exchange.Succeeds (exchange : Exchange) : Prop :=
  ∃ response, exchange.last = .ok response ∧ 200 ≤ response.status ∧ response.status < 300

theorem succeeds_of_last {exchange : Exchange} {body : Body}
    (last : exchange.last = .ok (.ok body)) : exchange.Succeeds :=
  ⟨.ok body, last, Nat.le_refl 200, Nat.lt_add_of_pos_right (Nat.zero_lt_succ 99)⟩

/-- Where the home page is shown, an exchange that comes to it succeeds: with several hosts at
once, with one host after the redirect to its page.
-/
theorem home_succeeds {url : Url} (ours : url.authority = fed.client.base.authority)
    (allowed : hostAllowed fed.headers fed.node.allowedHosts = true) (admitted : fed.Admits)
    (home : (fed.asked .get url).path = "/".toList) (shown : fed.node.HomeShown) (redirects : ℕ)
    : (fed.exchange (redirects + 1) fed.node .get url).Succeeds := by
  obtain ⟨ran, serves⟩ := serve_home ours allowed admitted home
  by_cases single : ∃ only, fed.node.hostOrder = [only]
  · obtain ⟨only, order⟩ := single
    have index : fed.node.hostIndex = .redirect ("/host/".toList ++ only) := by
      rw [AppState.hostIndex, order]
    rw [index] at serves
    rw [exchange_redirect serves rfl]
    obtain ⟨ranHost, servesHost⟩ := serve_dashboard only ours allowed admitted
      (by simp [order]) (shown only order)
    rw [exchange_final servesHost rfl]
    exact succeeds_of_last rfl
  · have index : fed.node.hostIndex = .ok (.hostIndexPage fed.node.hostOrder) := by
      unfold AppState.hostIndex
      split
      next only order => exact absurd ⟨only, order⟩ single
      next => rfl
    rw [index] at serves
    rw [exchange_final serves rfl]
    exact succeeds_of_last rfl

/-- Where the only host's name is a dot segment, an exchange that comes to the home page ends
with 404 or goes round until it has spent its redirects: one dot leads to an unrouted path, two
dots lead home again.
-/
theorem home_fails {url : Url} (ours : url.authority = fed.client.base.authority)
    (allowed : hostAllowed fed.headers fed.node.allowedHosts = true) (admitted : fed.Admits)
    (home : (fed.asked .get url).path = "/".toList) (hidden : ¬ fed.node.HomeShown)
    (redirects : ℕ)
    : ¬ (fed.exchange redirects fed.node .get url).Succeeds := by
  obtain ⟨only, order, dots⟩ : ∃ only, fed.node.hostOrder = [only] ∧ isPlain only ≠ true := by
    simpa [AppState.HomeShown] using hidden
  obtain ⟨slug, _⟩ := fed.node.listed only (by simp [order])
  have index : fed.node.hostIndex = .redirect ("/host/".toList ++ only) := by
    rw [AppState.hostIndex, order]
  rw [ne_eq, isPlain_slug_iff slug] at dots
  induction redirects generalizing url with
  | zero =>
      obtain ⟨ran, serves⟩ := serve_home ours allowed admitted home
      rw [index] at serves
      rw [exchange_exhausted serves rfl]
      intro h
      obtain ⟨_, last, _⟩ := h
      cases last
  | succ redirects ih =>
      obtain ⟨ran, serves⟩ := serve_home ours allowed admitted home
      rw [index] at serves
      rw [exchange_redirect serves rfl]
      change ¬ (fed.exchange redirects fed.node .get _).Succeeds
      cases double : isDoubleDot only with
      | true =>
          have next
              : (url.withPath ("/host/".toList ++ only)).authority
                = fed.client.base.authority :=
            ours
          apply ih next
          change '/' :: ['/'].intercalate (parsePath ("/host/".toList ++ only)) = _
          rw [parsePath_host slug]
          simp only [resolve, double]
          rfl
      | false =>
          have single : isSingleDot only = true := by simpa [double] using dots
          have path
              : (fed.asked .get (url.withPath ("/host/".toList ++ only))).path
                = "/host/".toList := by
            change '/' :: ['/'].intercalate (parsePath ("/host/".toList ++ only)) = _
            rw [parsePath_host slug]
            simp only [resolve, double, single]
            rfl
          have unanswered := serve_unrouted (url.withPath ("/host/".toList ++ only)) ours
            allowed admitted (by rw [path]; rfl)
          rw [exchange_final unanswered rfl]
          intro h
          obtain ⟨_, last, _, failed⟩ := h
          cases last
          simp [Response.plain] at failed

end Endings

end DockDoe
