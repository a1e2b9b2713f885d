import DockDoe.Correctness.AccessControl
import DockDoe.Correctness.Logins
import DockDoe.Model.LoginSystem

/-! A login lasts until it is ended or expires, whatever happens to the server in between. -/

namespace DockDoe

open Cuts

section SetCookies

variable (hmac : Hmac) (auth : Auth)

/-- A text that a header carries is one that can be put into it: its bytes are no control
characters.
-/
theorem toHeaderValue_printable {s : Text} (printable : ∀ c ∈ s, isPrintable c = true)
    : toHeaderValue s = some (asBytes s) := by
  have ascii (c : Char) (member : c ∈ s) : c.toNat < 128 := by
    have bounds := isPrintable_iff.mp (printable c member)
    omega
  have valid : (asBytes s).all (fun b => (32 ≤ b && b != 127) || b == 9) = true := by
    rw [asBytes_ascii ascii, List.all_map, List.all_eq_true]
    intro c member
    have bounds := isPrintable_iff.mp (printable c member)
    have byte := toNat_byte (printable c member)
    have notDelete : UInt8.ofNat c.toNat ≠ 127 := by
      intro same
      rw [same] at byte
      exact absurd byte.symm bounds.2.ne
    simp [UInt8.le_iff_toNat_le, byte, bounds.1, notDelete]
  rw [toHeaderValue, if_pos valid]

/-- A cookie ends at once. -/
def isDropped (setCookie : Text) : Bool :=
  (setCookie.splitOn ';').any (fun part => trim part = "Max-Age=0".toList)

/-- A cookie that can be read is kept or dropped. -/
theorem keepCookie_printable (jar : Option Text) {setCookie : Text}
    (printable : ∀ c ∈ setCookie, isPrintable c = true)
    : keepCookie jar (toHeaderValue setCookie)
      = if isDropped setCookie then none else some (setPair setCookie) := by
  rw [keepCookie, toHeaderValue_printable printable, Option.bind_some, toStr_asBytes printable]
  rfl

/-- Of a login only the flag for HTTPS stands in the attributes. -/
def flagged (secureCookie : Bool) : Auth where
  user := []
  password := []
  secret := []
  secureCookie := secureCookie

theorem cookieAttributes_flagged (maxAge : ℕ)
    : auth.cookieAttributes maxAge = (flagged auth.secureCookie).cookieAttributes maxAge := rfl

/-- The attributes of a session's cookie can be read and do not drop it, with the flag for HTTPS
and without.
-/
theorem cookieAttributes_lasting
    : ∃ rest,
        auth.cookieAttributes sessionTtl = ';' :: rest
        ∧ (∀ c ∈ rest, isPrintable c = true)
        ∧ isDropped rest = false := by
  have closed (secure : Bool)
      : let attributes := (flagged secure).cookieAttributes sessionTtl
        attributes.head? = some ';'
        ∧ attributes.tail.all isPrintable = true
        ∧ isDropped attributes.tail = false := by
    revert secure
    decide +kernel
  obtain ⟨starts, printable, lasting⟩ := closed auth.secureCookie
  rw [cookieAttributes_flagged]
  exact ⟨_, List.eq_cons_of_mem_head? starts, List.all_eq_true.mp printable, lasting⟩

/-- A login's cookie is kept: all of it can be read, and neither its pair nor an attribute drops
it.
-/
theorem keepCookie_issueCookie (jar : Option Text) (n : ℕ)
    : keepCookie jar (toHeaderValue (auth.issueCookie hmac n))
      = some (setPair (auth.issueCookie hmac n)) := by
  obtain ⟨rest, attributes, printable, lasting⟩ := cookieAttributes_lasting auth
  have whole
      : auth.issueCookie hmac n
        = ownPair hmac auth ((n + sessionTtl) % 2 ^ 64) ++ ';' :: rest := by
    rw [Auth.issueCookie, Auth.cookie, attributes, ownPair]
  have header : ∀ c ∈ auth.issueCookie hmac n, isPrintable c = true := by
    intro c member
    rw [whole, List.mem_append, List.mem_cons] at member
    rcases member with inPair | separator | inRest
    · exact (ownPair_clean hmac auth inPair).1
    · rw [separator]
      rfl
    · exact printable c inRest
  have notPair
      : trim (ownPair hmac auth ((n + sessionTtl) % 2 ^ 64)) ≠ "Max-Age=0".toList := by
    rw [trim_of_clean (fun c member => (ownPair_clean hmac auth member).2.1)]
    intro same
    cases congrArg List.head? same
  have kept : isDropped (auth.issueCookie hmac n) = false := by
    rw [isDropped, whole, List.splitOn_append_cons_self_of_not_mem
      (fun member => (ownPair_clean hmac auth member).2.2 rfl), List.any_cons,
      decide_eq_false notPair, Bool.false_or]
    exact lasting
  rw [keepCookie_printable jar header, kept]
  rfl

/-- A logout's cookie drops the one that was kept, as it lives no second. -/
theorem keepCookie_clearCookie (jar : Option Text)
    : keepCookie jar (toHeaderValue auth.clearCookie) = none := by
  have closed (secure : Bool)
      : (flagged secure).clearCookie.all isPrintable = true
        ∧ isDropped (flagged secure).clearCookie = true := by
    revert secure
    decide +kernel
  obtain ⟨printable, dropped⟩ := closed auth.secureCookie
  have same : auth.clearCookie = (flagged auth.secureCookie).clearCookie := rfl
  rw [same, keepCookie_printable jar (List.all_eq_true.mp printable), dropped, if_pos rfl]

/-- Logins with one secret set one pair. -/
theorem setPair_issueCookie_congr {auth other : Auth} (same : auth.secret = other.secret) (n : ℕ)
    : setPair (auth.issueCookie hmac n) = setPair (other.issueCookie hmac n) := by
  rw [setPair_issueCookie, setPair_issueCookie, ownPair, ownPair, Auth.sign, Auth.sign, same]

end SetCookies

section Starts

variable {ε : Type} {cfg : AppConfig} {access : SecretAccess ε} {fresh secret : List UInt8}
  {row next : Option (List UInt8)}

/-- A secret that is stored stays. -/
theorem sessionSecret_stays
    : (sessionSecret access fresh (some secret)).2 = some secret := by
  rw [sessionSecret]
  cases access.read with
  | error cause => rfl
  | ok _ => rfl

/-- A secret that is used is stored, by the cases of the read, of the row and of the write. -/
theorem sessionSecret_stored (found : (sessionSecret access fresh row).1 = .ok secret)
    : (sessionSecret access fresh row).2 = some secret := by
  unfold sessionSecret at found ⊢
  cases read : access.read with
  | error cause => simp [read] at found
  | ok _ =>
      cases row with
      | some stored => simpa [read] using found
      | none =>
          cases write : access.write with
          | error cause => simp [read, write] at found
          | ok _ => simpa [read, write] using found

theorem startAuth_stays {answer : Except (AuthError (Text × ε)) (Option Auth)}
    (built : startAuth cfg access fresh (some secret) = (answer, next))
    : next = some secret := by
  simp only [startAuth, Prod.mk.injEq] at built
  obtain ⟨_, rfl⟩ := built
  rw [sessionSecret_stays, ite_self]

/-- The secret of a login that is set up is stored. -/
theorem startAuth_stored {auth : Auth}
    (built : startAuth cfg access fresh row = (.ok (some auth), next))
    : next = some auth.secret := by
  simp only [startAuth, Prod.mk.injEq] at built
  obtain ⟨login, rfl⟩ := built
  obtain ⟨user, password, found⟩ := buildAuth_ok login
  simp only [user, password, Option.isSome_some, Bool.and_self, if_true]
  exact sessionSecret_stored found

end Starts

section Forms

variable {state : AppState} {auth : Auth} {platform : Platform} {form : LoginForm}

/-- The right credentials are answered with a session's cookie. -/
theorem loginSubmit_valid (configured : state.auth = some auth)
    (valid : auth.credentialsValid platform.hmac form.username form.password = true)
    : state.loginSubmit platform form
      = (.redirect "/".toList,
          toHeaderValue (auth.issueCookie platform.hmac platform.nowUnix)) := by
  simp only [AppState.loginSubmit, configured, valid, if_true]

theorem submitted_valid (configured : state.auth = some auth)
    (valid : auth.credentialsValid platform.hmac form.username form.password = true)
    : state.submitted platform form = .loggedIn platform.nowUnix := by
  simp only [AppState.submitted, configured, Option.any_some, valid, if_true]

/-- Any other form is answered without a cookie, with a login and without one. -/
theorem loginSubmit_invalid
    (invalid
      : state.auth.any (·.credentialsValid platform.hmac form.username form.password) = false)
    : (state.loginSubmit platform form).2 = none
      ∧ state.submitted platform form = .other := by
  unfold AppState.loginSubmit AppState.submitted
  rw [invalid]
  cases configured : state.auth with
  | none => exact ⟨rfl, rfl⟩
  | some auth =>
      rw [configured, Option.any_some] at invalid
      simp only [invalid, Bool.false_eq_true, if_false, and_self]

end Forms

section Guards

variable {state : AppState} {auth : Auth} {platform : Platform} {req : Request}

/-- Without a token in the request the guard goes by the session, whatever is configured. -/
theorem requireAuth_noToken (noToken : bearerToken req.headers = none)
    : platform.requireAuth state req = platform.requireSession state req := by
  apply requireAuth_ignored
  unfold tokenStanding
  rw [noToken]
  cases state.apiToken with
  | none => rfl
  | some expected => rfl

/-- A request without a session is sent to the form, by its status or for htmx by a header. -/
theorem requireSession_refused (configured : state.auth = some auth)
    (notPublic : ¬ IsPublic req.path)
    (unauthenticated
      : requestIsAuthenticated platform.hmac auth req.headers platform.nowUnix = false)
    : ∃ answer,
        platform.requireSession state req = .error answer
        ∧ (answer.location = some "/login".toList
          ∨ answer.hxRedirect = some "/login".toList) := by
  unfold IsPublic at notPublic
  simp only [Platform.requireSession, configured, if_neg notPublic, unauthenticated,
    Bool.false_eq_true, if_false]
  split
  next => exact ⟨_, rfl, Or.inr rfl⟩
  next => exact ⟨_, rfl, Or.inl rfl⟩

end Guards

section SentCookies

/-- A character for each byte. -/
def characters (value : HeaderValue) : Text :=
  value.map (fun b => Char.ofNat b.toNat)

/-- The cookies that a browser sends around a session's pair: any bytes but semicolons, and no
earlier one has the session's name.
-/
structure SentCookies where
  before : List HeaderValue
  after : List HeaderValue
  separated : ∀ cookie ∈ before ++ after, ';' ∉ characters cookie
  first : ∀ cookie ∈ before, pairName (characters cookie) ≠ some cookieName

/-- The cookies, joined with the session's own pair. -/
def SentCookies.header (cookies : SentCookies) (own : Text) : HeaderValue :=
  (asBytes "; ".toList).intercalate (cookies.before ++ asBytes own :: cookies.after)

/-- The requests of a browser with the pair that it keeps: between other cookies, or there are
only others.
-/
def SendsJar (jar : Option Text) (headers : HeaderMap) : Prop :=
  match jar with
  | some own =>
      ∃ cookies : SentCookies, headers.get "cookie".toList = some (cookies.header own)
  | none =>
      ∀ cookies,
        (headers.get "cookie".toList).bind toStr = some cookies
        → ∀ pair ∈ cookies.splitOn ';', pairName pair ≠ some cookieName

/-- The cookies of a request, if any, are visible ASCII and tabs: `to_str` reads them. -/
def ReadableCookies (headers : HeaderMap) : Prop :=
  ∀ value, headers.get "cookie".toList = some value → (toStr value).isSome = true

/-- The text of a header that can be read has a character for each byte. -/
theorem toStr_eq_some {value : HeaderValue} {text : Text} (read : toStr value = some text)
    : text = characters value := by
  unfold toStr at read
  split at read
  · exact (Option.some.inj read).symm
  · cases read

/-- Mapping joined lists maps each of them and what joins them, by induction on the lists. -/
theorem map_intercalate {α β : Type} (f : α → β) (separator : List α) (lists : List (List α))
    : (separator.intercalate lists).map f
      = (separator.map f).intercalate (lists.map (List.map f)) := by
  induction lists with
  | nil => rfl
  | cons list rest ih =>
      cases rest with
      | nil => simp [List.intercalate_singleton]
      | cons next more =>
          rw [List.intercalate_cons_cons, List.map_append, List.map_append, ih]
          exact List.intercalate_cons_cons.symm

variable (hmac : Hmac) (auth : Auth)

/-- What is read of cookies around a pair that is printed is the pair's value. Witness: the text
is joined from those of the cookies, and from the pair as it was.
-/
theorem SentCookies.cookieValue (cookies : SentCookies) {own token text : Text}
    (clean : ∀ c ∈ own, isPrintable c = true ∧ c ≠ ';')
    (isOwn : pairValue cookieName (trim own) = some token)
    (read : toStr (cookies.header own) = some text)
    : DockDoe.cookieValue text cookieName = some token := by
  have ownText : characters (asBytes own) = own :=
    (toStr_eq_some (toStr_asBytes (fun c member => (clean c member).1))).symm
  have separator : characters (asBytes "; ".toList) = "; ".toList := by
    decide
  have joined
      : text
        = "; ".toList.intercalate
            (cookies.before.map characters ++ own :: cookies.after.map characters) := by
    have mapped := map_intercalate (fun b : UInt8 => Char.ofNat b.toNat) (asBytes "; ".toList)
      (cookies.before ++ asBytes own :: cookies.after)
    rw [List.map_append, List.map_cons] at mapped
    rw [toStr_eq_some read, SentCookies.header]
    refine mapped.trans ?_
    change (characters _).intercalate (_ ++ characters _ :: _) = _
    rw [separator, ownText]
    rfl
  rw [joined]
  refine cookieValue_intercalate ?_ ?_ isOwn
  · intro pair member
    rw [List.mem_append, List.mem_cons] at member
    rcases member with inBefore | same | inAfter
    · obtain ⟨cookie, isBefore, rfl⟩ := List.mem_map.mp inBefore
      exact cookies.separated cookie (List.mem_append_left _ isBefore)
    · rw [same]
      exact fun found => (clean _ found).2 rfl
    · obtain ⟨cookie, isAfter, rfl⟩ := List.mem_map.mp inAfter
      exact cookies.separated cookie (List.mem_append_right _ isAfter)
  · intro pair member
    obtain ⟨cookie, isBefore, rfl⟩ := List.mem_map.mp member
    exact cookies.first cookie isBefore

variable (hmac : Hmac) (auth : Auth)

/-- A request with a session's pair among any other cookies has that session until it expires, if
the cookies can be read at all. Witness: what is read is the pair's value, the signed expiry.
-/
theorem carries_sent {headers : HeaderMap} {n : ℕ} (fits : n + sessionTtl < 2 ^ 64)
    (cookies : SentCookies)
    (sent
      : headers.get "cookie".toList
        = some (cookies.header (setPair (auth.issueCookie hmac n))))
    (t : ℕ)
    : requestIsAuthenticated hmac auth headers t = true
      ↔ t < n + sessionTtl ∧ ReadableCookies headers := by
  rw [setPair_issueCookie, Nat.mod_eq_of_lt fits] at sent
  have readable
      : ReadableCookies headers
        ↔ (toStr (cookies.header (ownPair hmac auth (n + sessionTtl)))).isSome = true := by
    rw [ReadableCookies, sent]
    exact ⟨fun reads => reads _ rfl, fun read _ same => Option.some.inj same ▸ read⟩
  rw [readable, requestIsAuthenticated, sent, Option.bind_some]
  cases read : toStr (cookies.header (ownPair hmac auth (n + sessionTtl))) with
  | none => simp
  | some text =>
      have clean (c : Char) (member : c ∈ ownPair hmac auth (n + sessionTtl))
          : isPrintable c = true ∧ c ≠ ';' :=
        ⟨(ownPair_clean hmac auth member).1, (ownPair_clean hmac auth member).2.2⟩
      have value := cookies.cookieValue clean (pairValue_ownPair hmac auth _) read
      rw [Option.bind_some, value, Option.any_some, tokenValid_sign hmac auth fits]
      simp

end SentCookies

namespace LoginSystem

variable {hmac : Hmac} {system next : LoginSystem} {visits : List Visit} {visit : Visit}
  {login : Option ℕ}

/-- What a browser keeps of a login: its cookie, signed with the secret of the store. -/
def Keeps (hmac : Hmac) (system : LoginSystem) : Option ℕ → Prop
  | none => system.jar = none
  | some n =>
      n + sessionTtl < 2 ^ 64
      ∧ ∃ auth : Auth,
          system.secretRow = some auth.secret
          ∧ system.jar = some (setPair (auth.issueCookie hmac n))

/-- A login that is set up uses the secret of the store. -/
def UsesStored (system : LoginSystem) : Prop :=
  ∀ state auth,
    system.server = some state → state.auth = some auth → system.secretRow = some auth.secret

/-- What is kept does not depend on the server, nor on the store's row as long as a secret in it
stays.
-/
theorem Keeps.mono (keeps : Keeps hmac system login) (jar : next.jar = system.jar)
    (stays : ∀ secret, system.secretRow = some secret → next.secretRow = some secret)
    : Keeps hmac next login := by
  cases login with
  | none => exact jar.trans keeps
  | some n =>
      obtain ⟨fits, auth, stored, kept⟩ := keeps
      exact ⟨fits, auth, stays _ stored, jar.trans kept⟩

/-- A form keeps what the jar says of the login: the right credentials set a new pair, and any
others none.
-/
theorem Keeps.submits {state : AppState} {platform : Platform} {form : LoginForm}
    (keeps : Keeps hmac system login) (uses : UsesStored system)
    (serving : system.server = some state) (own : platform.hmac = hmac)
    (clock : platform.nowUnix < 2 ^ 63)
    : Keeps hmac
        { system with jar := keepCookie system.jar (state.loginSubmit platform form).2 }
        (Visit.update login (state.submitted platform form)) := by
  cases right : state.auth.any (·.credentialsValid platform.hmac form.username form.password) with
  | false =>
      obtain ⟨noCookie, other⟩ := loginSubmit_invalid right
      rw [noCookie, other]
      exact keeps.mono rfl (fun _ stored => stored)
  | true =>
      obtain ⟨auth, configured, valid⟩ := (Option.any_eq_true _ _).mp right
      rw [loginSubmit_valid configured valid, submitted_valid configured valid]
      refine ⟨?_, auth, uses state auth serving configured, ?_⟩
      · rw [sessionTtl]
        omega
      · rw [own]
        exact keepCookie_issueCookie hmac auth system.jar platform.nowUnix

theorem Keeps.leaves {state : AppState} (keeps : Keeps hmac system login)
    : Keeps hmac { system with jar := keepCookie system.jar state.logout.2 }
        (Visit.update login state.left) := by
  unfold AppState.logout AppState.left
  cases state.auth with
  | none => exact keeps.mono rfl (fun _ stored => stored)
  | some auth => exact keepCookie_clearCookie auth system.jar

/-- No step loses a login or the secret that it is signed with, by its cases: a start uses the
stored secret, and only forms, logouts and the browser change the jar.
-/
theorem Step.keeps (taken : Step hmac system visit next) (uses : UsesStored system)
    (keeps : Keeps hmac system login)
    : UsesStored next ∧ Keeps hmac next (visit.update login) := by
  cases taken with
  | starts cfg access fresh down built =>
      refine ⟨?_, keeps.mono rfl ?_⟩
      · intro state auth serving configured
        cases serving
        rw [configured] at built
        exact startAuth_stored built
      · intro secret stored
        rw [stored] at built
        exact startAuth_stays built
  | fails cfg access fresh down refused =>
      refine ⟨?_, keeps.mono rfl ?_⟩
      · intro state auth serving
        cases down.symm.trans serving
      · intro secret stored
        rw [stored] at refused
        exact startAuth_stays refused
  | stops => exact ⟨nofun, keeps.mono rfl (fun _ stored => stored)⟩
  | works serving same =>
      refine ⟨?_, keeps.mono rfl (fun _ stored => stored)⟩
      intro state auth now configured
      cases now
      exact uses _ auth serving (same.symm.trans configured)
  | submits form serving own clock ran isLogin =>
      exact ⟨uses, keeps.submits uses serving own clock⟩
  | leaves serving own ran isLogout => exact ⟨uses, keeps.leaves⟩
  | forgets => exact ⟨uses, rfl⟩

/-- Over a run, by induction on its steps. -/
theorem Run.keeps (run : Run hmac system visits)
    : UsesStored system ∧ Keeps hmac system (lastLogin visits) := by
  induction run with
  | begin => exact ⟨nofun, rfl⟩
  | step run taken ih =>
      rw [lastLogin, List.foldl_concat]
      exact taken.keeps ih.1 ih.2

/-- The login that is not ended is also not too old. -/
def LoggedIn (visits : List Visit) (nowUnix : ℕ) : Prop :=
  ∃ n, lastLogin visits = some n ∧ nowUnix < n + sessionTtl

/-- A browser's requests have a session exactly when it is logged in and its cookies can be
read, by what its jar keeps after the run.
-/
theorem Run.authenticated_iff (run : Run hmac system visits) {state : AppState} {auth : Auth}
    (serving : system.server = some state) (configured : state.auth = some auth)
    {headers : HeaderMap} (sends : SendsJar system.jar headers) (nowUnix : ℕ)
    : requestIsAuthenticated hmac auth headers nowUnix = true
      ↔ LoggedIn visits nowUnix ∧ ReadableCookies headers := by
  obtain ⟨uses, keeps⟩ := run.keeps
  unfold LoggedIn
  cases login : lastLogin visits with
  | none =>
      rw [login] at keeps
      rw [show system.jar = none from keeps] at sends
      have unread
          : (((headers.get "cookie".toList).bind toStr).bind
              (fun cookies => cookieValue cookies cookieName)) = none := by
        rw [Option.bind_eq_none_iff]
        intro cookies received
        rw [cookieValue, List.findSome?_map, List.findSome?_eq_none_iff]
        intro pair member
        exact pairValue_eq_none_iff.mpr (sends cookies received pair member)
      rw [requestIsAuthenticated, unread]
      simp
  | some n =>
      rw [login] at keeps
      obtain ⟨fits, issuer, stored, kept⟩ := keeps
      have sameSecret : issuer.secret = auth.secret :=
        Option.some.inj (stored.symm.trans (uses state auth serving configured))
      rw [kept, setPair_issueCookie_congr hmac sameSecret] at sends
      obtain ⟨cookies, sent⟩ := sends
      rw [carries_sent hmac auth fits cookies sent nowUnix]
      simp

/-- While a browser is logged in its requests pass the guard and the form sends it home, if its
cookies can be read; else the guard sends its requests to the form, and the form is shown.
Witness: the jar keeps the last login's pair, signed with the secret that the store keeps, by
induction on the run.
-/
theorem logged_in_until {visits : List Visit} (run : Run hmac system visits) {state : AppState}
    {auth : Auth} (serving : system.server = some state) (configured : state.auth = some auth)
    {platform : Platform} (own : platform.hmac = hmac) {req : Request}
    (sends : SendsJar system.jar req.headers) (noToken : bearerToken req.headers = none)
    : (LoggedIn visits platform.nowUnix ∧ ReadableCookies req.headers
        → platform.requireAuth state req = .ok req
          ∧ state.loginPage platform req = .redirect "/".toList)
      ∧ (¬ (LoggedIn visits platform.nowUnix ∧ ReadableCookies req.headers)
        → (¬ IsPublic req.path
            → ∃ answer,
                platform.requireAuth state req = .error answer
                ∧ (answer.location = some "/login".toList
                  ∨ answer.hxRedirect = some "/login".toList))
          ∧ state.loginPage platform req = .ok (.loginShell false)) := by
  have session := run.authenticated_iff serving configured sends platform.nowUnix
  rw [← own] at session
  rw [requireAuth_noToken noToken]
  constructor
  · intro loggedIn
    have authenticated := session.mpr loggedIn
    refine ⟨requireSession_ok_iff.mpr ⟨?_, rfl⟩, ?_⟩
    · intro other same
      cases configured.symm.trans same
      exact Or.inr authenticated
    · simp only [AppState.loginPage, configured, authenticated, if_true]
  · intro loggedOut
    have unauthenticated
        : requestIsAuthenticated platform.hmac auth req.headers platform.nowUnix = false := by
      rw [Bool.eq_false_iff, Ne, session]
      exact loggedOut
    refine ⟨fun notPublic => requireSession_refused configured notPublic unauthenticated, ?_⟩
    simp only [AppState.loginPage, configured, unauthenticated, Bool.false_eq_true, if_false]

section Restart

/-- A configuration with a login. -/
def loginConfig (password : Text) : AppConfig where
  bind := []
  dbPath := []
  intervalSecs := 10
  rawRetentionSecs := 3600
  trendBucketSecs := 60
  trendRetentionSecs := 86400
  pruneIntervalSecs := 60
  allowedHosts := []
  appriseUrl := none
  notifyDelaySecs := 0
  authUser := some "admin".toList
  authPassword := some password
  cookieSecure := false
  apiToken := none
  log := []
  overview := { cpuScale := .sqrt, memScale := .log, memCap := 0 }
  hosts := []

/-- The login after the password has been changed. -/
def changedAuth : Auth where
  user := "admin".toList
  password := "other".toList
  secret := [1, 2, 3]
  secureCookie := false

def adminForm : LoginForm where
  username := "admin".toList
  password := "s3cret".toList

/-- A database that is read and written. -/
def openAccess : SecretAccess Unit where
  read := .ok ()
  write := .ok ()

/-- The system after a login at a start, step by step. -/
theorem run_login
    : Run sumTag
        {
          secretRow := some [1, 2, 3]
          server := some (guardedState (some adminAuth) none)
          jar := some (setPair (adminAuth.issueCookie sumTag 1000000))
        }
        [.other, .loggedIn 1000000] := by
  have built
      : startAuth (loginConfig "s3cret".toList) openAccess [1, 2, 3] none
        = (.ok (guardedState (some adminAuth) none).auth, some [1, 2, 3]) :=
    rfl
  have started := Run.step (Run.begin : Run sumTag initial []) (.starts _ _ _ rfl built)
  have asked
      : ∃ dispatched,
          acceptingPlatform.dispatch (guardedState (some adminAuth) none)
            (.incoming .post "/login".toList none
              [("host".toList, asBytes "node".toList), ("content-type".toList, [])])
            = .ok dispatched
          ∧ dispatched.handler = .loginSubmit :=
    ⟨_, rfl, rfl⟩
  obtain ⟨dispatched, ran, isLogin⟩ := asked
  have valid
      : adminAuth.credentialsValid acceptingPlatform.hmac adminForm.username adminForm.password
        = true :=
    beq_self_eq_true _
  have clock : acceptingPlatform.nowUnix < 2 ^ 63 := by
    norm_num [acceptingPlatform]
  have next := Run.step started (.submits adminForm rfl rfl clock ran isLogin)
  rw [loginSubmit_valid rfl valid, submitted_valid rfl valid, keepCookie_issueCookie] at next
  exact next

/-- The requests of the browser with one more cookie. -/
def besides (cookie : HeaderValue) : Request :=
  .incoming .get "/".toList none
    [("cookie".toList,
      (asBytes "; ".toList).intercalate
        [cookie, asBytes (setPair (adminAuth.issueCookie sumTag 1000000))])]

/-- A login outlasts a restart with another password, but another cookie with a byte that
`to_str` does not read hides it.
-/
theorem logged_in_until_restart
    : let later : Platform := { acceptingPlatform with nowUnix := 2000000 }
      let state := guardedState (some changedAuth) none
      later.requireAuth state (besides (asBytes "theme=dark".toList))
          = .ok (besides (asBytes "theme=dark".toList))
        ∧ ∃ answer,
            later.requireAuth state (besides [110, 61, 233]) = .error answer
            ∧ (answer.location = some "/login".toList
              ∨ answer.hxRedirect = some "/login".toList) := by
  intro later state
  have built
      : startAuth (loginConfig "other".toList) openAccess [4, 5, 6] (some [1, 2, 3])
        = (.ok state.auth, some [1, 2, 3]) :=
    rfl
  have restarted := Run.step (Run.step run_login .stops) (.starts _ _ _ rfl built)
  have loggedIn
      : LoggedIn ([.other, .loggedIn 1000000] ++ [.other] ++ [.other]) later.nowUnix :=
    ⟨1000000, rfl, by norm_num [later, sessionTtl]⟩
  have sends (cookie : HeaderValue) (separated : ';' ∉ characters cookie)
      (other : pairName (characters cookie) ≠ some cookieName)
      : SendsJar (some (setPair (adminAuth.issueCookie sumTag 1000000)))
          (besides cookie).headers := by
    refine ⟨{ before := [cookie], after := [], separated := ?_, first := ?_ }, rfl⟩
    · simpa using separated
    · simpa using other
  constructor
  · have read : ReadableCookies (besides (asBytes "theme=dark".toList)).headers := by
      rintro _ ⟨⟩
      decide +kernel
    have other := sends (asBytes "theme=dark".toList) (by decide) (by decide)
    exact ((logged_in_until restarted rfl rfl rfl other rfl).1 ⟨loggedIn, read⟩).1
  · have unread : ¬ ReadableCookies (besides [110, 61, 233]).headers := by
      intro read
      exact absurd (read _ rfl) (by decide +kernel)
    have other := sends [110, 61, 233] (by decide) (by decide)
    have notPublic : ¬ IsPublic (besides [110, 61, 233]).path := by
      unfold IsPublic
      decide
    exact ((logged_in_until restarted rfl rfl rfl other rfl).2 (fun both => unread both.2)).1
      notPublic

end Restart

end LoginSystem

end DockDoe
