import DockDoe.Model.Handlers

/-! The login over the life of a server: the secret that the store keeps from one start to the
next, the form and the logout, and a browser that keeps the cookie it is given.
-/

namespace DockDoe

section Secrets

variable {ε : Type}

/-- How the database takes the read of the `meta` table and the write of a new row. -/
structure SecretAccess (ε : Type) where
  read : Except ε Unit
  write : Except ε Unit

/-- `session_secret`: the secret that is stored, or a fresh one that is stored then; and the row
afterwards.
-/
def sessionSecret (access : SecretAccess ε) (fresh : List UInt8) (row : Option (List UInt8))
    : Except (Text × ε) (List UInt8) × Option (List UInt8) :=
  match access.read with
  | .error cause => (.error ("reading session secret".toList, cause), row)
  | .ok () =>
      match row with
      | some secret => (.ok secret, row)
      | none =>
          match access.write with
          | .error cause => (.error ("storing session secret".toList, cause), row)
          | .ok () => (.ok fresh, some fresh)

/-- The login of a start, and the row afterwards. Without both credentials the store is not
asked for the secret.
-/
def startAuth (cfg : AppConfig) (access : SecretAccess ε) (fresh : List UInt8)
    (row : Option (List UInt8))
    : Except (AuthError (Text × ε)) (Option Auth) × Option (List UInt8) :=
  let (secret, asked) := sessionSecret access fresh row
  (buildAuth cfg secret,
    if cfg.authUser.isSome && cfg.authPassword.isSome then asked else row)

end Secrets

/-- The fields of a submitted form. -/
structure LoginForm where
  username : Text
  password : Text

namespace AppState

variable (state : AppState)

/-- `login_submit`, with the cookie that it sets. -/
def loginSubmit (platform : Platform) (form : LoginForm) : Response × Option HeaderValue :=
  match state.auth with
  | none => (.redirect "/".toList, none)
  | some auth =>
      if auth.credentialsValid platform.hmac form.username form.password then
        (.redirect "/".toList, toHeaderValue (auth.issueCookie platform.hmac platform.nowUnix))
      else
        ({ Response.ok (.loginShell true) with status := 401 }, none)

/-- `logout`, with the cookie that it sets. -/
def logout : Response × Option HeaderValue :=
  (DockDoe.logout, state.auth.bind (fun auth => toHeaderValue auth.clearCookie))

end AppState

/-- The session's pair that a browser keeps after a response, read over HTTPS if the cookie asks
for it. A cookie that lives no second is dropped.
-/
def keepCookie (jar : Option Text) (setCookie : Option HeaderValue) : Option Text :=
  match setCookie.bind toStr with
  | none => jar
  | some value =>
      if (value.splitOn ';').any (fun part => trim part = "Max-Age=0".toList) then
        none
      else
        some (value.takeWhile (· ≠ ';'))

/-- What a step is to the user of a browser. -/
inductive Visit
  | loggedIn (nowUnix : ℕ)
  | ended
  | other

/-- The time of the login after a visit, if there is one that lasts. -/
def Visit.update (login : Option ℕ) : Visit → Option ℕ
  | .loggedIn nowUnix => some nowUnix
  | .ended => none
  | .other => login

/-- The time of the last login, if it has not been ended since. -/
def lastLogin (visits : List Visit) : Option ℕ :=
  visits.foldl Visit.update none

/-- A login that is right is one; any other answer to the form is nothing to the session. -/
def AppState.submitted (state : AppState) (platform : Platform) (form : LoginForm) : Visit :=
  if state.auth.any (·.credentialsValid platform.hmac form.username form.password) then
    .loggedIn platform.nowUnix
  else
    .other

/-- Without a login there is nothing to end. -/
def AppState.left (state : AppState) : Visit :=
  if state.auth.isSome then .ended else .other

/-- The store's row of the secret, the server while it runs, and what a browser keeps. -/
structure LoginSystem where
  secretRow : Option (List UInt8)
  server : Option AppState
  jar : Option Text

namespace LoginSystem

/-- A new store, and a browser that has not been here. -/
def initial : LoginSystem where
  secretRow := none
  server := none
  jar := none

/-- A step. What other browsers ask for, and answers that get lost, change no more than
`works` says.
-/
inductive Step (hmac : Hmac) : LoginSystem → Visit → LoginSystem → Prop
  | starts {ε : Type} {system : LoginSystem} (cfg : AppConfig) (access : SecretAccess ε)
      (fresh : List UInt8) {row : Option (List UInt8)} {state : AppState}
      (down : system.server = none)
      (built : startAuth cfg access fresh system.secretRow = (.ok state.auth, row))
      : Step hmac system .other { system with secretRow := row, server := some state }
  | fails {ε : Type} {system : LoginSystem} (cfg : AppConfig) (access : SecretAccess ε)
      (fresh : List UInt8) {row : Option (List UInt8)} {cause : AuthError (Text × ε)}
      (down : system.server = none)
      (refused : startAuth cfg access fresh system.secretRow = (.error cause, row))
      : Step hmac system .other { system with secretRow := row }
  | stops {system : LoginSystem} : Step hmac system .other { system with server := none }
  | works {system : LoginSystem} {state next : AppState} (serving : system.server = some state)
      (same : next.auth = state.auth)
      : Step hmac system .other { system with server := some next }
  | submits {system : LoginSystem} {state : AppState} {platform : Platform} {req : Request}
      {dispatched : Dispatched} (form : LoginForm) (serving : system.server = some state)
      (own : platform.hmac = hmac)
      -- The seconds of a `SystemTime` are a signed 64-bit number.
      (clock : platform.nowUnix < 2 ^ 63)
      (ran : platform.dispatch state req = .ok dispatched)
      (isLogin : dispatched.handler = .loginSubmit)
      : Step hmac system (state.submitted platform form)
          { system with jar := keepCookie system.jar (state.loginSubmit platform form).2 }
  | leaves {system : LoginSystem} {state : AppState} {platform : Platform} {req : Request}
      {dispatched : Dispatched} (serving : system.server = some state)
      (own : platform.hmac = hmac)
      (ran : platform.dispatch state req = .ok dispatched)
      (isLogout : dispatched.handler = .logout)
      : Step hmac system state.left { system with jar := keepCookie system.jar state.logout.2 }
  | forgets {system : LoginSystem} : Step hmac system .ended { system with jar := none }

/-- A run from a new store, with what its steps are to the user. -/
inductive Run (hmac : Hmac) : LoginSystem → List Visit → Prop
  | begin : Run hmac initial []
  | step {system next : LoginSystem} {visits : List Visit} {visit : Visit}
      (run : Run hmac system visits) (taken : Step hmac system visit next)
      : Run hmac next (visits ++ [visit])

end LoginSystem

end DockDoe
