import DockDoe.Model.Config
import DockDoe.Model.Requests

/-! Credentials, signed session cookies and API tokens. -/

namespace DockDoe

open Cuts

/-- HMAC-SHA256, from a key and a message to a tag. -/
abbrev Hmac := List UInt8 → List UInt8 → Vector UInt8 32

/-- How long a session cookie stays valid, in seconds. -/
def sessionTtl : ℕ :=
  30 * 24 * 3600

def cookieName : Text :=
  "dockdoe_session".toList

/-- Two lower-case digits for every byte. -/
def encodeHex (bytes : List UInt8) : Text :=
  bytes.flatMap (fun b => [(b.toNat / 16).digitChar, (b.toNat % 16).digitChar])

/-- The bytes written as pairs of digits. -/
def decodePairs : Text → Option (List UInt8)
  | [] => some []
  | [_] => none
  | high :: low :: rest => do
      let byte ← fromStrRadix 256 16 [high, low]
      let bytes ← decodePairs rest
      pure (UInt8.ofNat byte :: bytes)

/-- The bytes of a text of an even length. It comes from a header, so every character of it
is a byte and no pair cuts one.
-/
def decodeHex (s : Text) : Option (List UInt8) :=
  if (asBytes s).length % 2 ≠ 0 then none else decodePairs s

/-- Credentials with a separator, so that their boundary counts. -/
def feedCredentials (user password : Text) : List UInt8 :=
  asBytes user ++ [0] ++ asBytes password

/-- The value of a pair with a name. -/
def pairValue (name kv : Text) : Option Text :=
  match cut ['='] kv with
  | none => none
  | some (k, v) => if k = name then some v else none

/-- The value of a name in a `Cookie` header. -/
def cookieValue (header name : Text) : Option Text :=
  ((header.splitOn ';').map trim).findSome? (pairValue name)

/-- Authentication state; present only when both credentials are configured. -/
structure Auth where
  user : Text
  password : Text
  secret : List UInt8
  secureCookie : Bool

namespace Auth

variable (hmac : Hmac) (auth : Auth)

def credentialTag (user password : Text) : Vector UInt8 32 :=
  hmac auth.secret (feedCredentials user password)

def credentialsValid (user password : Text) : Bool :=
  auth.credentialTag hmac user password == auth.credentialTag hmac auth.user auth.password

def sign (expiry : ℕ) : Text :=
  decimal expiry ++ '.' :: encodeHex (hmac auth.secret (asBytes (decimal expiry))).toList

def cookieAttributes (maxAge : ℕ) : Text :=
  "; HttpOnly; SameSite=Lax; Path=/; Max-Age=".toList ++ decimal maxAge
  ++ if auth.secureCookie then "; Secure".toList else []

def cookie (token : Text) (maxAge : ℕ) : Text :=
  cookieName ++ '=' :: token ++ auth.cookieAttributes maxAge

/-- The `Set-Cookie` value of a fresh session. -/
def issueCookie (nowUnix : ℕ) : Text :=
  let expiry := (nowUnix + sessionTtl) % 2 ^ 64
  auth.cookie (auth.sign hmac expiry) sessionTtl

/-- The `Set-Cookie` value that ends a session. -/
def clearCookie : Text :=
  auth.cookie [] 0

/-- Whether a token is correctly signed and still valid. -/
def tokenValid (token : Text) (nowUnix : ℕ) : Bool :=
  match cut ['.'] token with
  | none => false
  | some (expiryStr, sig) =>
      match parseU64 expiryStr with
      | none => false
      | some expiry =>
          if expiry ≤ nowUnix then
            false
          else
            match decodeHex sig with
            | none => false
            | some sigBytes => sigBytes == (hmac auth.secret (asBytes expiryStr)).toList

end Auth

/-- Why the web UI's login is not set up. -/
inductive AuthError (ε : Type)
  | context (message : Text) (cause : ε)
  | bail (message : Text)

/-- The optional login, from the credentials of the configuration and the secret of the
store.
-/
def buildAuth {ε : Type} (cfg : AppConfig) (sessionSecret : Except ε (List UInt8))
    : Except (AuthError ε) (Option Auth) :=
  match cfg.authUser, cfg.authPassword with
  | some user, some password =>
      match sessionSecret with
      | .error cause => .error (.context "loading session secret".toList cause)
      | .ok secret => .ok (some { user, password, secret, secureCookie := cfg.cookieSecure })
  | none, none => .ok none
  | _, _ =>
      .error (.bail
        ("set both DOCKDOE_AUTH_USER and DOCKDOE_AUTH_PASSWORD to enable authentication, "
          ++ "or neither").toList)

/-- A shared secret for machine clients. -/
structure ApiToken where
  token : Text

def ApiToken.tag (hmac : Hmac) (expected : ApiToken) (value : Text) : Vector UInt8 32 :=
  hmac (asBytes expected.token) (asBytes value)

def ApiToken.matches (hmac : Hmac) (expected : ApiToken) (presented : Text) : Bool :=
  expected.tag hmac presented == expected.tag hmac expected.token

/-- Whether a request carries a valid session cookie. -/
def requestIsAuthenticated (hmac : Hmac) (auth : Auth) (headers : HeaderMap) (nowUnix : ℕ)
    : Bool :=
  (((headers.get "cookie".toList).bind toStr).bind
    (fun cookies => cookieValue cookies cookieName)).any
    (fun token => auth.tokenValid hmac token nowUnix)

end DockDoe
