import DockDoe.Foundations.Cuts
import DockDoe.Foundations.PercentCoding
import DockDoe.Model.Sessions
import DockDoe.Model.SqlValues

/-! When the login check is exact. The separator of the two credentials is a character that
both may contain, so one message can be divided in several ways.
-/

namespace DockDoe

/-- A built login has the configured credentials and the secret of the store, by the cases of
what is configured.
-/
theorem buildAuth_ok {ε : Type} {cfg : AppConfig} {sessionSecret : Except ε (List UInt8)}
    {auth : Auth} (built : buildAuth cfg sessionSecret = .ok (some auth))
    : cfg.authUser = some auth.user
      ∧ cfg.authPassword = some auth.password
      ∧ sessionSecret = .ok auth.secret := by
  unfold buildAuth at built
  cases user : cfg.authUser with
  | none => cases password : cfg.authPassword <;> simp [user, password] at built
  | some name =>
      cases password : cfg.authPassword with
      | none => simp [user, password] at built
      | some word =>
          cases secret : sessionSecret with
          | error cause => simp [user, password, secret] at built
          | ok bytes =>
              simp only [user, password, secret, Except.ok.injEq, Option.some.injEq] at built
              subst built
              exact ⟨rfl, rfl, rfl⟩

/-- The text that is fed to the tag: both credentials around the separator. -/
theorem feedCredentials_eq (user password : Text)
    : feedCredentials user password = asBytes (user ++ '\x00' :: password) := by
  simp [feedCredentials, asBytes, String.utf8EncodeChar]

theorem asBytes_injective {s other : Text} (same : asBytes s = asBytes other) : s = other :=
  PercentCoding.utf8_injective same

/-- The second pair of credentials is the first one, divided at a separator that lies further
on: its user continues, over the separator, with the start of the first password.
-/
def Redivided (user password otherUser otherPassword : Text) : Prop :=
  ∃ middle,
    otherUser = user ++ '\x00' :: middle
    ∧ password = middle ++ '\x00' :: otherPassword

/-- Two pairs of credentials give one message exactly when they are the same or one divides the
other's at another separator, as two divisions of one list at one element do.
-/
theorem feedCredentials_eq_iff {user password otherUser otherPassword : Text}
    : feedCredentials user password = feedCredentials otherUser otherPassword
      ↔ (user = otherUser ∧ password = otherPassword)
        ∨ Redivided user password otherUser otherPassword
        ∨ Redivided otherUser otherPassword user password := by
  rw [feedCredentials_eq, feedCredentials_eq]
  constructor
  · intro same
    exact Cuts.divisions_iff.mp (asBytes_injective same)
  · intro divisions
    rw [Cuts.divisions_iff.mpr divisions]

/-- A pair of credentials is not a redivision of itself. -/
theorem not_redivided_self {user password otherPassword : Text}
    : ¬ Redivided user password user otherPassword := by
  intro redivided
  obtain ⟨middle, longer, _⟩ := redivided
  simpa using congrArg List.length longer

/-- A message can be redivided only at a separator in one of the credentials. -/
theorem separator_of_redivided {user password otherUser otherPassword : Text}
    (redivided : Redivided user password otherUser otherPassword)
    : '\x00' ∈ password ∧ '\x00' ∈ otherUser := by
  obtain ⟨middle, rfl, rfl⟩ := redivided
  simp

/-- A pair without separators has no redivision. -/
theorem not_redivided_of_separate {user password otherUser otherPassword : Text}
    (separate : '\x00' ∉ user ∧ '\x00' ∉ password)
    : ¬ Redivided user password otherUser otherPassword
      ∧ ¬ Redivided otherUser otherPassword user password :=
  ⟨fun redivided => separate.2 (separator_of_redivided redivided).1,
    fun redivided => separate.1 (separator_of_redivided redivided).2⟩

section Logins

variable {ε : Type} {hmac : Hmac} {cfg : AppConfig} {sessionSecret : Except ε (List UInt8)}
  {auth : Auth} (built : buildAuth cfg sessionSecret = .ok (some auth))
  (noCollision
    : ∀ user password,
        hmac auth.secret (feedCredentials user password)
          = hmac auth.secret (feedCredentials auth.user auth.password)
        → feedCredentials user password = feedCredentials auth.user auth.password)

include noCollision in
/-- Credentials are accepted exactly when they give the configured message, as different messages
have different tags.
-/
theorem Auth.credentialsValid_iff (user password : Text)
    : auth.credentialsValid hmac user password = true
      ↔ feedCredentials user password = feedCredentials auth.user auth.password := by
  unfold credentialsValid credentialTag
  rw [beq_iff_eq]
  constructor
  · exact noCollision user password
  · intro same
    rw [same]

/-- Submitted credentials that the check decides as it should: it accepts them exactly when
they are the configured ones.
-/
def Exact (hmac : Hmac) (cfg : AppConfig) (auth : Auth) (user password : Text) : Prop :=
  auth.credentialsValid hmac user password = true
  ↔ cfg.authUser = some user ∧ cfg.authPassword = some password

include built noCollision

/-- The check decides credentials as it should exactly when they do not divide the configured
message at another separator, nor it theirs: these are the only other pairs with that message.
-/
theorem exact_iff_not_redivided (user password : Text)
    : Exact hmac cfg auth user password
      ↔ ¬ Redivided auth.user auth.password user password
        ∧ ¬ Redivided user password auth.user auth.password := by
  obtain ⟨sameUser, samePassword, _⟩ := buildAuth_ok built
  rw [Exact, Auth.credentialsValid_iff noCollision, feedCredentials_eq_iff, sameUser,
    samePassword, Option.some_inj, Option.some_inj]
  constructor
  · intro exact
    constructor
    · intro redivided
      obtain ⟨rfl, rfl⟩ := exact.mp (.inr (.inr redivided))
      exact not_redivided_self redivided
    · intro redivided
      obtain ⟨rfl, rfl⟩ := exact.mp (.inr (.inl redivided))
      exact not_redivided_self redivided
  · intro undivided
    constructor
    · intro divisions
      rcases divisions with ⟨rfl, rfl⟩ | redivided | redivided
      · exact ⟨rfl, rfl⟩
      · exact (undivided.2 redivided).elim
      · exact (undivided.1 redivided).elim
    · intro same
      exact .inl ⟨same.1.symm, same.2.symm⟩

/-- The check is exact for all submitted credentials when no configured one has a separator, for
at one of its own the message could be divided anew.
-/
theorem separate_of_exact (exact : ∀ user password, Exact hmac cfg auth user password)
    : '\x00' ∉ auth.user ∧ '\x00' ∉ auth.password := by
  have undivided := fun user password =>
    (exact_iff_not_redivided built noCollision user password).mp (exact user password)
  constructor
  · intro occurs
    obtain ⟨before, middle, parts⟩ := List.append_of_mem occurs
    exact (undivided before (middle ++ '\x00' :: auth.password)).2 ⟨middle, parts, rfl⟩
  · intro occurs
    obtain ⟨middle, rest, parts⟩ := List.append_of_mem occurs
    exact (undivided (auth.user ++ '\x00' :: middle) rest).1 ⟨middle, rfl, parts⟩

/-- The login check is exact for a pair of submitted credentials unless they and the configured
ones divide one message at different separators, and for all of them exactly when neither
configured credential has a separator. Witness: equal tags mean equal messages, and a message
without further separators divides in one way.
-/
theorem exact_login_iff
    : (∀ user password,
        Exact hmac cfg auth user password
        ↔ ¬ Redivided auth.user auth.password user password
          ∧ ¬ Redivided user password auth.user auth.password)
      ∧ ((∀ user password, Exact hmac cfg auth user password)
        ↔ '\x00' ∉ auth.user ∧ '\x00' ∉ auth.password) := by
  refine ⟨exact_iff_not_redivided built noCollision, separate_of_exact built noCollision, ?_⟩
  intro separate user password
  exact (exact_iff_not_redivided built noCollision user password).mpr
    (not_redivided_of_separate separate)

end Logins

/-- A configuration file with a user `admin` and a password. -/
def loginStartup (escaped password : Text) : Startup where
  readToString _ :=
    .ok ("auth_user = \"admin\"\nauth_password = \"".toList ++ escaped ++ "\"\n".toList)
  fromToml _ := .ok { authUser := some "admin".toList, authPassword := some password }
  dockerHost := none

/-- The secret of a store. -/
def storedSecret : Except SqlError (List UInt8) :=
  .ok [1, 2, 3, 4, 5, 6, 7, 8]

/-- HMAC-SHA256 under that secret on the messages of two logins. -/
def knownTags : Hmac := fun _ message =>
  if message = feedCredentials "admin".toList "s3cret".toList then
    #v[23, 173, 217, 143, 205, 160, 120, 69, 134, 219, 208, 1, 110, 92, 223, 105, 238, 150, 11,
      238, 152, 38, 15, 49, 94, 59, 171, 232, 236, 111, 244, 27]
  else if message = feedCredentials "admin".toList "s3\x00cret".toList then
    #v[121, 58, 233, 1, 178, 153, 111, 56, 231, 148, 13, 103, 158, 126, 37, 246, 68, 109, 17,
      112, 129, 45, 244, 103, 31, 108, 59, 22, 115, 238, 35, 67]
  else
    Vector.replicate 32 0

/-- A known tag is that of one message, by comparing the two. -/
theorem knownTags_noCollision (key : List UInt8) {message : List UInt8}
    (known
      : message = feedCredentials "admin".toList "s3cret".toList
        ∨ message = feedCredentials "admin".toList "s3\x00cret".toList)
    : ∀ user password,
        knownTags key (feedCredentials user password) = knownTags key message
        → feedCredentials user password = message := by
  intro user password same
  unfold knownTags at same
  rcases known with rfl | rfl
  · split at same
    · assumption
    · split at same <;> exact absurd same (by decide)
  · split at same
    · exact absurd same (by decide)
    · split at same
      · assumption
      · exact absurd same (by decide)

/-- A login without a separator is exact, from loading the configuration on. -/
theorem exact_login_s3cret
    : ∃ cfg auth,
        (loginStartup "s3cret".toList "s3cret".toList).load (some "config.toml".toList) {}
          = .ok cfg
        ∧ buildAuth cfg storedSecret = .ok (some auth)
        ∧ ∀ user password, Exact knownTags cfg auth user password := by
  have start
      : ∃ cfg,
          (loginStartup "s3cret".toList "s3cret".toList).load (some "config.toml".toList) {}
            = .ok cfg
          ∧ cfg.authUser = some "admin".toList
          ∧ cfg.authPassword = some "s3cret".toList :=
    ⟨_, rfl, rfl, rfl⟩
  obtain ⟨cfg, loaded, user, password⟩ := start
  have built
      : buildAuth cfg storedSecret
        = .ok (some {
            user := "admin".toList
            password := "s3cret".toList
            secret := [1, 2, 3, 4, 5, 6, 7, 8]
            secureCookie := cfg.cookieSecure
          }) := by
    simp only [buildAuth, user, password, storedSecret]
  exact ⟨cfg, _, loaded, built,
    (exact_login_iff built (knownTags_noCollision _ (.inl rfl))).2.mpr (by simp)⟩

/-- A password with a separator can be divided there: its first half passes as a part of the
user.
-/
theorem redivided_login_accepted
    : ∃ cfg auth,
        (loginStartup "s3\\u0000cret".toList "s3\x00cret".toList).load
            (some "config.toml".toList) {}
          = .ok cfg
        ∧ buildAuth cfg storedSecret = .ok (some auth)
        ∧ (∀ user password,
            knownTags auth.secret (feedCredentials user password)
              = knownTags auth.secret (feedCredentials auth.user auth.password)
            → feedCredentials user password = feedCredentials auth.user auth.password)
        ∧ auth.credentialsValid knownTags "admin\x00s3".toList "cret".toList = true
        ∧ cfg.authUser ≠ some "admin\x00s3".toList
        ∧ cfg.authPassword ≠ some "cret".toList := by
  refine ⟨_, _, rfl, rfl, knownTags_noCollision _ (.inr rfl), ?_, ?_, ?_⟩
  · exact (Auth.credentialsValid_iff (knownTags_noCollision _ (.inr rfl)) _ _).mpr (by decide)
  · decide
  · decide

end DockDoe
