import DockDoe.Correctness.HeaderTexts
import DockDoe.Model.Sessions

/-! Session cookies are accepted until they expire, and nothing else is accepted. -/

namespace DockDoe

open Cuts

section Numbers

/-- A number is read without a sign. -/
theorem fromStrRadix_unsigned {bound radix n : ℕ} {c : Char} {rest : Text} (unsigned : c ≠ '+')
    (read : Numerals.number radix (c :: rest) = some n) (fits : n < bound)
    : fromStrRadix bound radix (c :: rest) = some n := by
  have digits : withoutSign (c :: rest) = c :: rest :=
    withoutSign_of_unsigned (fun same => unsigned (Option.some.inj same))
  simp [fromStrRadix, digits, read, fits]

theorem decimal_isDigit {n : ℕ} {c : Char} (member : c ∈ decimal n) : c.isDigit = true :=
  Nat.isDigit_of_mem_toDigits (by decide) (by decide) member

theorem isDigit_ne {c other : Char} (digit : c.isDigit = true) (notDigit : other.isDigit = false)
    : c ≠ other := by
  intro same
  rw [same, notDigit] at digit
  cases digit

/-- A number is parsed as it was printed: the first digit is no sign, and the value fits. -/
theorem parseU64_decimal {n : ℕ} (fits : n < 2 ^ 64) : parseU64 (decimal n) = some n := by
  obtain ⟨c, rest, digits⟩ := List.exists_cons_of_ne_nil (Nat.toDigits_ne_nil (n := n) (b := 10))
  have isDigit : c.isDigit = true := by
    apply decimal_isDigit (n := n)
    simp [decimal, digits]
  rw [parseU64, decimal, digits]
  apply fromStrRadix_unsigned (isDigit_ne isDigit rfl) _ fits
  rw [← digits]
  exact Numerals.number_toDigits (by decide) (by decide) n

end Numbers

section Hex

/-- Hexadecimal digits are decimal digits or one of six letters. All sixteen are looked at. -/
theorem digitChar_hex {d : ℕ} (digit : d < 16)
    : isPrintable d.digitChar = true
      ∧ isWhitespace d.digitChar = false
      ∧ d.digitChar ≠ ';'
      ∧ d.digitChar ≠ '+' := by
  have all
      : ∀ d < 16,
          isPrintable d.digitChar = true
          ∧ isWhitespace d.digitChar = false
          ∧ d.digitChar ≠ ';'
          ∧ d.digitChar ≠ '+' := by
    decide
  exact all d digit

theorem mem_encodeHex {bytes : List UInt8} {c : Char} (member : c ∈ encodeHex bytes)
    : ∃ d < 16, c = Nat.digitChar d := by
  obtain ⟨b, _, inPair⟩ := List.mem_flatMap.mp member
  have small : b.toNat < 256 := b.toNat_lt
  rcases List.mem_pair.mp inPair with high | low
  · exact ⟨b.toNat / 16, by omega, high⟩
  · exact ⟨b.toNat % 16, by omega, low⟩

/-- Pairs of digits are the bytes they were made of, by induction on the bytes. -/
theorem decodePairs_encodeHex (bytes : List UInt8)
    : decodePairs (encodeHex bytes) = some bytes := by
  induction bytes with
  | nil => rfl
  | cons b rest ih =>
      have small : b.toNat < 256 := b.toNat_lt
      have pair
          : fromStrRadix 256 16 [(b.toNat / 16).digitChar, (b.toNat % 16).digitChar]
            = some b.toNat :=
        fromStrRadix_unsigned (digitChar_hex (by omega)).2.2.2
          (Numerals.number_pair (by decide) small) small
      change decodePairs (_ :: _ :: encodeHex rest) = _
      simp [decodePairs, pair, ih]

theorem encodeHex_length (bytes : List UInt8) : (encodeHex bytes).length = 2 * bytes.length := by
  induction bytes with
  | nil => rfl
  | cons b rest ih =>
      change (encodeHex rest).length + 1 + 1 = 2 * (rest.length + 1)
      rw [ih]
      ring

/-- Bytes are decoded as they were encoded: the digits are ASCII and their number is even. -/
theorem decodeHex_encodeHex (bytes : List UInt8) : decodeHex (encodeHex bytes) = some bytes := by
  have ascii : ∀ c ∈ encodeHex bytes, c.toNat < 128 := by
    intro c member
    obtain ⟨d, digit, rfl⟩ := mem_encodeHex member
    have printable := isPrintable_iff.mp (digitChar_hex digit).1
    omega
  have even : (asBytes (encodeHex bytes)).length % 2 = 0 := by
    rw [asBytes_ascii ascii, List.length_map, encodeHex_length, Nat.mul_mod_right]
  rw [decodeHex, if_neg (not_not_intro even), decodePairs_encodeHex]

end Hex

section Tokens

variable (hmac : Hmac) (auth : Auth)

/-- A token that consists of an expiry after `t` and the signature of exactly that expiry. -/
def Signed (token : Text) (t : ℕ) : Prop :=
  ∃ expiryStr sig expiry,
    token = expiryStr ++ '.' :: sig
    ∧ '.' ∉ expiryStr
    ∧ parseU64 expiryStr = some expiry
    ∧ t < expiry
    ∧ (asBytes sig).length % 2 = 0
    ∧ decodeHex sig = some (hmac auth.secret (asBytes expiryStr)).toList

/-- A signed token is accepted until it expires: it is cut at its only dot, and both parts are
read back.
-/
theorem tokenValid_sign {expiry : ℕ} (fits : expiry < 2 ^ 64) (t : ℕ)
    : auth.tokenValid hmac (auth.sign hmac expiry) t = true ↔ t < expiry := by
  have noDot : '.' ∉ decimal expiry := by
    intro member
    exact isDigit_ne (decimal_isDigit member) rfl rfl
  have parts
      : cut ['.'] (auth.sign hmac expiry)
        = some (decimal expiry,
            encodeHex (hmac auth.secret (asBytes (decimal expiry))).toList) :=
    cut_append noDot _
  simp [Auth.tokenValid, parts, parseU64_decimal fits, decodeHex_encodeHex]

/-- An accepted token is a signed one, since each check that passes gives one part of it. -/
theorem signed_of_tokenValid {token : Text} {t : ℕ}
    (valid : auth.tokenValid hmac token t = true)
    : Signed hmac auth token t := by
  unfold Auth.tokenValid at valid
  split at valid
  · cases valid
  next expiryStr sig parts =>
    split at valid
    · cases valid
    next expiry parsed =>
      split at valid
      · cases valid
      next later =>
        split at valid
        · cases valid
        next sigBytes decoded =>
          obtain ⟨whole, noDot⟩ := eq_append_of_cut parts
          refine ⟨expiryStr, sig, expiry, whole, noDot, parsed, Nat.lt_of_not_le later, ?_, ?_⟩
          · by_contra odd
            rw [decodeHex, if_pos odd] at decoded
            cases decoded
          · rw [decoded, beq_iff_eq.mp valid]

end Tokens

section Headers

/-- The name of a pair in a `Cookie` header. -/
def pairName (pair : Text) : Option Text :=
  (cut ['='] (trim pair)).map Prod.fst

/-- The `name=value` pair of a `Set-Cookie` value. -/
def setPair (setCookie : Text) : Text :=
  setCookie.takeWhile (· ≠ ';')

/-- The pairs of a `Cookie` header around one that is the first session cookie of them. -/
structure CookiePairs where
  before : List Text
  after : List Text
  clean : ∀ pair ∈ before ++ after, ∀ c ∈ pair, isPrintable c = true ∧ c ≠ ';'
  first : ∀ pair ∈ before, pairName pair ≠ some cookieName

/-- The pairs, joined with the session's own. -/
def CookiePairs.header (pairs : CookiePairs) (own : Text) : Text :=
  "; ".toList.intercalate (pairs.before ++ own :: pairs.after)

/-- The value of the first pair of a `Cookie` header that is named like a session. -/
def FirstSession (cookies token : Text) : Prop :=
  ∃ before pair after,
    cookies.splitOn ';' = before ++ pair :: after
    ∧ (∀ earlier ∈ before, pairName earlier ≠ some cookieName)
    ∧ cut ['='] (trim pair) = some (cookieName, token)

theorem pairValue_eq_none_iff {pair : Text}
    : pairValue cookieName (trim pair) = none ↔ pairName pair ≠ some cookieName := by
  unfold pairValue pairName
  cases cut ['='] (trim pair) with
  | none => simp
  | some parts => simp

theorem pairValue_eq_some_iff {pair value : Text}
    : pairValue cookieName (trim pair) = some value
      ↔ cut ['='] (trim pair) = some (cookieName, value) := by
  unfold pairValue
  cases cut ['='] (trim pair) with
  | none => simp
  | some parts =>
      obtain ⟨name, actual⟩ := parts
      simp

/-- Joined pairs are split again, up to the spaces in front of them. By induction on the pairs,
none of which has a separator.
-/
theorem trim_splitOn_intercalate {pairs : List Text} (nonempty : pairs ≠ [])
    (clean : ∀ pair ∈ pairs, ';' ∉ pair)
    : (("; ".toList.intercalate pairs).splitOn ';').map trim = pairs.map trim := by
  induction pairs with
  | nil => exact absurd rfl nonempty
  | cons pair rest ih =>
      have noSeparator := clean pair List.mem_cons_self
      cases rest with
      | nil =>
          rw [List.intercalate_singleton, List.splitOn_eq_singleton noSeparator]
      | cons next more =>
          have later := ih (List.cons_ne_nil _ _)
            (fun other member => clean other (List.mem_cons_of_mem _ member))
          have joined
              : "; ".toList.intercalate (pair :: next :: more)
                = pair ++ ';' :: ' ' :: "; ".toList.intercalate (next :: more) := by
            rw [List.intercalate_cons_cons, List.append_assoc]
            rfl
          have space (s : Text) : ((' ' :: s).splitOn ';').map trim = (s.splitOn ';').map trim := by
            rw [List.splitOn_cons_eq_if_modifyHead, if_neg (by decide)]
            cases s.splitOn ';' with
            | nil => rfl
            | cons head tail =>
                rw [List.modifyHead_cons, List.map_cons, List.map_cons, trim_space]
          rw [joined, List.splitOn_append_cons_self_of_not_mem noSeparator, List.map_cons, space,
            later]
          exact List.map_cons.symm

/-- What is read of joined pairs is the value of the first session cookie: joining and splitting
leaves the trimmed pairs, and no earlier one has its name.
-/
theorem cookieValue_intercalate {before after : List Text} {own token : Text}
    (separated : ∀ pair ∈ before ++ own :: after, ';' ∉ pair)
    (first : ∀ pair ∈ before, pairName pair ≠ some cookieName)
    (isOwn : pairValue cookieName (trim own) = some token)
    : cookieValue ("; ".toList.intercalate (before ++ own :: after)) cookieName = some token := by
  rw [cookieValue, trim_splitOn_intercalate (by simp) separated, List.findSome?_map,
    List.findSome?_eq_some_iff]
  refine ⟨_, own, _, rfl, isOwn, ?_⟩
  intro pair member
  exact pairValue_eq_none_iff.mpr (first pair member)

/-- The pairs of a header are apart when the session's own is, as the others are. -/
theorem CookiePairs.separated (pairs : CookiePairs) {own : Text} (clean : ';' ∉ own)
    : ∀ pair ∈ pairs.before ++ own :: pairs.after, ';' ∉ pair := by
  intro pair member
  rw [List.mem_append, List.mem_cons] at member
  have other (inOthers : pair ∈ pairs.before ++ pairs.after) : ';' ∉ pair :=
    fun found => (pairs.clean pair inOthers _ found).2 rfl
  rcases member with inBefore | same | inAfter
  · exact other (List.mem_append_left _ inBefore)
  · exact same ▸ clean
  · exact other (List.mem_append_right _ inAfter)

/-- A value that is read is the first session cookie's. -/
theorem firstSession_of_cookieValue {cookies token : Text}
    (read : cookieValue cookies cookieName = some token)
    : FirstSession cookies token := by
  rw [cookieValue, List.findSome?_map, List.findSome?_eq_some_iff] at read
  obtain ⟨before, pair, after, split, isOwn, earlier⟩ := read
  refine ⟨before, pair, after, split, ?_, pairValue_eq_some_iff.mp isOwn⟩
  intro other member
  exact pairValue_eq_none_iff.mp (earlier other member)

end Headers

section Sessions

variable (hmac : Hmac) (auth : Auth)

/-- A character of a session's pair: printable, no white space and no end of the pair. -/
def isPairChar (c : Char) : Bool :=
  isPrintable c && !isWhitespace c && c ≠ ';'

theorem isPairChar_digit {c : Char} (digit : c.isDigit = true) : isPairChar c = true := by
  have all : ∀ n < 58, 48 ≤ n → isPairChar (Char.ofNat n) = true := by decide
  have bounds : 48 ≤ c.toNat ∧ c.toNat ≤ 57 := Char.isDigit_iff_toNat.mp digit
  have same := all c.toNat (by omega) bounds.1
  rwa [Char.ofNat_toNat] at same

theorem isPairChar_hex {d : ℕ} (digit : d < 16) : isPairChar d.digitChar = true := by
  obtain ⟨printable, visible, inside, _⟩ := digitChar_hex digit
  simp [isPairChar, printable, visible, inside]

theorem isPairChar_sign {expiry : ℕ} {c : Char} (member : c ∈ auth.sign hmac expiry)
    : isPairChar c = true := by
  rw [Auth.sign, List.mem_append, List.mem_cons] at member
  rcases member with inExpiry | dot | inTag
  · exact isPairChar_digit (decimal_isDigit inExpiry)
  · rw [dot]
    rfl
  · obtain ⟨d, digit, rfl⟩ := mem_encodeHex inTag
    exact isPairChar_hex digit

/-- The pair that a session's cookie sets. -/
def ownPair (expiry : ℕ) : Text :=
  cookieName ++ '=' :: auth.sign hmac expiry

theorem isPairChar_ownPair {expiry : ℕ}
    : ∀ c ∈ ownPair hmac auth expiry, isPairChar c = true := by
  have name : cookieName.all isPairChar = true := rfl
  intro c member
  rw [ownPair, List.mem_append, List.mem_cons] at member
  rcases member with inName | equals | inToken
  · exact List.all_eq_true.mp name c inName
  · rw [equals]
    rfl
  · exact isPairChar_sign hmac auth inToken

/-- A session's pair can stand between others, by what its characters are. -/
theorem ownPair_clean {expiry : ℕ} {c : Char} (member : c ∈ ownPair hmac auth expiry)
    : isPrintable c = true ∧ isWhitespace c = false ∧ c ≠ ';' := by
  have pairChar := isPairChar_ownPair hmac auth c member
  simpa [isPairChar, and_assoc] using pairChar

/-- The pair of a cookie that is issued ends where its attributes begin, as it has no separator
itself.
-/
theorem setPair_issueCookie (n : ℕ)
    : setPair (auth.issueCookie hmac n) = ownPair hmac auth ((n + sessionTtl) % 2 ^ 64) := by
  have own
      : ∀ c ∈ ownPair hmac auth ((n + sessionTtl) % 2 ^ 64), decide (c ≠ ';') = true :=
    fun c member => decide_eq_true (ownPair_clean hmac auth member).2.2
  have attributes : (auth.cookieAttributes sessionTtl).takeWhile (· ≠ ';') = [] := rfl
  rw [setPair, Auth.issueCookie, Auth.cookie, ← ownPair, List.takeWhile_append_of_pos own,
    attributes, List.append_nil]

/-- The pair of a session is read as its token. -/
theorem pairValue_ownPair (expiry : ℕ)
    : pairValue cookieName (trim (ownPair hmac auth expiry)) = some (auth.sign hmac expiry) := by
  have trimmed : trim (ownPair hmac auth expiry) = ownPair hmac auth expiry :=
    trim_of_clean (fun c member => (ownPair_clean hmac auth member).2.1)
  have noEquals : '=' ∉ cookieName := by decide
  rw [pairValue_eq_some_iff, trimmed]
  exact cut_append noEquals _

/-- Printable pairs are printable when they are joined, by induction on the pairs. -/
theorem printable_intercalate {pairs : List Text}
    (printable : ∀ pair ∈ pairs, ∀ c ∈ pair, isPrintable c = true)
    : ∀ c ∈ "; ".toList.intercalate pairs, isPrintable c = true := by
  induction pairs with
  | nil => simp [List.intercalate_nil]
  | cons pair rest ih =>
      have here := printable pair List.mem_cons_self
      cases rest with
      | nil => simpa [List.intercalate_singleton] using here
      | cons next more =>
          have later := ih (fun other member => printable other (List.mem_cons_of_mem _ member))
          intro c member
          rw [List.intercalate_cons_cons, List.mem_append, List.mem_append] at member
          rcases member with (inPair | inSeparator) | inRest
          · exact here c inPair
          · have separator : "; ".toList.all isPrintable = true := rfl
            exact List.all_eq_true.mp separator c inSeparator
          · exact later c inRest

/-- A header with a session's pair as its first session cookie carries that session's token: the
header is printable, and it is split into its pairs again.
-/
theorem carries_session {headers : HeaderMap} {n : ℕ} (fits : n + sessionTtl < 2 ^ 64)
    (pairs : CookiePairs)
    (sent
      : headers.get "cookie".toList
        = some (asBytes (pairs.header (setPair (auth.issueCookie hmac n)))))
    (t : ℕ)
    : requestIsAuthenticated hmac auth headers t = true ↔ t < n + sessionTtl := by
  have own
      : setPair (auth.issueCookie hmac n) = ownPair hmac auth (n + sessionTtl) := by
    rw [setPair_issueCookie, Nat.mod_eq_of_lt fits]
  have printable
      : ∀ c ∈ pairs.header (ownPair hmac auth (n + sessionTtl)), isPrintable c = true := by
    apply printable_intercalate
    intro pair member
    rw [List.mem_append, List.mem_cons] at member
    have other (inOthers : pair ∈ pairs.before ++ pairs.after) (c : Char) (inPair : c ∈ pair)
        : isPrintable c = true :=
      (pairs.clean pair inOthers c inPair).1
    rcases member with inBefore | same | inAfter
    · exact other (List.mem_append_left _ inBefore)
    · rw [same]
      exact fun c inPair => (ownPair_clean hmac auth inPair).1
    · exact other (List.mem_append_right _ inAfter)
  have read
      : cookieValue (pairs.header (ownPair hmac auth (n + sessionTtl))) cookieName
        = some (auth.sign hmac (n + sessionTtl)) :=
    cookieValue_intercalate
      (pairs.separated (fun member => (ownPair_clean hmac auth member).2.2 rfl)) pairs.first
      (pairValue_ownPair hmac auth _)
  rw [own] at sent
  rw [requestIsAuthenticated, sent, Option.bind_some, toStr_asBytes printable, Option.bind_some,
    read, Option.any_some, tokenValid_sign hmac auth fits]

/-- Sessions are accepted until they expire, and only what has been signed is accepted: the first
session cookie of a header is what is read, and its tag is compared with that of its expiry.
-/
theorem sessions_accepted
    : (∀ (n t : ℕ) (headers : HeaderMap) (pairs : CookiePairs),
        n + sessionTtl < 2 ^ 64
        → headers.get "cookie".toList
          = some (asBytes (pairs.header (setPair (auth.issueCookie hmac n))))
        → (requestIsAuthenticated hmac auth headers t = true ↔ t < n + sessionTtl))
      ∧ ∀ (t : ℕ) (headers : HeaderMap),
          requestIsAuthenticated hmac auth headers t = true
          → ∃ value cookies token,
              headers.get "cookie".toList = some value
              ∧ toStr value = some cookies
              ∧ FirstSession cookies token
              ∧ Signed hmac auth token t := by
  constructor
  · intro n t headers pairs fits sent
    exact carries_session hmac auth fits pairs sent t
  · intro t headers accepted
    obtain ⟨token, read, valid⟩ := (Option.any_eq_true _ _).mp accepted
    obtain ⟨cookies, received, first⟩ := Option.bind_eq_some_iff.mp read
    obtain ⟨value, sent, text⟩ := Option.bind_eq_some_iff.mp received
    exact ⟨value, cookies, token, sent, text, firstSession_of_cookieValue first,
      signed_of_tokenValid hmac auth valid⟩

end Sessions

section Login

/-- The credentials of a login. -/
def adminAuth : Auth where
  user := "admin".toList
  password := "s3cret".toList
  secret := [1, 2, 3]
  secureCookie := false

def constantTag : Hmac :=
  fun _ _ => Vector.replicate 32 7

/-- A cookie between others is accepted after the login and not when it has expired. -/
theorem sessions_accepted_login
    : let pairs : CookiePairs :=
        { before := [['a', '=', 'b']],
          after := [['c']],
          clean := by simp [isPrintable],
          first := by decide }
      let headers : HeaderMap :=
        [("cookie".toList,
          asBytes (pairs.header (setPair (adminAuth.issueCookie constantTag 1000000))))]
      requestIsAuthenticated constantTag adminAuth headers 1000001 = true
      ∧ requestIsAuthenticated constantTag adminAuth headers (1000000 + sessionTtl) = false := by
  intro pairs headers
  have accepted (t : ℕ) :=
    (sessions_accepted constantTag adminAuth).1 1000000 t headers pairs
      (by norm_num [sessionTtl]) rfl
  refine ⟨(accepted _).mpr (by norm_num [sessionTtl]), ?_⟩
  rw [Bool.eq_false_iff, Ne, accepted]
  exact lt_irrefl _

end Login

end DockDoe
