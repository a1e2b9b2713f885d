import DockDoe.Correctness.HeaderTexts
import DockDoe.Model.Router

/-! What the host allowlist means: which hosts its entries name, and which hosts the guard reads
there. Names, IPv4 addresses and IPv6 addresses in brackets are read as they are written, but the
last group of an IPv6 address without brackets passes for a port.
-/

namespace DockDoe

open Cuts

/-- The characters of DNS names and of IPv4 addresses. -/
def isNameChar (c : Char) : Bool :=
  c.isAlphanum || c == '-' || c == '.' || c == '_'

/-- The characters of IPv6 addresses; one may end like an IPv4 address. -/
def isAddressChar (c : Char) : Bool :=
  c.isDigit || ('a' ≤ c && c ≤ 'f') || ('A' ≤ c && c ≤ 'F') || c == ':' || c == '.'

/-- A DNS name or an IPv4 address. -/
structure HostName where
  text : Text
  nonempty : text ≠ []
  chars : ∀ c ∈ text, isNameChar c = true

/-- A text with the characters of an IPv6 address and at least two colons, as each has. -/
structure Ipv6Text where
  text : Text
  chars : ∀ c ∈ text, isAddressChar c = true
  colons : 2 ≤ text.count ':'

/-- What stands behind a colon after a host. -/
structure HostPort where
  text : Text
  digits : ∀ c ∈ text, c.isDigit = true

/-- How a host is written in the allowlist. In a `Host` header IPv6 addresses have brackets. -/
inductive HostForm
  | name (host : HostName) (port : Option HostPort)
  | bracketed (address : Ipv6Text) (port : Option HostPort)
  | bare (address : Ipv6Text)

/-- A port as it is written behind a host. -/
def portSuffix : Option HostPort → Text
  | none => []
  | some port => ':' :: port.text

namespace HostForm

def text : HostForm → Text
  | .name host port => host.text ++ portSuffix port
  | .bracketed address port => '[' :: address.text ++ ']' :: portSuffix port
  | .bare address => address.text

/-- The host that is named, letter case apart. -/
def host : HostForm → Text
  | .name host _ => toAsciiLowercase host.text
  | .bracketed address _ | .bare address => toAsciiLowercase address.text

def isBare : HostForm → Bool
  | .bare _ => true
  | .name _ _ | .bracketed _ _ => false

/-- A bare address that continues a text by one more group. -/
def Continues (form : HostForm) (start : Text) : Prop :=
  form.isBare = true ∧ ∃ group, ':' ∉ group ∧ form.host = start ++ ':' :: group

/-- The host that is read: a bare address loses its last group. -/
def Reads (form : HostForm) (read : Text) : Prop :=
  (form.isBare = false ∧ form.host = read) ∨ form.Continues read

end HostForm

/-- The hosts that pass beside those listed. -/
def IsLocalForm (host : Text) : Prop :=
  host = "localhost".toList ∨ host = "127.0.0.1".toList ∨ host = "::1".toList

instance (host : Text) : Decidable (IsLocalForm host) :=
  inferInstanceAs (Decidable (_ ∨ _ ∨ _))

-----------------------------------------------------------------------------------------
-- The characters of hosts
-----------------------------------------------------------------------------------------

theorem isGraphic_of_isNameChar {c : Char} (nameChar : isNameChar c = true)
    : isGraphic c = true := by
  simp only [isNameChar, Bool.or_eq_true, beq_iff_eq] at nameChar
  rcases nameChar with ((alphanum | rfl) | rfl) | rfl
  · exact isGraphic_of_isAlphanum alphanum
  all_goals rfl

/-- The characters of an address are visible, kind by kind. -/
theorem isGraphic_of_isAddressChar {c : Char} (addressChar : isAddressChar c = true)
    : isGraphic c = true := by
  simp only [isAddressChar, Bool.or_eq_true, Bool.and_eq_true, decide_eq_true_eq, beq_iff_eq]
    at addressChar
  rcases addressChar with (((digit | lower) | upper) | rfl) | rfl
  · exact isGraphic_of_isAlphanum (by simp [Char.isAlphanum, digit])
  · change 97 ≤ c.toNat ∧ c.toNat ≤ 102 at lower
    exact isGraphic_iff.mpr (by omega)
  · change 65 ≤ c.toNat ∧ c.toNat ≤ 70 at upper
    exact isGraphic_iff.mpr (by omega)
  all_goals rfl

/-- So are those of a port behind its colon. -/
theorem isGraphic_of_mem_portSuffix {port : Option HostPort} {c : Char}
    (member : c ∈ portSuffix port)
    : isGraphic c = true := by
  cases port with
  | none => cases member
  | some port =>
      rcases List.mem_cons.mp member with rfl | inDigits
      · rfl
      · exact isGraphic_of_isAlphanum (by simp [Char.isAlphanum, port.digits c inDigits])

/-- So are those of a host in any form. -/
theorem HostForm.isGraphic_of_mem {form : HostForm} {c : Char} (member : c ∈ form.text)
    : isGraphic c = true := by
  cases form with
  | name host port =>
      rcases List.mem_append.mp member with inHost | inPort
      · exact isGraphic_of_isNameChar (host.chars c inHost)
      · exact isGraphic_of_mem_portSuffix inPort
  | bracketed address port =>
      simp only [HostForm.text, List.mem_cons, List.mem_append] at member
      rcases member with (rfl | inAddress) | rfl | inPort
      · rfl
      · exact isGraphic_of_isAddressChar (address.chars c inAddress)
      · rfl
      · exact isGraphic_of_mem_portSuffix inPort
  | bare address => exact isGraphic_of_isAddressChar (address.chars c member)

/-- A header carries a host as it is written, and trimming leaves it alone. -/
theorem HostForm.toStr_text (form : HostForm)
    : toStr (asBytes form.text) = some form.text ∧ trim form.text = form.text :=
  ⟨toStr_asBytes (fun _ member => isPrintable_of_isGraphic (isGraphic_of_mem member)),
    trim_of_clean (fun _ member => isWhitespace_of_isGraphic (isGraphic_of_mem member))⟩

/-- Nothing but a colon becomes one in lower case, for an upper case letter becomes a letter. -/
theorem toLower_eq_colon_iff {c : Char} : c.toLower = ':' ↔ c = ':' := by
  by_cases upper : c.isUpper = true
  · constructor
    · intro same
      have lower : c.toLower.isLower = true := by simp [Char.isAlpha, upper]
      rw [same] at lower
      cases lower
    · intro same
      rw [same] at upper
      cases upper
  · rw [Char.toLower_eq_of_not_isUpper upper]

theorem colon_mem_toAsciiLowercase_iff {s : Text} : ':' ∈ toAsciiLowercase s ↔ ':' ∈ s := by
  simp [toAsciiLowercase, toLower_eq_colon_iff]

-----------------------------------------------------------------------------------------
-- What stripping a port leaves
-----------------------------------------------------------------------------------------

theorem hostWithoutPort_of_plain {s : Text} (plain : '[' ∉ s)
    : hostWithoutPort s = ((cutLast ':' s).map Prod.fst).getD s := by
  unfold hostWithoutPort
  split
  · simp at plain
  · cases cutLast ':' s <;> rfl

theorem HostPort.not_mem (port : HostPort) {c : Char} (other : c.isDigit = false) : c ∉ port.text :=
  fun member => Bool.false_ne_true (other.symm.trans (port.digits c member))

theorem HostName.not_mem (host : HostName) {c : Char} (other : isNameChar c = false)
    : c ∉ host.text :=
  fun member => Bool.false_ne_true (other.symm.trans (host.chars c member))

theorem Ipv6Text.not_mem (address : Ipv6Text) {c : Char} (other : isAddressChar c = false)
    : c ∉ address.text :=
  fun member => Bool.false_ne_true (other.symm.trans (address.chars c member))

/-- A name is read without its port, as it has neither a colon nor a bracket of its own. -/
theorem hostWithoutPort_name (host : HostName) (port : Option HostPort)
    : hostWithoutPort (HostForm.name host port).text = host.text := by
  have noColon : ':' ∉ host.text := host.not_mem rfl
  have noBracket : '[' ∉ host.text := host.not_mem rfl
  cases port with
  | none =>
      change hostWithoutPort (host.text ++ []) = host.text
      rw [List.append_nil, hostWithoutPort_of_plain noBracket, cutLast_eq_none_iff.mpr noColon]
      rfl
  | some port =>
      have plain : '[' ∉ host.text ++ ':' :: port.text := by
        simp [noBracket, port.not_mem (c := '[') rfl]
      change hostWithoutPort (host.text ++ ':' :: port.text) = host.text
      rw [hostWithoutPort_of_plain plain, cutLast_append (port.not_mem rfl)]
      rfl

theorem hostWithoutPort_bracketed (address : Ipv6Text) (port : Option HostPort)
    : hostWithoutPort (HostForm.bracketed address port).text = address.text := by
  change (address.text ++ ']' :: portSuffix port).takeWhile (· ≠ ']') = address.text
  rw [List.takeWhile_append_of_pos, List.takeWhile_cons_of_neg (by simp), List.append_nil]
  intro c member
  exact decide_eq_true (fun same => address.not_mem rfl (same ▸ member))

/-- A bare address is cut at its last colon. -/
theorem hostWithoutPort_bare {address : Ipv6Text} {before group : Text}
    (parts : address.text = before ++ ':' :: group) (last : ':' ∉ group)
    : hostWithoutPort (HostForm.bare address).text = before := by
  change hostWithoutPort address.text = before
  rw [hostWithoutPort_of_plain (address.not_mem rfl), parts, cutLast_append last]
  rfl

theorem Ipv6Text.exists_group (address : Ipv6Text)
    : ∃ before group, address.text = before ++ ':' :: group ∧ ':' ∉ group :=
  exists_last_separator (List.count_pos_iff.mp (by have := address.colons; omega))

/-- A host is read as its text without the port, and a bare address without its last group, by
the cases of the forms.
-/
theorem HostForm.reads_iff {form : HostForm} {read : Text}
    : form.Reads read ↔ toAsciiLowercase (hostWithoutPort (trim form.text)) = read := by
  rw [form.toStr_text.2]
  cases form with
  | name host port =>
      rw [hostWithoutPort_name]
      simp [Reads, Continues, isBare, HostForm.host]
  | bracketed address port =>
      rw [hostWithoutPort_bracketed]
      simp [Reads, Continues, isBare, HostForm.host]
  | bare address =>
      obtain ⟨before, group, parts, last⟩ := address.exists_group
      have noColon : ':' ∉ toAsciiLowercase group :=
        fun member => last (colon_mem_toAsciiLowercase_iff.mp member)
      have lowered
          : (HostForm.bare address).host
            = toAsciiLowercase before ++ ':' :: toAsciiLowercase group := by
        change toAsciiLowercase address.text = _
        rw [parts]
        exact List.map_append
      rw [hostWithoutPort_bare parts last]
      constructor
      · intro h
        rcases h with ⟨⟨⟩, _⟩ | ⟨_, rest, absent, same⟩
        have cuts := cutLast_append noColon (toAsciiLowercase before)
        rw [← lowered, same, cutLast_append absent] at cuts
        exact (congrArg Prod.fst (Option.some.inj cuts)).symm
      · intro same
        exact .inr ⟨rfl, _, noColon, same ▸ lowered⟩

/-- What is read of a host is never empty, form by form. -/
theorem HostForm.nonempty_of_reads {form : HostForm} {read : Text} (reads : form.Reads read)
    : read ≠ [] := by
  rintro rfl
  have stripped := List.map_eq_nil_iff.mp (HostForm.reads_iff.mp reads)
  rw [form.toStr_text.2] at stripped
  cases form with
  | name host port =>
      rw [hostWithoutPort_name] at stripped
      exact host.nonempty stripped
  | bracketed address port =>
      rw [hostWithoutPort_bracketed] at stripped
      have colons := address.colons
      rw [stripped] at colons
      exact absurd colons (by decide)
  | bare address =>
      obtain ⟨before, group, parts, last⟩ := address.exists_group
      rw [hostWithoutPort_bare parts last] at stripped
      have colons := address.colons
      rw [parts, stripped, List.nil_append, List.count_cons_self, List.count_eq_zero.mpr last]
        at colons
      exact absurd colons (by decide)

-----------------------------------------------------------------------------------------
-- The guard
-----------------------------------------------------------------------------------------

/-- The allowlist of these entries means the hosts they name: a request for one of them passes
whatever else is configured, and a request for any other but a local one is rejected.
-/
structure MeansHosts (entries : List HostForm) (form : HostForm) (headers : HeaderMap)
    : Prop where
  accepts
    : form.isBare = false → (∃ entry ∈ entries, entry.host = form.host) →
        ∀ configured : List Text, (∀ entry ∈ entries, entry.text ∈ configured) →
          hostAllowed headers (normalizeAllowedHosts configured) = true
  rejects
    : entries ≠ [] → (∀ entry ∈ entries, entry.host ≠ form.host) → ¬ IsLocalForm form.host →
        hostAllowed headers (normalizeAllowedHosts (entries.map HostForm.text)) = false

/-- Reading bare addresses without their last group makes no difference for a host: it is local,
listed with brackets or by name, or else listed bare exactly when a bare entry continues it. A
bare header must not be read as a local or listed host unless its own is listed.
-/
def ReadAsNamed (entries : List HostForm) (form : HostForm) : Prop :=
  entries = []
  ∨ IsLocalForm form.host
  ∨ if form.isBare then
      (∃ entry ∈ entries, entry.host = form.host)
      ∨ ∀ read, form.Reads read → ¬ IsLocalForm read ∧ ∀ entry ∈ entries, ¬ entry.Reads read
    else
      (∃ entry ∈ entries, entry.isBare = false ∧ entry.host = form.host)
      ∨ ((∃ entry ∈ entries, entry.isBare = true ∧ entry.host = form.host)
          ↔ ∃ entry ∈ entries, entry.Continues form.host)

theorem mem_normalizeAllowedHosts_iff {configured : List Text} {host : Text}
    : host ∈ normalizeAllowedHosts configured
      ↔ host ≠ []
        ∧ ∃ entry ∈ configured, toAsciiLowercase (hostWithoutPort (trim entry)) = host := by
  simp [normalizeAllowedHosts, and_comm]

/-- The allowlist holds what is read of its entries, one by one. -/
theorem mem_normalizeAllowedHosts_text_iff {entries : List HostForm} {host : Text}
    : host ∈ normalizeAllowedHosts (entries.map HostForm.text)
      ↔ ∃ entry ∈ entries, entry.Reads host := by
  rw [mem_normalizeAllowedHosts_iff]
  constructor
  · intro h
    obtain ⟨_, text, member, same⟩ := h
    obtain ⟨entry, inEntries, rfl⟩ := List.mem_map.mp member
    exact ⟨entry, inEntries, HostForm.reads_iff.mpr same⟩
  · intro h
    obtain ⟨entry, inEntries, reads⟩ := h
    exact ⟨HostForm.nonempty_of_reads reads, entry.text, List.mem_map_of_mem inEntries,
      HostForm.reads_iff.mp reads⟩

/-- An entry is bare or not. -/
theorem exists_form_iff (entries : List HostForm) (p : HostForm → Prop)
    : (∃ entry ∈ entries, p entry)
      ↔ (∃ entry ∈ entries, entry.isBare = false ∧ p entry)
        ∨ ∃ entry ∈ entries, entry.isBare = true ∧ p entry := by
  constructor
  · intro h
    obtain ⟨entry, member, holds⟩ := h
    cases bare : entry.isBare with
    | false => exact .inl ⟨entry, member, bare, holds⟩
    | true => exact .inr ⟨entry, member, bare, holds⟩
  · intro h
    rcases h with ⟨entry, member, _, holds⟩ | ⟨entry, member, _, holds⟩
    · exact ⟨entry, member, holds⟩
    · exact ⟨entry, member, holds⟩

/-- Hosts pass and fail as they are listed, bare or not, exactly when bare ones agree. -/
theorem passes_as_listed_iff {byName bare continued passes : Prop}
    : ((byName ∨ bare → passes ∨ byName ∨ continued)
        ∧ (¬ (byName ∨ bare) → ¬ passes → ¬ (passes ∨ byName ∨ continued)))
      ↔ passes ∨ byName ∨ (bare ↔ continued) := by
  tauto

section Guard

variable {headers : HeaderMap} {form : HostForm}
  (sent : headers.get "host".toList = some (asBytes form.text))

include sent

/-- A guarded host is one that is read as a local or a listed one, by unfolding the guard. -/
theorem hostAllowed_iff {allowed : List Text} (nonempty : allowed ≠ [])
    : hostAllowed headers allowed = true
      ↔ ∃ read, form.Reads read ∧ (IsLocalForm read ∨ read ∈ allowed) := by
  have empty : allowed.isEmpty = false := by simpa using nonempty
  have guarded
      : hostAllowed headers allowed = true
        ↔ IsLocalForm (toAsciiLowercase (hostWithoutPort (trim form.text)))
          ∨ toAsciiLowercase (hostWithoutPort (trim form.text)) ∈ allowed := by
    rw [hostAllowed, sent, Option.bind_some, form.toStr_text.1, empty]
    simp [IsLocalForm, or_assoc]
  rw [guarded]
  constructor
  · intro passes
    exact ⟨_, HostForm.reads_iff.mpr rfl, passes⟩
  · intro h
    obtain ⟨read, reads, passes⟩ := h
    rw [HostForm.reads_iff.mp reads]
    exact passes

/-- The guard with the allowlist of some entries. -/
theorem hostAllowed_text_iff {entries : List HostForm} (nonempty : entries ≠ [])
    : hostAllowed headers (normalizeAllowedHosts (entries.map HostForm.text)) = true
      ↔ ∃ read, form.Reads read ∧ (IsLocalForm read ∨ ∃ entry ∈ entries, entry.Reads read) := by
  have listed : normalizeAllowedHosts (entries.map HostForm.text) ≠ [] := by
    obtain ⟨entry, member⟩ := List.exists_mem_of_ne_nil entries nonempty
    exact List.ne_nil_of_mem (mem_normalizeAllowedHosts_text_iff.mpr
      ⟨entry, member, HostForm.reads_iff.mpr rfl⟩)
  simp only [hostAllowed_iff sent listed, mem_normalizeAllowedHosts_text_iff]

/-- More entries never lock a host out, for what it is read as stays listed. -/
theorem hostAllowed_mono {entries : List HostForm} (nonempty : entries ≠ [])
    {configured : List Text} (among : ∀ entry ∈ entries, entry.text ∈ configured)
    (passes : hostAllowed headers (normalizeAllowedHosts (entries.map HostForm.text)) = true)
    : hostAllowed headers (normalizeAllowedHosts configured) = true := by
  obtain ⟨read, reads, ok⟩ := (hostAllowed_text_iff sent nonempty).mp passes
  have more {entry : HostForm} (member : entry ∈ entries) {read : Text} (reads : entry.Reads read)
      : read ∈ normalizeAllowedHosts configured :=
    mem_normalizeAllowedHosts_iff.mpr
      ⟨HostForm.nonempty_of_reads reads, _, among entry member, HostForm.reads_iff.mp reads⟩
  have listed : normalizeAllowedHosts configured ≠ [] := by
    obtain ⟨entry, member⟩ := List.exists_mem_of_ne_nil entries nonempty
    exact List.ne_nil_of_mem (more member (HostForm.reads_iff.mpr rfl))
  refine (hostAllowed_iff sent listed).mpr ⟨read, reads, ok.imp_right ?_⟩
  intro h
  obtain ⟨entry, member, readsEntry⟩ := h
  exact more member readsEntry

/-- What an allowlist accepts and rejects is decided by the list of its entries as they are: more
entries only accept more.
-/
theorem meansHosts_text_iff {entries : List HostForm} (nonempty : entries ≠ [])
    : MeansHosts entries form headers
      ↔ (form.isBare = false → (∃ entry ∈ entries, entry.host = form.host) →
            hostAllowed headers (normalizeAllowedHosts (entries.map HostForm.text)) = true)
        ∧ ((¬ ∃ entry ∈ entries, entry.host = form.host) → ¬ IsLocalForm form.host →
            ¬ hostAllowed headers (normalizeAllowedHosts (entries.map HostForm.text)) = true) := by
  constructor
  · intro h
    obtain ⟨accepts, rejects⟩ := h
    refine ⟨fun notBare listed => ?_, fun unlisted foreign => ?_⟩
    · exact accepts notBare listed _ (fun entry member => List.mem_map_of_mem member)
    · rw [rejects nonempty (fun entry member same => unlisted ⟨entry, member, same⟩) foreign]
      exact Bool.false_ne_true
  · intro h
    obtain ⟨accepts, rejects⟩ := h
    refine ⟨fun notBare listed configured among => ?_, fun _ unlisted foreign => ?_⟩
    · exact hostAllowed_mono sent nonempty among (accepts notBare listed)
    · refine Bool.eq_false_iff.mpr (rejects ?_ foreign)
      intro h
      obtain ⟨entry, member, same⟩ := h
      exact unlisted entry member same

/-- The allowlist means the hosts it names exactly where reading bare addresses without their
last group makes no difference. Witness: names, addresses in brackets and localhost are read as
they are; a bare address loses what looks like its port.
-/
theorem meansHosts_iff (entries : List HostForm)
    : MeansHosts entries form headers ↔ ReadAsNamed entries form := by
  rcases eq_or_ne entries [] with rfl | nonempty
  · refine ⟨fun _ => .inl rfl, fun _ => ⟨?_, fun listed => absurd rfl listed⟩⟩
    intro _ h
    obtain ⟨_, member, _⟩ := h
    cases member
  have guarded := hostAllowed_text_iff sent nonempty
  rw [meansHosts_text_iff sent nonempty, guarded, ReadAsNamed, or_iff_right nonempty]
  cases bare : form.isBare with
  | false =>
      -- The host is read as it is named; an entry reads as it by name or as a continuation.
      have reads {read : Text} : form.Reads read ↔ form.host = read := by
        simp [HostForm.Reads, HostForm.Continues, bare]
      have named := exists_form_iff entries (fun entry => entry.host = form.host)
      have read
          : (∃ entry ∈ entries, entry.Reads form.host)
            ↔ (∃ entry ∈ entries, entry.isBare = false ∧ entry.host = form.host)
              ∨ ∃ entry ∈ entries, entry.Continues form.host := by
        simp only [HostForm.Reads, and_or_left, exists_or]
      simp only [reads, exists_eq_left', read, named, true_implies, Bool.false_eq_true, if_false]
      exact passes_as_listed_iff
  | true =>
      rw [if_pos rfl]
      constructor
      · intro h
        obtain ⟨_, rejects⟩ := h
        by_cases localForm : IsLocalForm form.host
        · exact .inl localForm
        by_cases listed : ∃ entry ∈ entries, entry.host = form.host
        · exact .inr (.inl listed)
        have rejected := rejects listed localForm
        refine .inr (.inr (fun read reads => ⟨fun localRead => ?_, fun entry member same => ?_⟩))
        · exact rejected ⟨read, reads, .inl localRead⟩
        · exact rejected ⟨read, reads, .inr ⟨entry, member, same⟩⟩
      · intro spared
        refine ⟨fun notBare => absurd notBare Bool.noConfusion, fun unlisted foreign => ?_⟩
        have apart := (spared.resolve_left foreign).resolve_left unlisted
        intro h
        obtain ⟨read, reads, passes⟩ := h
        rcases passes with localRead | ⟨entry, member, same⟩
        · exact (apart read reads).1 localRead
        · exact (apart read reads).2 entry member same

end Guard

-----------------------------------------------------------------------------------------
-- An address in three spellings
-----------------------------------------------------------------------------------------

/-- An IPv6 address. -/
def sampleAddress : Ipv6Text where
  text := "2001:db8::1".toList
  chars := by simp [isAddressChar]
  colons := by decide +kernel

/-- An IPv6 address whose text continues the other's. -/
def longerAddress : Ipv6Text where
  text := "2001:db8::1:2".toList
  chars := by simp [isAddressChar]
  colons := by decide +kernel

/-- The headers of a request for the address. -/
def addressHeaders : HeaderMap :=
  [("host".toList, asBytes "[2001:db8::1]".toList)]

/-- With brackets and a port, the entry means its address. -/
theorem bracketed_meansHosts
    : MeansHosts [.bracketed sampleAddress (some ⟨"8080".toList, by simp⟩)]
        (.bracketed sampleAddress none) addressHeaders :=
  (meansHosts_iff rfl _).mpr (.inr (.inr (.inl ⟨_, List.mem_singleton_self _, rfl, rfl⟩)))

/-- Without brackets it locks its owner out, and an address that continues it lets it in, as the
guard shows for both.
-/
theorem bare_not_meansHosts
    : ¬ MeansHosts [.bare sampleAddress] (.bracketed sampleAddress none) addressHeaders
      ∧ ¬ MeansHosts [.bare longerAddress] (.bracketed sampleAddress none) addressHeaders := by
  constructor
  · intro means
    have passes := means.accepts rfl ⟨_, List.mem_singleton_self _, rfl⟩
      [sampleAddress.text] (List.forall_mem_singleton.mpr (List.mem_singleton_self _))
    exact absurd passes (by decide +kernel)
  · intro means
    have rejected := means.rejects (List.cons_ne_nil _ _)
      (List.forall_mem_singleton.mpr (by decide +kernel)) (by decide +kernel)
    exact absurd rejected (by decide +kernel)

end DockDoe
