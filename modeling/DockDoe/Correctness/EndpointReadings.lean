import DockDoe.Correctness.ListedHosts
import DockDoe.Foundations.Authorities
import DockDoe.Model.EndpointReadings

/-! When the three readings of a Docker endpoint agree: the connection, the sampling interval
and the links of the ports. The connection and the interval see the endpoint trimmed, the links
see it as it is written, and only the connection knows bare paths.
-/

namespace DockDoe

open Cuts

/-- How an endpoint is connected to. -/
inductive Branch
  | unix | http | https
  deriving DecidableEq

/-- Connectors that succeed with their own name. -/
def Connectors.named : Connectors Empty Branch where
  connectWithUnix _ := .ok .unix
  connectWithHttp _ := .ok .http
  connectHttps _ _ := .ok .https

section Trimming

/-- A URL keeps its scheme when it is trimmed, as a scheme ends with a slash. -/
theorem trim_scheme {scheme : Text} (member : scheme ∈ endpointSchemes) (rest : Text)
    : trim (scheme ++ rest) = scheme ++ trimEnd rest := by
  rcases List.mem_cons.mp member with rfl | member
  · exact rdropWhile_append_of_last (x := '/') (by decide) "tcp:/".toList rest
  · rcases List.mem_cons.mp member with rfl | member
    · exact rdropWhile_append_of_last (x := '/') (by decide) "http:/".toList rest
    · obtain rfl := List.mem_singleton.mp member
      exact rdropWhile_append_of_last (x := '/') (by decide) "https:/".toList rest

end Trimming

section Branches

variable {host : HostConfig} {docker : Text} {branch : Branch}

/-- A connection is to a socket, for a URL of one or a bare path, or to a remote endpoint, by
inverting the branches.
-/
theorem connectEndpoint_cases (endpoint : host.docker = some docker)
    (connects : connectEndpoint .named host = .ok branch)
    : (∃ rest, trim docker = "unix://".toList ++ rest ∧ branch = .unix)
      ∨ (∃ rest, trim docker = '/' :: rest ∧ branch = .unix)
      ∨ ∃ scheme ∈ endpointSchemes, ∃ rest, trim docker = scheme ++ rest ∧ branch ≠ .unix := by
  simp only [connectEndpoint, endpoint, Connectors.named, Except.mapError] at connects
  split at connects
  next unix =>
    cases connects
    rcases Bool.or_eq_true_iff.mp unix with url | path
    · obtain ⟨rest, parts⟩ := List.isPrefixOf_iff_prefix.mp url
      exact .inl ⟨rest, parts.symm, rfl⟩
    · obtain ⟨rest, parts⟩ := List.isPrefixOf_iff_prefix.mp path
      exact .inr (.inl ⟨rest, parts.symm, rfl⟩)
  next =>
    split at connects
    next http =>
      cases connects
      rcases Bool.or_eq_true_iff.mp http with tcp | plain
      · obtain ⟨rest, parts⟩ := List.isPrefixOf_iff_prefix.mp tcp
        exact .inr (.inr ⟨_, by simp [endpointSchemes], rest, parts.symm, by decide⟩)
      · obtain ⟨rest, parts⟩ := List.isPrefixOf_iff_prefix.mp plain
        exact .inr (.inr ⟨_, by simp [endpointSchemes], rest, parts.symm, by decide⟩)
    next =>
      split at connects
      next https =>
        cases connects
        obtain ⟨rest, parts⟩ := List.isPrefixOf_iff_prefix.mp https
        exact .inr (.inr ⟨_, by simp [endpointSchemes], rest, parts.symm, by decide⟩)
      next => cases connects

/-- The scheme that an endpoint is taken to have: all of it, without a separator. -/
def schemeOf (endpoint : Text) : Text :=
  (cut "://".toList endpoint).elim endpoint Prod.fst

theorem endpointUrl_docker (endpoint : host.docker = some docker)
    : host.endpointUrl = some docker := by
  rw [HostConfig.endpointUrl, endpoint]
  rfl

theorem isLocalEndpoint_eq (endpoint : host.docker = some docker)
    : host.isLocalEndpoint
      = some (eqIgnoreAsciiCase (schemeOf (trim docker)) "unix".toList
          || eqIgnoreAsciiCase (schemeOf (trim docker)) "npipe".toList) := by
  simp only [HostConfig.isLocalEndpoint, endpointUrl_docker endpoint, Option.map_some, schemeOf]
  cases cut "://".toList (trim docker) <;> rfl

/-- An endpoint with the URL of a socket is local. -/
theorem isLocalEndpoint_unix {rest : Text} (endpoint : host.docker = some docker)
    (parts : trim docker = "unix://".toList ++ rest)
    : host.isLocalEndpoint = some true := by
  have scheme : schemeOf (trim docker) = "unix".toList := by rw [parts]; rfl
  rw [isLocalEndpoint_eq endpoint, scheme]
  decide

/-- A bare path is not read as a local endpoint: what it has for a scheme is a path too. -/
theorem isLocalEndpoint_path {rest : Text} (endpoint : host.docker = some docker)
    (parts : trim docker = '/' :: rest)
    : host.isLocalEndpoint = some false := by
  have scheme : ∃ others, schemeOf (trim docker) = '/' :: others := by
    rw [parts, schemeOf, cut]
    cases cut "://".toList rest with
    | none => exact ⟨rest, rfl⟩
    | some found => exact ⟨found.1, rfl⟩
  obtain ⟨others, scheme⟩ := scheme
  rw [isLocalEndpoint_eq endpoint, scheme]
  simp [eqIgnoreAsciiCase, toAsciiLowercase]

/-- A remote endpoint is not local, for its scheme is one of the remote ones. -/
theorem isLocalEndpoint_remote {scheme rest : Text} (endpoint : host.docker = some docker)
    (member : scheme ∈ endpointSchemes) (parts : trim docker = scheme ++ rest)
    : host.isLocalEndpoint = some false := by
  have named : schemeOf (trim docker) ∈ ["tcp".toList, "http".toList, "https".toList] := by
    rw [parts]
    simp only [endpointSchemes, List.mem_cons, List.not_mem_nil, or_false] at member ⊢
    rcases member with rfl | rfl | rfl
    · exact .inl rfl
    · exact .inr (.inl rfl)
    · exact .inr (.inr rfl)
  rw [isLocalEndpoint_eq endpoint]
  generalize schemeOf (trim docker) = s at named
  revert s
  decide

end Branches

section Links

variable {url name : Text}

/-- The endpoint that a scheme introduces is what the links look at. -/
theorem findSome_scheme {scheme : Text} (member : scheme ∈ endpointSchemes) (rest : Text)
    : endpointSchemes.findSome? (stripPrefix · (scheme ++ rest)) = some rest := by
  simp only [endpointSchemes, List.mem_cons, List.not_mem_nil, or_false] at member
  rcases member with rfl | rfl | rfl <;> rfl

theorem exists_scheme_of_findSome {rest : Text}
    (found : endpointSchemes.findSome? (stripPrefix · url) = some rest)
    : ∃ scheme ∈ endpointSchemes, url = scheme ++ rest := by
  obtain ⟨scheme, member, stripped⟩ := List.exists_of_findSome?_eq_some found
  exact ⟨scheme, member, (List.append_eq_of_isPrefixOf?_eq_some stripped).symm⟩

/-- The links name a host as far as they read it: up to the bracket, or up to a colon or a slash. -/
theorem endpointHost_eq_some_iff {scheme rest : Text} (member : scheme ∈ endpointSchemes)
    : endpointHost (scheme ++ rest) = some name
      ↔ (∃ after, rest = '[' :: after ∧ name = after.takeWhile (· ≠ ']'))
        ∨ (rest.head? ≠ some '['
          ∧ name = rest.takeWhile (fun c => c ≠ '/' && c ≠ ':')
          ∧ name ≠ []) := by
  simp only [endpointHost, findSome_scheme member]
  cases rest with
  | nil => simp [stripPrefix, List.isPrefixOf?]
  | cons first others =>
      by_cases bracket : first = '['
      · subst bracket
        simp only [stripPrefix, List.isPrefixOf?, beq_self_eq_true, if_true, Option.some.injEq,
          List.cons.injEq, true_and, List.head?_cons, not_true_eq_false, ne_eq, false_and,
          or_false, exists_eq_left']
        exact eq_comm
      · have stripped : stripPrefix ['['] (first :: others) = none := by
          simp [stripPrefix, List.isPrefixOf?, Ne.symm bracket]
        simp only [stripped]
        grind

/-- A name that is not taken for an address in brackets and holds no port or path. -/
def PlainName (name : Text) : Prop :=
  name.head? ≠ some '[' ∧ ∀ c ∈ name, c ≠ '/' ∧ c ≠ ':'

/-- An endpoint that, as it is written, starts with its scheme and a host: a name in front of
a port, a path or the end, or an address in brackets.
-/
def StartsWithHost (url name : Text) : Prop :=
  ∃ scheme ∈ endpointSchemes, ∃ after,
    (url = scheme ++ (name ++ after)
      ∧ PlainName name
      ∧ ∀ c ∈ after.head?, c = '/' ∨ c = ':')
    ∨ (url = scheme ++ '[' :: (name ++ ']' :: after) ∧ ']' ∉ name)

/-- The host that an endpoint names. -/
def endpointName (url : Text) : Option Text :=
  Authorities.host (trim url)

/-- An address whose bracket is not closed is not the host of its endpoint, whose name would
begin with the bracket.
-/
theorem closed_of_endpointName {scheme after : Text} (member : scheme ∈ endpointSchemes)
    (named : endpointName (scheme ++ '[' :: after) = some after)
    : ']' ∈ after := by
  by_contra unclosed
  have inside : trimEnd ('[' :: after) = '[' :: trimEnd after :=
    rdropWhile_append_of_last (by decide) [] after
  have authority
      : Authorities.authority (scheme ++ '[' :: trimEnd after)
        = some ('[' :: (trimEnd after).takeWhile (!UrlPaths.endsAuthority ·)) := by
    simp only [endpointSchemes, List.mem_cons, List.not_mem_nil, or_false] at member
    rcases member with rfl | rfl | rfl <;> rfl
  have shorter : ((trimEnd after).takeWhile (!UrlPaths.endsAuthority ·)).Sublist after :=
    (List.takeWhile_sublist _).trans (List.rdropWhile_prefix _ _).sublist
  rw [endpointName, trim_scheme member, inside, Authorities.host, authority,
    Option.filter_eq_some_iff] at named
  have short :=
    Authorities.length_lt_of_unclosed (fun occurs => unclosed (shorter.subset occurs)) named.1
  exact absurd shorter.length_le (by omega)

/-- The links name the host of an endpoint exactly when it starts with it. Witness: both read the
same brackets, and a plain name ends where the links stop reading.
-/
theorem endpointHost_iff (named : endpointName url = some name)
    : endpointHost url = some name ↔ StartsWithHost url name := by
  constructor
  · intro read
    have found : ∃ scheme ∈ endpointSchemes, ∃ rest, url = scheme ++ rest := by
      unfold endpointHost at read
      cases found : endpointSchemes.findSome? (stripPrefix · url) with
      | none => simp [found] at read
      | some rest =>
          obtain ⟨scheme, member, parts⟩ := exists_scheme_of_findSome found
          exact ⟨scheme, member, rest, parts⟩
    obtain ⟨scheme, member, rest, rfl⟩ := found
    rcases (endpointHost_eq_some_iff member).mp read with
      ⟨after, rfl, taken⟩ | ⟨noBracket, taken, nonempty⟩
    · obtain ⟨tail, rfl, inside, ended⟩ := eq_takeWhile_iff.mp taken
      have open' : ']' ∉ name := fun occurs => by simpa using inside _ occurs
      cases tail with
      | nil =>
          rw [List.append_nil] at named
          exact absurd (closed_of_endpointName member named) open'
      | cons c after =>
          obtain rfl : c = ']' := by simpa using ended c rfl
          exact ⟨scheme, member, after, .inr ⟨rfl, open'⟩⟩
    · obtain ⟨after, rfl, inside, ended⟩ := eq_takeWhile_iff.mp taken
      refine ⟨scheme, member, after, .inl ⟨rfl, ⟨?_, ?_⟩, ?_⟩⟩
      · rwa [List.head?_append_of_ne_nil _ nonempty] at noBracket
      · intro c occurs
        simpa using inside c occurs
      · intro c first
        have stops := ended c first
        simpa [Decidable.or_iff_not_imp_left] using stops
  · intro starts
    obtain ⟨scheme, member, after, parts⟩ := starts
    rcases parts with ⟨rfl, plain, ended⟩ | ⟨rfl, closed⟩
    · have nonempty : name ≠ [] := by
        simpa using (Option.filter_eq_some_iff.mp named).2
      refine (endpointHost_eq_some_iff member).mpr (.inr ⟨?_, ?_, nonempty⟩)
      · rw [List.head?_append_of_ne_nil _ nonempty]
        exact plain.1
      · refine eq_takeWhile_iff.mpr ⟨after, rfl, ?_, ?_⟩
        · intro c occurs
          simpa using plain.2 c occurs
        · intro c first
          rcases ended c first with rfl | rfl <;> rfl
    · refine (endpointHost_eq_some_iff member).mpr (.inl ⟨_, rfl, ?_⟩)
      refine eq_takeWhile_iff.mpr ⟨']' :: after, rfl, ?_, ?_⟩
      · intro c occurs
        have other : c ≠ ']' := fun same => closed (same ▸ occurs)
        simpa using other
      · intro c first
        cases first
        rfl

end Links

section Agreement

variable {host : HostConfig} {docker : Text} {branch : Branch}

/-- The connection, the interval and, without a public host, the links read one endpoint. -/
structure ReadingsAgree (host : HostConfig) (docker : Text) (branch : Branch) : Prop where
  interval : branch = .unix ↔ host.isLocalEndpoint = some true
  browser
    : publicHostSet host.publicHost = none → branch = .unix → host.links = some .browser
  fixed
    : publicHostSet host.publicHost = none → branch ≠ .unix
      → ∀ name, endpointName docker = some name → host.links = some (.host name)

/-- An endpoint of a scheme for remote hosts. -/
def IsRemote (docker : Text) : Prop :=
  ∃ scheme ∈ endpointSchemes, scheme.IsPrefix (trim docker)

/-- An endpoint that is a path in the file system. -/
def IsBarePath (docker : Text) : Prop :=
  (trim docker).head? = some '/'

instance (docker : Text) : Decidable (IsBarePath docker) :=
  inferInstanceAs (Decidable (_ = _))

theorem isRemote_scheme {scheme : Text} (member : scheme ∈ endpointSchemes) (rest : Text)
    : IsRemote (scheme ++ rest) :=
  ⟨scheme, member, trimEnd rest, (trim_scheme member rest).symm⟩

/-- Without a public host the links are those of the endpoint. -/
theorem links_eq (endpoint : host.docker = some docker)
    (unset : publicHostSet host.publicHost = none)
    : host.links = some ((endpointHost docker).elim .browser .host) := by
  rw [HostConfig.links, endpointUrl_docker endpoint, Option.map_some, PortLinks.fromConfig, unset]
  cases endpointHost docker <;> rfl

theorem links_eq_host_iff {name : Text} (endpoint : host.docker = some docker)
    (unset : publicHostSet host.publicHost = none)
    : host.links = some (.host name) ↔ endpointHost docker = some name := by
  rw [links_eq endpoint unset]
  cases endpointHost docker <;> simp

/-- An endpoint that is not remote when it is trimmed names no host, so the links are the
browser's.
-/
theorem links_eq_browser (endpoint : host.docker = some docker)
    (unset : publicHostSet host.publicHost = none) (near : ¬ IsRemote docker)
    : host.links = some .browser := by
  rw [links_eq endpoint unset, endpointHost]
  cases found : endpointSchemes.findSome? (stripPrefix · docker) with
  | none => rfl
  | some rest =>
      obtain ⟨scheme, member, rfl⟩ := exists_scheme_of_findSome found
      exact (near (isRemote_scheme member rest)).elim

/-- An endpoint of a scheme for remote hosts starts with neither of the others' letters, scheme
by scheme.
-/
theorem head_of_isRemote (remote : IsRemote docker)
    : (trim docker).head? = some 't' ∨ (trim docker).head? = some 'h' := by
  obtain ⟨scheme, member, rest, parts⟩ := remote
  rw [← parts]
  simp only [endpointSchemes, List.mem_cons, List.not_mem_nil, or_false] at member
  rcases member with rfl | rfl | rfl
  · exact .inl rfl
  · exact .inr rfl
  · exact .inr rfl

theorem not_isBarePath_of_isRemote (remote : IsRemote docker) : ¬ IsBarePath docker := by
  intro path
  have head := head_of_isRemote remote
  rw [path] at head
  exact absurd head (by decide)

/-- A remote endpoint is not connected to as a socket, whose URL or path starts differently. -/
theorem ne_unix_of_isRemote (endpoint : host.docker = some docker)
    (connects : connectEndpoint .named host = .ok branch) (remote : IsRemote docker)
    : branch ≠ .unix := by
  have head := head_of_isRemote remote
  rcases connectEndpoint_cases endpoint connects with
    ⟨rest, parts, _⟩ | ⟨rest, parts, _⟩ | ⟨_, _, _, _, notUnix⟩
  · have first : (trim docker).head? = some 'u' := by rw [parts]; rfl
    rw [first] at head
    exact absurd head (by decide)
  · rw [parts, List.head?_cons] at head
    exact absurd head (by decide)
  · exact notUnix

/-- The readings of a remote endpoint agree when, where its host is to be linked to, it starts
with that host: all other readings of it agree anyway.
-/
theorem readingsAgree_remote_iff (endpoint : host.docker = some docker)
    (remote : IsRemote docker) (notUnix : branch ≠ .unix)
    : ReadingsAgree host docker branch
      ↔ (publicHostSet host.publicHost = none
          → ∀ name, endpointName docker = some name → StartsWithHost docker name) := by
  constructor
  · intro agree unset name named
    exact (endpointHost_iff named).mp
      ((links_eq_host_iff endpoint unset).mp (agree.fixed unset notUnix name named))
  · intro starts
    obtain ⟨scheme, member, rest, parts⟩ := remote
    exact {
      interval := by simp [isLocalEndpoint_remote endpoint member parts.symm, notUnix]
      browser := fun _ unix => (notUnix unix).elim
      fixed := fun unset _ name named =>
        (links_eq_host_iff endpoint unset).mpr
          ((endpointHost_iff named).mpr (starts unset name named))
    }

/-- The readings agree on an endpoint that is not a bare path and, where its host is to be linked
to, starts with that host as it is written. Witness: by the cases of the prefixes that connecting
knows, each of which the other two readings tell apart or not.
-/
theorem readingsAgree_iff (endpoint : host.docker = some docker)
    (connects : connectEndpoint .named host = .ok branch)
    : ReadingsAgree host docker branch
      ↔ ¬ IsBarePath docker
        ∧ (publicHostSet host.publicHost = none → IsRemote docker
          → ∀ name, endpointName docker = some name → StartsWithHost docker name) := by
  rcases connectEndpoint_cases endpoint connects with
    ⟨rest, parts, rfl⟩ | ⟨rest, parts, rfl⟩ | ⟨scheme, member, rest, parts, notUnix⟩
  · have first : (trim docker).head? = some 'u' := by rw [parts]; rfl
    have near : ¬ IsRemote docker := fun remote =>
      ne_unix_of_isRemote endpoint connects remote rfl
    have notPath : ¬ IsBarePath docker := by
      rw [IsBarePath, first]
      decide
    constructor
    · intro _
      exact ⟨notPath, fun _ remote => (near remote).elim⟩
    · intro _
      exact {
        interval := by simp [isLocalEndpoint_unix endpoint parts]
        browser := fun unset _ => links_eq_browser endpoint unset near
        fixed := fun _ other => (other rfl).elim
      }
  · have path : IsBarePath docker := by rw [IsBarePath, parts]; rfl
    constructor
    · intro agree
      have isLocal := agree.interval.mp rfl
      rw [isLocalEndpoint_path endpoint parts] at isLocal
      cases isLocal
    · intro condition
      exact (condition.1 path).elim
  · have remote : IsRemote docker := ⟨scheme, member, rest, parts.symm⟩
    rw [readingsAgree_remote_iff endpoint remote notUnix]
    constructor
    · intro starts
      exact ⟨not_isBarePath_of_isRemote remote, fun unset _ => starts unset⟩
    · intro condition unset
      exact condition.2 unset remote

/-- The documented remote endpoints consist of the characters of names and of colons, by going
through name and port.
-/
theorem not_mem_hostPort {c : Char} (host : HostName) (port : Option HostPort)
    (notName : isNameChar c = false) (notColon : c ≠ ':')
    : c ∉ host.text ++ portSuffix port := by
  intro member
  rcases List.mem_append.mp member with inName | inPort
  · rw [host.chars c inName] at notName
    cases notName
  · cases port with
    | none => cases inPort
    | some digits =>
        rcases List.mem_cons.mp inPort with colon | inDigits
        · exact notColon colon
        · simp [isNameChar, Char.isAlphanum, digits.digits c inDigits] at notName

theorem head_portSuffix {port : Option HostPort} {c : Char}
    (first : c ∈ (portSuffix port).head?)
    : c = ':' := by
  cases port with
  | none => cases first
  | some digits =>
      cases first
      rfl

/-- The name of a documented endpoint is plain: none of what ends a name is one of its
characters.
-/
theorem plainName_hostName (host : HostName) : PlainName host.text := by
  have outside {c : Char} (notName : isNameChar c = false) : c ∉ host.text := by
    intro member
    rw [host.chars c member] at notName
    cases notName
  refine ⟨fun first => outside (by decide) (List.mem_of_head? first), ?_⟩
  intro c member
  constructor
  · rintro rfl
    exact outside (by decide) member
  · rintro rfl
    exact outside (by decide) member

/-- The documented remote endpoints, a scheme and a name with or without a port, name a host and
start with it: trimming leaves them alone, and nothing in them ends the name early.
-/
theorem documented_startsWithHost {scheme : Text} (member : scheme ∈ endpointSchemes)
    (host : HostName) (port : Option HostPort)
    : endpointName (scheme ++ (host.text ++ portSuffix port)) = some host.text
      ∧ StartsWithHost (scheme ++ (host.text ++ portSuffix port)) host.text := by
  have outside {c : Char} := not_mem_hostPort (c := c) host port
  have plain := plainName_hostName host
  refine ⟨?_, scheme, member, portSuffix port, .inl ⟨rfl, plain, ?_⟩⟩
  · have trimmed : trimEnd (host.text ++ portSuffix port) = host.text ++ portSuffix port := by
      refine List.rdropWhile_eq_self_iff.mpr (fun nonempty space => ?_)
      refine outside (c := List.getLast _ nonempty) ?_ ?_ (List.getLast_mem nonempty)
      · by_contra isName
        have graphic := isGraphic_of_isNameChar (Bool.eq_true_of_not_eq_false isName)
        rw [isWhitespace_of_isGraphic graphic] at space
        cases space
      · intro colon
        rw [colon] at space
        cases space
    have ends : ∀ c ∈ host.text ++ portSuffix port, UrlPaths.endsAuthority c = false := by
      intro c occurs
      by_contra stops
      have notName : isNameChar c = false ∧ c ≠ ':' := by
        simp only [UrlPaths.endsAuthority, UrlPaths.isSeparator, UrlPaths.endsPath,
          Bool.not_eq_false, Bool.or_eq_true, beq_iff_eq] at stops
        rcases stops with (rfl | rfl) | rfl | rfl <;> decide
      exact outside notName.1 notName.2 occurs
    have authority
        : Authorities.authority (scheme ++ (host.text ++ portSuffix port))
          = some (host.text ++ portSuffix port) := by
      have taken
          : (host.text ++ portSuffix port).takeWhile (!UrlPaths.endsAuthority ·)
            = host.text ++ portSuffix port :=
        List.takeWhile_eq_self_iff.mpr (fun c occurs => by simp [ends c occurs])
      simp only [endpointSchemes, List.mem_cons, List.not_mem_nil, or_false] at member
      rcases member with rfl | rfl | rfl
      all_goals exact congrArg some taken
    have named : host.text = (host.text ++ portSuffix port).takeWhile (· ≠ ':') := by
      refine eq_takeWhile_iff.mpr ⟨portSuffix port, rfl, ?_, ?_⟩
      · intro c inName
        simpa using (plain.2 c inName).2
      · intro c first
        simpa using head_portSuffix first
    have noBracket : (host.text ++ portSuffix port).head? ≠ some '[' := fun first =>
      outside (by decide) (by decide) (List.mem_of_head? first)
    rw [endpointName, trim_scheme member, trimmed, Authorities.host, authority, Option.bind_some,
      Authorities.host_of_plain (outside (by decide) (by decide)) noBracket, ← named]
    simp [host.nonempty]
  · intro c first
    exact .inr (head_portSuffix first)

/-- The readings of the documented remote endpoints agree, as they start with their host. -/
theorem readingsAgree_of_documented {scheme : Text} (member : scheme ∈ endpointSchemes)
    (name : HostName) (port : Option HostPort)
    (endpoint : host.docker = some (scheme ++ (name.text ++ portSuffix port)))
    (connects : connectEndpoint .named host = .ok branch)
    : ReadingsAgree host (scheme ++ (name.text ++ portSuffix port)) branch := by
  have documented := documented_startsWithHost member name port
  have remote := isRemote_scheme member (name.text ++ portSuffix port)
  refine (readingsAgree_remote_iff endpoint remote
    (ne_unix_of_isRemote endpoint connects remote)).mpr ?_
  intro _ read named
  rw [documented.1] at named
  cases named
  exact documented.2

end Agreement

section Findings

/-- The host that the configuration file describes by a name and an endpoint. -/
def dockerHost (name docker : Text) : HostConfig where
  name
  docker := some docker
  dockdoe := none
  token := none
  nodeHost := none
  publicHost := none
  intervalSecs := none
  tlsCa := none
  tlsInsecure := false

/-- A socket proxy with a port is read in one way, as documented. -/
theorem readingsAgree_nas
    : validateHosts [dockerHost "nas".toList "tcp://nas.lan:2375".toList] = .ok ()
      ∧ ReadingsAgree (dockerHost "nas".toList "tcp://nas.lan:2375".toList)
          "tcp://nas.lan:2375".toList .http := by
  refine ⟨rfl, (readingsAgree_iff rfl rfl).mpr ⟨by decide, ?_⟩⟩
  intro _ _ name named
  have tcp : "tcp://".toList ∈ endpointSchemes := by decide
  have documented :=
    documented_startsWithHost tcp ⟨"nas.lan".toList, by decide, List.all_eq_true.mp rfl⟩
      (some ⟨"2375".toList, List.all_eq_true.mp rfl⟩)
  have same := Option.some.inj (documented.1.symm.trans named)
  exact same ▸ documented.2

/-- A bare path is connected to as a socket and sampled as a remote endpoint. -/
theorem barePath_misread
    : validateHosts [dockerHost "local".toList "/var/run/docker.sock".toList] = .ok ()
      ∧ connectEndpoint .named (dockerHost "local".toList "/var/run/docker.sock".toList)
          = .ok .unix
      ∧ (dockerHost "local".toList "/var/run/docker.sock".toList).isLocalEndpoint = some false
      ∧ (dockerHost "local".toList "/var/run/docker.sock".toList).effectiveIntervalSecs 3
          = some 10
      ∧ ¬ ReadingsAgree (dockerHost "local".toList "/var/run/docker.sock".toList)
          "/var/run/docker.sock".toList .unix := by
  refine ⟨rfl, rfl, rfl, rfl, ?_⟩
  intro agree
  have isLocal := agree.interval.mp rfl
  cases isLocal

end Findings

end DockDoe
