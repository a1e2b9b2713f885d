import DockDoe.Foundations.UrlPaths

/-! The host that the authority of a URL names. -/

namespace Authorities

open Cuts

/-- What a URL has between its scheme and its path. -/
def authority (url : List Char) : Option (List Char) :=
  (cut "://".toList url).map (fun parts => parts.2.takeWhile (!UrlPaths.endsAuthority ·))

/-- The host and the port of an authority, without the user in front of them. -/
def hostPort (authority : List Char) : List Char :=
  match cutLast '@' authority with
  | none => authority
  | some (_, after) => after

/-- The host in front of a port. A literal address stands in brackets. -/
def hostOfHostPort : List Char → Option (List Char)
  | '[' :: literal => (cut [']'] literal).map Prod.fst
  | name => some (name.takeWhile (· ≠ ':'))

/-- The host of a URL, if it names one. -/
def host (url : List Char) : Option (List Char) :=
  ((authority url).bind (fun written => hostOfHostPort (hostPort written))).filter (· ≠ [])

/-- An authority of names and ports only is read up to its port: there is no user to cut off and
no bracket to look for.
-/
theorem host_of_plain {written : List Char} (noUser : '@' ∉ written)
    (noBracket : written.head? ≠ some '[')
    : hostOfHostPort (hostPort written) = some (written.takeWhile (· ≠ ':')) := by
  have whole : hostPort written = written := by
    rw [hostPort, cutLast_eq_none_iff.mpr noUser]
  rw [whole]
  cases written with
  | nil => rfl
  | cons first rest =>
      unfold hostOfHostPort
      split
      next same =>
        cases same
        exact absurd rfl noBracket
      next => rfl

/-- A host is no longer than where it is written, by cases on whether that starts with a bracket. -/
theorem length_le_of_hostOfHostPort {written name : List Char}
    (named : hostOfHostPort written = some name)
    : name.length ≤ written.length := by
  unfold hostOfHostPort at named
  split at named
  next literal =>
    obtain ⟨parts, found, rfl⟩ := Option.map_eq_some_iff.mp named
    obtain ⟨whole, _⟩ := eq_append_of_cut found
    rw [whole]
    simp
    omega
  next =>
    cases named
    exact (List.takeWhile_sublist _).length_le

/-- An authority that starts with a bracket and does not close it names what is behind a user,
which is shorter. Without a user it would name nothing.
-/
theorem length_lt_of_unclosed {written name : List Char} (unclosed : ']' ∉ written)
    (named : hostOfHostPort (hostPort ('[' :: written)) = some name)
    : name.length < written.length := by
  unfold hostPort at named
  cases users : cutLast '@' ('[' :: written) with
  | none =>
      simp only [users, hostOfHostPort, cut_eq_none_iff.mpr unclosed] at named
      cases named
  | some parts =>
      simp only [users] at named
      have short := length_le_of_hostOfHostPort named
      have whole := eq_append_of_cutLast users
      cases before : parts.1 with
      | nil =>
          rw [before] at whole
          cases whole
      | cons first rest =>
          have lengths := congrArg List.length whole
          rw [before] at lengths
          simp at lengths
          omega

end Authorities
