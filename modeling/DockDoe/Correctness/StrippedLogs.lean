import DockDoe.Model.LogLines

/-! When stripping the escape sequences of a log keeps exactly its plain characters. A bare
escape takes the character behind it along, so bare escapes are harmless only in pairs.
-/

namespace DockDoe

/-- A part of a log text. -/
inductive LogToken
  | plain (c : Char) (visible : c ≠ '\x1b')
  | csi (params : Text) (final : Char) (inRange : ∀ c ∈ params, ' ' ≤ c ∧ c ≤ '?')
      (ends : '@' ≤ final ∧ final ≤ '~')
  | escape

namespace LogToken

def text : LogToken → Text
  | .plain c _ => [c]
  | .csi params final _ _ => '\x1b' :: '[' :: (params ++ [final])
  | .escape => ['\x1b']

/-- The characters of a token that are no part of an escape sequence. -/
def plainText : LogToken → Text
  | .plain c _ => [c]
  | .csi _ _ _ _ | .escape => []

/-- A bare escape does not introduce what follows it. -/
def Follows : LogToken → LogToken → Prop
  | .escape, .plain c _ => c ≠ '['
  | _, _ => True

end LogToken

open LogToken

/-- The bare escapes of a text, those at its end apart, come in pairs. -/
def Paired : List LogToken → Prop
  | [] => True
  | .plain _ _ :: rest | .csi _ _ _ _ :: rest => Paired rest
  | [.escape] => True
  | .escape :: .escape :: rest => Paired rest
  | .escape :: .plain _ _ :: _ | .escape :: .csi _ _ _ _ :: _ => False

section Stripping

@[simp]
theorem stripAnsi_nil : stripAnsi [] = [] := by
  rw [stripAnsi.eq_def]

/-- A visible character is kept. -/
theorem stripAnsi_plain {c : Char} (visible : c ≠ '\x1b') (chars : Text)
    : stripAnsi (c :: chars) = c :: stripAnsi chars := by
  rw [stripAnsi.eq_def]
  exact if_neg visible

/-- A bare escape takes the next character along. -/
theorem stripAnsi_escape {next : Char} (bare : next ≠ '[') (chars : Text)
    : stripAnsi ('\x1b' :: next :: chars) = stripAnsi chars := by
  rw [stripAnsi.eq_def]
  exact (if_pos rfl).trans (if_neg bare)

/-- A sequence is skipped up to its final character, by induction on its parameters, none of
which ends it.
-/
theorem skipSequence_csi {params : Text} {final : Char}
    (inRange : ∀ c ∈ params, ' ' ≤ c ∧ c ≤ '?') (ends : '@' ≤ final ∧ final ≤ '~')
    (chars : Text)
    : skipSequence (params ++ final :: chars) = chars := by
  induction params with
  | nil => rw [List.nil_append, skipSequence, if_pos ends]
  | cons seq params ih =>
      have low : ¬ ('@' ≤ seq ∧ seq ≤ '~') := by
        intro final
        have bound := (inRange seq List.mem_cons_self).2
        exact absurd (final.1.trans bound) (by decide)
      rw [List.cons_append, skipSequence, if_neg low]
      exact ih (fun c member => inRange c (List.mem_cons_of_mem _ member))

/-- A complete sequence leaves nothing. -/
theorem stripAnsi_csi {params : Text} {final : Char}
    (inRange : ∀ c ∈ params, ' ' ≤ c ∧ c ≤ '?') (ends : '@' ≤ final ∧ final ≤ '~')
    (chars : Text)
    : stripAnsi ('\x1b' :: '[' :: (params ++ final :: chars)) = stripAnsi chars := by
  rw [stripAnsi.eq_def]
  exact (if_pos rfl).trans ((if_pos rfl).trans (by rw [skipSequence_csi inRange ends]))

@[simp]
theorem stripAnsi_last_escape : stripAnsi ['\x1b'] = [] := by
  rw [stripAnsi.eq_def]
  rfl

/-- Behind an introducer that was taken, the rest of a sequence passes for text. -/
theorem stripAnsi_visible {params : Text} (visible : ∀ c ∈ params, c ≠ '\x1b') (chars : Text)
    : stripAnsi (params ++ chars) = params ++ stripAnsi chars := by
  induction params with
  | nil => rfl
  | cons c params ih =>
      rw [List.cons_append, stripAnsi_plain (visible c List.mem_cons_self),
        ih (fun d member => visible d (List.mem_cons_of_mem _ member)), List.cons_append]

end Stripping

section Tokens

variable {tokens : List LogToken}

/-- The text of tokens. -/
def logText (tokens : List LogToken) : Text :=
  tokens.flatMap LogToken.text

/-- The plain characters of tokens, in their order. -/
def plainLog (tokens : List LogToken) : Text :=
  tokens.flatMap LogToken.plainText

@[simp]
theorem logText_cons (token : LogToken) (rest : List LogToken)
    : logText (token :: rest) = token.text ++ logText rest := rfl

@[simp]
theorem plainLog_cons (token : LogToken) (rest : List LogToken)
    : plainLog (token :: rest) = token.plainText ++ plainLog rest := rfl

/-- A sequence whose escape was taken along leaves its other characters, none of which is an
escape.
-/
theorem stripAnsi_escape_csi {params : Text} {final : Char}
    (inRange : ∀ c ∈ params, ' ' ≤ c ∧ c ≤ '?') (ends : '@' ≤ final ∧ final ≤ '~')
    (chars : Text)
    : stripAnsi ('\x1b' :: '\x1b' :: '[' :: (params ++ final :: chars))
      = '[' :: (params ++ final :: stripAnsi chars) := by
  have visible : ∀ c ∈ params ++ [final], c ≠ '\x1b' := by
    intro c member escape
    rcases List.mem_append.mp member with inParams | last
    · rw [escape] at inParams
      exact absurd (inRange _ inParams).1 (by decide)
    · rw [← List.mem_singleton.mp last, escape] at ends
      exact absurd ends.1 (by decide)
  have rest := stripAnsi_visible visible chars
  rw [List.append_assoc, List.append_assoc, List.singleton_append, List.singleton_append] at rest
  rw [stripAnsi_escape (by decide), stripAnsi_plain (by decide), rest]

/-- What is left of a text with plain characters: at least its brackets, and without more of
them no more characters, and all of them only under a condition.
-/
structure Leaves (plain left : Text) (condition : Prop) : Prop where
  brackets : plain.count '[' ≤ left.count '['
  length : plain.count '[' = left.count '[' → left.length ≤ plain.length
  whole : plain.count '[' = left.count '[' → left.length = plain.length → condition

theorem Leaves.nil : Leaves [] [] True :=
  ⟨le_rfl, fun _ => le_rfl, fun _ _ => trivial⟩

/-- A plain character that is kept. -/
theorem Leaves.keep {plain left : Text} {condition : Prop} (leaves : Leaves plain left condition)
    (c : Char)
    : Leaves (c :: plain) (c :: left) condition := by
  obtain ⟨brackets, length, whole⟩ := leaves
  constructor <;> simp only [List.count_cons, List.length_cons]
  · omega
  · intro same
    have := length (by omega)
    omega
  · intro same full
    exact whole (by omega) (by omega)

/-- A plain character that is dropped, and is no bracket. -/
theorem Leaves.drop {plain left : Text} {condition : Prop} (leaves : Leaves plain left condition)
    {c : Char} (other : c ≠ '[')
    : Leaves (c :: plain) left False := by
  obtain ⟨brackets, length, _⟩ := leaves
  constructor <;> simp only [List.count_cons_of_ne other, List.length_cons]
  · exact brackets
  · intro same
    have := length same
    omega
  · intro same full
    have := length same
    omega

/-- Characters that are not plain, with a bracket among them. -/
theorem Leaves.extra {plain left : Text} {condition : Prop} (leaves : Leaves plain left condition)
    (chars : Text)
    : Leaves plain ('[' :: (chars ++ left)) False := by
  have brackets := leaves.brackets
  have more : plain.count '[' < ('[' :: (chars ++ left)).count '[' := by
    rw [List.count_cons_self, List.count_append]
    omega
  exact ⟨more.le, fun same => absurd same more.ne, fun same => absurd same more.ne⟩

/-- What stripping leaves of tokens, and that all of it is plain only if they are paired. -/
theorem leaves_stripAnsi
    : ∀ {tokens : List LogToken}, tokens.IsChain Follows
      → Leaves (plainLog tokens) (stripAnsi (logText tokens)) (Paired tokens)
  | [], _ => by simpa [logText, plainLog, Paired] using Leaves.nil
  | .plain c visible :: rest, separate => by
      have kept := (leaves_stripAnsi separate.tail).keep c
      rw [← stripAnsi_plain visible] at kept
      exact kept
  | .csi params final inRange ends :: rest, separate => by
      have stripped := leaves_stripAnsi separate.tail
      rw [← stripAnsi_csi inRange ends] at stripped
      simpa [LogToken.text, LogToken.plainText, Paired] using stripped
  | [.escape], _ => by
      simpa [logText, plainLog, LogToken.text, LogToken.plainText, Paired] using Leaves.nil
  | .escape :: .escape :: rest, separate => by
      have eaten := stripAnsi_escape (show '\x1b' ≠ '[' by decide) (logText rest)
      have stripped : Leaves (plainLog rest) (stripAnsi (logText rest)) (Paired rest) :=
        leaves_stripAnsi separate.tail.tail
      rw [← eaten] at stripped
      exact stripped
  | .escape :: .plain c visible :: rest, separate => by
      have notBracket : c ≠ '[' := (List.isChain_cons_cons.mp separate).1
      have dropped := (leaves_stripAnsi separate.tail.tail).drop notBracket
      rw [← stripAnsi_escape notBracket] at dropped
      exact dropped
  | .escape :: .csi params final inRange ends :: rest, separate => by
      have eaten := stripAnsi_escape_csi inRange ends (logText rest)
      have stripped : Leaves (plainLog rest) (stripAnsi (logText rest)) (Paired rest) :=
        leaves_stripAnsi separate.tail.tail
      have extra := stripped.extra (params ++ [final])
      rw [List.append_assoc, List.singleton_append, ← eaten] at extra
      simpa [LogToken.text, LogToken.plainText, Paired] using extra

/-- Paired escapes leave nothing behind. -/
theorem stripAnsi_of_paired
    : ∀ {tokens : List LogToken}, Paired tokens
      → stripAnsi (logText tokens) = plainLog tokens
  | [], _ => stripAnsi_nil
  | .plain c visible :: rest, paired => by
      have ih : stripAnsi (logText rest) = plainLog rest := stripAnsi_of_paired paired
      rw [logText_cons, plainLog_cons, ← ih]
      exact stripAnsi_plain visible _
  | .csi params final inRange ends :: rest, paired => by
      have ih : stripAnsi (logText rest) = plainLog rest := stripAnsi_of_paired paired
      have done := (stripAnsi_csi inRange ends (logText rest)).trans ih
      simpa [LogToken.text, LogToken.plainText] using done
  | [.escape], _ => stripAnsi_last_escape
  | .escape :: .escape :: rest, paired =>
      (stripAnsi_escape (by decide) (logText rest)).trans (stripAnsi_of_paired paired)

/-- Stripping a log that consists of plain characters, complete sequences and bare escapes keeps
exactly the plain characters when its bare escapes, those at the end apart, come in pairs, by
induction on the tokens: an escape takes the token behind it, whatever it is.
-/
theorem stripAnsi_eq_plainLog_iff (separate : tokens.IsChain Follows)
    : stripAnsi (logText tokens) = plainLog tokens ↔ Paired tokens := by
  constructor
  · intro same
    have leaves := leaves_stripAnsi separate
    rw [same] at leaves
    exact leaves.whole rfl rfl
  · exact stripAnsi_of_paired

end Tokens

/-- A coloured word, with a pair of bare escapes in front of it. -/
def pairedTokens : List LogToken :=
  [.escape, .escape, .csi "31".toList 'm' (by simp) (by decide), .plain 'r' (by decide)]

theorem stripAnsi_pairedTokens : stripAnsi (logText pairedTokens) = ['r'] := by
  have separate : pairedTokens.IsChain Follows := by simp [pairedTokens, Follows]
  exact (stripAnsi_eq_plainLog_iff separate).mpr (by simp [pairedTokens, Paired])

/-- A bare escape in front of a word. -/
def escapedWord : List LogToken :=
  [.escape, .plain 'o' (by decide), .plain 'k' (by decide)]

/-- The first letter of the word is taken along. -/
theorem stripAnsi_escapedWord
    : escapedWord.IsChain Follows
      ∧ plainLog escapedWord = "ok".toList
      ∧ stripAnsi (logText escapedWord) = "k".toList := by
  refine ⟨by simp [escapedWord, Follows], rfl, ?_⟩
  have text : logText escapedWord = ['\x1b', 'o', 'k'] := rfl
  rw [text, stripAnsi_escape (by decide), stripAnsi_plain (by decide), stripAnsi_nil]
  rfl

end DockDoe
