import DockDoe.Foundations.FallibleLists
import DockDoe.Model.LogLines

/-! The logs panel slices every log text between characters. A line has its timestamp marked
when it starts with one, and is shown unchanged otherwise.
-/

namespace DockDoe

open ByteSlices

/-- A point in time down to its second; `d` stands for a digit. -/
def stampTemplate : Text :=
  ['d', 'd', 'd', 'd', '-', 'd', 'd', '-', 'd', 'd', 'T', 'd', 'd', ':', 'd', 'd', ':', 'd', 'd']

/-- A byte is the character of the template, or one of those it stands for. -/
def MatchesMark (mark : Char) (byte : UInt8) : Prop :=
  if mark = 'd' then '0'.toUInt8 ≤ byte ∧ byte ≤ '9'.toUInt8 else byte = mark.toUInt8

/-- A timestamp of the daemon. -/
structure IsTimestamp (ts : Text) : Prop where
  ends : ts.getLast? = some 'Z'
  long : 20 ≤ (asBytes ts).length
  stamp : List.Forall₂ MatchesMark stampTemplate ((asBytes ts).take 19)

/-- What a line has in front of its first space is a timestamp. -/
structure Timestamped (line ts msg : Text) : Prop where
  whole : line = ts ++ ' ' :: msg
  firstSpace : ' ' ∉ ts
  timestamp : IsTimestamp ts

/-- How a line is shown. -/
inductive ShownAs (line : Text) : List Markup → Prop
  | timestamped (stamp rest msg : Text) (isTimestamped : Timestamped line (stamp ++ rest) msg)
    (seconds : asBytes stamp = (asBytes (stamp ++ rest)).take 19)
    : ShownAs line [
        .span "log-ts".toList [("data-ts".toList, stamp ++ ['Z'])] (replacen 'T' [' '] 1 stamp),
        .text [' '],
        .text msg,
        .text ['\n']
      ]
  | unchanged (plain : ∀ ts msg, ¬ Timestamped line ts msg)
    : ShownAs line [.text line, .text ['\n']]

section Timestamps

/-- The check at a position is that of the template's character there. -/
theorem patternOkAt_iff {i : ℕ} (inside : i < stampTemplate.length) (byte : UInt8)
    : patternOkAt i byte = true ↔ MatchesMark (stampTemplate.get ⟨i, inside⟩) byte := by
  have bound : i < 19 := inside
  interval_cases i
  all_goals
    first
      | exact Bool.and_eq_true_iff.trans (and_congr decide_eq_true_iff decide_eq_true_iff)
      | exact beq_iff_eq

/-- The checks of all positions are those of the template's characters. Both sides are read
position by position.
-/
theorem patternOk_iff {b : List UInt8} (long : 20 ≤ b.length)
    : (b.take 19).zipIdx.all (fun entry => patternOkAt entry.2 entry.1) = true
      ↔ List.Forall₂ MatchesMark stampTemplate (b.take 19) := by
  have size : stampTemplate.length = (b.take 19).length := by
    rw [List.length_take, Nat.min_eq_left ((Nat.le_succ 19).trans long)]
    rfl
  rw [List.all_eq_true, List.forall₂_iff_get]
  constructor
  · intro checks
    refine ⟨size, ?_⟩
    intro i inside insideStamp
    exact (patternOkAt_iff inside _).mp
      (checks (_, i) (List.mem_zipIdx_iff_getElem?.mpr (List.getElem?_eq_getElem insideStamp)))
  · intro fits entry member
    obtain ⟨insideStamp, byte⟩ :=
      List.getElem?_eq_some_iff.mp (List.mem_zipIdx_iff_getElem?.mp member)
    have inside : entry.2 < stampTemplate.length := by
      rw [size]
      exact insideStamp
    rw [patternOkAt_iff inside, ← byte]
    exact fits.2 entry.2 inside insideStamp

/-- What stands for an ASCII character of the template is ASCII: a digit, or that character
itself.
-/
theorem ascii_of_matchesMark {mark : Char} {byte : UInt8} (ascii : mark.toNat < 0x80)
    (fits : MatchesMark mark byte)
    : byte.toNat < 0x80 := by
  unfold MatchesMark at fits
  split at fits
  next =>
    have small : byte.toNat ≤ '9'.toUInt8.toNat := UInt8.le_iff_toNat_le.mp fits.2
    exact small.trans_lt (by decide)
  next =>
    have value : byte.toNat = mark.toNat % 2 ^ 8 := by
      rw [fits]
      exact UInt32.toNat_toUInt8 mark.val
    omega

theorem ascii_of_stamp {stamp : List UInt8}
    (fits : List.Forall₂ MatchesMark stampTemplate stamp)
    : ∀ byte ∈ stamp, byte.toNat < 0x80 := by
  have ascii : ∀ mark ∈ stampTemplate, mark.toNat < 0x80 := by
    simp [stampTemplate]
  intro byte member
  obtain ⟨i, inside, rfl⟩ := List.mem_iff_getElem.mp member
  have insideTemplate : i < stampTemplate.length := by
    rw [fits.length_eq]
    exact inside
  exact ascii_of_matchesMark (ascii _ (List.getElem_mem insideTemplate))
    (fits.get insideTemplate inside)

/-- A timestamp can be sliced behind its seconds. Witness: everything up to there is ASCII. -/
theorem IsTimestamp.textTo_stamp {ts : Text} (timestamp : IsTimestamp ts)
    : ∃ stamp rest,
        ts = stamp ++ rest
        ∧ asBytes stamp = (asBytes ts).take 19
        ∧ textTo 19 ts = .ok stamp :=
  textTo_of_ascii ((Nat.le_succ 19).trans timestamp.long) (ascii_of_stamp timestamp.stamp)

/-- Of what ends like a timestamp the checks decide whether it is one. -/
theorem splitLogTimestamp_of_cut {line ts msg : Text}
    (found : Cuts.cut [' '] line = some (ts, msg)) (long : 20 ≤ (asBytes ts).length)
    (ends : ts.getLast? = some 'Z')
    : splitLogTimestamp line
      = .ok
          (if ((asBytes ts).take 19).zipIdx.all (fun entry => patternOkAt entry.2 entry.1) then
            some (ts, msg)
          else
            none) := by
  have kept : ¬ ((asBytes ts).length < 20 ∨ ts.getLast? ≠ some 'Z') := by
    simpa [ends] using long
  unfold splitLogTimestamp
  simp only [found, if_neg kept, bytesTo, if_pos ((Nat.le_succ 19).trans long)]
  rfl

/-- A line is split when what precedes its first space is a timestamp: the checks pass one after
another.
-/
theorem splitLogTimestamp_timestamped {line ts msg : Text}
    (isTimestamped : Timestamped line ts msg)
    : splitLogTimestamp line = .ok (some (ts, msg)) := by
  obtain ⟨whole, firstSpace, timestamp⟩ := isTimestamped
  have found : Cuts.cut [' '] line = some (ts, msg) := by
    rw [whole]
    exact Cuts.cut_append firstSpace msg
  rw [splitLogTimestamp_of_cut found timestamp.long timestamp.ends,
    if_pos ((patternOk_iff timestamp.long).mpr timestamp.stamp)]

/-- A line is not split when what precedes its first space is no timestamp, by cases on the check
that fails first.
-/
theorem splitLogTimestamp_plain {line : Text} (plain : ∀ ts msg, ¬ Timestamped line ts msg)
    : splitLogTimestamp line = .ok none := by
  cases found : Cuts.cut [' '] line with
  | none => rw [splitLogTimestamp, found]
  | some parts =>
      obtain ⟨ts, msg⟩ := parts
      obtain ⟨whole, firstSpace⟩ := Cuts.eq_append_of_cut found
      by_cases dropped : (asBytes ts).length < 20 ∨ ts.getLast? ≠ some 'Z'
      · unfold splitLogTimestamp
        simp only [found, if_pos dropped]
        rfl
      · obtain ⟨notShort, notOther⟩ := not_or.mp dropped
        have long : 20 ≤ (asBytes ts).length := Nat.not_lt.mp notShort
        have ends : ts.getLast? = some 'Z' := not_not.mp notOther
        rw [splitLogTimestamp_of_cut found long ends, if_neg]
        intro checks
        exact plain ts msg ⟨whole, firstSpace, ends, long, (patternOk_iff long).mp checks⟩

end Timestamps

/-- Every line is shown, by cases on whether it is timestamped. A timestamp is ASCII, so cutting
out its time of day never splits a character.
-/
theorem renderLogLine_shown (line : Text)
    : ∃ shown, renderLogLine line = .ok shown ∧ ShownAs line shown := by
  by_cases isTimestamped : ∃ ts msg, Timestamped line ts msg
  · obtain ⟨ts, msg, isTimestamped⟩ := isTimestamped
    obtain ⟨stamp, rest, rfl, seconds, sliced⟩ := isTimestamped.timestamp.textTo_stamp
    refine ⟨_, ?_, .timestamped stamp rest msg isTimestamped seconds⟩
    rw [renderLogLine, splitLogTimestamp_timestamped isTimestamped]
    change (textTo 19 _ >>= _) = _
    rw [sliced]
    rfl
  · have plain : ∀ ts msg, ¬ Timestamped line ts msg := by simpa using isTimestamped
    refine ⟨_, ?_, .unchanged plain⟩
    rw [renderLogLine, splitLogTimestamp_plain plain]
    rfl

/-- A line with a character across the nineteenth byte is shown as it is. -/
example
    : renderLogLine "2026-06-12T10:15:3éZ started".toList
      = .ok [.text "2026-06-12T10:15:3éZ started".toList, .text ['\n']] :=
  rfl

theorem renderLogLines_shown (text : Text)
    : ∃ shown,
        renderLogLines text = .ok shown.flatten
        ∧ List.Forall₂ ShownAs (linesOf text) shown := by
  obtain ⟨shown, rendered, each⟩ :=
    FallibleLists.mapM_forall₂ (fun line (_ : line ∈ linesOf text) => renderLogLine_shown line)
  refine ⟨shown, ?_, each⟩
  rw [renderLogLines, rendered]
  rfl

/-- The logs panel of a container is answered, whatever was fetched: what is stripped of its
escapes is rendered like any text.
-/
theorem containerLogs_answers (fetched : Except Text Text)
    : ∃ shown, containerLogs fetched = .ok shown := by
  unfold containerLogs
  split
  next text =>
    split
    next => exact ⟨_, rfl⟩
    next =>
      obtain ⟨shown, rendered, _⟩ := renderLogLines_shown (stripAnsi text)
      exact ⟨_, rendered⟩
  next => exact ⟨_, rfl⟩

/-- No log text takes the panel down: all its slices end between two characters. A line is split
exactly at a timestamp in front of its first space, whose first 19 bytes are ASCII and so whole
characters; any other line is shown as it is. So the panel is always answered.
-/
theorem renderLogLines_safe (text : Text)
    : (∃ shown,
          renderLogLines text = .ok shown.flatten
          ∧ List.Forall₂ ShownAs (linesOf text) shown)
      ∧ (∀ line,
          (∀ ts msg, splitLogTimestamp line = .ok (some (ts, msg)) ↔ Timestamped line ts msg)
          ∧ (∀ ts msg,
              Timestamped line ts msg
              → ∃ stamp rest,
                  ts = stamp ++ rest
                  ∧ asBytes stamp = (asBytes ts).take 19
                  ∧ textTo 19 ts = .ok stamp)
          ∧ (splitLogTimestamp line = .ok none ↔ ∀ ts msg, ¬ Timestamped line ts msg))
      ∧ ∀ fetched, ∃ shown, containerLogs fetched = .ok shown := by
  refine ⟨renderLogLines_shown text, ?_, containerLogs_answers⟩
  intro line
  have sliced (ts msg : Text) (isTimestamped : Timestamped line ts msg) :=
    isTimestamped.timestamp.textTo_stamp
  by_cases isTimestamped : ∃ ts msg, Timestamped line ts msg
  · obtain ⟨ts, msg, isTimestamped⟩ := isTimestamped
    have split := splitLogTimestamp_timestamped isTimestamped
    refine ⟨?_, sliced, iff_of_false ?_ (fun plain => plain ts msg isTimestamped)⟩
    · intro otherTs otherMsg
      refine ⟨?_, splitLogTimestamp_timestamped⟩
      intro same
      rw [split] at same
      cases same
      exact isTimestamped
    · rw [split]
      nofun
  · have plain : ∀ ts msg, ¬ Timestamped line ts msg := by simpa using isTimestamped
    have split := splitLogTimestamp_plain plain
    refine ⟨?_, sliced, iff_of_true split plain⟩
    intro ts msg
    refine iff_of_false ?_ (plain ts msg)
    rw [split]
    nofun

end DockDoe
