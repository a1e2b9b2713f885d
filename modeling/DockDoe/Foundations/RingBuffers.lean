import Mathlib

/-! Buffers of a bounded number of samples, of which the oldest is dropped for a new one. One
that is fed frame by frame, and forgotten with a frame that has nothing for it, holds the end of
the latest stretch without such a frame.
-/

namespace RingBuffers

variable {α : Type u}

/-- `push` a sample, and `shift` the oldest one out of a buffer that is full. -/
def push (bound : ℕ) (buffer : List α) (a : α) : List α :=
  let grown := buffer ++ [a]
  if bound < grown.length then grown.tail else grown

/-- A frame's samples. -/
def feed (bound : ℕ) (buffer frame : List α) : List α :=
  if frame.isEmpty then [] else frame.foldl (push bound) buffer

/-- The end of the latest stretch of frames that have samples. -/
def trail (bound : ℕ) (frames : List (List α)) : List α :=
  (frames.rtakeWhile (fun frame => !frame.isEmpty)).flatten.rtake bound

/-- Cutting a list to its end before it grows changes nothing about its end. -/
theorem rtake_append_rtake (bound : ℕ) (samples more : List α)
    : (samples.rtake bound ++ more).rtake bound = (samples ++ more).rtake bound := by
  simp only [List.rtake_eq_reverse_take_reverse, List.reverse_append, List.reverse_reverse,
    List.take_append, List.take_take]
  rw [Nat.min_eq_left (Nat.sub_le _ _)]

theorem length_rtake_le (bound : ℕ) (samples : List α) : (samples.rtake bound).length ≤ bound := by
  rw [List.rtake, List.length_drop]
  omega

/-- A push into a buffer within its bound. -/
theorem push_eq_rtake {bound : ℕ} {buffer : List α} (short : buffer.length ≤ bound) (a : α)
    : push bound buffer a = (buffer ++ [a]).rtake bound := by
  have length : (buffer ++ [a]).length = buffer.length + 1 := List.length_append
  rw [push, List.rtake, length]
  by_cases full : bound < buffer.length + 1
  · rw [if_pos full, show buffer.length + 1 - bound = 1 by omega, List.drop_one]
  · rw [if_neg full, show buffer.length + 1 - bound = 0 by omega, List.drop_zero]

/-- A buffer holds the end of what is pushed, by induction on the samples. -/
theorem foldl_push {bound : ℕ} (buffer samples : List α)
    : samples.foldl (push bound) (buffer.rtake bound) = (buffer ++ samples).rtake bound := by
  induction samples generalizing buffer with
  | nil => rw [List.foldl_nil, List.append_nil]
  | cons a rest ih =>
      rw [List.foldl_cons, push_eq_rtake (length_rtake_le bound buffer), rtake_append_rtake, ih,
        List.append_assoc]
      rfl

/-- Frame by frame a buffer holds the trail, by induction on the frames. -/
theorem foldl_feed (bound : ℕ) (frames : List (List α))
    : frames.foldl (feed bound) [] = trail bound frames := by
  induction frames using List.reverseRecOn with
  | nil => simp [trail]
  | append_singleton frames frame ih =>
      rw [List.foldl_concat, ih, feed, trail, trail]
      cases empty : frame.isEmpty with
      | true => simp [empty]
      | false =>
          rw [if_neg (by simp), foldl_push, List.rtakeWhile_concat, if_pos (by simp [empty]),
            List.flatten_concat]

/-- A trail ends with the last sample of the last frame. -/
theorem getLast?_trail {bound : ℕ} (positive : 0 < bound) (frames : List (List α))
    {frame : List α} (nonempty : frame ≠ [])
    : (trail bound (frames ++ [frame])).getLast? = frame.getLast? := by
  have filled : (!frame.isEmpty) = true := by
    simpa using nonempty
  rw [trail, List.rtakeWhile_concat, if_pos filled, List.flatten_concat,
    List.rtake_eq_reverse_take_reverse, List.getLast?_reverse, List.head?_take,
    if_neg positive.ne', List.head?_reverse, List.getLast?_append_of_ne_nil _ nonempty]

end RingBuffers
