import DockDoe.Model.Collectors
import DockDoe.Model.HistoryQueries

/-! The windows of history requests: which are accepted, which are served from raw samples,
and how coarsely they are grouped.
-/

namespace DockDoe

/-- Selectable named history ranges. -/
def historyRanges : List (Text × Duration) :=
  [("1h".toList, .fromSecs 3600),
    ("6h".toList, .fromSecs (6 * 3600)),
    ("24h".toList, .fromSecs (24 * 3600)),
    ("7d".toList, .fromSecs (7 * 24 * 3600)),
    ("30d".toList, .fromSecs (30 * 24 * 3600))]

/-- Either a named range or a free window. -/
structure HistoryQuery where
  range : Option Text
  sinceMs : Option ℕ
  untilMs : Option ℕ

/-- A resolved history request window. -/
structure HistoryWindow where
  sinceMs : ℕ
  untilMs : ℕ
  groupMs : ℕ
  /-- Serve from raw samples instead of trend buckets. -/
  raw : Bool

/-- How many points a response aims for at most. -/
def targetPoints : ℕ :=
  1440

/-- Downsample group for a window, in whole minutes. -/
def groupForWindow (windowMs : ℕ) : ℕ :=
  -- `div_ceil` by a minute.
  max ((windowMs / targetPoints + 59999) / 60000) 1 * 60000

/-- Downsample group for the raw path: not in whole minutes. -/
def rawGroupForWindow (windowMs : ℕ) : ℕ :=
  max (windowMs / targetPoints) 1

/-- The window that a query asks for. -/
def HistoryQuery.bounds (q : HistoryQuery) (now : ℕ) : Option (ℕ × ℕ) :=
  match q.range, q.sinceMs, q.untilMs with
  | some range, none, none =>
      (historyRanges.find? (fun r => r.1 == range)).map (fun (_, window) =>
        (now - durationMs window, now))
  | none, some sinceMs, some untilMs =>
      if sinceMs < untilMs then some (sinceMs, untilMs) else none
  | _, _, _ => none

/-- Resolve a history query into a concrete window, or none if it is neither a known named
range nor a plausible custom window.
-/
def resolveHistory (q : HistoryQuery) (seedWindow : Duration) (now : ℕ)
    : Option HistoryWindow :=
  (q.bounds now).map (fun (sinceMs, untilMs) => {
    sinceMs
    untilMs
    groupMs := groupForWindow (untilMs - sinceMs)
    raw := sinceMs ≥ now - durationMs seedWindow
  })

end DockDoe
