import AnimeFeedFlux.Lib.Bytes
import AnimeFeedFlux.Time

/-!
# The jitter of a feed

Feeds that share a cron expression are spread over a window by an offset that is a hash of the
slug, so that every process computes the same one.
-/

namespace AnimeFeedFlux.Jitter

/-- `fnv.New64a`: FNV-1a. -/
def fnv64a (s : Bytes) : UInt64 :=
  s.foldl (fun h b => (h ^^^ b.toUInt64) * 1099511628211) 14695981039346656037

/-- `Offset`: in `[0, window)`. -/
def offset (slug : String) (window : ℤ) : ℤ :=
  if window ≤ 0 then 0 else (fnv64a (GoStrings.utf8 slug)).toNat % window

/-- `int(Offset(slug, window).Seconds())`. -/
def seconds (window : ℤ) (slug : String) : ℤ := offset slug window / Time.second

end AnimeFeedFlux.Jitter
