/-!
# Source spans

A span is a pair of byte positions in a source text, the second one exclusive. Spans say where a
token or an expression stands; nothing requires `start ≤ stop`.

* `Span.merge` is the least span around two spans.
* `Span.point` is the empty span at a position.
* `Span.write` is its text, `start..stop`.
-/

namespace FixpointLisp

/-- The bytes from `start` up to, and not including, `stop`. -/
structure Span where
  start : Nat
  stop : Nat
  deriving DecidableEq, Repr

namespace Span

/-- The empty span at a position. -/
def point (n : Nat) : Span := ⟨n, n⟩

/-- The span from the smaller start to the larger stop. -/
def merge (s t : Span) : Span := ⟨min s.start t.start, max s.stop t.stop⟩

/-- Whether a span covers no byte. -/
def isEmpty (s : Span) : Bool := s.stop ≤ s.start

/-- The same span `n` bytes further on. -/
def shift (n : Nat) (s : Span) : Span := ⟨s.start + n, s.stop + n⟩

/-- The text of a span. -/
def write (s : Span) : String := s.start.repr ++ ".." ++ s.stop.repr

theorem merge_comm (s t : Span) : s.merge t = t.merge s := by
  simp only [merge, Nat.min_comm, Nat.max_comm]

theorem merge_assoc (s t u : Span) : (s.merge t).merge u = s.merge (t.merge u) := by
  simp only [merge, Nat.min_assoc, Nat.max_assoc]

@[simp] theorem merge_self (s : Span) : s.merge s = s := by
  simp [merge]

end Span
end FixpointLisp
