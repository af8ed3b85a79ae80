/-!
# Byte sources

A file being read: the bytes still to come, and what asking for more than those gives. A read takes
all of its bytes or fails; a failed read uses up what was there, and the next one finds what the
source delivers after it.
-/

namespace Png

/-- The kinds of failures of a source. Only one is told from the others: a source may say by itself
that its bytes have ended too early. Interrupted reads are no failures, since they are tried again.
-/
inductive FaultKind where
  | unexpectedEnd
  | other
  deriving DecidableEq

/-- A failure of a source: its kind and its cause in words. -/
structure SourceFault where
  kind : FaultKind
  reason : String
  deriving DecidableEq

/-- Why a read got fewer bytes than it asked for. -/
inductive ReadFailure where
  /-- The file has ended. -/
  | ended
  /-- The source failed. -/
  | failed (fault : SourceFault)
  deriving DecidableEq

/-- The bytes still to come. A read past the last of them fails; a source that pauses has more bytes
after that, and without a pause it fails for good where `fault` says so, and has ended otherwise. -/
structure Source where
  rest : List UInt8
  /-- The failures that the source recovers from, each with the bytes that follow it. -/
  pauses : List (ReadFailure × List UInt8) := []
  fault : Option SourceFault := none
  deriving DecidableEq

namespace Source

/-- The failure of a read past the last byte. -/
def failure (s : Source) : ReadFailure :=
  match s.pauses, s.fault with
  | (failure, _) :: _, _ => failure
  | [], some fault => .failed fault
  | [], none => .ended

/-- The source behind its first `n` bytes. -/
def skip (s : Source) (n : Nat) : Source := { s with rest := s.rest.drop n }

/-- The source after a failed read. -/
def resumed (s : Source) : Source :=
  match s.pauses with
  | (_, rest) :: pauses => { s with rest, pauses }
  | [] => { s with rest := [] }

/-- Takes exactly `n` bytes. -/
def take (s : Source) (n : Nat) : Except ReadFailure (List UInt8) × Source :=
  let (bytes, rest) := s.rest.splitAt n
  if bytes.length = n then (.ok bytes, { s with rest }) else (.error s.failure, s.resumed)

/-- The source that delivers the first `n` of the bytes and then fails; if there are fewer, it ends
with them. -/
def failingAt (bytes : List UInt8) (n : Nat) (reason : String) (kind : FaultKind := .other) :
    Source :=
  if n ≤ bytes.length then { rest := bytes.take n, fault := some { kind, reason } }
  else { rest := bytes }

theorem take_eq (s : Source) (n : Nat) :
    s.take n =
      if n ≤ s.rest.length then (.ok (s.rest.take n), s.skip n)
      else (.error s.failure, s.resumed) := by
  simp only [take, List.splitAt_eq, List.length_take, skip]
  by_cases h : n ≤ s.rest.length
  · simp [h]
  · simp only [h, if_false]
    rw [if_neg (by omega)]

end Source

end Png
