import TscServer.Lib.Numeral

/-!
# Formatted input

`std::istream` over a buffer of bytes: `operator>>` for strings and unsigned numbers, and
`std::getline`. A stream that has met the end of its buffer or failed is no longer `good`, and then
every extraction fails and leaves its variable untouched.
-/

namespace TscServer.Lib

structure IStream where
  buf : Bytes
  eof : Bool := false
  fail : Bool := false

namespace IStream

def good (s : IStream) : Bool := !s.eof && !s.fail

/-- Skip blanks as the sentry of formatted input does; `none` when the stream is not good after. -/
def skipBlanks (s : IStream) : Option Bytes :=
  if s.good then
    match s.buf.dropWhile isSpace with
    | [] => none
    | b => some b
  else none

def failed (s : IStream) : IStream :=
  if s.good then { buf := [], eof := true, fail := true } else { s with fail := true }

/-- `operator>>` for a string; `none` leaves the variable untouched. -/
def extractToken (s : IStream) : Option Bytes × IStream :=
  match s.skipBlanks with
  | none => (none, s.failed)
  | some b =>
      let rest := b.dropWhile (!isSpace ·)
      (some (b.takeWhile (!isSpace ·)), { s with buf := rest, eof := rest.isEmpty })

/-- `operator>>` for an `unsigned int`; `none` leaves the variable untouched. Without digits the
value is zero, out of range it is the largest one, and in both cases the stream fails. -/
def extractUnsigned (s : IStream) : Option Nat × IStream :=
  match s.skipBlanks with
  | none => (none, s.failed)
  | some b =>
      let (negative, b) := splitSign b
      let digits := b.takeWhile isDigit
      let rest := b.dropWhile isDigit
      let after : IStream := { s with buf := rest, eof := rest.isEmpty }
      if digits = [] then (some 0, { after with fail := true })
      else if 2 ^ 32 ≤ decimal digits then (some (2 ^ 32 - 1), { after with fail := true })
      else
        (some (if negative then (2 ^ 32 - decimal digits) % 2 ^ 32 else decimal digits), after)

/-- `std::getline`; `none` leaves the variable untouched. The line feed is taken and dropped. -/
def getline (s : IStream) : Option Bytes × IStream :=
  if s.good then
    match s.buf.dropWhile (· != 10) with
    | _ :: rest => (some (s.buf.takeWhile (· != 10)), { s with buf := rest })
    | [] => (some s.buf, { buf := [], eof := true, fail := s.buf.isEmpty })
  else (none, { s with fail := true })

end IStream

/-- What successive calls of `getline` read from a buffer: each line, and the bytes after its line
feed or `none` when the end of the buffer came first. -/
def getlines : Bytes → List (Bytes × Option Bytes)
  | [] => []
  | c :: s =>
      if c = 10 then ([], some s) :: getlines s
      else
        match getlines s with
        | [] => [([c], none)]
        | (line, rest) :: lines => (c :: line, rest) :: lines

@[simp] theorem getlines_nil : getlines [] = [] := rfl

@[simp] theorem getlines_lineFeed (s : Bytes) : getlines (10 :: s) = ([], some s) :: getlines s := by
  simp [getlines]

theorem getlines_append {line : Bytes} (h : 10 ∉ line) (s : Bytes) :
    getlines (line ++ 10 :: s) = (line, some s) :: getlines s := by
  induction line with
  | nil => simp
  | cons c line ih =>
      simp only [List.mem_cons, not_or] at h
      rw [List.cons_append, getlines, if_neg (Ne.symm h.1), ih h.2]

theorem line_unique {line line' s s' : Bytes} (h : 10 ∉ line) (h' : 10 ∉ line')
    (same : line ++ 10 :: s = line' ++ 10 :: s') : line = line' ∧ s = s' := cut_unique h h' same

theorem getlines_cases (s : Bytes) :
    s = [] ∨ (10 ∉ s ∧ getlines s = [(s, none)]) ∨
      ∃ line rest, 10 ∉ line ∧ s = line ++ 10 :: rest ∧ getlines s = (line, some rest) :: getlines rest := by
  by_cases feed : 10 ∈ s
  · obtain ⟨line, rest, rfl, noFeed⟩ := List.eq_append_cons_of_mem feed
    exact .inr (.inr ⟨line, rest, noFeed, rfl, getlines_append noFeed rest⟩)
  · induction s with
    | nil => exact .inl rfl
    | cons c s ih =>
        simp only [List.mem_cons, not_or] at feed
        refine .inr (.inl ⟨by simpa using feed, ?_⟩)
        rw [getlines, if_neg (Ne.symm feed.1)]
        rcases ih feed.2 with rfl | ⟨-, lines⟩ | ⟨line, rest, -, rfl, -⟩
        · rfl
        · rw [lines]
        · simp at feed

theorem lineFeed_notMem_getlines {s : Bytes} : ∀ entry ∈ getlines s, 10 ∉ entry.1 := by
  induction s with
  | nil => simp
  | cons c s ih =>
      by_cases h : c = 10
      · subst h
        simpa using ih
      · rw [getlines, if_neg h]
        cases found : getlines s with
        | nil => simpa using Ne.symm h
        | cons first lines =>
            rw [found] at ih
            intro entry member
            rcases List.mem_cons.mp member with rfl | member
            · simpa using ⟨Ne.symm h, ih first (by simp)⟩
            · exact ih entry (by simp [member])

end TscServer.Lib
