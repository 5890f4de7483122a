import TscServer.Spec.Upstream

/-!
# The text of a response

How the bytes of a response divide into the status line, the header lines and what follows the
blank line, whatever part of them is in the buffer when the handler looks.
-/

namespace TscServer.Proof
open Lib Model Spec ProxyHandler

/-! ## The header block -/

def Solid (lines : List Bytes) : Prop := ∀ line ∈ lines, 10 ∉ line ∧ line ≠ [13]

theorem getlines_block {line : Bytes} {lines : List Bytes} (solid : 10 ∉ line) (after : Bytes) :
    getlines (block (line :: lines) ++ crlf ++ after) =
      (line, some (block lines ++ crlf ++ after)) :: getlines (block lines ++ crlf ++ after) := by
  rw [← getlines_append solid]
  simp [block]

theorem getlines_blank (after : Bytes) :
    getlines (block [] ++ crlf ++ after) = ([13], some after) :: getlines after := by
  have blank : block [] ++ crlf ++ after = [13] ++ 10 :: after := rfl
  rw [blank, getlines_append (by decide)]

theorem linesRead_block (code : Nat) {lines : List Bytes} (solid : Solid lines) (after : Bytes) :
    headLines code (block lines ++ crlf ++ after) = linesRead code (lines.map (·, none)) := by
  induction lines with
  | nil => rw [headLines, getlines_blank, linesRead, if_pos rfl, List.map_nil, linesRead]
  | cons line lines ih =>
      have here := solid line (by simp)
      rw [headLines, getlines_block here.1, List.map_cons, linesRead, linesRead, ← ih, headLines]
      intro other mem
      exact solid other (List.mem_cons_of_mem line mem)

theorem linesRead_map {code : Nat} (other : code ≠ 302) {lines : List Bytes}
    (solid : Solid lines) : linesRead code (lines.map (·, none)) = lines := by
  induction lines with
  | nil => rfl
  | cons line lines ih =>
      rw [List.map_cons, linesRead, if_neg (solid line (by simp)).2, if_neg (fun h => other h.1), ih]
      intro rest mem
      exact solid rest (List.mem_cons_of_mem line mem)

theorem restAfter_block {lines : List Bytes} (solid : Solid lines) (after rest : Bytes) :
    restAfter (getlines (block lines ++ crlf ++ after)) rest = after := by
  induction lines generalizing rest with
  | nil => rw [getlines_blank, restAfter, if_pos rfl, Option.getD_some]
  | cons line lines ih =>
      have here := solid line (by simp)
      rw [getlines_block here.1, restAfter, if_neg here.2, ih]
      intro other mem
      exact solid other (List.mem_cons_of_mem line mem)

theorem blank_after_line {line rest : Bytes} (noFeed : 10 ∉ line) (solid : line ≠ [13])
    (blank : crlf <+: line ++ 10 :: rest ∨ crlfcrlf <:+: line ++ 10 :: rest) :
    crlf <+: rest ∨ crlfcrlf <:+: rest := by
  rcases blank with ⟨after, split⟩ | ⟨before, after, split⟩
  · have unique : [13] ++ 10 :: after = line ++ 10 :: rest := split
    exact absurd (line_unique (by decide) noFeed unique).1.symm solid
  · by_cases feed : 10 ∈ before
    · obtain ⟨first, second, rfl, noFeed'⟩ := List.eq_append_cons_of_mem feed
      have unique : first ++ 10 :: (second ++ crlfcrlf ++ after) = line ++ 10 :: rest := by
        simpa using split
      obtain ⟨-, rfl⟩ := line_unique noFeed' noFeed unique
      exact .inr ⟨second, after, rfl⟩
    · have unique : (before ++ [13]) ++ 10 :: (crlf ++ after) = line ++ 10 :: rest := by
        simpa [crlf, crlfcrlf] using split
      have noFeed' : 10 ∉ before ++ [13] := by simp [feed]
      obtain ⟨-, rfl⟩ := line_unique noFeed' noFeed unique
      exact .inl ⟨after, rfl⟩

theorem exists_block {s : Bytes} (blank : crlf <+: s ∨ crlfcrlf <:+: s) :
    ∃ lines after, Solid lines ∧ s = block lines ++ crlf ++ after := by
  induction length : s.length using Nat.strongRecOn generalizing s with
  | ind n ih =>
      have feed : 10 ∈ s := by
        rcases blank with first | inside
        · exact first.subset (by decide)
        · exact inside.subset (by decide)
      obtain ⟨line, rest, rfl, noFeed⟩ := List.eq_append_cons_of_mem feed
      by_cases solid : line = [13]
      · exact ⟨[], rest, by simp [Solid], by simp [solid, block, crlf]⟩
      · have shorter : rest.length < n := by
          rw [← length, List.length_append, List.length_cons]
          omega
        obtain ⟨lines, after, others, rfl⟩ :=
          ih rest.length shorter (blank_after_line noFeed solid blank) rfl
        exact ⟨line :: lines, after, by simpa [Solid] using ⟨⟨noFeed, solid⟩, others⟩, by simp [block]⟩

theorem headLines_prefix (code : Nat) {buf all : Bytes} (blank : crlfcrlf <:+: buf) (front : buf <+: all) :
    headLines code buf = headLines code all := by
  obtain ⟨more, rfl⟩ := front
  obtain ⟨lines, after, solid, rfl⟩ := exists_block (.inr blank)
  rw [List.append_assoc _ after more, linesRead_block code solid, linesRead_block code solid]

theorem restAfter_append {buf : Bytes} (blank : crlfcrlf <:+: buf) (rest rest' more : Bytes) :
    restAfter (getlines buf) rest ++ more = restAfter (getlines (buf ++ more)) rest' := by
  obtain ⟨lines, after, solid, rfl⟩ := exists_block (.inr blank)
  rw [List.append_assoc _ after more, restAfter_block solid, restAfter_block solid]

/-! ## The status line -/

theorem line_of_readUntil {line rest : Bytes} {chunks chunks' : List Bytes} {buf : Bytes}
    (noFeed : 10 ∉ line) (bytes : chunks.flatten = line ++ crlf ++ rest)
    (read : readUntil crlf chunks [] = some (buf, chunks')) :
    ∃ tail, buf = line ++ crlf ++ tail ∧ tail ++ chunks'.flatten = rest := by
  have feed : 10 ∈ buf := (readUntil_contains read).subset (by decide)
  obtain ⟨first, tail, rfl, noFeed'⟩ := List.eq_append_cons_of_mem feed
  have all : first ++ 10 :: (tail ++ chunks'.flatten) = (line ++ [13]) ++ 10 :: rest := by
    have moved := readUntil_append read
    rw [List.nil_append, bytes] at moved
    simpa [crlf] using moved
  obtain ⟨rfl, same⟩ := line_unique noFeed' (by simp [noFeed]) all
  exact ⟨tail, by simp [crlf], same⟩

theorem extractToken_text {version rest : Bytes} (nonempty : version ≠ [])
    (solid : ∀ c ∈ version, notSpace c = true) (stops : ∀ c ∈ rest.head?, notSpace c = false)
    (more : rest ≠ []) :
    IStream.extractToken { buf := version ++ rest } = (some version, { buf := rest }) := by
  have skipped : IStream.skipBlanks { buf := version ++ rest } = some (version ++ rest) := by
    cases version with
    | nil => exact absurd rfl nonempty
    | cons c version =>
        have here : isSpace c = false := by simpa [notSpace] using solid c (by simp)
        simp [IStream.skipBlanks, IStream.good, here]
  have taken : (version ++ rest).takeWhile (!isSpace ·) = version := takeWhile_append_stop solid stops
  have dropped : (version ++ rest).dropWhile (!isSpace ·) = rest := dropWhile_append_stop solid stops
  simp [IStream.extractToken, skipped, taken, dropped, more]

theorem extractUnsigned_text {code : Nat} (range : code < 2 ^ 32) {rest : Bytes}
    (stops : ∀ c ∈ rest.head?, isDigit c = false) (more : rest ≠ []) :
    IStream.extractUnsigned { buf := 32 :: (toDecimal code ++ rest) } =
      (some code, { buf := rest }) := by
  have digits : ∀ c ∈ toDecimal code, isDigit c = true := isDigit_of_mem_toDecimal
  obtain ⟨c, more_digits, number⟩ := List.exists_cons_of_ne_nil (toDecimal_ne_nil code)
  have digit : isDigit c = true := digits c (by simp [number])
  have skipped : IStream.skipBlanks { buf := 32 :: (toDecimal code ++ rest) } =
      some (toDecimal code ++ rest) := by
    have blank : isSpace 32 = true := by decide
    simp [IStream.skipBlanks, IStream.good, blank, number, isSpace_of_isDigit_false digit]
  have unsigned : splitSign (toDecimal code ++ rest) = (false, toDecimal code ++ rest) := by
    rw [number]
    exact splitSign_of_digit digit
  have taken := takeWhile_append_stop digits stops
  have dropped := dropWhile_append_stop digits stops
  have fits : ¬ 2 ^ 32 ≤ code := Nat.not_le.mpr range
  simp only [IStream.extractUnsigned, skipped, unsigned, taken, dropped, toDecimal_ne_nil,
    decimal_toDecimal, fits, if_false, List.isEmpty_eq_false_iff.mpr more, Bool.false_eq_true]

theorem getline_text {line : Bytes} (noFeed : 10 ∉ line) (rest : Bytes) :
    IStream.getline { buf := line ++ 10 :: rest } = (some line, { buf := rest }) := by
  have others : ∀ c ∈ line, (c != 10) = true := fun c mem => by
    simpa using fun feed : c = 10 => noFeed (feed ▸ mem)
  have stops : ∀ c ∈ (10 :: rest : Bytes).head?, (c != 10) = false := by simp
  simp [IStream.getline, IStream.good, takeWhile_append_stop others stops,
    dropWhile_append_stop others stops]

theorem notLineEnd_ne {s : Bytes} (h : ∀ c ∈ s, notLineEnd c = true) : 10 ∉ s := fun feed =>
  absurd (h 10 feed) (by decide)

theorem readStatusLine_text {t : StatusText} (wf : t.WellFormed) (tail : Bytes) :
    readStatusLine (t.toBytes ++ crlf ++ tail) =
      ({ version := t.version, code := some t.code, message := t.reason ++ [13] },
        { buf := tail }) := by
  have text : t.toBytes ++ crlf ++ tail =
      t.version ++ 32 :: (toDecimal t.code ++ (t.reason ++ [13] ++ 10 :: tail)) := by
    simp [StatusText.toBytes, crlf]
  have range : t.code < 2 ^ 32 := by
    have := wf.code_range.2
    omega
  have stops : ∀ c ∈ (t.reason ++ [13] ++ 10 :: tail).head?, isDigit c = false := by
    cases reason : t.reason with
    | nil => simpa using (by decide : isDigit 13 = false)
    | cons c rest =>
        have blank := wf.reason_head c (by simp [reason])
        simpa [blank] using (by decide : isDigit 32 = false)
  have noFeed : 10 ∉ t.reason ++ [13] := by simp [notLineEnd_ne wf.reason_bytes]
  rw [readStatusLine, text,
    extractToken_text wf.version_ne_nil wf.version_bytes (by simpa using (by decide)) (by simp)]
  simp only [extractUnsigned_text range stops (by simp), getline_text noFeed, Option.getD_some]

theorem statusText_noFeed {t : StatusText} (wf : t.WellFormed) : 10 ∉ t.toBytes := by
  have version : 10 ∉ t.version := fun feed => absurd (wf.version_bytes 10 feed) (by decide)
  have number : 10 ∉ toDecimal t.code := fun feed =>
    absurd (isDigit_of_mem_toDecimal 10 feed) (by decide)
  simp [StatusText.toBytes, version, number, notLineEnd_ne wf.reason_bytes]

theorem statusLine_toBytes (t : StatusText) :
    StatusLine.toBytes { version := t.version, code := some t.code, message := t.reason ++ [13] }
      t.code = t.toBytes ++ crlf := by
  simp [StatusLine.toBytes, StatusText.toBytes, crlf, bytes]

/-! ## A whole response -/

theorem delivery_failed {t : StatusText} (wf : t.WellFormed) {rest : Bytes} {chunks : List Bytes}
    (text : chunks.flatten = t.toBytes ++ crlf ++ rest) (noBlank : ¬ crlfcrlf <:+: rest) (eof : Bool) :
    delivery (.stream chunks eof) = .failed := by
  cases first : readUntil crlf chunks [] with
  | none => simp [delivery, first]
  | some read =>
      obtain ⟨buf, chunks'⟩ := read
      obtain ⟨tail, rfl, rfl⟩ := line_of_readUntil (statusText_noFeed wf) text first
      have second : readUntil crlfcrlf chunks' tail = none := readUntil_eq_none_iff.mpr noBlank
      simp only [delivery, first, readStatusLine_text wf, second]

theorem delivery_text {t : StatusText} (wf : t.WellFormed) {rest : Bytes} {chunks : List Bytes}
    (text : chunks.flatten = t.toBytes ++ crlf ++ rest) (blank : crlfcrlf <:+: rest) (eof : Bool) :
    ∃ d, delivery (.stream chunks eof) = .response d ∧ d.line.toBytes d.code = t.toBytes ++ crlf ∧
      d.code = t.code ∧ d.eof = eof ∧ d.lines = headLines t.code rest ∧
      d.body = restAfter (getlines rest) [] := by
  cases first : readUntil crlf chunks [] with
  | none =>
      rw [readUntil_eq_none_iff, List.nil_append, text] at first
      exact absurd ⟨t.toBytes, rest, rfl⟩ first
  | some read =>
      obtain ⟨buf, chunks'⟩ := read
      obtain ⟨tail, rfl, rfl⟩ := line_of_readUntil (statusText_noFeed wf) text first
      cases second : readUntil crlfcrlf chunks' tail with
      | none => exact absurd blank (readUntil_eq_none_iff.mp second)
      | some read' =>
          obtain ⟨buf', chunks''⟩ := read'
          have inBuffer := readUntil_contains second
          have moved := readUntil_append second
          refine ⟨_, by simp only [delivery, first, readStatusLine_text wf, second]; rfl,
            statusLine_toBytes t, rfl, rfl, ?_, ?_⟩
          · exact headLines_prefix t.code inBuffer ⟨chunks''.flatten, moved⟩
          · rw [← moved]
            exact restAfter_append inBuffer buf' [] chunks''.flatten

/-! ## Lines without line feeds -/

theorem extractToken_noFeed (stream : IStream) : 10 ∉ (stream.extractToken.1).getD [] := by
  rw [IStream.extractToken]
  cases stream.skipBlanks with
  | none => simp
  | some b =>
      intro feed
      have solid : (!isSpace 10) = true := List.mem_takeWhile_imp (p := (!isSpace ·)) feed
      exact absurd solid (by decide)

theorem getline_noFeed (stream : IStream) : 10 ∉ (stream.getline.1).getD [] := by
  rw [IStream.getline]
  split
  · split
    · intro feed
      have other : ((10 : UInt8) != 10) = true := List.mem_takeWhile_imp (p := (· != 10)) feed
      exact absurd other (by decide)
    · rename_i whole
      intro feed
      have other := List.dropWhile_eq_nil_iff.mp whole 10 feed
      exact absurd other (by decide)
  · simp

theorem linesRead_subset {code : Nat} {entries : List (Bytes × Option Bytes)} :
    linesRead code entries ⊆ entries.map Prod.fst := by
  induction entries with
  | nil => exact List.Subset.refl _
  | cons entry entries ih =>
      obtain ⟨line, after⟩ := entry
      rw [linesRead, List.map_cons]
      split
      · exact List.nil_subset _
      · split
        · exact List.cons_subset_cons line (List.nil_subset _)
        · exact List.cons_subset_cons line ih

-- the status line and the header lines are lines
structure OneLine (d : Delivered) : Prop where
  statusLine : 10 ∉ d.statusLine
  lines : ∀ line ∈ d.lines, 10 ∉ line

theorem delivery_oneLine {answer : Answer} {d : Delivered} (arrived : delivery answer = .response d) :
    OneLine d := by
  cases answer with
  | error errorInfo => cases arrived
  | stream chunks eof =>
      rw [delivery] at arrived
      split at arrived
      · cases arrived
      · rename_i buf chunks' first
        simp only at arrived
        split at arrived
        · cases arrived
        · rename_i code number
          split at arrived
          · cases arrived
          · cases arrived
            constructor
            · have digits : 10 ∉ toDecimal code := fun feed =>
                absurd (isDigit_of_mem_toDecimal 10 feed) (by decide)
              have version := extractToken_noFeed { buf }
              have message := getline_noFeed (IStream.extractUnsigned (IStream.extractToken { buf }).2).2
              simp only [Delivered.statusLine, readStatusLine, List.mem_append, not_or]
              exact ⟨⟨⟨version, by decide⟩, digits⟩, message⟩
            · intro line mem
              obtain ⟨entry, member, rfl⟩ := List.mem_map.mp (linesRead_subset mem)
              split at member
              · exact lineFeed_notMem_getlines entry member
              · cases member

theorem getlines_raw {d : Delivered} (oneLine : OneLine d) :
    getlines d.raw = (d.statusLine, some (block (d.lines.map List.dropLast) ++ crlf ++ d.body)) ::
      getlines (block (d.lines.map List.dropLast) ++ crlf ++ d.body) := by
  have text : d.raw = d.statusLine ++ 10 :: (block (d.lines.map List.dropLast) ++ crlf ++ d.body) := by
    simp [Delivered.raw, Delivered.statusLine, StatusLine.toBytes, block, crlf, List.flatMap_map]
  rw [text, getlines_append oneLine.statusLine]

theorem statusLineOf_raw {answer : Answer} {d : Delivered} (arrived : delivery answer = .response d) :
    statusLineOf d.raw = d.statusLine := by
  rw [statusLineOf, getlines_raw (delivery_oneLine arrived)]
  rfl

theorem statusLine_of_toBytes {d : Delivered} {t : StatusText}
    (line : d.line.toBytes d.code = t.toBytes ++ crlf) : d.statusLine = t.toBytes ++ [13] := by
  have fed : d.statusLine ++ [10] = (t.toBytes ++ [13]) ++ [10] := by
    rw [List.append_assoc]
    exact line
  exact List.append_cancel_right fed

theorem OneLine.dropLast {d : Delivered} (oneLine : OneLine d) :
    ∀ header ∈ d.lines.map List.dropLast, 10 ∉ header := by
  intro header mem
  obtain ⟨line, member, rfl⟩ := List.mem_map.mp mem
  exact fun feed => oneLine.lines line member (List.dropLast_subset line feed)

theorem rawLines_solid {m : UpstreamResponse} (wf : m.WellFormed) : Solid m.rawLines := by
  intro raw mem
  obtain ⟨line, member, rfl⟩ := List.mem_map.mp mem
  have noFeed := notLineEnd_ne (wf.lines_bytes line member)
  have nonempty := wf.lines_ne_nil line member
  exact ⟨by simp [noFeed], by simp [nonempty]⟩

theorem blank_of_lines {m : UpstreamResponse} (nonempty : m.lines ≠ []) :
    crlfcrlf <:+: block m.rawLines ++ crlf ++ m.body := by
  obtain ⟨front, line, split⟩ := List.eq_nil_or_concat m.lines |>.resolve_left nonempty
  refine ⟨block (front.map (· ++ [13])) ++ line, m.body, ?_⟩
  simp [UpstreamResponse.rawLines, split, block, crlf, crlfcrlf]

theorem rawLines_dropLast (m : UpstreamResponse) :
    m.rawLines.flatMap (fun line => line.dropLast ++ [10]) = m.lines.flatMap (· ++ [10]) := by
  simp [UpstreamResponse.rawLines, List.flatMap_map]

theorem headLines_message {m : UpstreamResponse} (wf : m.WellFormed) (final : m.status.code ≠ 302) :
    headLines m.status.code (block m.rawLines ++ crlf ++ m.body) = m.rawLines ∧
      restAfter (getlines (block m.rawLines ++ crlf ++ m.body)) [] = m.body := by
  have solid := rawLines_solid wf
  exact ⟨by rw [linesRead_block _ solid, linesRead_map final solid], restAfter_block solid _ _⟩

theorem toBytes_eq_block (m : UpstreamResponse) :
    m.toBytes = m.status.toBytes ++ crlf ++ (block m.rawLines ++ crlf ++ m.body) := by
  simp [UpstreamResponse.toBytes, UpstreamResponse.rawLines, block, List.flatMap_map, crlf]

end TscServer.Proof
