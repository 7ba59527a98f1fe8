import Mathlib.Data.List.TakeWhile
import TptAsync.Http.HeadLoop
import TptAsync.Http.Requests

set_option autoImplicit false

/-!
# The lines of a head

What the parser accepts, it cuts at every CRLF: the first line into method, target and
version, and the others at their first colon.
-/

namespace TptAsync.Http

open Lib

/-- The lines of a text, cut at every CRLF; `current` is what the first line starts with. -/
def textLines (current : Bytes) : Bytes → List Bytes
  | first :: second :: rest =>
      if first = 13 ∧ second = 10 then current :: textLines [] rest
      else textLines (current ++ [first]) (second :: rest)
  | last => [current ++ last]

/-- What holds of a text holds by its lines. -/
theorem textLines_induction {motive : Bytes → Bytes → Prop}
    (lineEnd : ∀ current rest, motive [] rest → motive current (13 :: 10 :: rest))
    (inside : ∀ current first second rest, ¬ (first = 13 ∧ second = 10) →
      motive (current ++ [first]) (second :: rest) → motive current (first :: second :: rest))
    (last : ∀ current last, (∀ first second rest, last = first :: second :: rest → False) →
      motive current last) (current text : Bytes) : motive current text := by
  induction bound : text.length using Nat.strong_induction_on generalizing current text with
  | _ bound ih =>
      rcases text with _ | ⟨first, _ | ⟨second, rest⟩⟩
      · exact last current [] (by simp)
      · exact last current [first] (by simp)
      · simp only [List.length_cons] at bound
        by_cases ends : first = 13 ∧ second = 10
        · obtain ⟨rfl, rfl⟩ := ends
          exact lineEnd current rest (ih rest.length (by omega) [] rest rfl)
        · exact inside current first second rest ends
            (ih (rest.length + 1) (by omega) (current ++ [first]) (second :: rest) rfl)

/-- The header of a line: what stands before and behind its first colon. -/
def lineField (line : Bytes) : Field :=
  (line.takeWhile (· ≠ 58), (line.dropWhile (· ≠ 58)).drop 1)

theorem find_crlf_short {last : Bytes}
    (short : ∀ first second rest, last = first :: second :: rest → False) : find crlf last = none := by
  rcases last with _ | ⟨first, _ | ⟨second, rest⟩⟩
  · rfl
  · simp [find, crlf]
  · exact (short first second rest rfl).elim

theorem textLines_short {current last : Bytes}
    (short : ∀ first second rest, last = first :: second :: rest → False) :
    textLines current last = [current ++ last] := by
  rcases last with _ | ⟨first, _ | ⟨second, rest⟩⟩
  · rfl
  · rfl
  · exact (short first second rest rfl).elim

theorem collectLoop_short {buf last : Bytes} {skip start seen i : Nat} {out : List HeaderRange}
    (short : ∀ first second rest, last = first :: second :: rest → False) :
    collectLoop buf skip start seen i out last = collectLine skip seen start (buf.drop start) out := by
  rcases last with _ | ⟨first, _ | ⟨second, rest⟩⟩
  · rfl
  · rfl
  · exact (short first second rest rfl).elim

theorem textLines_first (current text : Bytes) : ∃ rest,
    textLines current text = (current ++ text.take ((find crlf text).getD text.length)) :: rest := by
  induction current, text using textLines_induction with
  | lineEnd current rest ih =>
      rw [textLines, if_pos ⟨rfl, rfl⟩]
      have here : find crlf (13 :: 10 :: rest) = some 0 := find_eq_zero (List.prefix_append crlf rest)
      exact ⟨textLines [] rest, by rw [here]; simp⟩
  | inside current first second rest inside ih =>
      rw [textLines, if_neg inside]
      obtain ⟨lines, shape⟩ := ih
      have away : ¬ crlf <+: first :: second :: rest := by
        rw [crlf, List.cons_prefix_cons, List.cons_prefix_cons]
        exact fun here => inside ⟨here.1.symm, here.2.1.symm⟩
      refine ⟨lines, ?_⟩
      rw [shape, find_cons_of_away away]
      cases find crlf (second :: rest) <;> simp
  | last current last short => exact ⟨[], by rw [textLines_short short, find_crlf_short short]; simp⟩

section Fields

theorem lineField_line {field : Field} (name : 58 ∉ field.1) : lineField field.line = field := by
  have before : ∀ byte ∈ field.1, decide (byte ≠ 58) = true := by
    intro byte member
    rw [decide_eq_true_iff]
    exact fun same => name (same ▸ member)
  rw [lineField, Field.line, List.takeWhile_append_of_pos before, List.dropWhile_append_of_pos before]
  simp

theorem exists_field {line : Bytes} (colon : 58 ∈ line) :
    ∃ field : Field, line = field.line ∧ 58 ∉ field.1 := by
  obtain ⟨before, after, shape, absent⟩ := List.eq_append_cons_of_mem colon
  exact ⟨(before, after), shape, absent⟩

theorem headerRanges_colon {start : Nat} {line : Bytes} {ranges : HeaderRange}
    (split : headerRanges start line = .ok ranges) : 58 ∈ line := by
  rw [headerRanges] at split
  by_contra missing
  have none : line.findIdx? (· = 58) = none := by
    rw [List.findIdx?_eq_none_iff]
    intro byte member
    rw [decide_eq_false_iff_not]
    exact fun same => missing (same ▸ member)
  rw [none] at split
  cases split

/-- The header that a line after the first becomes. -/
def lineHeader (line : Bytes) : Bytes × Bytes := ((lineField line).1, (lineField line).value)

/-- The header lines among the lines of a head; the first of all is not one. -/
def headerLines (seen : Nat) (lines : List Bytes) : List Bytes :=
  (lines.drop (1 - seen)).filter (· ≠ [])

theorem headerLines_cons (seen : Nat) (line : Bytes) (lines : List Bytes) :
    headerLines seen (line :: lines) = headerLines seen [line] ++ headerLines (seen + 1) lines := by
  cases seen with
  | zero => rfl
  | succ seen => by_cases empty : line = [] <;> simp [headerLines, empty]

theorem collectLine_header {whole before line after : Bytes} {seen : Nat} {out found : List HeaderRange}
    (shape : whole = before ++ (line ++ after))
    (collected : collectLine 1 seen before.length line out = .ok found) :
    (HeaderBlock.mk whole found).iter =
        (HeaderBlock.mk whole out).iter ++ (headerLines seen [line]).map lineHeader ∧
      ∀ header ∈ headerLines seen [line], 58 ∈ header := by
  rw [collectLine] at collected
  split at collected
  · next kept =>
      obtain ⟨seenPositive, nonempty⟩ := kept
      obtain ⟨ranges, split, collected⟩ := except_bind_ok collected
      obtain rfl := Except.ok.inj collected
      have colon := headerRanges_colon split
      obtain ⟨field, rfl, name⟩ := exists_field colon
      rw [headerRanges_line _ name] at split
      obtain rfl := Except.ok.inj split
      have lines : headerLines seen [field.line] = [field.line] := by
        simp [headerLines, Nat.sub_eq_zero_of_le seenPositive, nonempty]
      rw [lines]
      refine ⟨?_, by simpa using colon⟩
      simp only [HeaderBlock.iter, List.map_append, List.map_singleton, lineHeader,
        lineField_line name, shape]
      rw [field_slices before after field]
  · next skipped =>
      obtain rfl := Except.ok.inj collected
      have lines : headerLines seen [line] = [] := by
        rcases Nat.eq_zero_or_pos seen with rfl | seenPositive
        · rfl
        · have empty : line = [] := by
            by_contra nonempty
            exact skipped ⟨seenPositive, nonempty⟩
          have counted : 1 - seen = 0 := Nat.sub_eq_zero_of_le seenPositive
          simp [headerLines, empty, counted]
      simp [lines]

/-- The loop turns the lines into their headers, in order. -/
theorem collectLoop_lines {whole buf before current remaining after : Bytes} {seen : Nat}
    {out found : List HeaderRange} (shape : buf = before ++ (current ++ remaining))
    (wholeShape : whole = buf ++ after)
    (collected : collectLoop buf 1 before.length seen (before.length + current.length) out remaining =
      .ok found) :
    (HeaderBlock.mk whole found).iter =
        (HeaderBlock.mk whole out).iter ++
          (headerLines seen (textLines current remaining)).map lineHeader ∧
      ∀ line ∈ headerLines seen (textLines current remaining), 58 ∈ line := by
  induction current, remaining using textLines_induction generalizing before seen out with
  | lineEnd current rest ih =>
      rw [textLines, if_pos ⟨rfl, rfl⟩]
      rw [collectLoop, if_pos ⟨rfl, rfl⟩] at collected
      obtain ⟨middle, kept, collected⟩ := except_bind_ok collected
      have line : (Range.mk before.length (before.length + current.length)).slice buf = current := by
        simp [Range.slice, shape]
      rw [line] at kept
      have own := @collectLine_header whole before current (13 :: 10 :: rest ++ after) seen out middle
        (by simp [wholeShape, shape]) kept
      have positions : (before ++ (current ++ crlf)).length = before.length + current.length + 2 := by
        simp [crlf, Nat.add_assoc]
      have later := @ih (before ++ (current ++ crlf)) (seen + 1) middle (by simp [shape, crlf])
        (by rw [positions]; exact collected)
      rw [headerLines_cons]
      constructor
      · rw [later.1, own.1, List.map_append, List.append_assoc]
      · intro line member
        exact (List.mem_append.mp member).elim (own.2 line) (later.2 line)
  | inside current first second rest inside ih =>
      rw [textLines, if_neg inside]
      rw [collectLoop, if_neg inside] at collected
      refine @ih before seen out (by simp [shape]) ?_
      simpa [Nat.add_assoc] using collected
  | last current last short =>
      rw [textLines_short short]
      rw [collectLoop_short short, shape, List.drop_left] at collected
      exact collectLine_header (by rw [wholeShape, shape, List.append_assoc]) collected

theorem headerRanges_ok {line : Bytes} (start : Nat) (colon : 58 ∈ line) :
    ∃ ranges, headerRanges start line = .ok ranges := by
  obtain ⟨field, rfl, name⟩ := exists_field colon
  exact ⟨_, headerRanges_line start name⟩

theorem collectLine_ok {line : Bytes} {seen start : Nat} {out : List HeaderRange}
    (colons : ∀ header ∈ headerLines seen [line], 58 ∈ header) :
    ∃ found, collectLine 1 seen start line out = .ok found := by
  rw [collectLine]
  split
  · next kept =>
      obtain ⟨seenPositive, nonempty⟩ := kept
      have header : line ∈ headerLines seen [line] := by
        simp [headerLines, Nat.sub_eq_zero_of_le seenPositive, nonempty]
      obtain ⟨ranges, split⟩ := headerRanges_ok start (colons line header)
      exact ⟨out ++ [ranges], by rw [split]; rfl⟩
  · exact ⟨out, rfl⟩

/-- The loop succeeds if every header line has a colon. -/
theorem collectLoop_ok {buf before current remaining : Bytes} {seen : Nat} {out : List HeaderRange}
    (shape : buf = before ++ (current ++ remaining))
    (colons : ∀ line ∈ headerLines seen (textLines current remaining), 58 ∈ line) :
    ∃ found, collectLoop buf 1 before.length seen (before.length + current.length) out remaining =
      .ok found := by
  induction current, remaining using textLines_induction generalizing before seen out with
  | lineEnd current rest ih =>
      rw [textLines, if_pos ⟨rfl, rfl⟩, headerLines_cons, List.forall_mem_append] at colons
      have line : (Range.mk before.length (before.length + current.length)).slice buf = current := by
        simp [Range.slice, shape]
      obtain ⟨middle, kept⟩ := @collectLine_ok current seen before.length out colons.1
      have positions : (before ++ (current ++ crlf)).length = before.length + current.length + 2 := by
        simp [crlf, Nat.add_assoc]
      obtain ⟨found, later⟩ := @ih (before ++ (current ++ crlf)) (seen + 1) middle
        (by simp [shape, crlf]) colons.2
      refine ⟨found, ?_⟩
      rw [positions] at later
      rw [collectLoop, if_pos ⟨rfl, rfl⟩, line, kept]
      exact later
  | inside current first second rest inside ih =>
      rw [textLines, if_neg inside] at colons
      obtain ⟨found, later⟩ := @ih before seen out (by simp [shape]) colons
      refine ⟨found, ?_⟩
      rw [collectLoop, if_neg inside]
      simpa [Nat.add_assoc] using later
  | last current last short =>
      rw [textLines_short short] at colons
      rw [collectLoop_short short, shape, List.drop_left]
      exact collectLine_ok colons

end Fields

section RequestLine

/-- What a request line that the parser takes looks like. -/
structure RequestLine (line method target version : Bytes) : Prop where
  shape : line = method ++ 32 :: (target ++ 32 :: version)
  method : method ≠ [] ∧ method.all isTcharStrict = true
  target : target ≠ [] ∧ 32 ∉ target
  version : version = ascii "HTTP/1.1" ∨ version = ascii "HTTP/1.0"

theorem findIdx?_split {line : Bytes} {position : Nat}
    (found : line.findIdx? (· = 32) = some position) :
    ∃ before after, line = before ++ 32 :: after ∧ 32 ∉ before ∧ position = before.length := by
  have space : 32 ∈ line := by
    obtain ⟨inside, here, _⟩ := List.findIdx?_eq_some_iff_getElem.mp found
    exact of_decide_eq_true here ▸ List.getElem_mem inside
  obtain ⟨before, after, rfl, absent⟩ := List.eq_append_cons_of_mem space
  rw [WireRequest.findIdx?_space absent] at found
  exact ⟨before, after, rfl, absent, (Option.some.inj found).symm⟩

theorem parseRequestLine_ok {line : Bytes} {ranges : Range × Range × Version}
    (parsed : parseRequestLine line = .ok ranges) :
    ∃ method target version, RequestLine line method target version ∧
      ranges.1 = ⟨0, method.length⟩ ∧
      ranges.2.1 = ⟨method.length + 1, method.length + 1 + target.length⟩ ∧
      (ranges.2.2 = .http11 ∧ version = ascii "HTTP/1.1" ∨
        ranges.2.2 = .http10 ∧ version = ascii "HTTP/1.0") := by
  simp only [parseRequestLine] at parsed
  cases sp1 : line.findIdx? (· = 32) with
  | none => simp only [sp1] at parsed; cases parsed
  | some first =>
      obtain ⟨method, rest, rfl, _, rfl⟩ := findIdx?_split sp1
      have behind : (method ++ 32 :: rest).drop (method.length + 1) = rest := by
        rw [← List.singleton_append, ← List.append_assoc, List.drop_left' (by simp)]
      simp only [sp1, behind, List.take_left] at parsed
      split at parsed
      · cases parsed
      · next token =>
          cases sp2 : rest.findIdx? (· = 32) with
          | none => simp only [sp2] at parsed; cases parsed
          | some second =>
              obtain ⟨target, version, rfl, space, rfl⟩ := findIdx?_split sp2
              have last : (target ++ 32 :: version).drop (target.length + 1) = version := by
                rw [← List.singleton_append, ← List.append_assoc, List.drop_left' (by simp)]
              simp only [sp2, last, List.length_eq_zero_iff] at parsed token
              have name : method ≠ [] ∧ method.all isTcharStrict = true := by
                simpa using token
              split at parsed
              · cases parsed
              · next nonempty =>
                  refine ⟨method, target, version, ?_⟩
                  split at parsed
                  · next same =>
                      cases parsed
                      exact ⟨⟨rfl, name, ⟨nonempty, space⟩, .inl same⟩, rfl, rfl, .inl ⟨rfl, same⟩⟩
                  · split at parsed
                    · next same =>
                        cases parsed
                        exact ⟨⟨rfl, name, ⟨nonempty, space⟩, .inr same⟩, rfl, rfl, .inr ⟨rfl, same⟩⟩
                    · cases parsed

end RequestLine

/-- The bytes in front of the first blank line. -/
def headBytes (buf : Bytes) : Bytes := buf.take ((find headerDelim buf).getD buf.length)

theorem firstLine_take {buf : Bytes} {stop : Nat} {line : Range}
    (found : firstLine (buf.take stop) = some line) :
    line.start = 0 ∧ line.slice buf =
      (buf.take stop).take ((find crlf (buf.take stop)).getD (buf.take stop).length) := by
  have same : line.slice buf = line.slice (buf.take stop) := by
    have slice := @firstLine_slice (buf.take stop) (buf.drop stop) (buf.take stop).length line le_rfl
      (by rwa [List.take_length])
    rwa [List.take_append_drop] at slice
  rw [same]
  rw [firstLine] at found
  split at found
  · next position there =>
      cases found
      exact ⟨rfl, by rw [there]; rfl⟩
  · next missing =>
      split at found
      · cases found
        exact ⟨rfl, by rw [missing]; rfl⟩
      · cases found

section ParseHead

variable {β : Type} {empty : HttpError} {parseLine : Bytes → Except HttpError β}
  {place : β → Nat → (Range × Range) × Version × Option Nat} {buf : Bytes} {ranges : HeadRanges}

/-- An accepted head by its lines. -/
theorem parseHead_lines (accepted : parseHead empty parseLine place buf = .ok (some ranges)) :
    ∃ first lines parts, textLines [] (headBytes buf) = first :: lines ∧ first <+: buf ∧
      parseLine first = .ok parts ∧ (ranges.first, ranges.version, ranges.status) = place parts 0 ∧
      (HeaderBlock.mk buf ranges.headers).iter = (lines.filter (· ≠ [])).map lineHeader ∧
      ∀ line ∈ lines.filter (· ≠ []), 58 ∈ line := by
  obtain ⟨stop, line, parts, complete, first, parsed, collected, _, placed⟩ := parseHead_found accepted
  have text : headBytes buf = buf.take stop := by
    rw [headBytes, (findHeadEnd_some complete).1, Option.getD_some]
  obtain ⟨lines, cut⟩ := textLines_first [] (buf.take stop)
  rw [List.nil_append] at cut
  obtain ⟨start, whole⟩ := firstLine_take first
  rw [← whole] at cut
  have headers := @collectLoop_lines buf (buf.take stop) [] [] (buf.take stop) (buf.drop stop)
    0 [] ranges.headers rfl (List.take_append_drop stop buf).symm collected
  rw [cut] at headers
  refine ⟨line.slice buf, lines, parts, text ▸ cut, ?_, parsed, start ▸ placed, headers⟩
  rw [Range.slice, start]
  exact List.take_prefix _ _

/-- The header fields in the lines of a head. -/
def textFields (buf : Bytes) : List (Bytes × Bytes) :=
  ((textLines [] (headBytes buf)).tail.filter (· ≠ [])).map lineHeader

theorem parseHead_fields (accepted : parseHead empty parseLine place buf = .ok (some ranges)) :
    (HeaderBlock.mk buf ranges.headers).iter = textFields buf := by
  obtain ⟨_, lines, _, cut, _, _, _, iter, _⟩ := parseHead_lines accepted
  rw [textFields, cut, iter, List.tail_cons]

/-- A head is accepted if its first line is and every other line has a colon. -/
theorem parseHead_ok {stop : Nat} {first : Bytes} {lines : List Bytes} {parts : β}
    (complete : findHeadEnd buf = .ok (some stop))
    (cut : textLines [] (buf.take stop) = first :: lines) (nonempty : buf.take stop ≠ [])
    (parsed : parseLine first = .ok parts) (colons : ∀ line ∈ lines.filter (· ≠ []), 58 ∈ line) :
    ∃ ranges, parseHead empty parseLine place buf = .ok (some ranges) ∧ ranges.consumed = stop + 4 := by
  have found : ∃ line, firstLine (buf.take stop) = some line := by
    rw [firstLine]
    cases find crlf (buf.take stop) with
    | none => exact ⟨_, if_pos nonempty⟩
    | some position => exact ⟨_, rfl⟩
  obtain ⟨line, found⟩ := found
  have whole : line.slice buf = first := by
    obtain ⟨rest, cut'⟩ := textLines_first [] (buf.take stop)
    rw [List.nil_append, ← (firstLine_take found).2, cut] at cut'
    exact (List.cons.inj cut').1.symm
  have headers : ∀ line ∈ headerLines 0 (textLines [] (buf.take stop)), 58 ∈ line := by
    rw [cut]
    exact colons
  obtain ⟨headers, collected⟩ := @collectLoop_ok (buf.take stop) [] [] (buf.take stop) 0 [] rfl headers
  let ranges : HeadRanges := {
    first := (place parts line.start).1, version := (place parts line.start).2.1
    status := (place parts line.start).2.2, headers, consumed := stop + 4 }
  refine ⟨ranges, ?_, rfl⟩
  rw [parseHead, complete]
  simp only [bind, Except.bind, found, whole, parsed]
  rw [show collectHeaderRanges (buf.take stop) 1 = .ok headers from collected]
  rfl

end ParseHead

theorem parseRequestRanges_lines {buf : Bytes} {ranges : HeadRanges}
    (accepted : parseRequestRanges buf = .ok (some ranges)) :
    ∃ requestLine lines version, textLines [] (headBytes buf) = requestLine :: lines ∧
      RequestLine requestLine (RequestHead.fromRanges buf ranges).method
        (RequestHead.fromRanges buf ranges).target version ∧
      (RequestHead.fromRanges buf ranges).headers.iter = (lines.filter (· ≠ [])).map lineHeader ∧
      ∀ line ∈ lines.filter (· ≠ []), 58 ∈ line := by
  rw [parseRequestRanges_eq] at accepted
  obtain ⟨requestLine, lines, ⟨methodRange, targetRange, _⟩, cut, ⟨more, shape⟩, parsed, placed, headers⟩ :=
    parseHead_lines accepted
  obtain ⟨method, target, version, split, methodAt, targetAt, _⟩ := parseRequestLine_ok parsed
  refine ⟨requestLine, lines, version, cut, ?_, headers⟩
  obtain ⟨first, _⟩ := Prod.mk.inj placed
  subst methodAt targetAt
  convert split using 1
  · simp [RequestHead.method, RequestHead.fromRanges, first, offsetRange, Range.slice, ← shape,
      split.shape]
  · simp [RequestHead.target, RequestHead.fromRanges, first, offsetRange, Range.slice, ← shape,
      split.shape]

end TptAsync.Http
