import Mathlib.Data.List.Forall2
import TptAsync.Http.Lines
import TptAsync.Http.StatusLine

set_option autoImplicit false

/-!
# The ranges of a head

Every range of an accepted head lies in front of the blank line, and the lines of the head can
be put together again from what the ranges lead to.
-/

namespace TptAsync.Http

open Lib

def Range.InBounds (range : Range) (length : Nat) : Prop :=
  range.start ≤ range.stop ∧ range.stop ≤ length

instance (range : Range) (length : Nat) : Decidable (range.InBounds length) :=
  inferInstanceAs (Decidable (_ ∧ _))

/-- Indexing with a range, `none` where it panics. -/
def Range.index? (range : Range) (buf : Bytes) : Option Bytes :=
  if range.InBounds buf.length then some (range.slice buf) else none

/-- All ranges of a head. -/
def HeadRanges.all (ranges : HeadRanges) : List Range :=
  ranges.first.1 :: ranges.first.2 :: ranges.headers.flatMap fun header => [header.1, header.2]

/-- Lines with their positions in the text that they are cut from. -/
def placeLines (start : Nat) : List Bytes → List (Nat × Bytes)
  | [] => []
  | line :: lines => (start, line) :: placeLines (start + line.length + 2) lines

/-- The placed lines that become headers: the first of the head is not one, nor is an empty one. -/
def keptLines (seen : Nat) (placed : List (Nat × Bytes)) : List (Nat × Bytes) :=
  (placed.drop (1 - seen)).filter (·.2 ≠ [])

/-- A line at `start` and the ranges of its header: its name ends at the first colon, and its value
is without the blanks around it. -/
inductive HeaderOn (start : Nat) : Bytes → HeaderRange → Prop
  | intro {name before value after : Bytes} (colon : 58 ∉ name)
      (leading : ∀ byte ∈ before, Blank byte) (trailing : ∀ byte ∈ after, Blank byte)
      (first : ∀ byte, value.head? = some byte → ¬ Blank byte)
      (last : ∀ byte, value.getLast? = some byte → ¬ Blank byte) :
      HeaderOn start (name ++ 58 :: (before ++ (value ++ after)))
        (⟨start, start + name.length⟩,
          ⟨start + name.length + 1 + before.length,
            start + name.length + 1 + before.length + value.length⟩)

section Headers

theorem headerOn_of_headerRanges {start : Nat} {line : Bytes} {header : HeaderRange}
    (split : headerRanges start line = .ok header) : HeaderOn start line header := by
  obtain ⟨⟨name, text⟩, rfl, colon⟩ := exists_field (headerRanges_colon split)
  rw [headerRanges_line start colon] at split
  cases split
  obtain ⟨⟨ordered, within⟩, before, after, first, last⟩ := trimOws_trimmed text
  generalize trimOws text = value at *
  obtain ⟨opens, closes⟩ := value
  simp only at ordered within
  have slice : (Range.mk opens closes).slice text = (text.drop opens).take (closes - opens) := rfl
  have leading : (text.take opens).length = opens := List.length_take_of_le (by omega)
  have middle : ((text.drop opens).take (closes - opens)).length = closes - opens := by
    rw [List.length_take_of_le]
    rw [List.length_drop]
    omega
  have parts : text.take opens ++ ((text.drop opens).take (closes - opens) ++ text.drop closes) = text := by
    have rest : text.drop closes = (text.drop opens).drop (closes - opens) := by
      rw [List.drop_drop, Nat.add_sub_cancel' ordered]
    rw [rest, List.take_append_drop, List.take_append_drop]
  rw [slice] at first last
  have on := @HeaderOn.intro start name (text.take opens) _ (text.drop closes) colon before after first last
  have behind : start + name.length + 1 + opens + (closes - opens) = start + name.length + 1 + closes := by
    omega
  rw [parts, leading, middle, behind] at on
  exact on

theorem HeaderOn.within {start : Nat} {line : Bytes} {header : HeaderRange}
    (on : HeaderOn start line header) :
    header.1.InBounds (start + line.length) ∧ header.2.InBounds (start + line.length) := by
  cases on with
  | @intro name before value after =>
      simp only [Range.InBounds, List.length_append, List.length_cons]
      omega

/-- Each header is on its line. -/
def HeadersOn (placed : List (Nat × Bytes)) (headers : List HeaderRange) : Prop :=
  List.Forall₂ (fun line header => HeaderOn line.1 line.2 header) placed headers

theorem keptLines_cons (seen : Nat) (line : Nat × Bytes) (lines : List (Nat × Bytes)) :
    keptLines seen (line :: lines) = keptLines seen [line] ++ keptLines (seen + 1) lines := by
  cases seen with
  | zero => rfl
  | succ seen => by_cases empty : line.2 = [] <;> simp [keptLines, empty]

theorem collectLine_placed {line : Bytes} {seen start : Nat} {out found : List HeaderRange}
    (collected : collectLine 1 seen start line out = .ok found) :
    ∃ headers, found = out ++ headers ∧ HeadersOn (keptLines seen [(start, line)]) headers := by
  rw [collectLine] at collected
  split at collected
  · next kept =>
      obtain ⟨seenPositive, nonempty⟩ := kept
      obtain ⟨header, split, collected⟩ := except_bind_ok collected
      obtain rfl := Except.ok.inj collected
      have lines : keptLines seen [(start, line)] = [(start, line)] := by
        simp [keptLines, Nat.sub_eq_zero_of_le seenPositive, nonempty]
      rw [lines]
      exact ⟨[header], rfl, .cons (headerOn_of_headerRanges split) .nil⟩
  · next skipped =>
      obtain rfl := Except.ok.inj collected
      have lines : keptLines seen [(start, line)] = [] := by
        rcases Nat.eq_zero_or_pos seen with rfl | seenPositive
        · rfl
        · have empty : line = [] := by
            by_contra nonempty
            exact skipped ⟨seenPositive, nonempty⟩
          simp [keptLines, empty, Nat.sub_eq_zero_of_le seenPositive]
      rw [lines]
      exact ⟨[], (List.append_nil out).symm, .nil⟩

/-- The headers of the lines that the loop has still to go through. -/
theorem collectLoop_placed {buf before current remaining : Bytes} {seen : Nat}
    {out found : List HeaderRange} (shape : buf = before ++ (current ++ remaining))
    (collected : collectLoop buf 1 before.length seen (before.length + current.length) out remaining =
      .ok found) :
    ∃ headers, found = out ++ headers ∧
      HeadersOn (keptLines seen (placeLines before.length (textLines current remaining))) headers := by
  induction current, remaining using textLines_induction generalizing before seen out with
  | lineEnd current rest ih =>
      rw [textLines, if_pos ⟨rfl, rfl⟩, placeLines, keptLines_cons]
      rw [collectLoop, if_pos ⟨rfl, rfl⟩] at collected
      obtain ⟨middle, kept, collected⟩ := except_bind_ok collected
      have line : (Range.mk before.length (before.length + current.length)).slice buf = current := by
        simp [Range.slice, shape]
      rw [line] at kept
      obtain ⟨own, rfl, onOwn⟩ := collectLine_placed kept
      have positions : (before ++ (current ++ crlf)).length = before.length + current.length + 2 := by
        simp [crlf, Nat.add_assoc]
      obtain ⟨later, rfl, onLater⟩ := @ih (before ++ (current ++ crlf)) (seen + 1) (out ++ own)
        (by simp [shape, crlf]) (by rw [positions]; exact collected)
      rw [positions] at onLater
      exact ⟨own ++ later, List.append_assoc _ _ _, List.rel_append onOwn onLater⟩
  | inside current first second rest inside ih =>
      rw [textLines, if_neg inside]
      rw [collectLoop, if_neg inside] at collected
      refine @ih before seen out (by simp [shape]) ?_
      simpa [Nat.add_assoc] using collected
  | last current last short =>
      rw [textLines_short short]
      rw [collectLoop_short short, shape, List.drop_left] at collected
      exact collectLine_placed collected

/-- Every line stands where it is placed. -/
theorem placeLines_mem {buf before current remaining : Bytes} {placed : Nat × Bytes}
    (shape : buf = before ++ (current ++ remaining))
    (member : placed ∈ placeLines before.length (textLines current remaining)) :
    ∃ front rest, buf = front ++ (placed.2 ++ rest) ∧ front.length = placed.1 := by
  induction current, remaining using textLines_induction generalizing before with
  | lineEnd current rest ih =>
      rw [textLines, if_pos ⟨rfl, rfl⟩, placeLines, List.mem_cons] at member
      rcases member with rfl | later
      · exact ⟨before, 13 :: 10 :: rest, shape, rfl⟩
      · have positions : (before ++ (current ++ crlf)).length = before.length + current.length + 2 := by
          simp [crlf, Nat.add_assoc]
        exact @ih (before ++ (current ++ crlf)) (by simp [shape, crlf]) (positions ▸ later)
  | inside current first second rest inside ih =>
      rw [textLines, if_neg inside] at member
      exact @ih before (by simp [shape]) member
  | last current last short =>
      rw [textLines_short short, placeLines, placeLines, List.mem_singleton] at member
      subst member
      exact ⟨before, [], by simp [shape], rfl⟩

@[simp] theorem map_placeLines (start : Nat) (lines : List Bytes) :
    (placeLines start lines).map (·.2) = lines := by
  induction lines generalizing start with
  | nil => rfl
  | cons line lines ih => rw [placeLines, List.map_cons, ih]

theorem keptLines_filled {first : Nat × Bytes} {start : Nat} {lines : List Bytes} (filled : [] ∉ lines) :
    keptLines 0 (first :: placeLines start lines) = placeLines start lines := by
  refine List.filter_eq_self.mpr fun placed member => ?_
  have line : placed.2 ∈ lines := by
    rw [← map_placeLines start lines]
    exact List.mem_map_of_mem member
  rw [decide_eq_true_iff]
  exact fun empty => filled (empty ▸ line)

theorem HeadersOn.within {placed : List (Nat × Bytes)} {headers : List HeaderRange} {stop : Nat}
    (on : HeadersOn placed headers) (inside : ∀ line ∈ placed, line.1 + line.2.length ≤ stop) :
    ∀ header ∈ headers, header.1.InBounds stop ∧ header.2.InBounds stop := by
  induction on with
  | nil => simp
  | cons own _ ih =>
      rw [List.forall_mem_cons] at inside ⊢
      obtain ⟨⟨nameOrdered, nameWithin⟩, valueOrdered, valueWithin⟩ := own.within
      exact ⟨⟨⟨nameOrdered, nameWithin.trans inside.1⟩, valueOrdered, valueWithin.trans inside.1⟩,
        ih inside.2⟩

/-- What the ranges of a header lead to, on the line that is placed in the head. -/
structure HeaderIn (head : Bytes) (placed : Nat × Bytes) (header : HeaderRange) : Prop where
  starts : header.1.start = placed.1
  parts : ∃ before after,
    placed.2 = header.1.slice head ++ 58 :: (before ++ (header.2.slice head ++ after)) ∧
    header.2.start = header.1.stop + 1 + before.length ∧
    (∀ byte ∈ before, Blank byte) ∧ ∀ byte ∈ after, Blank byte
  name : 58 ∉ header.1.slice head
  first : ∀ byte, (header.2.slice head).head? = some byte → ¬ Blank byte
  last : ∀ byte, (header.2.slice head).getLast? = some byte → ¬ Blank byte

theorem HeaderOn.headerIn {head front line rest : Bytes} {header : HeaderRange}
    (on : HeaderOn front.length line header) (shape : head = front ++ (line ++ rest)) :
    HeaderIn head (front.length, line) header := by
  cases on with
  | @intro name before value after colon leading trailing first last =>
      have nameSlice : (Range.mk front.length (front.length + name.length)).slice head = name := by
        simp [Range.slice, shape]
      have valueSlice : (Range.mk (front.length + name.length + 1 + before.length)
          (front.length + name.length + 1 + before.length + value.length)).slice head = value := by
        have found := Bytes.window_append (front ++ (name ++ 58 :: before)) value (after ++ rest)
        simp only [List.length_append, List.length_cons] at found
        rw [Range.slice, Nat.add_sub_cancel_left, shape]
        refine Eq.trans ?_ found
        rw [Bytes.window]
        simp [Nat.add_assoc, Nat.add_comm 1]
      refine ⟨rfl, ⟨before, after, ?_, rfl, leading, trailing⟩, ?_, ?_, ?_⟩
      · rw [nameSlice, valueSlice]
      · rwa [nameSlice]
      · rwa [valueSlice]
      · rwa [valueSlice]

end Headers

section Heads

/-- The ranges of an accepted head are in bounds in front of its blank line, and the lines behind the
first are the headers, in order. -/
structure Lossless (buf : Bytes) (ranges : HeadRanges) : Prop where
  consumed : 4 ≤ ranges.consumed ∧ ranges.consumed ≤ buf.length
  blankLine : buf.take ranges.consumed = buf.take (ranges.consumed - 4) ++ headerDelim
  inBounds : ∀ range ∈ ranges.all, range.start ≤ range.stop ∧ range.stop ≤ ranges.consumed - 4
  indexable : ∀ range ∈ ranges.all,
    range.index? (buf.take ranges.consumed) = some (range.slice (buf.take ranges.consumed))
  headers : ∃ first lines, textLines [] (buf.take (ranges.consumed - 4)) = first :: lines ∧
    List.Forall₂ (HeaderIn (buf.take ranges.consumed)) (placeLines (first.length + 2) lines)
      ranges.headers

variable {β : Type} {empty : HttpError} {parseLine : Bytes → Except HttpError β}
  {place : β → Nat → (Range × Range) × Version × Option Nat} {buf : Bytes} {ranges : HeadRanges}

/-- An accepted head whose blank line is at `stop`, cut into its lines. -/
structure HeadAt (buf : Bytes) (ranges : HeadRanges) (stop : Nat) (first : Bytes) (lines : List Bytes) :
    Prop where
  whole : stop + 4 ≤ buf.length
  consumed : ranges.consumed = stop + 4
  delimited : buf.take (stop + 4) = buf.take stop ++ headerDelim
  cut : textLines [] (buf.take stop) = first :: lines
  onFirst : ranges.first.1.InBounds first.length ∧ ranges.first.2.InBounds first.length
  onLines : HeadersOn (placeLines (first.length + 2) lines) ranges.headers

theorem parseHead_headAt (accepted : parseHead empty parseLine place buf = .ok (some ranges))
    (within : ∀ line parts, parseLine line = .ok parts →
      (place parts 0).1.1.InBounds line.length ∧ (place parts 0).1.2.InBounds line.length) :
    ∃ stop first lines, HeadAt buf ranges stop first lines := by
  obtain ⟨stop, line, parts, complete, first, parsed, collected, consumed, placed⟩ :=
    parseHead_found accepted
  have found := (findHeadEnd_some complete).1
  have whole : stop + 4 ≤ buf.length := find_length_le found
  have behind := (find_eq_some_iff.mp found).1
  have delimited : buf.take (stop + 4) = buf.take stop ++ headerDelim := by
    rw [List.take_add]
    exact congrArg (buf.take stop ++ ·) (List.prefix_iff_eq_take.mp behind).symm
  have length : (buf.take stop).length = stop := List.length_take_of_le (by omega)
  obtain ⟨lines, cut⟩ := textLines_first [] (buf.take stop)
  obtain ⟨start, text⟩ := firstLine_take first
  rw [List.nil_append, ← text] at cut
  -- the blank line found is the first one, so no line in front of it is empty
  have filled : [] ∉ lines := by
    obtain ⟨rest, shape⟩ : ∃ rest, buf = buf.take stop ++ (headerDelim ++ rest) := by
      obtain ⟨rest, drop⟩ := behind
      exact ⟨rest, by rw [drop, List.take_append_drop]⟩
    have blank := (find_headerDelim_iff [] (buf.take stop) rest).mp (by rw [← shape, length, found])
    rwa [cut] at blank
  obtain ⟨_, rfl, on⟩ :=
    @collectLoop_placed (buf.take stop) [] [] (buf.take stop) 0 [] ranges.headers rfl collected
  rw [cut, placeLines, List.length_nil, Nat.zero_add, keptLines_filled filled] at on
  rw [start] at placed
  have parts := within _ _ parsed
  rw [← (Prod.mk.inj placed).1] at parts
  exact ⟨stop, line.slice buf, lines, whole, consumed, delimited, cut, parts, on⟩

namespace HeadAt

variable {stop : Nat} {first : Bytes} {lines : List Bytes}

theorem length (head : HeadAt buf ranges stop first lines) : (buf.take stop).length = stop :=
  List.length_take_of_le ((Nat.le_add_right stop 4).trans head.whole)

theorem back (head : HeadAt buf ranges stop first lines) : ranges.consumed - 4 = stop := by
  rw [head.consumed, Nat.add_sub_cancel]

theorem stands (head : HeadAt buf ranges stop first lines) {line : Nat × Bytes}
    (member : line ∈ (0, first) :: placeLines (first.length + 2) lines) :
    ∃ front rest, buf.take stop = front ++ (line.2 ++ rest) ∧ front.length = line.1 := by
  refine @placeLines_mem (buf.take stop) [] [] (buf.take stop) line rfl ?_
  rw [head.cut, placeLines, List.length_nil, Nat.zero_add]
  exact member

theorem inside (head : HeadAt buf ranges stop first lines) {line : Nat × Bytes}
    (member : line ∈ (0, first) :: placeLines (first.length + 2) lines) :
    line.1 + line.2.length ≤ stop := by
  obtain ⟨front, rest, split, position⟩ := head.stands member
  rw [← head.length, split, List.length_append, List.length_append, position]
  omega

theorem inBounds (head : HeadAt buf ranges stop first lines) {range : Range}
    (member : range ∈ ranges.all) : range.InBounds stop := by
  have firstLine : first.length ≤ stop := (Nat.le_add_left _ _).trans (head.inside List.mem_cons_self)
  rw [HeadRanges.all, List.mem_cons, List.mem_cons, List.mem_flatMap] at member
  rcases member with rfl | rfl | ⟨header, listed, own⟩
  · exact ⟨head.onFirst.1.1, head.onFirst.1.2.trans firstLine⟩
  · exact ⟨head.onFirst.2.1, head.onFirst.2.2.trans firstLine⟩
  · obtain ⟨name, value⟩ :=
      head.onLines.within (fun _ member => head.inside (List.mem_cons_of_mem _ member)) header listed
    rcases List.mem_cons.mp own with rfl | own
    · exact name
    · exact List.mem_singleton.mp own ▸ value

theorem headersIn (head : HeadAt buf ranges stop first lines) :
    List.Forall₂ (HeaderIn (buf.take ranges.consumed)) (placeLines (first.length + 2) lines)
      ranges.headers := by
  have stands := fun line member => head.stands (List.mem_cons_of_mem (0, first) (a := line) member)
  refine ((List.forall₂_and_left _ _).mpr ⟨stands, head.onLines⟩).imp fun line header both => ?_
  obtain ⟨⟨front, rest, split, position⟩, own⟩ := both
  rw [← position] at own
  have headerIn := @HeaderOn.headerIn (buf.take ranges.consumed) front line.2 (rest ++ headerDelim)
    header own (by rw [head.consumed, head.delimited, split, List.append_assoc, List.append_assoc])
  rwa [position] at headerIn

theorem lossless (head : HeadAt buf ranges stop first lines) : Lossless buf ranges where
  consumed := by
    rw [head.consumed]
    exact ⟨Nat.le_add_left 4 stop, head.whole⟩
  blankLine := by rw [head.back, head.consumed, head.delimited]
  inBounds := by
    rw [head.back]
    exact fun _ => head.inBounds
  indexable := by
    intro range member
    obtain ⟨ordered, behind⟩ := head.inBounds member
    refine if_pos ⟨ordered, behind.trans ?_⟩
    rw [head.consumed, List.length_take_of_le head.whole]
    exact Nat.le_add_right stop 4
  headers := by
    rw [head.back]
    exact ⟨first, lines, head.cut, head.headersIn⟩

end HeadAt

/-- The first line of an accepted request is the method, the target and the version, with one space
between them. -/
structure ExactRequestLine (buf : Bytes) (ranges : HeadRanges) : Prop where
  starts : ranges.first.1.start = 0 ∧ ranges.first.2.start = ranges.first.1.stop + 1
  spaces : 32 ∉ (RequestHead.fromRanges (buf.take ranges.consumed) ranges).method ∧
    32 ∉ (RequestHead.fromRanges (buf.take ranges.consumed) ranges).target
  line : (textLines [] (buf.take (ranges.consumed - 4))).head? =
    some ((RequestHead.fromRanges (buf.take ranges.consumed) ranges).method ++ 32 ::
      ((RequestHead.fromRanges (buf.take ranges.consumed) ranges).target ++ 32 ::
        ranges.version.spelling))

theorem parseRequestLine_within {line : Bytes} {parts : Range × Range × Version}
    (parsed : parseRequestLine line = .ok parts) :
    (placeRequestLine parts 0).1.1.InBounds line.length ∧
      (placeRequestLine parts 0).1.2.InBounds line.length := by
  obtain ⟨method, target, version, split, methodAt, targetAt, _⟩ := parseRequestLine_ok parsed
  simp only [placeRequestLine, methodAt, targetAt, offsetRange, Range.InBounds, split.shape,
    List.length_append, List.length_cons]
  omega

theorem parseStatusLine_inBounds {line : Bytes} {parts : Version × Nat × Range}
    (parsed : parseStatusLine line = .ok parts) :
    (placeStatusLine parts 0).1.1.InBounds line.length ∧
      (placeStatusLine parts 0).1.2.InBounds line.length := by
  obtain ⟨version, status, reason⟩ := parts
  have behind := parseStatusLine_within parsed
  obtain ⟨_, _, rest, _, _, _, rfl⟩ := parseStatusLine_sound parsed
  have ordered := (trimOws_trimmed rest).ordered.1
  simp only [placeStatusLine, offsetRange, Range.InBounds] at behind ⊢
  omega

theorem parseRequestRanges_line (accepted : parseRequestRanges buf = .ok (some ranges)) :
    ExactRequestLine buf ranges := by
  rw [parseRequestRanges_eq] at accepted
  obtain ⟨stop, line, parts, complete, first, parsed, _, consumed, placed⟩ := parseHead_found accepted
  obtain ⟨start, text⟩ := firstLine_take first
  obtain ⟨lines, cut⟩ := textLines_first [] (buf.take stop)
  rw [List.nil_append, ← text] at cut
  have back : ranges.consumed - 4 = stop := by rw [consumed, Nat.add_sub_cancel]
  have initial : line.slice buf <+: buf.take ranges.consumed := by
    have short : stop ≤ ranges.consumed := by omega
    rw [text]
    exact (List.take_prefix _ _).trans (List.take_prefix_take_left short)
  obtain ⟨method, target, version, split, methodAt, targetAt, spelled⟩ := parseRequestLine_ok parsed
  obtain ⟨within, within'⟩ := parseRequestLine_within parsed
  rw [start] at placed
  obtain ⟨ranged, versioned, _⟩ : ranges.first = (placeRequestLine parts 0).1 ∧
      ranges.version = parts.2.2 ∧ ranges.status = none := by simpa [placeRequestLine] using placed
  generalize line.slice buf = requestLine at cut initial split within within'
  have methodSlice : (RequestHead.fromRanges (buf.take ranges.consumed) ranges).method = method := by
    rw [← ranged] at within
    refine (slice_of_initial initial within.2).trans ?_
    simp [ranged, placeRequestLine, methodAt, offsetRange, Range.slice, split.shape]
  have targetSlice : (RequestHead.fromRanges (buf.take ranges.consumed) ranges).target = target := by
    rw [← ranged] at within'
    refine (slice_of_initial initial within'.2).trans ?_
    simp [ranged, placeRequestLine, targetAt, offsetRange, Range.slice, split.shape]
  have spelling : ranges.version.spelling = version := by
    rw [versioned]
    rcases spelled with ⟨minor, rfl⟩ | ⟨minor, rfl⟩
    · rw [minor]
      rfl
    · rw [minor]
      rfl
  refine ⟨?_, ⟨?_, ?_⟩, ?_⟩
  · simp [ranged, placeRequestLine, methodAt, targetAt, offsetRange]
  · rw [methodSlice]
    intro space
    exact absurd (List.all_eq_true.mp split.method.2 32 space) (by decide)
  · rw [targetSlice]
    exact split.target.2
  · rw [back, cut, methodSlice, targetSlice, spelling, ← split.shape]
    rfl

/-- Whatever the bytes, the ranges of an accepted head are in bounds and lose nothing of it. -/
theorem parseRanges_lossless (buf : Bytes) (ranges : HeadRanges) :
    (parseRequestRanges buf = .ok (some ranges) → Lossless buf ranges ∧ ExactRequestLine buf ranges) ∧
      (parseResponseRanges buf = .ok (some ranges) → Lossless buf ranges) := by
  refine ⟨fun accepted => ⟨?_, parseRequestRanges_line accepted⟩, fun accepted => ?_⟩
  · rw [parseRequestRanges_eq] at accepted
    obtain ⟨_, _, _, head⟩ := parseHead_headAt accepted fun _ _ parsed => parseRequestLine_within parsed
    exact head.lossless
  · rw [parseResponseRanges_eq] at accepted
    obtain ⟨_, _, _, head⟩ := parseHead_headAt accepted fun _ _ parsed => parseStatusLine_inBounds parsed
    exact head.lossless

/-- A header whose value is padded on both sides. -/
theorem parseRanges_lossless_padded : ∃ ranges, ranges.headers = [(⟨16, 17⟩, ⟨19, 20⟩)] ∧
    Lossless (ascii "GET / HTTP/1.1\r\na: b \t\r\n\r\nrest") ranges := by
  obtain ⟨ranges, accepted, headers⟩ : ∃ ranges,
      parseRequestRanges (ascii "GET / HTTP/1.1\r\na: b \t\r\n\r\nrest") = .ok (some ranges) ∧
        ranges.headers = [(⟨16, 17⟩, ⟨19, 20⟩)] := ⟨_, rfl, rfl⟩
  exact ⟨ranges, headers, ((parseRanges_lossless _ ranges).1 accepted).1⟩

end Heads

end TptAsync.Http
