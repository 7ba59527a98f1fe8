import TptAsync.Http.ConnectionProperties
import TptAsync.Lib.Except

set_option autoImplicit false

/-!
# Parsing heads piece by piece

The parser is asked again whenever bytes have come. What it says of a part it says of the
whole: the scan of an incomplete head stays in front of the blank line that is still to come.
-/

namespace TptAsync.Http

open Lib

/-- What makes a block of header lines folded. -/
def folded (block : Bytes) : Bool := (find [10, 32] block).isSome || (find [10, 9] block).isSome

theorem folded_initial {part whole : Bytes} (initial : part <+: whole) (fold : folded part = true) :
    folded whole = true := by
  rw [folded, Bool.or_eq_true, find_isSome_iff, find_isSome_iff] at fold ⊢
  exact fold.imp (·.trans initial.isInfix) (·.trans initial.isInfix)

variable {buf more : Bytes}

/-- A line end in front of the point where a head turns out to end is no part of the end. -/
theorem lastCrlf_le {last stop : Nat} (missing : find headerDelim buf = none)
    (line : findLast crlf buf = some last) (found : find headerDelim (buf ++ more) = some stop) :
    last ≤ stop := by
  by_contra before
  have line := findLast_prefix line
  have fits := line.length_le
  obtain ⟨here, _, _⟩ := find_eq_some_iff.mp found
  obtain ⟨rest, shape⟩ := line
  obtain ⟨rest', shape'⟩ := here
  rw [List.length_drop, show crlf.length = 2 from rfl] at fits
  have incomplete : buf.length < stop + 4 := by
    by_contra long
    have later : buf.drop stop <+: (buf ++ more).drop stop := by
      rw [List.drop_append_of_le_length (by omega)]
      exact List.prefix_append _ _
    have whole : headerDelim <+: buf.drop stop := by
      refine List.prefix_of_prefix_length_le ⟨rest', shape'⟩ later ?_
      rw [List.length_drop, show headerDelim.length = 4 from rfl]
      omega
    exact find_eq_none_iff.mp missing (whole.isInfix.trans (List.drop_suffix stop buf).isInfix)
  obtain rfl : last = stop + 1 := by omega
  have same : (buf ++ more).drop (stop + 1) = crlf ++ rest ++ more := by
    rw [List.drop_append_of_le_length (by omega), shape]
  rw [← List.drop_drop, ← shape'] at same
  exact absurd (List.cons.inj same).1 (by decide)

/-- The part of a head that is scanned for folding. -/
def scanned (buf : Bytes) : Bytes :=
  match find headerDelim buf with
  | some stop => buf.take stop
  | none =>
      match findLast crlf buf with
      | some lastCrlf => buf.take lastCrlf
      | none => []

theorem findHeadEnd_eq (fits : buf.length ≤ maxHead) :
    findHeadEnd buf =
      if folded (scanned buf) then .error (.parse "obsolete line folding in header block")
      else .ok (find headerDelim buf) := if_neg (Nat.not_lt.mpr fits)

/-- More bytes add to what is scanned, until the head is complete. -/
theorem scanned_append (missing : find headerDelim buf = none) :
    scanned buf <+: scanned (buf ++ more) := by
  have initial : ∀ {last stop : Nat}, last ≤ stop → buf.take last <+: (buf ++ more).take stop := by
    intro last stop later
    refine List.prefix_take_iff.mpr ⟨?_, (List.length_take_le _ _).trans later⟩
    exact (List.take_prefix last buf).trans (List.prefix_append _ _)
  simp only [scanned, missing]
  cases line : findLast crlf buf with
  | none => exact List.nil_prefix
  | some last =>
      cases found : find headerDelim (buf ++ more) with
      | some stop => exact initial (lastCrlf_le missing line found)
      | none =>
          have here := findLast_prefix line
          have fits := here.length_le
          rw [List.length_drop, show crlf.length = 2 from rfl] at fits
          have still : crlf <+: (buf ++ more).drop last := by
            rw [List.drop_append_of_le_length (by omega)]
            exact here.trans (List.prefix_append _ _)
          obtain ⟨last', line', later⟩ := le_findLast still (by rw [List.length_append]; omega)
          simp only [line']
          exact initial later

/-- What is said of a part of a head is said of all of it. -/
theorem findHeadEnd_append (fits : (buf ++ more).length ≤ maxHead) :
    findHeadEnd buf = .ok none ∨ findHeadEnd (buf ++ more) = findHeadEnd buf := by
  have fits' : buf.length ≤ maxHead := by
    rw [List.length_append] at fits
    omega
  rw [findHeadEnd_eq fits, findHeadEnd_eq fits']
  cases complete : find headerDelim buf with
  | some stop =>
      have within := find_length_le complete
      have complete' := find_initial (List.prefix_append buf more) complete
      have same : scanned (buf ++ more) = scanned buf := by
        simp only [scanned, complete, complete']
        exact List.take_append_of_le_length (by omega)
      exact .inr (by rw [same, complete'])
  | none =>
      cases fold : folded (scanned buf) with
      | false => exact .inl (if_neg Bool.false_ne_true)
      | true =>
          right
          rw [folded_initial (scanned_append complete) fold, if_pos rfl, if_pos rfl]

theorem findHeadEnd_some_iff {stop : Nat} :
    findHeadEnd buf = .ok (some stop) ↔
      buf.length ≤ maxHead ∧ find headerDelim buf = some stop ∧ folded (buf.take stop) = false := by
  by_cases large : maxHead < buf.length
  · rw [findHeadEnd, if_pos large]
    simp [Nat.not_le.mpr large]
  · have fits := Nat.not_lt.mp large
    rw [findHeadEnd_eq fits]
    by_cases found : find headerDelim buf = some stop
    · have same : scanned buf = buf.take stop := by simp only [scanned, found]
      rw [same, found]
      cases folded (buf.take stop) <;> simp [fits]
    · cases folded (scanned buf) <;> simp [found]

theorem findHeadEnd_some {stop : Nat} (found : findHeadEnd buf = .ok (some stop)) :
    find headerDelim buf = some stop ∧ buf.length ≤ maxHead := by
  obtain ⟨fits, here, _⟩ := findHeadEnd_some_iff.mp found
  exact ⟨here, fits⟩

theorem firstLine_slice {stop : Nat} {line : Range} (within : stop ≤ buf.length)
    (first : firstLine (buf.take stop) = some line) : line.slice (buf ++ more) = line.slice buf := by
  have bounds : line.start = 0 ∧ line.stop ≤ stop := by
    rw [firstLine] at first
    split at first
    · next position found =>
        cases first
        have ends := find_length_le found
        rw [List.length_take] at ends
        exact ⟨rfl, by simp only; omega⟩
    · split at first
      · cases first
        exact ⟨rfl, List.length_take_le _ _⟩
      · cases first
  rw [Range.slice, Range.slice, bounds.1, List.drop_zero, List.drop_zero,
    List.take_append_of_le_length (by omega)]

/-- Once the head is complete, its lines are what they are. -/
theorem head_append {stop : Nat} (complete : findHeadEnd buf = .ok (some stop)) :
    (buf ++ more).take stop = buf.take stop ∧ ∀ line, firstLine (buf.take stop) = some line →
      line.slice (buf ++ more) = line.slice buf := by
  have within := find_length_le (findHeadEnd_some complete).1
  have inside : stop ≤ buf.length := Nat.le_of_add_right_le within
  exact ⟨List.take_append_of_le_length inside, fun line first => firstLine_slice inside first⟩

section ParseHead

variable {β : Type}

/-- What the parsers of both heads do with what they make of the first line. -/
def parseHead (empty : HttpError) (parseLine : Bytes → Except HttpError β)
    (place : β → Nat → (Range × Range) × Version × Option Nat) (buf : Bytes) :
    Except HttpError (Option HeadRanges) := do
  match ← findHeadEnd buf with
  | none => .ok none
  | some headEnd =>
      let head := buf.take headEnd
      match firstLine head with
      | none => .error empty
      | some line =>
          let parts ← parseLine (line.slice buf)
          let headers ← collectHeaderRanges head 1
          let (first, version, status) := place parts line.start
          .ok (some { first, version, status, headers, consumed := headEnd + headerDelim.length })

/-- What a head keeps of its request line. -/
def placeRequestLine (parts : Range × Range × Version) (start : Nat) :
    (Range × Range) × Version × Option Nat :=
  ((offsetRange parts.1 start, offsetRange parts.2.1 start), parts.2.2, none)

/-- What a head keeps of its status line. -/
def placeStatusLine (parts : Version × Nat × Range) (start : Nat) :
    (Range × Range) × Version × Option Nat :=
  ((offsetRange parts.2.2 start, offsetRange parts.2.2 start), parts.1, some parts.2.1)

theorem parseRequestRanges_eq : parseRequestRanges = parseHead (.parse "empty request head")
    parseRequestLine placeRequestLine := rfl

theorem parseResponseRanges_eq : parseResponseRanges = parseHead (.parse "empty status head")
    parseStatusLine placeStatusLine := rfl

variable {empty : HttpError} {parseLine : Bytes → Except HttpError β}
  {place : β → Nat → (Range × Range) × Version × Option Nat} {ranges : HeadRanges}

/-- What the parser says of the bytes that have come is what it says of all of them. -/
theorem parseHead_append (fits : (buf ++ more).length ≤ maxHead) :
    parseHead empty parseLine place buf = .ok none ∨
      parseHead empty parseLine place (buf ++ more) = parseHead empty parseLine place buf := by
  unfold parseHead
  rcases @findHeadEnd_append buf more fits with none | same
  · exact .inl (by rw [none]; rfl)
  · rw [same]
    cases complete : findHeadEnd buf with
    | error error => exact .inr rfl
    | ok found =>
        cases found with
        | none => exact .inl rfl
        | some stop =>
            obtain ⟨head, slice⟩ := @head_append buf more stop complete
            right
            simp only [bind, Except.bind, head]
            cases first : firstLine (buf.take stop) with
            | none => rfl
            | some line => simp only [slice line first]

/-- What the parser has found where it accepts. -/
theorem parseHead_found (parsed : parseHead empty parseLine place buf = .ok (some ranges)) :
    ∃ stop line parts, findHeadEnd buf = .ok (some stop) ∧ firstLine (buf.take stop) = some line ∧
      parseLine (line.slice buf) = .ok parts ∧
      collectHeaderRanges (buf.take stop) 1 = .ok ranges.headers ∧ ranges.consumed = stop + 4 ∧
      (ranges.first, ranges.version, ranges.status) = place parts line.start := by
  obtain ⟨found, complete, parsed⟩ := except_bind_ok parsed
  cases found with
  | none => cases parsed
  | some stop =>
      dsimp only at parsed
      split at parsed
      · cases parsed
      · next line first =>
          obtain ⟨parts, line', parsed⟩ := except_bind_ok parsed
          obtain ⟨headers, collected, parsed⟩ := except_bind_ok parsed
          cases parsed
          exact ⟨stop, line, parts, complete, first, line', collected, rfl, rfl⟩

theorem parseHead_find (parsed : parseHead empty parseLine place buf = .ok (some ranges)) :
    ∃ stop, find headerDelim buf = some stop ∧ ranges.consumed = stop + 4 ∧ buf.length ≤ maxHead := by
  obtain ⟨stop, _, _, complete, _, _, _, consumed, _⟩ := parseHead_found parsed
  obtain ⟨found, fits⟩ := findHeadEnd_some complete
  exact ⟨stop, found, consumed, fits⟩

theorem parseHead_consumed (parsed : parseHead empty parseLine place buf = .ok (some ranges)) :
    4 ≤ ranges.consumed ∧ ranges.consumed ≤ buf.length := by
  obtain ⟨stop, found, consumed, _⟩ := parseHead_find parsed
  have within := find_length_le found
  rw [consumed]
  exact ⟨Nat.le_add_left 4 stop, within⟩

theorem parseHead_none (incomplete : parseHead empty parseLine place buf = .ok none) :
    find headerDelim buf = none := by
  obtain ⟨found, scan, incomplete⟩ := except_bind_ok incomplete
  cases found with
  | none =>
      by_cases large : maxHead < buf.length
      · rw [findHeadEnd, if_pos large] at scan
        cases scan
      · rw [findHeadEnd_eq (Nat.not_lt.mp large)] at scan
        split at scan
        · cases scan
        · exact Except.ok.inj scan
  | some stop =>
      dsimp only at incomplete
      split at incomplete
      · cases incomplete
      · obtain ⟨parts, _, incomplete⟩ := except_bind_ok incomplete
        obtain ⟨headers, _, incomplete⟩ := except_bind_ok incomplete
        cases incomplete

/-- The parser does not need what is behind the head. -/
theorem parseHead_take (parsed : parseHead empty parseLine place buf = .ok (some ranges)) :
    parseHead empty parseLine place (buf.take ranges.consumed) = .ok (some ranges) := by
  obtain ⟨stop, found, consumed, fits⟩ := parseHead_find parsed
  obtain ⟨here, within, first⟩ := find_eq_some_iff.mp found
  have split := List.take_append_drop ranges.consumed buf
  have appended := @parseHead_append (buf.take ranges.consumed) (buf.drop ranges.consumed) β empty
    parseLine place (split.symm ▸ fits)
  cases appended with
  | inl incomplete =>
      have missing := parseHead_none incomplete
      refine absurd ?_ (find_eq_none_iff.mp missing)
      rw [consumed, List.take_add]
      refine List.IsInfix.trans (List.IsPrefix.isInfix ?_) (List.suffix_append _ _).isInfix
      exact List.prefix_take_iff.mpr ⟨here, le_rfl⟩
  | inr same => rw [← same, split, parsed]

end ParseHead

/-- A parser of heads whose word stands when more bytes come. -/
structure Incremental (parse : Bytes → Except HttpError (Option HeadRanges)) : Prop where
  stands : ∀ buf more, (buf ++ more).length ≤ maxHead →
    parse buf = .ok none ∨ parse (buf ++ more) = parse buf
  consumed : ∀ buf ranges, parse buf = .ok (some ranges) →
    4 ≤ ranges.consumed ∧ ranges.consumed ≤ buf.length
  limit : ∀ buf, maxHead < buf.length → parse buf = .error (.parse "message head exceeds 64 KiB")

theorem parseHead_incremental {β : Type} (empty : HttpError) (parseLine : Bytes → Except HttpError β)
    (place : β → Nat → (Range × Range) × Version × Option Nat) :
    Incremental (parseHead empty parseLine place) where
  stands _ _ fits := parseHead_append fits
  consumed _ _ parsed := parseHead_consumed parsed
  limit buf large := by rw [parseHead, findHeadEnd, if_pos large]; rfl

theorem parseRequestRanges_incremental : Incremental parseRequestRanges :=
  parseRequestRanges_eq ▸ parseHead_incremental _ _ _

theorem parseResponseRanges_incremental : Incremental parseResponseRanges :=
  parseResponseRanges_eq ▸ parseHead_incremental _ _ _

theorem parseResponseRanges_take {ranges : HeadRanges}
    (parsed : parseResponseRanges buf = .ok (some ranges)) :
    parseResponseRanges (buf.take ranges.consumed) = .ok (some ranges) := by
  rw [parseResponseRanges_eq] at parsed ⊢
  exact parseHead_take parsed

end TptAsync.Http
