import TptAsync.Http.Draining
import TptAsync.Http.Numerals
import TptAsync.Http.SentHeads

set_option autoImplicit false

/-!
# The framing that is rendered

The headers of the caller are copied as they are, and the length of the body is appended whether or
not they frame the body already.
-/

namespace TptAsync.Http

open Lib

section SentFields

variable {first : Bytes} {headers : List (Bytes × Bytes)} {header : Bytes × Bytes}

theorem headText_concat (first line : Bytes) (lines : List Bytes) :
    headText first (lines ++ [line]) = headText first lines ++ (crlf ++ line) := by
  induction lines generalizing first with
  | nil => rfl
  | cons next lines ih =>
      rw [List.cons_append, headText, ih, headText]
      simp only [List.append_assoc]

/-- A safe header at the end adds just itself. -/
theorem sentFields_concat (first : Bytes) (headers : List (Bytes × Bytes)) (safe : SafeHeader header) :
    sentFields first (headers ++ [header]) = sentFields first headers ++ [header] := by
  obtain ⟨lines, shape⟩ := textLines_first [] (sentText first headers)
  have read : lineHeader (sentLine header) = header :=
    (lineHeader_sentLine_iff header).mpr ⟨safe.name.1, safe.value⟩
  have more : textLines [] (sentText first (headers ++ [header])) =
      textLines [] (sentText first headers) ++ [sentLine header] := by
    rw [sentText, List.map_append, List.map_singleton, headText_concat, textLines_append,
      textLines_of_line safe.uncut, sentText]
  rw [sentFields, sentFields, more, shape, List.cons_append, List.tail_cons, List.tail_cons,
    List.filter_append, List.map_append]
  simp [sentLine_ne_nil, read]

end SentFields

section Framing

def isLength (field : Bytes × Bytes) : Bool := Bytes.eqIgnoreCase field.1 (ascii "content-length")

def isCoding (field : Bytes × Bytes) : Bool := Bytes.eqIgnoreCase field.1 (ascii "transfer-encoding")

/-- One `Content-Length` at most, and none next to a `Transfer-Encoding`. -/
structure SingleFraming (fields : List (Bytes × Bytes)) : Prop where
  length : fields.countP isLength ≤ 1
  exclusive : fields.any isLength = true → fields.any isCoding = false

/-- No field says anything about the body. -/
def Unframed (fields : List (Bytes × Bytes)) : Prop :=
  fields.any isLength = false ∧ fields.any isCoding = false

variable {own : List (Bytes × Bytes)} {length : Bytes × Bytes}

theorem singleFraming_concat (named : isLength length = true) (uncoded : isCoding length = false) :
    SingleFraming (own ++ [length]) ↔ Unframed own := by
  constructor
  · intro single
    have count := single.length
    have alone := single.exclusive (by simp [named])
    rw [List.countP_append, List.countP_singleton, if_pos named] at count
    rw [List.any_append, Bool.or_eq_false_iff] at alone
    refine ⟨List.any_eq_false.mpr fun field member => ?_, alone.1⟩
    exact List.countP_eq_zero.mp (by omega) field member
  · rintro ⟨noLength, noCoding⟩
    constructor
    case length =>
      have none : own.countP isLength = 0 := List.countP_eq_zero.mpr (List.any_eq_false.mp noLength)
      rw [List.countP_append, none, List.countP_singleton, if_pos named]
    case exclusive =>
      intro _
      simp [noCoding, uncoded]

variable {headers : HeaderBlock}

theorem get_length : headers.get (ascii "content-length") = (headers.iter.find? isLength).map (·.2) := rfl

theorem get_coding : headers.get (ascii "transfer-encoding") = (headers.iter.find? isCoding).map (·.2) :=
  rfl

theorem find?_of_any_false {fields : List (Bytes × Bytes)} {chosen : Bytes × Bytes → Bool}
    (absent : fields.any chosen = false) : fields.find? chosen = none :=
  List.find?_eq_none.mpr (List.any_eq_false.mp absent)

theorem length_named (value : Bytes) : isLength (ascii "content-length", value) = true := by
  have named : Bytes.eqIgnoreCase (ascii "content-length") (ascii "content-length") = true := by decide
  exact named

theorem length_uncoded (value : Bytes) : isCoding (ascii "content-length", value) = false := by
  have other : Bytes.eqIgnoreCase (ascii "content-length") (ascii "transfer-encoding") = false := by
    decide
  exact other

/-- The field that is appended frames the body if no other does. -/
theorem get_appended {value : Bytes} (iter : headers.iter = own ++ [(ascii "content-length", value)])
    (unframed : Unframed own) : headers.get (ascii "content-length") = some value ∧
      headers.get (ascii "transfer-encoding") = none := by
  have named := length_named value
  have uncoded := length_uncoded value
  rw [get_length, get_coding, iter, List.find?_append, List.find?_append,
    find?_of_any_false unframed.1, find?_of_any_false unframed.2]
  simp [named, uncoded]

theorem parseContentLength_le {value : Bytes} {length : Nat}
    (parsed : parseContentLength value = .ok length) : length ≤ U64.max := by
  obtain ⟨_, _, _, _, _, _, spelling⟩ := parseContentLength_iff.mp parsed
  exact spelling.digits.fits

theorem chunks_ne_nil {wire body : Bytes} (chunks : BodyReader.Chunks wire body) : wire ≠ [] := by
  cases chunks with
  | last => simp [crlf]
  | chunk => simp [crlf]

end Framing

section Requests

namespace Request

variable {request : Request} {host : Bytes}

/-- The headers in front of the length that is appended. -/
def givenHeaders (request : Request) (host : Bytes) : List (Bytes × Bytes) :=
  request.headers ++
    if request.headers.any fun (name, _) => Bytes.eqIgnoreCase name (ascii "host") then []
    else [(ascii "host", host)]

theorem fields_eq (request : Request) (host : Bytes) : request.fields host =
    request.givenHeaders host ++ [(ascii "content-length", decimal request.body.length)] := by
  rw [fields, givenHeaders, List.append_assoc]

/-- The head that is sent frames the body once, and the server reads the body off in this framing. -/
structure WellFramed (request : Request) (host : Bytes) : Prop where
  single : SingleFraming (textFields (request.head host))
  served : ∃ ranges kind, WholeHead parseRequestRanges (request.head host) ranges ∧
    requestBodyKind ⟨request.head host, ranges.headers⟩ = .ok kind ∧ BodyReader.Frames kind request.body

/-- The strings make one head, and none of the lines in front of the length frames the body. -/
def LeavesFraming (request : Request) (host : Bytes) : Prop :=
  (∃ parts, OneHead parseRequestLine request.requestLine (request.fields host) parts) ∧
    request.body.length ≤ U64.max ∧
    Unframed (sentFields request.requestLine (request.givenHeaders host))

theorem sent (whole : ∃ ranges, WholeHead parseRequestRanges (request.head host) ranges) :
    textFields (request.head host) = sentFields request.requestLine (request.givenHeaders host) ++
        [(ascii "content-length", decimal request.body.length)] ∧
      ∀ ranges, WholeHead parseRequestRanges (request.head host) ranges →
        (HeaderBlock.mk (request.head host) ranges.headers).iter = textFields (request.head host) := by
  have appended := sentFields_concat request.requestLine (request.givenHeaders host)
    (contentLength_plain request.body.length).safe
  rw [← fields_eq] at appended
  rw [parseRequestRanges_eq, head_eq] at whole ⊢
  obtain ⟨ranges, whole⟩ := whole
  obtain ⟨_, fields⟩ := sent_fields whole
  refine ⟨fields.trans appended, fun ranges whole => ?_⟩
  exact (sent_fields whole).1.trans fields.symm

theorem wholeHead_iff : (∃ ranges, WholeHead parseRequestRanges (request.head host) ranges) ↔
    ∃ parts, OneHead parseRequestLine request.requestLine (request.fields host) parts := by
  rw [parseRequestRanges_eq, head_eq]
  constructor
  · intro holds
    obtain ⟨ranges, whole⟩ := holds
    obtain ⟨parts, one, _⟩ := OneHead.of_whole whole
    exact ⟨parts, one⟩
  · intro holds
    obtain ⟨parts, one⟩ := holds
    exact one.whole (by simp [requestLine])

theorem wellFramed_iff : request.WellFramed host ↔ request.LeavesFraming host := by
  rw [LeavesFraming, ← wholeHead_iff]
  constructor
  · rintro ⟨single, ranges, kind, whole, framing, frames⟩
    obtain ⟨fields, read⟩ := sent ⟨ranges, whole⟩
    rw [fields, singleFraming_concat (length_named _) (length_uncoded _)] at single
    obtain ⟨length, coding⟩ := get_appended ((read ranges whole).trans fields) single
    refine ⟨⟨ranges, whole⟩, ?_, single⟩
    rw [requestBodyKind, coding, contentLengthKind, length] at framing
    cases parsed : parseContentLength (decimal request.body.length) with
    | error error => simp [parsed, bind, Except.bind] at framing
    | ok announced =>
        obtain rfl : .contentLength announced = kind := by
          simpa [parsed, bind, Except.bind] using framing
        cases frames
        exact parseContentLength_le parsed
  · rintro ⟨⟨ranges, whole⟩, fits, unframed⟩
    obtain ⟨fields, read⟩ := sent ⟨ranges, whole⟩
    obtain ⟨length, coding⟩ := get_appended ((read ranges whole).trans fields) unframed
    constructor
    case single =>
      rw [fields, singleFraming_concat (length_named _) (length_uncoded _)]
      exact unframed
    case served =>
      refine ⟨ranges, .contentLength request.body.length, whole, ?_, .contentLength request.body⟩
      rw [requestBodyKind, coding, contentLengthKind, length]
      simp [parseContentLength_decimal fits, bind, Except.bind]

/-- Unless its strings break the head, it is the headers of the request that must not frame the
body. -/
theorem Safe.leavesFraming_iff (safe : request.Safe host) :
    request.LeavesFraming host ↔ request.body.length ≤ U64.max ∧ Unframed request.headers := by
  obtain ⟨ranges, read, _⟩ := safe.read
  have whole : ∃ ranges, WholeHead parseRequestRanges (request.head host) ranges :=
    ⟨ranges, read.parsed, read.whole⟩
  have given : sentFields request.requestLine (request.givenHeaders host) = request.givenHeaders host := by
    refine sentFields_safe safe.head.uncut fun header member => safe.head.headers header ?_
    rw [fields_eq]
    exact List.mem_append_left _ member
  have hostField : Unframed (if request.headers.any fun (name, _) =>
      Bytes.eqIgnoreCase name (ascii "host") then [] else [(ascii "host", host)]) := by
    have length : Bytes.eqIgnoreCase (ascii "host") (ascii "content-length") = false := by decide
    have coding : Bytes.eqIgnoreCase (ascii "host") (ascii "transfer-encoding") = false := by decide
    split
    · exact ⟨rfl, rfl⟩
    · simp [Unframed, isLength, isCoding, length, coding]
  have same : Unframed (request.givenHeaders host) ↔ Unframed request.headers := by
    simp [Unframed, givenHeaders, List.any_append, hostField.1, hostField.2]
  rw [LeavesFraming, ← wholeHead_iff, given, same]
  exact and_iff_right whole

end Request

end Requests

section Responses

namespace ResponseData

/-- The status of a response that has no body. -/
def Bodiless (status : Nat) : Prop := status = 204 ∨ status = 304 ∨ (100 ≤ status ∧ status < 200)

/-- The head that is written frames the body once, and exactly as it is. -/
structure WellFramed (response : ResponseData) : Prop where
  single : SingleFraming (textFields response.head)
  described : ∃ ranges kind, WholeHead parseResponseRanges response.head ranges ∧
    responseBodyKind ⟨response.head, ranges.headers⟩ (ranges.status.getD 200) false = .ok kind ∧
    BodyReader.Frames kind response.body

/-- The header fields that the handler's headers come to. -/
def ownFields (response : ResponseData) : List (Bytes × Bytes) :=
  sentFields (Http.statusLine response.status response.reason) response.headers

/-- The handler's lines do not frame a body, which a response of this status can have; or they say
once that there is none, unless the status says so already. -/
def FramedOnce (response : ResponseData) (status : Nat) : Prop :=
  response.body ≠ [] ∧ ¬ Bodiless status ∧ Unframed response.ownFields ∨
    response.body = [] ∧ SingleFraming response.ownFields ∧
      (Bodiless status ∨ ∃ field, response.ownFields.find? isLength = some field ∧
        parseContentLength field.2 = .ok 0)

/-- The strings make one head, and its status and its lines frame the body once. -/
def LeavesFraming (response : ResponseData) : Prop :=
  ∃ parts, OneHead parseStatusLine (Http.statusLine response.status response.reason)
      (sentHeaders response.headers (response.body ≠ []) response.body.length) parts ∧
    response.FramedOnce parts.2.1

variable {response : ResponseData} {headers : HeaderBlock} {status : Nat}

theorem kind_bodiless (bodiless : Bodiless status) : responseBodyKind headers status false = .ok .empty :=
  if_pos bodiless

theorem kind_coded {transferEncoding : Bytes} (bodied : ¬ Bodiless status)
    (coding : headers.get (ascii "transfer-encoding") = some transferEncoding) :
    responseBodyKind headers status false = if acceptableTransferEncoding transferEncoding
      then .ok .chunked else .error (.parse "unsupported Transfer-Encoding") := by
  unfold Bodiless at bodied
  rw [responseBodyKind, if_neg bodied, if_neg Bool.false_ne_true, coding]

theorem kind_length {value : Bytes} (bodied : ¬ Bodiless status)
    (coding : headers.get (ascii "transfer-encoding") = none)
    (length : headers.get (ascii "content-length") = some value) :
    responseBodyKind headers status false = (parseContentLength value).map .contentLength := by
  unfold Bodiless at bodied
  rw [responseBodyKind, if_neg bodied, if_neg Bool.false_ne_true, coding, contentLengthKind, length]
  cases parsed : parseContentLength value <;> simp [parsed, bind, Except.bind, Except.map]

theorem kind_unframed (bodied : ¬ Bodiless status)
    (coding : headers.get (ascii "transfer-encoding") = none)
    (length : headers.get (ascii "content-length") = none) :
    responseBodyKind headers status false = .ok .untilEof := by
  unfold Bodiless at bodied
  rw [responseBodyKind, if_neg bodied, if_neg Bool.false_ne_true, coding, contentLengthKind, length]
  rfl

/-- A body without bytes is described by a length of zero only. -/
theorem framed_empty (bodied : ¬ Bodiless status) :
    (∃ kind, responseBodyKind headers status false = .ok kind ∧ BodyReader.Frames kind []) ↔
      headers.get (ascii "transfer-encoding") = none ∧ ∃ value,
        headers.get (ascii "content-length") = some value ∧ parseContentLength value = .ok 0 := by
  cases coding : headers.get (ascii "transfer-encoding") with
  | some transferEncoding =>
      refine iff_of_false ?_ fun absent => by cases absent.1
      rintro ⟨kind, framing, frames⟩
      rw [kind_coded bodied coding] at framing
      split at framing
      · cases framing
        cases frames with
        | chunked chunks => exact chunks_ne_nil chunks rfl
      · cases framing
  | none =>
      cases length : headers.get (ascii "content-length") with
      | none =>
          refine iff_of_false ?_ (by simp)
          rintro ⟨kind, framing, frames⟩
          rw [kind_unframed bodied coding length] at framing
          cases framing
          cases frames
      | some value =>
          rw [kind_length bodied coding length]
          constructor
          · rintro ⟨kind, framing, frames⟩
            refine ⟨rfl, value, rfl, ?_⟩
            cases parsed : parseContentLength value with
            | error error =>
                rw [parsed] at framing
                cases framing
            | ok announced =>
                rw [parsed] at framing
                cases framing
                cases frames
                rfl
          · intro holds
            obtain ⟨_, other, same, zero⟩ := holds
            obtain rfl := Option.some.inj same
            exact ⟨.contentLength 0, by rw [zero]; rfl, .contentLength []⟩

theorem sent (whole : ∃ ranges, WholeHead parseResponseRanges response.head ranges) :
    textFields response.head = response.ownFields ++
        (if response.body = [] then [] else
          [(ascii "content-length", decimal response.body.length)]) ∧
      ∀ ranges, WholeHead parseResponseRanges response.head ranges →
        (HeaderBlock.mk response.head ranges.headers).iter = textFields response.head := by
  have shape : response.head = _ := renderHead_eq _ _ _ _ _
  have appended : sentFields (Http.statusLine response.status response.reason)
      (sentHeaders response.headers (response.body ≠ []) response.body.length) = response.ownFields ++
        (if response.body = [] then [] else
          [(ascii "content-length", decimal response.body.length)]) := by
    rw [sentHeaders, ownFields]
    by_cases empty : response.body = []
    · simp [empty]
    · simp only [empty, ne_eq, not_false_eq_true, decide_true, if_true, if_false]
      exact sentFields_concat _ _ (contentLength_plain _).safe
  rw [parseResponseRanges_eq, shape] at whole ⊢
  obtain ⟨ranges, whole⟩ := whole
  obtain ⟨_, fields⟩ := sent_fields whole
  refine ⟨fields.trans appended, fun ranges whole => ?_⟩
  exact (sent_fields whole).1.trans fields.symm

theorem wholeHead_iff (status : Nat) :
    (∃ ranges, WholeHead parseResponseRanges response.head ranges ∧ ranges.status.getD 200 = status) ↔
      ∃ parts, OneHead parseStatusLine (Http.statusLine response.status response.reason)
        (sentHeaders response.headers (response.body ≠ []) response.body.length) parts ∧
          parts.2.1 = status := by
  have shape : response.head = _ := renderHead_eq _ _ _ _ _
  have placed : ∀ {ranges : HeadRanges} {parts : Version × Nat × Range},
      (ranges.first, ranges.version, ranges.status) = placeStatusLine parts 0 →
        ranges.status.getD 200 = parts.2.1 := by
    intro ranges parts placed
    simp only [placeStatusLine, Prod.mk.injEq] at placed
    rw [placed.2.2, Option.getD_some]
  rw [parseResponseRanges_eq, shape]
  constructor
  · intro holds
    obtain ⟨ranges, whole, read⟩ := holds
    obtain ⟨parts, one, place⟩ := OneHead.of_whole whole
    exact ⟨parts, one, (placed place).symm.trans read⟩
  · intro holds
    obtain ⟨parts, one, read⟩ := holds
    obtain ⟨ranges, whole⟩ := @OneHead.whole _ (.parse "empty status head") _ placeStatusLine _ _ _ one
      (by simp [Http.statusLine])
    obtain ⟨others, other, place⟩ := OneHead.of_whole whole
    obtain ⟨line, _, cut, parsed, _⟩ := one.lines
    obtain ⟨_, _, cut', parsed', _⟩ := other.lines
    rw [cut, List.cons.injEq] at cut'
    rw [← cut'.1, parsed, Except.ok.injEq] at parsed'
    exact ⟨ranges, whole, (placed place).trans (parsed' ▸ read)⟩

/-- A head that is read as a whole frames the body just if its status and its lines do so. -/
theorem wellFramed_of_whole {ranges : HeadRanges}
    (whole : WholeHead parseResponseRanges response.head ranges) :
    response.WellFramed ↔ response.FramedOnce (ranges.status.getD 200) := by
  obtain ⟨fields, read⟩ := sent ⟨ranges, whole⟩
  have iter := (read ranges whole).trans fields
  have only : ∀ other, WholeHead parseResponseRanges response.head other → other = ranges := by
    intro other also
    have same := also.parsed.symm.trans whole.parsed
    rwa [Except.ok.injEq, Option.some.injEq] at same
  constructor
  · rintro ⟨single, other, kind, also, framing, frames⟩
    obtain rfl := only other also
    by_cases empty : response.body = []
    · rw [if_pos empty, List.append_nil] at fields iter
      refine .inr ⟨empty, fields ▸ single, ?_⟩
      by_cases bodied : Bodiless (other.status.getD 200)
      · exact .inl bodied
      · obtain ⟨_, value, found, zero⟩ := (framed_empty bodied).mp ⟨kind, framing, empty ▸ frames⟩
        rw [get_length, iter] at found
        obtain ⟨field, first, rfl⟩ := Option.map_eq_some_iff.mp found
        exact .inr ⟨field, first, zero⟩
    · rw [if_neg empty] at fields
      rw [fields, singleFraming_concat (length_named _) (length_uncoded _)] at single
      refine .inl ⟨empty, fun bodiless => ?_, single⟩
      rw [kind_bodiless bodiless] at framing
      cases framing
      generalize response.body = body at empty frames
      cases frames
      exact empty rfl
  · rintro (⟨nonempty, bodied, unframed⟩ | ⟨empty, single, described⟩)
    · rw [if_neg nonempty] at fields iter
      obtain ⟨length, coding⟩ := get_appended iter unframed
      have bound := response.bodyFits
      constructor
      case single =>
        rw [fields, singleFraming_concat (length_named _) (length_uncoded _)]
        exact unframed
      case described =>
        refine ⟨ranges, .contentLength response.body.length, whole, ?_, .contentLength response.body⟩
        rw [kind_length bodied coding length, parseContentLength_decimal (by rw [U64.max]; omega)]
        rfl
    · rw [if_pos empty, List.append_nil] at fields iter
      refine ⟨fields ▸ single, ?_⟩
      by_cases bodied : Bodiless (ranges.status.getD 200)
      · exact ⟨ranges, .empty, whole, kind_bodiless bodied, empty ▸ .empty⟩
      · obtain ⟨field, found, zero⟩ := described.resolve_left bodied
        have uncoded := single.exclusive
          (List.any_eq_true.mpr ⟨field, List.mem_of_find?_eq_some found, List.find?_some found⟩)
        have coding : (HeaderBlock.mk response.head ranges.headers).get (ascii "transfer-encoding") =
            none := by
          rw [get_coding, iter, find?_of_any_false uncoded]
          rfl
        have length : (HeaderBlock.mk response.head ranges.headers).get (ascii "content-length") =
            some field.2 := by
          rw [get_length, iter, found]
          rfl
        obtain ⟨kind, framing, frames⟩ := (framed_empty bodied).mpr ⟨coding, field.2, length, zero⟩
        exact ⟨ranges, kind, whole, framing, empty ▸ frames⟩

theorem wellFramed_iff : response.WellFramed ↔ response.LeavesFraming := by
  constructor
  · intro framed
    obtain ⟨ranges, _, whole, _⟩ := framed.described
    obtain ⟨parts, one, status⟩ := (wholeHead_iff _).mp ⟨ranges, whole, rfl⟩
    exact ⟨parts, one, status ▸ (wellFramed_of_whole whole).mp framed⟩
  · intro holds
    obtain ⟨parts, one, once⟩ := holds
    obtain ⟨ranges, whole, status⟩ := (wholeHead_iff _).mpr ⟨parts, one, rfl⟩
    exact (wellFramed_of_whole whole).mpr (status ▸ once)

end ResponseData

end Responses

/-- What is rendered describes the body exactly if the headers that were given do not speak of it. -/
theorem rendered_framing_iff (request : Request) (host : Bytes) (response : ResponseData) :
    (request.WellFramed host ↔ request.LeavesFraming host) ∧
      (response.WellFramed ↔ response.LeavesFraming) :=
  ⟨Request.wellFramed_iff, ResponseData.wellFramed_iff⟩

/-- Two lengths are sent, and the first one is not that of the body. -/
theorem rendered_framing_doubled :
    let given := (ascii "Content-Length", ascii "5")
    ¬ Request.WellFramed ⟨ascii "POST", ascii "/", [given], ascii "hi"⟩ (ascii "localhost") ∧
      ¬ ResponseData.WellFramed ⟨200, [given], ascii "hi", ResponseData.hello_fits⟩ := by
  intro given
  have named : isLength given = true := by decide
  have plain : PlainHeader given := ⟨by decide, by decide⟩
  constructor
  · intro framed
    obtain ⟨_, _, unframed, _⟩ := Request.wellFramed_iff.mp framed
    have host : PlainHeader (ascii "host", ascii "localhost") := ⟨by decide, by decide⟩
    have safe : ∀ header ∈ Request.givenHeaders ⟨ascii "POST", ascii "/", [given], ascii "hi"⟩
        (ascii "localhost"), SafeHeader header :=
      List.forall_mem_cons.mpr ⟨plain.safe, List.forall_mem_singleton.mpr host.safe⟩
    rw [sentFields_safe (by decide) safe] at unframed
    simp [Request.givenHeaders, named] at unframed
  · intro framed
    obtain ⟨_, _, once⟩ := ResponseData.wellFramed_iff.mp framed
    obtain ⟨_, _, unframed, _⟩ | ⟨empty, _⟩ := once
    · rw [ResponseData.ownFields, sentFields_safe (by decide)
        (List.forall_mem_singleton.mpr plain.safe)] at unframed
      simp [named] at unframed
    · exact absurd empty (by decide)

end TptAsync.Http
