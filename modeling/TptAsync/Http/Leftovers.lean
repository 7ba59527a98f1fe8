import TptAsync.Http.ClientProperties
import TptAsync.Http.Draining
import TptAsync.Http.Malformed
import TptAsync.Http.ResponseProperties

set_option autoImplicit false

/-!
# What is left of a response

The server writes the body whatever the request and the status are. What the client reads of it is
decided by the head.
-/

namespace TptAsync.Http

open Lib

/-- The framing reaches to the end of these bytes. -/
def Fits (kind : BodyKind) (bytes : Bytes) : Prop :=
  match kind with
  | .empty => bytes = []
  | .contentLength length => bytes.length ≤ length
  | .chunked => ∀ wire body, BodyReader.Chunks wire body → wire <+: bytes → wire = bytes
  | .untilEof => True

namespace BodyReader

open HttpConnection

variable {conn : HttpConnection} {reader after : BodyReader} {kind : BodyKind} {bytes later : Bytes}

theorem suffix_of_append {taken left : Bytes} (split : bytes ++ later = taken ++ left)
    (enough : bytes.length ≤ taken.length) : left <:+ later := by
  have lengths := congrArg List.length split
  simp only [List.length_append] at lengths
  have behind : left <:+ bytes ++ later := by
    rw [split]
    exact List.suffix_append _ _
  exact List.suffix_of_suffix_length_le behind (List.suffix_append _ _) (by omega)

/-- Without a framing of its own, a body ends with the stream. -/
theorem untilEof_ended (live : reader.conn.Live) (framing : reader.kind = .untilEof)
    (unfinished : reader.finished = false) (drains : reader.Drains after) :
    after.conn.stream = [] := by
  induction drains with
  | @ends capacity reader after room reads =>
      obtain ⟨middle, takes, rfl⟩ := read_of_unfinished room unfinished reads
      rw [framing] at takes
      obtain ⟨takes, shape⟩ := onConn_took takes
      have same := (readRaw_took takes).2
      have ended : reader.conn.stream = [] := by
        by_contra more
        obtain ⟨data, _, again, someBytes, _⟩ := readRaw_runs live more room
        exact someBytes (takes.unique again).1.symm
      rw [ended] at same
      exact same.symm
  | @reads capacity reader middle after data room nonempty reads _ ih =>
      have kept := (read_keeps capacity).of_runs reads
      obtain ⟨taken, takes, same⟩ := read_of_unfinished room unfinished reads
      rw [if_neg nonempty] at same
      rw [framing] at takes kept
      obtain ⟨takes, shape⟩ := onConn_took takes
      rw [same, shape] at ih
      have still := ((readRaw_onlyReads capacity).of_runs takes).live live
      exact ih still framing unfinished

/-- A body that fits its framing is drained, and what is left comes behind it. -/
theorem drains_later (live : conn.Live) (stream : conn.stream = bytes ++ later) (fits : Fits kind bytes)
    (drains : (new conn kind).Drains after) : after.conn.stream <:+ later := by
  by_cases delimited : kind = .untilEof
  · subst delimited
    have ended := @untilEof_ended (new conn .untilEof) _ live rfl rfl drains
    rw [ended]
    exact List.nil_suffix
  · obtain ⟨wire, frames, left⟩ := Frames.of_drains delimited drains
    have split : bytes ++ later = wire ++ after.conn.stream := stream.symm.trans left
    refine suffix_of_append split ?_
    cases frames with
    | empty => exact (congrArg List.length (show bytes = [] from fits)).le
    | contentLength => exact fits
    | chunked chunks =>
        by_contra short
        have front : wire <+: bytes ++ later := by
          rw [split]
          exact List.prefix_append _ _
        have initial : wire <+: bytes :=
          List.prefix_of_prefix_length_le front (List.prefix_append _ _) (Nat.le_of_not_le short)
        exact short (congrArg List.length (fits wire _ chunks initial)).ge

theorem Holds.drained {body rest : Bytes} (live : reader.conn.Live) (holds : Holds reader rest body) :
    ∃ after, reader.Drains after ∧ after.conn.stream = rest := by
  obtain ⟨after, reads, _, left, _⟩ := readToVec_runs live holds le_rfl
  exact ⟨after, readToVec_drains reads, left⟩

/-- A framing that leaves nothing fits. -/
theorem fits_of_drains (live : conn.Live) (stream : conn.stream = bytes)
    (leaves : ∀ after, (new conn kind).Drains after → after.conn.stream = []) : Fits kind bytes := by
  have nothing : ∀ {rest body : Bytes}, Holds (new conn kind) rest body → rest = [] := by
    intro rest body holds
    obtain ⟨after, drains, left⟩ := holds.drained live
    rw [← left, leaves after drains]
  cases kind with
  | empty => exact nothing (.done rfl stream)
  | contentLength length =>
      by_contra large
      have short : length < bytes.length := Nat.lt_of_not_le large
      have shape : conn.stream = bytes.take length ++ bytes.drop length := by
        rw [stream, List.take_append_drop]
      have size : (bytes.take length).length = length := List.length_take_of_le short.le
      have holds := Holds.new_contentLength shape
      rw [size] at holds
      exact absurd (List.drop_eq_nil_iff.mp (nothing holds)) (Nat.not_le.mpr short)
  | chunked =>
      rintro wire body chunked ⟨rest, split⟩
      have none := nothing (.new_chunked chunked (stream.trans split.symm))
      rw [← split, none, List.append_nil]
  | untilEof => trivial

end BodyReader

namespace ResponseData

open HttpConnection

variable {request : Request} {response : ResponseData}

/-- The client takes the head to end at the first blank line. -/
def headEnd (response : ResponseData) : Nat :=
  (find headerDelim response.head).getD 0 + headerDelim.length

def announced (response : ResponseData) : Bytes := response.head.take response.headEnd

/-- What the client finds behind the head. -/
def behind (response : ResponseData) : Bytes := response.head.drop response.headEnd ++ response.body

/-- However the response arrives, and whatever comes behind it: when the client has read the head
and drained the body, nothing of the response is left. -/
def LeavesNothing (request : Request) (response : ResponseData) : Prop :=
  ∀ host conn answer after reader later, conn.Live → conn.stream = response.message ++ later →
    (ClientConnection.send request host).Runs conn answer after → answer.body.Drains reader →
    reader.conn.stream <:+ later

/-- What is behind the head fits the framing that the head announces. -/
def Framed (request : Request) (response : ResponseData) : Prop :=
  ∀ ranges kind, parseResponseRanges response.announced = .ok (some ranges) →
    responseBodyKind ⟨response.announced, ranges.headers⟩ (ranges.status.getD 200) request.isHead =
      .ok kind →
    Fits kind response.behind

theorem find_head (response : ResponseData) :
    ∃ stop, find headerDelim response.head = some stop ∧ response.headEnd = stop + 4 := by
  have inside : headerDelim <:+: response.head := by
    rw [head_eq]
    exact (List.suffix_append _ _).isInfix
  obtain ⟨stop, found⟩ := Option.isSome_iff_exists.mp (find_isSome_iff.mpr inside)
  exact ⟨stop, found, by rw [headEnd, found]; rfl⟩

theorem message_eq (response : ResponseData) :
    response.message = response.announced ++ response.behind := by
  rw [message, announced, behind, ← List.append_assoc, List.take_append_drop]

/-- Parts of a stream that end at the first blank line are the same. -/
theorem announced_eq {stream part : Bytes} {ranges : HeadRanges} (initial : response.head <+: stream)
    (part_initial : part <+: stream) (parsed : parseResponseRanges part = .ok (some ranges)) :
    part.take ranges.consumed = response.announced := by
  obtain ⟨stop, found, size⟩ := find_head response
  obtain ⟨stop', found', consumed, _⟩ := parseHead_find (parseResponseRanges_eq ▸ parsed)
  have same : stop = stop' := by
    have whole := find_initial initial found
    rw [find_initial part_initial found', Option.some.injEq] at whole
    exact whole.symm
  have within := find_length_le found
  have within' := find_length_le found'
  have front : ∀ {bytes : Bytes}, bytes <+: stream → stop + 4 ≤ bytes.length →
      bytes.take (stop + 4) = stream.take (stop + 4) := by
    rintro bytes ⟨rest, rfl⟩ long
    exact (List.take_append_of_le_length long).symm
  rw [announced, size, consumed, ← same, front initial within, front part_initial (same ▸ within')]

theorem Framed.leavesNothing (framed : Framed request response) : LeavesNothing request response := by
  intro host conn answer after reader later live stream sends drains
  obtain ⟨reads, kind, framing, body⟩ := ClientConnection.send_of_runs sends
  have requested : (ClientConnection.requested request host conn).Live := ⟨live.segments, live.eof⟩
  obtain ⟨part, ranges, initial, parsed, head, advances⟩ := readResponseHead_of_runs requested reads
  have starts : response.head <+: (ClientConnection.requested request host conn).stream := by
    change response.head <+: conn.stream
    rw [stream, message, List.append_assoc]
    exact List.prefix_append _ _
  have whole := announced_eq starts initial parsed
  have alone := parseResponseRanges_take parsed
  rw [whole] at head advances alone
  rw [head] at framing
  have left : after.stream = response.behind ++ later := by
    have split : response.announced ++ (response.behind ++ later) = response.announced ++ after.stream := by
      rw [← List.append_assoc, ← message_eq, ← stream]
      exact advances.stream
    exact (List.append_cancel_left split).symm
  rw [body] at drains
  exact BodyReader.drains_later advances.live left (framed ranges kind alone framing) drains

/-- Some bytes have come, and others are still to come. -/
theorem exists_live (came coming : Bytes) :
    ∃ conn : HttpConnection, conn.Live ∧ conn.buf = came ∧ conn.undelivered = coming ∧
      conn.io.ending = .eof := by
  by_cases nothing : coming = []
  · refine ⟨⟨⟨[], .eof, []⟩, came, false⟩, ⟨fun segment member => ?_, rfl⟩, rfl, nothing.symm, rfl⟩
    cases member
  · refine ⟨⟨⟨[coming], .eof, []⟩, came, false⟩, ⟨fun segment member => ?_, rfl⟩, rfl, ?_, rfl⟩
    · rw [List.mem_singleton.mp member]
      exact nothing
    · exact List.append_nil coming

theorem LeavesNothing.framed (leaves : LeavesNothing request response) : Framed request response := by
  intro ranges kind parsed framing
  have whole : response.announced.take ranges.consumed = response.announced :=
    announced_eq (List.prefix_refl _) (List.take_prefix _ _) parsed
  have nothing : response.announced.drop ranges.consumed = [] := by
    have split := List.take_append_drop ranges.consumed response.announced
    rw [whole] at split
    exact List.append_right_eq_self.mp split
  obtain ⟨conn, live, came, coming, _⟩ := exists_live response.announced response.behind
  have reads := @readResponseHead_buffered (ClientConnection.requested request [] conn) ranges
    (by rw [← parsed, ← came]; rfl)
  have buffered : (ClientConnection.requested request [] conn).buf = response.announced := came
  rw [buffered, whole, nothing] at reads
  have sends := ClientConnection.send_of_head reads framing
  let after : HttpConnection := { ClientConnection.requested request [] conn with buf := [] }
  have still : after.Live := ⟨live.segments, live.eof⟩
  refine BodyReader.fits_of_drains still coming fun reader drains => ?_
  have stream : conn.stream = response.message ++ [] := by
    rw [HttpConnection.stream, came, coming, List.append_nil, message_eq]
  exact List.suffix_nil.mp (leaves [] conn _ _ reader [] live stream sends drains)

theorem leavesNothing_iff_framed : LeavesNothing request response ↔ Framed request response :=
  ⟨LeavesNothing.framed, Framed.leavesNothing⟩

theorem responseBodyKind_bodiless {headers : HeaderBlock}
    (bodiless : request.isHead = true ∨ response.status = 204 ∨ response.status = 304) :
    responseBodyKind headers response.status request.isHead = .ok .empty := by
  rw [responseBodyKind]
  split
  · rfl
  · next status =>
      rw [if_pos (bodiless.resolve_right fun bare => status (bare.imp_right .inl))]

theorem announced_of_sendable (range : 200 ≤ response.status ∧ response.status ≤ 599)
    (headers : ∀ header ∈ response.headers, SendableHeader header) :
    response.announced = response.head ∧ response.behind = response.body := by
  have lines : ∀ line ∈ response.fields.map Field.line, HeaderLine line := by
    intro line member
    obtain ⟨field, inFields, rfl⟩ := List.mem_map.mp member
    exact (fields_wellFormed headers field inFields).1
  have whole : response.headEnd = response.head.length := by
    have ends := find_headerDelim (statusLine_bytes range) lines []
    rw [List.append_nil, ← head_eq] at ends
    rw [headEnd, ends, head_eq, List.length_append]
    rfl
  constructor
  · rw [announced, whole, List.take_length]
  · rw [behind, whole, List.drop_length, List.nil_append]

/-- With headers of its own that are no framing, a response leaves something exactly if it has a
body where the client expects none. -/
theorem framed_iff (range : 200 ≤ response.status ∧ response.status ≤ 599)
    (headers : ∀ header ∈ response.headers, SendableHeader header) :
    Framed request response ↔ response.body = [] ∨ maxHead < response.head.length ∨
      (request.isHead = false ∧ response.status ≠ 204 ∧ response.status ≠ 304) := by
  obtain ⟨announces, leaves⟩ := announced_of_sendable range headers
  rw [Framed, announces, leaves]
  by_cases large : maxHead < response.head.length
  · obtain ⟨error, refused⟩ := parse_head_tooLarge large
    simp [refused, large]
  obtain ⟨ranges, parsed, _, status, iter⟩ := parse_head range headers (Nat.le_of_not_lt large)
  by_cases bodiless : request.isHead = true ∨ response.status = 204 ∨ response.status = 304
  · have framing := @responseBodyKind_bodiless request response ⟨response.head, ranges.headers⟩ bodiless
    constructor
    · intro framed
      exact .inl (framed ranges .empty parsed (by rw [status]; exact framing))
    · rintro (empty | tooLarge | ⟨get, content, modified⟩)
      · intro other kind parsed' framing'
        rw [parsed, Except.ok.injEq, Option.some.injEq] at parsed'
        rw [← parsed', status, Option.getD_some, framing] at framing'
        cases framing'
        exact empty
      · exact absurd tooLarge large
      · simp [get, content, modified] at bodiless
  · obtain ⟨get, content, modified⟩ : request.isHead = false ∧ response.status ≠ 204 ∧
        response.status ≠ 304 := by simpa using bodiless
    refine iff_of_true (fun other kind parsed' framing => ?_) (.inr (.inr ⟨get, content, modified⟩))
    have answerable : response.Answerable := ⟨range, ⟨content, modified⟩, headers⟩
    rw [parsed, Except.ok.injEq, Option.some.injEq] at parsed'
    rw [← parsed', status, Option.getD_some, get, responseBodyKind_head answerable iter] at framing
    cases framing
    split
    · trivial
    · exact Nat.le_refl response.body.length

/-- Nothing of a response is left exactly if what is behind its head fits the framing that the head
announces. -/
theorem leavesNothing_iff (request : Request) (response : ResponseData) :
    (LeavesNothing request response ↔ Framed request response) ∧
      (200 ≤ response.status ∧ response.status ≤ 599 →
        (∀ header ∈ response.headers, SendableHeader header) →
        (LeavesNothing request response ↔ response.body = [] ∨ maxHead < response.head.length ∨
          (request.isHead = false ∧ response.status ≠ 204 ∧ response.status ≠ 304))) :=
  ⟨leavesNothing_iff_framed, fun range headers =>
    leavesNothing_iff_framed.trans (framed_iff range headers)⟩

/-- A request without a body. -/
def bare (method : Bytes) : Request := ⟨method, ascii "/", [], []⟩

theorem leavesNothing_iff_hello : LeavesNothing (bare (ascii "GET")) hello := by
  have headers : ∀ header ∈ hello.headers, SendableHeader header :=
    List.forall_mem_singleton.mpr ⟨by decide, by unfold LineBytes; decide, by decide, by decide⟩
  exact ((leavesNothing_iff (bare (ascii "GET")) hello).2 (by decide) headers).mpr
    (.inr (.inr ⟨by decide, by decide, by decide⟩))

/-- The answer to a HEAD request, and one that says that there is no content: both bodies are left. -/
theorem not_leavesNothing_bodiless :
    ¬ LeavesNothing (bare (ascii "HEAD")) hello ∧
      ¬ LeavesNothing (bare (ascii "GET")) ⟨204, [], ascii "hi", hello_fits⟩ := by
  have headers : ∀ header ∈ hello.headers, SendableHeader header :=
    List.forall_mem_singleton.mpr ⟨by decide, by unfold LineBytes; decide, by decide, by decide⟩
  constructor
  · rw [leavesNothing_iff_framed, framed_iff (by decide) headers]
    decide
  · rw [leavesNothing_iff_framed, framed_iff (by decide) (List.forall_mem_nil _)]
    decide

end ResponseData

end TptAsync.Http
