import TptAsync.Http.PoolProperties
import TptAsync.Http.SentHeads
import TptAsync.Http.StatusLine

set_option autoImplicit false

/-!
# Whether a connection goes on

Each side looks at the first `Connection` field as a whole: the server at that of the request, the
client at that of the response. The server never writes one of its own.
-/

namespace TptAsync.Http

open Lib HttpClient

section Options

/-- Some `Connection` field has this option in its list. -/
def listsOption (option : Bytes) (headers : List (Bytes × Bytes)) : Bool :=
  headers.any fun (name, value) => Bytes.eqIgnoreCase name (ascii "connection") &&
    (connectionOptions value).any (Bytes.eqIgnoreCase · option)

/-- The value of the first `Connection` field, as a whole, is this option. -/
def onlyOption (option : Bytes) (headers : HeaderBlock) : Bool :=
  ((headers.get (ascii "connection")).map (Bytes.eqIgnoreCase · option)).getD false

theorem keepAliveFrom_eq (headers : HeaderBlock) :
    keepAliveFrom headers = !onlyOption (ascii "close") headers := by
  rw [keepAliveFrom, onlyOption]
  cases headers.get (ascii "connection") <;> rfl

theorem keepAliveRequested_eq (head : RequestHead) : keepAliveRequested head =
    match head.version with
    | .http11 => !onlyOption (ascii "close") head.headers
    | .http10 => onlyOption (ascii "keep-alive") head.headers := rfl

/-- A value that is the option as a whole lists it, since the option has neither a comma nor
a blank. -/
theorem connectionOptions_whole {value option : Bytes}
    (plain : (option.map Bytes.toLower).all (fun byte => byte ≠ 44 ∧ byte ≠ 32 ∧ byte ≠ 9) = true)
    (same : Bytes.eqIgnoreCase value option = true) : connectionOptions value = [value] := by
  have solid : ∀ byte ∈ value, byte ≠ 44 ∧ byte ≠ 32 ∧ byte ≠ 9 := by
    intro byte member
    have inOption : Bytes.toLower byte ∈ option.map Bytes.toLower := by
      rw [← Bytes.eqIgnoreCase_iff.mp same]
      exact List.mem_map_of_mem member
    have lower : Bytes.toLower byte ≠ 44 ∧ Bytes.toLower byte ≠ 32 ∧ Bytes.toLower byte ≠ 9 :=
      of_decide_eq_true (List.all_eq_true.mp plain _ inOption)
    refine ⟨?_, ?_, ?_⟩
    · rintro rfl
      exact lower.1 rfl
    · rintro rfl
      exact lower.2.1 rfl
    · rintro rfl
      exact lower.2.2 rfl
  have bare : ∀ text : Bytes, (∀ byte ∈ text, byte ∈ value) → leadingOws text = 0 := by
    intro text inside
    rw [leadingOws_eq_zero]
    rintro (space | tab)
    · exact (solid 32 (inside 32 (List.mem_of_mem_head? space))).2.1 rfl
    · exact (solid 9 (inside 9 (List.mem_of_mem_head? tab))).2.2 rfl
  have single : value.splitOn 44 = [value] :=
    List.splitOnP_eq_singleton fun byte member => by simpa using (solid byte member).1
  rw [connectionOptions, single, List.map_singleton, trimOws_slice, bare value fun _ member => member,
    List.drop_zero, bare value.reverse fun _ member => List.mem_reverse.mp member, List.drop_zero,
    List.reverse_reverse]

theorem listsOption_of_only {headers : HeaderBlock} {option : Bytes}
    (plain : (option.map Bytes.toLower).all (fun byte => byte ≠ 44 ∧ byte ≠ 32 ∧ byte ≠ 9) = true)
    (only : onlyOption option headers = true) : listsOption option headers.iter = true := by
  rw [onlyOption] at only
  cases found : headers.get (ascii "connection") with
  | none => simp [found] at only
  | some value =>
      obtain ⟨header, first, rfl⟩ := Option.map_eq_some_iff.mp found
      have same : Bytes.eqIgnoreCase header.2 option = true := by simpa [found] using only
      rw [listsOption, List.any_eq_true]
      refine ⟨header, List.mem_of_find?_eq_some first, ?_⟩
      have named := List.find?_some first
      simp [named, connectionOptions_whole plain same, same]

/-- The server honours the options of a request. -/
structure RequestHonoured (head : RequestHead) : Prop where
  close : saysClose head.headers.iter = true → keepAliveRequested head = false
  keepAlive : head.version = .http10 → keepAliveRequested head = true →
    listsOption (ascii "keep-alive") head.headers.iter = true ∧ saysClose head.headers.iter = false

/-- The client honours the option to close of a response. -/
def ResponseHonoured (headers : HeaderBlock) : Prop :=
  saysClose headers.iter = true → keepAliveFrom headers = false

/-- If the option to close is listed, the first field is one that decides for it. -/
def RequestDecided (head : RequestHead) : Prop :=
  saysClose head.headers.iter = true →
    match head.version with
    | .http11 => onlyOption (ascii "close") head.headers = true
    | .http10 => onlyOption (ascii "keep-alive") head.headers = false

theorem requestHonoured_iff (head : RequestHead) : RequestHonoured head ↔ RequestDecided head := by
  constructor
  · intro honoured close
    have ends := honoured.close close
    rw [keepAliveRequested_eq] at ends
    cases version : head.version with
    | http11 => simpa [version] using ends
    | http10 => simpa [version] using ends
  · intro decided
    constructor
    case close =>
      intro close
      have decides := decided close
      rw [keepAliveRequested_eq]
      cases version : head.version with
      | http11 => simpa [version] using decides
      | http10 => simpa [version] using decides
    case keepAlive =>
      intro version goesOn
      rw [keepAliveRequested_eq, version] at goesOn
      refine ⟨listsOption_of_only (by decide) goesOn, ?_⟩
      by_contra close
      have decides := decided (Bool.eq_true_of_not_eq_false close)
      rw [version] at decides
      exact absurd (decides.symm.trans goesOn) Bool.false_ne_true

theorem responseHonoured_iff (headers : HeaderBlock) : ResponseHonoured headers ↔
    (saysClose headers.iter = true → onlyOption (ascii "close") headers = true) := by
  rw [ResponseHonoured, keepAliveFrom_eq]
  simp

/-- The options of `Connection` are honoured exactly where the first field decides as the whole
list does. -/
theorem connectionOptions_honoured_iff (head : RequestHead) (headers : HeaderBlock) :
    (RequestHonoured head ↔ RequestDecided head) ∧
      (ResponseHonoured headers ↔
        (saysClose headers.iter = true → onlyOption (ascii "close") headers = true)) :=
  ⟨requestHonoured_iff head, responseHonoured_iff headers⟩

/-- A list with the option to close in the second place. -/
def closeListed : HeaderBlock :=
  ⟨ascii "Connectionkeep-alive, close", [(⟨0, 10⟩, ⟨10, 27⟩)]⟩

theorem connectionOptions_unhonoured :
    ¬ RequestHonoured ⟨[], ⟨0, 0⟩, ⟨0, 0⟩, .http11, closeListed⟩ ∧ ¬ ResponseHonoured closeListed := by
  have close : saysClose closeListed.iter = true := by decide
  constructor
  · intro honoured
    exact absurd (honoured.close close) (by decide)
  · intro honoured
    exact absurd (honoured close) (by decide)

end Options

section Agreement

open HttpConnection

namespace ResponseData

/-- The client takes the head that is written for a head. -/
def Readable (response : ResponseData) : Prop :=
  ∃ ranges, parseResponseRanges response.announced = .ok (some ranges)

/-- The first `Connection` line of the head that is written asks to close. -/
def Closing (response : ResponseData) : Prop :=
  ∃ field, (textFields response.announced).find? (fun field =>
      Bytes.eqIgnoreCase field.1 (ascii "connection")) = some field ∧
    Bytes.eqIgnoreCase field.2 (ascii "close") = true

variable {response : ResponseData}

theorem keepAliveFrom_announced {ranges : HeadRanges}
    (parsed : parseResponseRanges response.announced = .ok (some ranges)) :
    keepAliveFrom ⟨response.announced, ranges.headers⟩ = false ↔ response.Closing := by
  have fields : (HeaderBlock.mk response.announced ranges.headers).iter = textFields response.announced :=
    parseHead_fields (parseResponseRanges_eq ▸ parsed)
  rw [keepAliveFrom_eq, onlyOption, HeaderBlock.get, fields, Closing]
  cases (textFields response.announced).find? fun field =>
      Bytes.eqIgnoreCase field.1 (ascii "connection") with
  | none => simp
  | some field => simp

/-- Unless its strings break the head, the fields of a response are those of the handler, and the
length. -/
theorem Safe.fields (safe : response.Safe) : textFields response.announced =
    sentHeaders response.headers (response.body ≠ []) response.body.length := by
  obtain ⟨ranges, whole, iter⟩ := (uninjected_iff response).mpr safe
  have same := announced_eq (List.prefix_refl _) (List.prefix_refl _) whole.parsed
  rw [whole.whole, List.take_length] at same
  rw [← same, ← iter]
  exact (parseHead_fields (parseResponseRanges_eq ▸ whole.parsed)).symm

theorem Safe.closing_iff (safe : response.Safe) : response.Closing ↔
    ∃ field, response.headers.find? (fun field =>
        Bytes.eqIgnoreCase field.1 (ascii "connection")) = some field ∧
      Bytes.eqIgnoreCase field.2 (ascii "close") = true := by
  have length : [(ascii "content-length", decimal response.body.length)].find? (fun field =>
      Bytes.eqIgnoreCase field.1 (ascii "connection")) = none := by
    have other : Bytes.eqIgnoreCase (ascii "content-length") (ascii "connection") = false := by decide
    simp [other]
  have same : (textFields response.announced).find? (fun field =>
      Bytes.eqIgnoreCase field.1 (ascii "connection")) =
      response.headers.find? fun field => Bytes.eqIgnoreCase field.1 (ascii "connection") := by
    rw [safe.fields, sentHeaders, List.find?_append]
    split
    · rw [length, Option.or_none]
    · rw [List.find?_nil, Option.or_none]
  rw [Closing, same]

end ResponseData

variable {σ : Type} {handler : Handler σ} {state next : σ} {before after : HttpConnection}

/-- A request that has been read from a connection, the response of the handler, and whether the
handler has read the body to its end. -/
structure Served (handler : Handler σ) (state : σ) (before : HttpConnection) (head : RequestHead)
    (response : ResponseData) (finished : Bool) (next : σ) (after : HttpConnection) : Prop where
  serves : ∃ headed kind answered, readRequestHead.Runs before (some head) headed ∧
    requestBodyKind head.headers = .ok kind ∧
    (BodyReader.borrow kind do
      let answer ← (handler state (head.view (keepAliveRequested head))).run
      pure (answer, (← Async.get).isFinished)).Runs headed ((response, next), finished) answered ∧
    (writeMessage response.head response.body).Runs answered () after

/-- The server goes on if the request has not asked it to close, and its body is behind it. -/
theorem serveOne_iff {goesOn : Bool} :
    (serveOne handler state).Runs before (some (next, goesOn)) after ↔
      ∃ head response finished, Served handler state before head response finished next after ∧
        goesOn = (keepAliveRequested head && finished) := by
  constructor
  · intro runs
    obtain ⟨found, headed, reads, runs⟩ := Async.Runs.of_bind runs
    cases found with
    | none => cases runs
    | some head =>
        obtain ⟨kind, framed, decides, answers⟩ := Async.Runs.of_bind runs
        obtain ⟨⟨⟨response, state⟩, finished⟩, answered, handles, replies⟩ := Async.Runs.of_bind answers
        obtain ⟨_, written, writes, returns⟩ := Async.Runs.of_bind replies
        obtain ⟨decided, rfl⟩ := Async.Runs.of_ofExcept decides
        cases returns
        exact ⟨head, response, finished, ⟨_, kind, answered, reads, decided, handles, writes⟩, rfl⟩
  · rintro ⟨head, response, finished, ⟨headed, kind, answered, reads, decided, handles, writes⟩, rfl⟩
    rw [Async.Runs, serveOne, reads.bind_eq]
    dsimp only
    rw [decided, (Async.Runs.ofExcept headed kind).bind_eq, handles.bind_eq, writes.bind_eq]
    rfl

/-- If the server ends the connection behind a response to an HTTP/1.1 request, the client does not
keep it. -/
def RoundAgrees (handler : Handler σ) (state : σ) (before : HttpConnection) : Prop :=
  ∀ head response finished next after, Served handler state before head response finished next after →
    head.version = .http11 → (keepAliveRequested head && finished) = false →
    ∀ ranges, parseResponseRanges response.announced = .ok (some ranges) →
      keepAliveFrom ⟨response.announced, ranges.headers⟩ = false

/-- Where the server does not go on, the handler itself has asked the client to close. -/
def RoundAnnounced (handler : Handler σ) (state : σ) (before : HttpConnection) : Prop :=
  ∀ head response finished next after, Served handler state before head response finished next after →
    head.version = .http11 → response.Readable →
    onlyOption (ascii "close") head.headers = false ∧ finished = true ∨ response.Closing

theorem roundAgrees_iff : RoundAgrees handler state before ↔ RoundAnnounced handler state before := by
  constructor
  · intro agrees head response finished next after served version ⟨ranges, parsed⟩
    cases goesOn : keepAliveRequested head && finished with
    | true =>
        rw [keepAliveRequested_eq, version, Bool.and_eq_true, Bool.not_eq_true'] at goesOn
        exact .inl goesOn
    | false =>
        have ends := agrees head response finished next after served version goesOn ranges parsed
        exact .inr ((ResponseData.keepAliveFrom_announced parsed).mp ends)
  · intro announced head response finished next after served version ends ranges parsed
    rcases announced head response finished next after served version ⟨ranges, parsed⟩ with goesOn | closing
    · rw [keepAliveRequested_eq, version, goesOn.1, goesOn.2] at ends
      cases ends
    · exact (ResponseData.keepAliveFrom_announced parsed).mpr closing

/-- Client and server agree on when a connection ends, in every round of the keep-alive loop. -/
def PersistenceAgrees (io : Transport) (handler : Handler σ) (state : σ) : Prop :=
  ∀ count last conn, Rounds handler count state (.new io) last conn → RoundAgrees handler last conn

def PersistenceAnnounced (io : Transport) (handler : Handler σ) (state : σ) : Prop :=
  ∀ count last conn, Rounds handler count state (.new io) last conn → RoundAnnounced handler last conn

/-- They agree exactly if the server only ends a connection where the handler announces it. -/
theorem persistence_agrees_iff (io : Transport) (handler : Handler σ) (state : σ) :
    PersistenceAgrees io handler state ↔ PersistenceAnnounced io handler state := by
  apply forall₃_congr
  intro count last conn
  exact imp_congr_right fun _ => roundAgrees_iff

/-- The server closes as it was asked to, and the client would keep the connection. -/
theorem persistence_disagrees :
    ¬ PersistenceAgrees ⟨[ascii "GET / HTTP/1.1\r\nConnection: close\r\n\r\n"], .pending, []⟩ greet () := by
  intro agrees
  let text := ascii "GET / HTTP/1.1\r\nConnection: close\r\n\r\n"
  let conn := HttpConnection.new ⟨[text], .pending, []⟩
  let head := RequestHead.fromRanges text ⟨(⟨0, 3⟩, ⟨4, 5⟩), .http11, none, [(⟨16, 26⟩, ⟨28, 33⟩)], 37⟩
  let response : ResponseData := ⟨200, [], ascii "hi", by decide⟩
  have reads : readRequestHead.Runs conn (some head) ⟨⟨[], .pending, []⟩, [], false⟩ := by rfl
  have served : Served greet () conn head response true () _ := ⟨_, .empty, _, reads, rfl, rfl, rfl⟩
  have fits : response.head.length ≤ maxHead := by
    rw [ResponseData.head_length (by decide) (by decide)]
    decide
  have sendable : ∀ header ∈ response.headers, ResponseData.SendableHeader header := List.forall_mem_nil _
  obtain ⟨ranges, parsed, _, _, iter⟩ := ResponseData.parse_head (by decide) sendable fits
  rw [← (ResponseData.announced_of_sendable (by decide) sendable).1] at parsed iter
  have ends := agrees 0 () conn (.none () conn) head response true () _ served rfl rfl ranges parsed
  obtain ⟨field, found, _⟩ := (ResponseData.keepAliveFrom_announced parsed).mp ends
  rw [← parseHead_fields (parseResponseRanges_eq ▸ parsed), iter] at found
  have other : Bytes.eqIgnoreCase (ascii "content-length") (ascii "connection") = false := by decide
  have fields : response.fields = [(ascii "content-length", 32 :: decimal response.body.length)] := by
    rw [ResponseData.fields, if_pos (by decide)]
    rfl
  simp [fields, other] at found

end Agreement

end TptAsync.Http
