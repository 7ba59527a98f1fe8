import TptAsync.Http.SentHeads
import TptAsync.Ws.Handshake

set_option autoImplicit false

/-!
# Agreement of the two ends

What `connect` writes is what `accept` takes, the other way round as well, and the two come to
codecs that fit.
-/

namespace TptAsync.Ws

open Lib Http WebSocketStream

section Resets

variable {γ δ : Type}

theorem compressVec_keeps [Deflate γ] (input : Bytes) (spare : Nat) :
    Async.Keeps (FullCodec.compressVec input spare) (FullCodec.resetCompressor (γ := γ) (δ := δ)) := by
  intro codec
  rw [FullCodec.compressVec]
  split <;> rfl

theorem compressLoop_keeps [Deflate γ] (data : Bytes) (start rounds capacity consumed : Nat) (out : Bytes) :
    Async.Keeps (FullCodec.compressLoop data start rounds capacity consumed out)
      (FullCodec.resetCompressor (γ := γ) (δ := δ)) := by
  induction rounds generalizing capacity consumed out with
  | zero => exact .wait
  | succ rounds ih =>
      refine .bind (compressVec_keeps _ _) fun appended => .bind .get fun codec => ?_
      dsimp only
      split
      · exact .pure _
      · split
        · exact .fail _
        · exact ih _ _ _

/-- A compressor that starts afresh does so with each message that has been compressed. -/
theorem compress_resets [Deflate γ] {codec after : FullCodec γ δ} {rounds : Nat} {data out : Bytes}
    (resets : codec.resetCompressor = true) (runs : (FullCodec.compress rounds data).Runs codec out after) :
    ∃ used, after.compressor = Deflate.reset used ∧ after.resetCompressor = true := by
  obtain ⟨_, _, gets, runs⟩ := Async.Runs.of_bind runs
  cases gets
  obtain ⟨_, middle, compresses, runs⟩ := Async.Runs.of_bind runs
  have kept : middle.resetCompressor = true := ((compressLoop_keeps _ _ _ _ _ _).of_runs compresses).trans resets
  obtain ⟨_, last, modifies, runs⟩ := Async.Runs.of_bind runs
  cases runs
  cases modifies
  simp only [if_pos kept]
  exact ⟨middle.compressor, rfl, kept⟩

theorem decompressVec_keeps [Inflate δ] (input : Bytes) (spare : Nat) :
    Async.Keeps (Codec.decompressVec input spare) (Codec.resetDecompressor (δ := δ)) := by
  intro codec
  rw [Codec.decompressVec]
  split <;> rfl

theorem decompressLoop_keeps [Inflate δ] (input : Bytes) (start max rounds capacity consumed : Nat)
    (out : Bytes) :
    Async.Keeps (Codec.decompressLoop input start max rounds capacity consumed out)
      (Codec.resetDecompressor (δ := δ)) := by
  induction rounds generalizing capacity consumed out with
  | zero => exact .wait
  | succ rounds ih =>
      refine .bind (decompressVec_keeps _ _) fun result => .bind .get fun codec => ?_
      dsimp only
      split
      · exact .fail _
      · split
        · exact .pure _
        · split
          · exact .fail _
          · exact ih _ _ _

/-- The same of a decompressor. -/
theorem decompress_resets [Inflate δ] {codec after : FullCodec γ δ} {rounds max : Nat} {data out : Bytes}
    (resets : codec.resetDecompressor = true)
    (runs : (FullCodec.decompress rounds data max).Runs codec out after) :
    ∃ used, after.decompressor = Inflate.reset used ∧ after.resetDecompressor = true := by
  obtain ⟨half, decodes, rfl⟩ := Async.Runs.of_zoom runs
  obtain ⟨_, _, gets, runs⟩ := Async.Runs.of_bind decodes
  cases gets
  obtain ⟨_, middle, decompresses, runs⟩ := Async.Runs.of_bind runs
  have kept : middle.resetDecompressor = true :=
    ((decompressLoop_keeps _ _ _ _ _ _ _).of_runs decompresses).trans resets
  obtain ⟨_, last, modifies, runs⟩ := Async.Runs.of_bind runs
  cases runs
  cases modifies
  simp only [if_pos kept]
  exact ⟨middle.decompressor, rfl, kept⟩

end Resets

section Base64

theorem base64Digit_mem (sextet : UInt32) : base64Digit sextet ∈ base64Table := by
  have size : base64Table.length = 64 := by decide
  have within : sextet.toNat &&& 63 < base64Table.length := by
    rw [size]
    exact Nat.lt_succ_of_le Nat.and_le_right
  rw [base64Digit, List.getD_eq_getElem?_getD, List.getElem?_eq_getElem within, Option.getD_some]
  exact List.getElem_mem within

theorem base64Chunk_bytes {chunk : Bytes} {byte : UInt8} (member : byte ∈ base64Chunk chunk) :
    byte = 61 ∨ byte ∈ base64Table := by
  simp only [base64Chunk, List.mem_cons, List.not_mem_nil, or_false] at member
  rcases member with rfl | rfl | rfl | rfl
  · exact .inr (base64Digit_mem _)
  · exact .inr (base64Digit_mem _)
  · split
    · exact .inr (base64Digit_mem _)
    · exact .inl rfl
  · split
    · exact .inr (base64Digit_mem _)
    · exact .inl rfl

theorem base64Encode_bytes {data : Bytes} {byte : UInt8} (member : byte ∈ base64Encode data) :
    byte = 61 ∨ byte ∈ base64Table := by
  fun_induction base64Encode data with
  | case1 b0 b1 b2 rest ih => exact (List.mem_append.mp member).elim base64Chunk_bytes ih
  | case2 => cases member
  | case3 chunk => exact base64Chunk_bytes member

theorem length_base64Chunk (chunk : Bytes) : (base64Chunk chunk).length = 4 := rfl

theorem length_base64Encode (data : Bytes) :
    (base64Encode data).length = 4 * ((data.length + 2) / 3) := by
  fun_induction base64Encode data with
  | case1 b0 b1 b2 rest ih =>
      rw [List.length_append, length_base64Chunk, ih]
      simp only [List.length_cons]
      omega
  | case2 => rfl
  | case3 chunk short nonempty =>
      rcases chunk with _ | ⟨b0, _ | ⟨b1, _ | ⟨b2, rest⟩⟩⟩
      · exact (nonempty rfl).elim
      · simp [length_base64Chunk]
      · simp [length_base64Chunk]
      · exact (short b0 b1 b2 rest rfl).elim

theorem base64Encode_not_mem (data : Bytes) {byte : UInt8} (pad : byte ≠ 61)
    (other : base64Table.contains byte = false) : byte ∉ base64Encode data := by
  intro member
  rcases base64Encode_bytes member with rfl | digit
  · exact pad rfl
  · simp [digit] at other

theorem base64Encode_plain (data : Bytes) : PlainValue (base64Encode data) := by
  have bare : ∀ bytes : Bytes, (∀ byte ∈ bytes, byte ∈ base64Encode data) → ¬ Indented bytes := by
    rintro bytes inside (space | tab)
    · exact base64Encode_not_mem data (by decide) (by decide) (inside 32 (List.mem_of_head? space))
    · exact base64Encode_not_mem data (by decide) (by decide) (inside 9 (List.mem_of_head? tab))
  refine ⟨⟨?_, ?_⟩, bare _ fun _ => id, bare _ fun _ => List.mem_reverse.mp⟩
  · exact base64Encode_not_mem data (by decide) (by decide)
  · exact base64Encode_not_mem data (by decide) (by decide)

end Base64

section Heads

/-- The header fields of the request of a client. -/
def clientFields (permessageDeflate : Bool) (host keyB64 : Bytes) : List (Bytes × Bytes) :=
  [(ascii "host", host), (ascii "upgrade", ascii "websocket"), (ascii "connection", ascii "Upgrade"),
    (ascii "sec-websocket-key", keyB64), (ascii "sec-websocket-version", ascii "13")] ++
      if permessageDeflate then [(ascii "sec-websocket-extensions", clientOffer)] else []

/-- The header fields of the response of a server. -/
def serverFields (accept : Bytes) (extensions : Option Bytes) : List (Bytes × Bytes) :=
  [(ascii "upgrade", ascii "websocket"), (ascii "connection", ascii "Upgrade"),
    (ascii "sec-websocket-accept", accept)] ++
      (extensions.map fun ext => (ascii "sec-websocket-extensions", ext)).toList

def upgradeLine (path : Bytes) : Bytes := ascii "GET" ++ 32 :: (path ++ 32 :: ascii "HTTP/1.1")

theorem renderClientRequest_eq (path host keyB64 : Bytes) :
    renderClientRequest path host keyB64 =
      sentText (upgradeLine path) (clientFields false host keyB64) ++ headerDelim := by
  have get : ascii "GET " = ascii "GET" ++ [32] := by decide
  have version : ascii " HTTP/1.1\r\n" = 32 :: (ascii "HTTP/1.1" ++ crlf) := by decide
  have hostName : ascii "host: " = ascii "host" ++ ascii ": " := by decide
  have upgrade : ascii "upgrade: websocket\r\n" =
      ascii "upgrade" ++ (ascii ": " ++ (ascii "websocket" ++ crlf)) := by decide
  have connection : ascii "connection: Upgrade\r\n" =
      ascii "connection" ++ (ascii ": " ++ (ascii "Upgrade" ++ crlf)) := by decide
  have keyName : ascii "sec-websocket-key: " = ascii "sec-websocket-key" ++ ascii ": " := by decide
  have last : ascii "sec-websocket-version: 13\r\n\r\n" =
      ascii "sec-websocket-version" ++ (ascii ": " ++ (ascii "13" ++ (crlf ++ crlf))) := by decide
  rw [sentText_eq]
  simp [renderClientRequest, clientFields, upgradeLine, get, version, hostName, upgrade, connection, keyName,
    last]

theorem connectRequest_eq (permessageDeflate : Bool) (path host keyB64 : Bytes) :
    connectRequest permessageDeflate path host keyB64 =
      sentText (upgradeLine path) (clientFields permessageDeflate host keyB64) ++ headerDelim := by
  have name : ascii "sec-websocket-extensions: " = ascii "sec-websocket-extensions" ++ ascii ": " := by decide
  have ends : ascii "\r\n\r\n" = crlf ++ crlf := by decide
  cases permessageDeflate with
  | false => exact renderClientRequest_eq path host keyB64
  | true =>
      -- The blank line is the last CRLF.
      have dropped : ∀ front : Bytes, (front ++ crlf).take ((front ++ crlf).length - 2) = front :=
        fun front => List.take_left' (by simp [crlf])
      rw [connectRequest, if_pos rfl, renderClientRequest_eq, sentText_eq, sentText_eq]
      dsimp only
      rw [dropped, name, ends]
      simp [clientFields]

theorem renderAcceptResponseWithExt_eq (accept : Bytes) (extensions : Option Bytes) :
    renderAcceptResponseWithExt accept extensions =
      renderHead 101 (ascii "Switching Protocols") (serverFields accept extensions) false 0 [] := by
  have line : ascii "HTTP/1.1 101 Switching Protocols\r\n" =
      ascii "HTTP/1.1 " ++ (decimal 101 ++ 32 :: (ascii "Switching Protocols" ++ crlf)) := by decide
  have upgrade : ascii "upgrade: websocket\r\n" =
      ascii "upgrade" ++ (ascii ": " ++ (ascii "websocket" ++ crlf)) := by decide
  have connection : ascii "connection: Upgrade\r\n" =
      ascii "connection" ++ (ascii ": " ++ (ascii "Upgrade" ++ crlf)) := by decide
  have acceptName : ascii "sec-websocket-accept: " = ascii "sec-websocket-accept" ++ ascii ": " := by decide
  have extName : ascii "sec-websocket-extensions: " = ascii "sec-websocket-extensions" ++ ascii ": " := by decide
  cases extensions <;>
    simp [renderAcceptResponseWithExt, renderHead, serverFields, line, upgrade, connection, acceptName, extName]

theorem clientFields_plain (permessageDeflate : Bool) {host : Bytes} (plainHost : PlainValue host)
    (key : Bytes) : ∀ header ∈ clientFields permessageDeflate host (base64Encode key), PlainHeader header := by
  intro header member
  simp only [clientFields, List.cons_append, List.nil_append, List.mem_cons] at member
  rcases member with rfl | rfl | rfl | rfl | rfl | extension
  · exact ⟨by dsimp only; decide, plainHost⟩
  · exact ⟨by dsimp only; decide, by dsimp only; decide⟩
  · exact ⟨by dsimp only; decide, by dsimp only; decide⟩
  · exact ⟨by dsimp only; decide, base64Encode_plain key⟩
  · exact ⟨by dsimp only; decide, by dsimp only; decide⟩
  · split at extension
    · rw [List.mem_singleton.mp extension]
      exact ⟨by dsimp only; decide, by dsimp only; decide⟩
    · cases extension

/-- What a server may be asked for. -/
structure PlainTarget (path : Bytes) : Prop where
  nonempty : path ≠ []
  solid : 32 ∉ path
  bytes : LineBytes path

theorem connectRequest_parses {permessageDeflate : Bool} {path host key : Bytes} (target : PlainTarget path)
    (plainHost : PlainValue host)
    (size : (connectRequest permessageDeflate path host (base64Encode key)).length ≤ maxHead) :
    let head := connectRequest permessageDeflate path host (base64Encode key)
    ∃ ranges, WholeHead parseRequestRanges head ranges ∧
      ReadBack (ascii "GET") path (clientFields permessageDeflate host (base64Encode key)) head ranges := by
  intro head
  have shape : head = _ := connectRequest_eq permessageDeflate path host (base64Encode key)
  have get : LineBytes (ascii "GET") := by unfold LineBytes; decide
  have version : LineBytes (ascii "HTTP/1.1") := by unfold LineBytes; decide
  have bytes : LineBytes (upgradeLine path) := by
    simp [LineBytes, upgradeLine, get.1, get.2, version.1, version.2, target.bytes.1, target.bytes.2]
  have safe : SafeHead (upgradeLine path) (clientFields permessageDeflate host (base64Encode key)) :=
    ⟨shape ▸ size, bytes.uncut, bytes.unfolded, fun header member =>
      (clientFields_plain permessageDeflate plainHost key header member).safe⟩
  rw [shape]
  exact sentRequest_parses (by decide) ⟨target.nonempty, target.solid⟩ safe

/-- The only response there is to an offer. -/
def acceptedExtension : Bytes :=
  extensionName ++ ascii "; client_no_context_takeover; server_no_context_takeover"

theorem acceptResponse_parses (sha1 : Bytes → Vector UInt8 20) (keyB64 : Bytes) {extensions : Option Bytes}
    (accepted : ∀ ext, extensions = some ext → ext = acceptedExtension) :
    let head := renderAcceptResponseWithExt (acceptKey sha1 keyB64) extensions
    head.length ≤ HttpConnection.readChunk ∧ ∃ ranges, WholeHead parseResponseRanges head ranges ∧
      (ResponseHead.fromRanges head ranges).status = 101 ∧
      (ResponseHead.fromRanges head ranges).headers.iter =
        serverFields (acceptKey sha1 keyB64) extensions := by
  intro head
  have shape : head = _ := renderAcceptResponseWithExt_eq (acceptKey sha1 keyB64) extensions
  have headers : ∀ header ∈ serverFields (acceptKey sha1 keyB64) extensions, PlainHeader header := by
    intro header member
    simp only [serverFields, List.cons_append, List.nil_append, List.mem_cons, Option.mem_toList,
      Option.map_eq_some_iff] at member
    rcases member with rfl | rfl | rfl | ⟨ext, given, rfl⟩
    · exact ⟨by dsimp only; decide, by dsimp only; decide⟩
    · exact ⟨by dsimp only; decide, by dsimp only; decide⟩
    · exact ⟨by dsimp only; decide, base64Encode_plain _⟩
    · rw [accepted ext given]
      exact ⟨by dsimp only; decide, by dsimp only; decide⟩
  have size : head.length ≤ HttpConnection.readChunk := by
    dsimp only [head]
    cases extensions with
    | none =>
        simp only [renderAcceptResponseWithExt, acceptKey, List.length_append, length_base64Encode, Vector.length_toList]
        decide
    | some ext =>
        simp only [renderAcceptResponseWithExt, acceptKey, accepted ext rfl, List.length_append, length_base64Encode,
          Vector.length_toList]
        decide
  have fits : HttpConnection.readChunk ≤ maxHead := by decide
  obtain ⟨ranges, whole, status, _, fields⟩ := @renderHead_parses 101 (ascii "Switching Protocols") _ false 0
    (by decide) (by decide) headers (shape ▸ size.trans fits)
  refine ⟨size, ?_⟩
  rw [shape]
  refine ⟨ranges, whole, status, ?_⟩
  rw [fields]
  simp [sentHeaders]

end Heads

section Fields

variable {headers : HeaderBlock}

/-- A field of a block is found by its name in any letter case. -/
theorem get_of_iter {fields : List (Bytes × Bytes)} (same : headers.iter = fields) (name : Bytes) :
    headers.get name = (fields.find? fun header => Bytes.eqIgnoreCase header.1 name).map (·.2) := by
  rw [HeaderBlock.get, same]

/-- The request of a client passes every check. -/
theorem checkUpgrade_client (sha1 : Bytes → Vector UInt8 20) {permessageDeflate : Bool} {host keyB64 : Bytes}
    {head : RequestHead} (get : head.method = ascii "GET")
    (same : head.headers.iter = clientFields permessageDeflate host keyB64) (enough : 16 ≤ keyB64.length) :
    checkUpgrade sha1 head = .ok (acceptKey sha1 keyB64) ∧
      head.headers.get (ascii "sec-websocket-extensions") =
        if permessageDeflate then some clientOffer else none := by
  have upgrade : head.headers.get (ascii "upgrade") = some (ascii "websocket") := get_of_iter same _
  have connection : head.headers.get (ascii "connection") = some (ascii "Upgrade") := get_of_iter same _
  have key : head.headers.get (ascii "sec-websocket-key") = some keyB64 := get_of_iter same _
  have version : head.headers.get (ascii "sec-websocket-version") = some (ascii "13") := get_of_iter same _
  constructor
  · simp only [checkUpgrade, get, upgrade, connection, key, version]
    rw [if_neg (by decide), if_neg (by decide), if_neg (by decide), if_neg (by simp), validateAndAccept,
      if_neg (Nat.not_lt.mpr enough)]
  · rw [get_of_iter same]
    cases permessageDeflate <;> rfl

end Fields

section Runs

variable {γ δ : Type} [Deflate γ] [NewInflate δ] (sha1 : Bytes → Vector UInt8 20)
  (masks : Nat → MaskKey) (expiries : Nat → Nat → Bool)

/-- Whatever comes of it, `connect` writes its request and nothing else. -/
theorem connect_outbound (permessageDeflate : Bool) (key : Vector UInt8 16) (path host : Bytes)
    (conn : HttpConnection) :
    (connect sha1 permessageDeflate masks expiries key path host conn :
        Outcome WsError (WebSocketStream (FullCodec γ δ)) × _).2.io.outbound =
      conn.io.outbound ++ connectRequest permessageDeflate path host (base64Encode key.toList) := by
  have quiet : ∀ expected, Async.Moves Quiet Quiet (readAcceptance permessageDeflate masks expiries expected :
      Async _ _ (WebSocketStream (FullCodec γ δ))) := by
    refine fun expected => .bind (.mapError (HttpConnection.readResponseHead_moves quiet_respected)) fun head => ?_
    split
    · exact .fail _
    · split
      · exact .fail _
      · exact .bind (.ofExcept _) fun deflate => .bind .get fun conn => .pure _
  rw [connect, (Async.Runs.mapError (HttpConnection.writeMessage_runs conn _ _)).bind_eq]
  have kept := Async.Moves.same_iff.mp (quiet (acceptKey sha1 (base64Encode key.toList)))
  rw [kept, List.append_nil]

theorem responseCodec_serverFields {permessageDeflate : Bool} {headers : HeaderBlock} {value : Bytes}
    {extensions : Option Bytes} (accepted : ∀ ext, extensions = some ext → ext = acceptedExtension)
    (same : headers.iter = serverFields value extensions) :
    responseCodec permessageDeflate headers =
      .ok (if permessageDeflate && extensions.isSome then some (.serverDefault : FullCodec γ δ) else none) := by
  rw [responseCodec, get_of_iter same]
  cases extensions with
  | none => cases permessageDeflate <;> rfl
  | some ext =>
      rw [accepted ext rfl]
      cases permessageDeflate <;> rfl

/-- A client takes the response of a server that knows its key. -/
theorem readAcceptance_runs {permessageDeflate : Bool} {keyB64 rest : Bytes} {extensions : Option Bytes}
    {conn : HttpConnection} (segments : ∀ segment ∈ conn.io.inbound, segment ≠ []) (empty : conn.buf = [])
    (accepted : ∀ ext, extensions = some ext → ext = acceptedExtension)
    (shape : conn.stream = renderAcceptResponseWithExt (acceptKey sha1 keyB64) extensions ++ rest) :
    ∃ ws : WebSocketStream (FullCodec γ δ), ∃ after,
      (readAcceptance permessageDeflate masks expiries (acceptKey sha1 keyB64)).Runs conn ws after ∧
        after.stream = rest ∧ ws.deflate = if permessageDeflate && extensions.isSome then some .serverDefault else none := by
  obtain ⟨size, ranges, whole, status, iter⟩ := acceptResponse_parses sha1 keyB64 accepted
  have filled : HttpConnection.filledTo
      (renderAcceptResponseWithExt (acceptKey sha1 keyB64) extensions).length conn.buf.length
      conn.io.inbound ≤ maxHead := by
    have chunk : HttpConnection.readChunk = 8192 := rfl
    have limit : maxHead = 65536 := rfl
    refine (HttpConnection.filledTo_le conn.io.inbound).trans ?_
    rw [empty]
    simp only [List.length_nil, chunk, limit] at size ⊢
    omega
  obtain ⟨after, reads, behind⟩ := (HttpConnection.responseHead_accepts_iff segments shape whole).mpr filled
  have key : (ResponseHead.fromRanges (renderAcceptResponseWithExt (acceptKey sha1 keyB64) extensions)
      ranges).headers.get (ascii "sec-websocket-accept") = some (acceptKey sha1 keyB64) := get_of_iter iter _
  refine ⟨{ @fromConn (FullCodec γ δ) after .client masks expiries with
      deflate := if permessageDeflate && extensions.isSome then some .serverDefault else none },
    after, ?_, behind, rfl⟩
  rw [Async.Runs, readAcceptance, (Async.Runs.mapError reads).bind_eq, if_neg (not_not.mpr status),
    if_neg (not_not.mpr key), responseCodec_serverFields accepted iter]
  exact (Async.Runs.ofExcept _ _).bind ((Async.Runs.get after).bind (.pure _ _))

/-- The extension that two ends agree on, by whether they are built with it. -/
def agreedExtension (client server : Bool) : Option Bytes :=
  if client && server then some acceptedExtension else none

def agreedResponse (client server : Bool) (keyB64 : Bytes) : Bytes :=
  renderAcceptResponseWithExt (acceptKey sha1 keyB64) (agreedExtension client server)

/-- A server takes the request of a client, and writes its response. -/
theorem accept_runs {client server : Bool} {key : Vector UInt8 16} {path host : Bytes} {io : Transport}
    (target : PlainTarget path) (plainHost : PlainValue host)
    (segments : ∀ segment ∈ io.inbound, segment ≠ [])
    (shape : io.inbound.flatten = connectRequest client path host (base64Encode key.toList))
    (size : io.inbound.flatten.length ≤ maxHead) :
    ∃ ws : WebSocketStream (FullCodec γ δ), ∃ after,
      (accept sha1 server masks expiries).Runs (.new io) ws after ∧
        after.io.outbound = io.outbound ++ agreedResponse sha1 client server (base64Encode key.toList) ∧
        ws.deflate = if client && server then some .serverDefault else none := by
  rw [shape] at size
  obtain ⟨ranges, whole, read⟩ := connectRequest_parses target plainHost size
  have stream : (HttpConnection.new io).stream =
      connectRequest client path host (base64Encode key.toList) ++ [] := by
    rw [List.append_nil]
    exact shape
  have filled : HttpConnection.filledTo (connectRequest client path host (base64Encode key.toList)).length
      (HttpConnection.new io).buf.length io.inbound ≤ maxHead := by
    refine (HttpConnection.filledTo_le_length io.inbound).trans ?_
    rw [shape]
    simpa [HttpConnection.new] using size
  obtain ⟨middle, reads, _⟩ := (HttpConnection.requestHead_accepts_iff segments stream whole).mpr filled
  have quiet : middle.io.outbound = io.outbound :=
    (HttpConnection.readRequestHead_moves quiet_respected).of_runs reads
  have enough : 16 ≤ (base64Encode key.toList).length := by
    rw [length_base64Encode, Vector.length_toList]
    decide
  obtain ⟨checks, offer⟩ := checkUpgrade_client sha1 read.method read.headers enough
  have extension : (if server then serverAccept (if client then some clientOffer else none) else none) =
      agreedExtension client server := by
    cases client <;> cases server <;> decide
  have response : acceptResponse (acceptKey sha1 (base64Encode key.toList)) (agreedExtension client server) server =
      agreedResponse sha1 client server (base64Encode key.toList) := by
    cases client <;> cases server <;> rfl
  let after : HttpConnection := { middle with io := { middle.io with
    outbound := io.outbound ++ agreedResponse sha1 client server (base64Encode key.toList) } }
  have writes : (HttpConnection.writeMessage (agreedResponse sha1 client server (base64Encode key.toList))
      []).Runs middle () after := by
    have writes := HttpConnection.writeMessage_runs middle
      (agreedResponse sha1 client server (base64Encode key.toList)) []
    rwa [List.append_nil, quiet] at writes
  refine ⟨{ @fromConn (FullCodec γ δ) after .server masks expiries with
      deflate := if (agreedExtension client server).isSome then some .serverDefault else none },
    after, ?_, rfl, ?_⟩
  · rw [Async.Runs, accept, (Async.Runs.mapError reads).bind_eq]
    dsimp only
    rw [checks, (Async.Runs.ofExcept _ _).bind_eq, offer, extension, response]
    exact (Async.Runs.mapError writes).bind ((Async.Runs.get _).bind (.pure _ _))
  · cases client <;> cases server <;> rfl

/-- Each of two new connections delivers what the other end writes. The answer of the server may
have more behind it. -/
structure Linked {α β : Type} (client : Async WsError HttpConnection α)
    (server : Async WsError HttpConnection β) (clientIo serverIo : Transport) : Prop where
  fresh : clientIo.outbound = [] ∧ serverIo.outbound = []
  segments : ∀ segment ∈ clientIo.inbound ++ serverIo.inbound, segment ≠ []
  toServer : serverIo.inbound.flatten = (client (.new clientIo)).2.io.outbound
  toClient : (server (.new serverIo)).2.io.outbound <+: clientIo.inbound.flatten

/-- The compressor of one end starts afresh for every message if the decompressor of the other
does. -/
def FullCodec.Feeds (sender receiver : FullCodec γ δ) : Prop :=
  receiver.resetDecompressor = true → sender.resetCompressor = true

/-- The two ends agree on compression. -/
structure Agreed (client server : WebSocketStream (FullCodec γ δ)) : Prop where
  negotiated : client.deflateNegotiated = server.deflateNegotiated
  codecs : ∀ clientCodec serverCodec, client.deflate = some clientCodec → server.deflate = some serverCodec →
    clientCodec.Feeds serverCodec ∧ serverCodec.Feeds clientCodec

theorem Agreed.of_deflate {client server : WebSocketStream (FullCodec γ δ)} {negotiated : Bool}
    (clientCodec : client.deflate = if negotiated then some .serverDefault else none)
    (serverCodec : server.deflate = if negotiated then some .serverDefault else none) :
    Agreed client server where
  negotiated := by rw [deflateNegotiated, deflateNegotiated, clientCodec, serverCodec]
  codecs := by
    intro first second has has'
    rw [clientCodec] at has
    rw [serverCodec] at has'
    cases negotiated with
    | false => cases has
    | true =>
        cases has
        cases has'
        exact ⟨fun _ => rfl, fun _ => rfl⟩

/-- Whichever ends are built with permessage-deflate, both handshakes succeed, and agree. -/
theorem handshake_agrees (masks' : Nat → MaskKey) (expiries' : Nat → Nat → Bool)
    (clientDeflate serverDeflate : Bool) {key : Vector UInt8 16} {path host : Bytes}
    {clientIo serverIo : Transport} (target : PlainTarget path) (plainHost : PlainValue host)
    (linked : Linked
      (connect sha1 clientDeflate masks expiries key path host :
        Async WsError HttpConnection (WebSocketStream (FullCodec γ δ)))
      (accept sha1 serverDeflate masks' expiries' :
        Async WsError HttpConnection (WebSocketStream (FullCodec γ δ))) clientIo serverIo)
    (size : serverIo.inbound.flatten.length ≤ maxHead) :
    ∃ client server : WebSocketStream (FullCodec γ δ), ∃ clientAfter serverAfter,
      (connect sha1 clientDeflate masks expiries key path host).Runs (.new clientIo) client clientAfter ∧
        (accept sha1 serverDeflate masks' expiries').Runs (.new serverIo) server serverAfter ∧
        Agreed client server ∧ client.deflateNegotiated = (clientDeflate && serverDeflate) := by
  have request : serverIo.inbound.flatten = connectRequest clientDeflate path host (base64Encode key.toList) := by
    rw [linked.toServer, connect_outbound, HttpConnection.new, linked.fresh.1, List.nil_append]
  obtain ⟨server, serverAfter, accepts, answered, serverCodec⟩ := @accept_runs γ δ _ _ sha1 masks' expiries'
    clientDeflate serverDeflate key path host serverIo target plainHost
    (fun segment member => linked.segments segment (List.mem_append_right _ member)) request size
  have answer := linked.toClient
  rw [accepts, answered, linked.fresh.2, List.nil_append] at answer
  obtain ⟨rest, response⟩ := answer
  have writes := HttpConnection.writeMessage_runs (.new clientIo)
    (connectRequest clientDeflate path host (base64Encode key.toList)) []
  obtain ⟨client, clientAfter, reads, _, clientCodec⟩ := @readAcceptance_runs γ δ _ _ sha1 masks expiries
    clientDeflate (base64Encode key.toList) rest (agreedExtension clientDeflate serverDeflate)
    { HttpConnection.new clientIo with io := { clientIo with outbound := clientIo.outbound ++
      (connectRequest clientDeflate path host (base64Encode key.toList) ++ []) } }
    (fun segment member => linked.segments segment (List.mem_append_left _ member)) rfl
    (by cases clientDeflate <;> cases serverDeflate <;> simp [agreedExtension]) response.symm
  have negotiated : client.deflate = if clientDeflate && serverDeflate then some .serverDefault else none := by
    rw [clientCodec]
    cases clientDeflate <;> cases serverDeflate <;> rfl
  refine ⟨client, server, clientAfter, serverAfter, ?_, accepts, .of_deflate negotiated serverCodec, ?_⟩
  · rw [Async.Runs, connect, (Async.Runs.mapError writes).bind_eq]
    exact reads
  · rw [deflateNegotiated, negotiated]
    cases clientDeflate <;> cases serverDeflate <;> rfl

/-- Each end hears the other at once. -/
theorem linked_whole (clientDeflate serverDeflate : Bool) {key : Vector UInt8 16} {path host : Bytes}
    (target : PlainTarget path) (plainHost : PlainValue host)
    (size : (connectRequest clientDeflate path host (base64Encode key.toList)).length ≤ maxHead) :
    Linked
      (connect sha1 clientDeflate masks expiries key path host :
        Async WsError HttpConnection (WebSocketStream (FullCodec γ δ)))
      (accept sha1 serverDeflate masks expiries : Async WsError HttpConnection (WebSocketStream (FullCodec γ δ)))
      ⟨[agreedResponse sha1 clientDeflate serverDeflate (base64Encode key.toList)], .pending, []⟩
      ⟨[connectRequest clientDeflate path host (base64Encode key.toList)], .pending, []⟩ := by
  have request : connectRequest clientDeflate path host (base64Encode key.toList) ≠ [] := by
    rw [connectRequest_eq]
    simp [headerDelim]
  have response : agreedResponse sha1 clientDeflate serverDeflate (base64Encode key.toList) ≠ [] := by
    simp [agreedResponse, renderAcceptResponseWithExt, crlf]
  obtain ⟨server, after, accepts, answered, _⟩ := @accept_runs γ δ _ _ sha1 masks expiries clientDeflate
    serverDeflate key path host
    ⟨[connectRequest clientDeflate path host (base64Encode key.toList)], .pending, []⟩ target plainHost
    (List.forall_mem_singleton.mpr request) (List.append_nil _) (by simpa using size)
  refine ⟨⟨rfl, rfl⟩, ?_, ?_, ?_⟩
  · exact List.forall_mem_cons.mpr ⟨response, List.forall_mem_singleton.mpr request⟩
  · rw [connect_outbound]
    exact List.append_nil _
  · rw [accepts, answered]
    simp

end Runs

section Sample

/-- The machines are not run in a handshake. -/
instance : Deflate Unit := ⟨(), fun _ => 0, fun _ _ _ => (none, ()), id⟩

instance : NewInflate Unit := { totalIn := fun _ => 0, decompressVec := fun _ _ _ => (none, ()), reset := id, new := () }

def sampleKey : Vector UInt8 16 := ⟨(ascii "the sample nonce").toArray, by decide⟩

/-- The hash of the sample key, encoded and put before the GUID. -/
def sampleDigest : Vector UInt8 20 :=
  #v[0xb3, 0x7a, 0x4f, 0x2c, 0xc0, 0x62, 0x4f, 0x16, 0x90, 0xf6, 0x46, 0x06, 0xcf, 0x38, 0x59, 0x45, 0xb2, 0xbe,
    0xc4, 0xea]

theorem handshake_agrees_sample :
    let request := connectRequest true (ascii "/chat") (ascii "server.example.com") (base64Encode sampleKey.toList)
    let response := agreedResponse (fun _ => sampleDigest) true true (base64Encode sampleKey.toList)
    ∃ client server : WebSocketStream (FullCodec Unit Unit), ∃ clientAfter serverAfter,
      (connect (fun _ => sampleDigest) true (fun _ => ⟨0, 0, 0, 0⟩) (fun _ _ => false) sampleKey (ascii "/chat")
          (ascii "server.example.com")).Runs (.new ⟨[response], .pending, []⟩) client clientAfter ∧
        (accept (fun _ => sampleDigest) true (fun _ => ⟨0, 0, 0, 0⟩) (fun _ _ => false)).Runs
          (.new ⟨[request], .pending, []⟩) server serverAfter ∧
        Agreed client server ∧ client.deflateNegotiated = true := by
  have target : PlainTarget (ascii "/chat") := ⟨by decide, by decide, by unfold LineBytes; decide⟩
  have size : (connectRequest true (ascii "/chat") (ascii "server.example.com")
      (base64Encode sampleKey.toList)).length ≤ maxHead := by
    simp only [connectRequest, renderClientRequest, if_true, List.length_append, List.length_take,
      length_base64Encode, Vector.length_toList]
    decide
  refine handshake_agrees (fun _ => sampleDigest) _ _ _ _ true true target (by decide)
    (linked_whole _ _ _ true true target (by decide) size) ?_
  rw [List.flatten_singleton]
  exact size

/-- The key and its answer as they are sent. -/
example : base64Encode sampleKey.toList = ascii "dGhlIHNhbXBsZSBub25jZQ==" ∧
    base64Encode sampleDigest.toList = ascii "s3pPLMBiTxaQ9kYGzzhZRbK+xOo=" := by
  decide

end Sample

end TptAsync.Ws
