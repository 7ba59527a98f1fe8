import TptAsync.Ws.HandshakeProperties

set_option autoImplicit false

/-!
# Which extension responses a client can honour

A response by the grammar of its header, where a comma, a semicolon or an equals sign may stand
in a quoted value, beside the response as `client_codec` takes it apart.
-/

namespace TptAsync.Ws

open Lib

/-! ## The grammar of the header -/

/-- Where a byte stands in a quoted string. -/
inductive Quoting where
  | plain
  | quoted
  | escaped
  deriving DecidableEq

def Quoting.next : Quoting → UInt8 → Quoting
  | .plain, byte => if byte = 34 then .quoted else .plain
  | .quoted, byte => if byte = 92 then .escaped else if byte = 34 then .plain else .quoted
  | .escaped, _ => .quoted

/-- The pieces between the separators that stand outside of quoted strings. -/
def cutFrom (separator : UInt8) : Quoting → Bytes → List Bytes
  | _, [] => [[]]
  | quoting, byte :: rest =>
      if quoting = .plain ∧ byte = separator then [] :: cutFrom separator .plain rest
      else (cutFrom separator (quoting.next byte) rest).modifyHead (byte :: ·)

def cut (separator : UInt8) (bytes : Bytes) : List Bytes := cutFrom separator .plain bytes

def unquoteRest : Bytes → Option Bytes
  | [] => none
  | [34] => some []
  | 34 :: _ => none
  | 92 :: byte :: rest => (unquoteRest rest).map (byte :: ·)
  | byte :: rest => (unquoteRest rest).map (byte :: ·)

/-- What a value stands for, a token or a quoted string. -/
def unquote : Bytes → Option Bytes
  | 34 :: rest => unquoteRest rest
  | token => some token

/-- The key of a parameter, and its value when there is one. -/
def splitParam (param : Bytes) : Bytes × Option Bytes :=
  let param := trimAscii param
  match param.findIdx? (· = 61) with
  | some eq => (trimAscii (param.take eq), some (trimAscii (param.drop (eq + 1))))
  | none => (param, none)

inductive ParamName where
  | serverNoContextTakeover
  | clientNoContextTakeover
  | serverMaxWindowBits
  | clientMaxWindowBits
  deriving DecidableEq

def ParamName.spelling : ParamName → Bytes
  | serverNoContextTakeover => ascii "server_no_context_takeover"
  | clientNoContextTakeover => ascii "client_no_context_takeover"
  | serverMaxWindowBits => ascii "server_max_window_bits"
  | clientMaxWindowBits => ascii "client_max_window_bits"

def ParamName.all : List ParamName :=
  [.serverNoContextTakeover, .clientNoContextTakeover, .serverMaxWindowBits, .clientMaxWindowBits]

/-- A parameter of permessage-deflate. -/
structure Param where
  name : ParamName
  bits : Option Nat
  deriving DecidableEq

/-- The legal window sizes, which have no leading zeros. -/
def windowSizes : List Bytes :=
  [ascii "8", ascii "9", ascii "10", ascii "11", ascii "12", ascii "13", ascii "14", ascii "15"]

def windowBits (value : Bytes) : Option Nat := (windowSizes.idxOf? value).map (8 + ·)

/-- The value of a parameter, which only the window sizes have. -/
def readValue (name : ParamName) (value : Option Bytes) : Option Param :=
  match name, value with
  | .serverNoContextTakeover, none | .clientNoContextTakeover, none => some ⟨name, none⟩
  | .serverMaxWindowBits, some value | .clientMaxWindowBits, some value =>
      ((unquote value).bind windowBits).map fun bits => ⟨name, some bits⟩
  | _, _ => none

def named (key : Bytes) (name : ParamName) : Bool := Bytes.eqIgnoreCase key name.spelling

def readParam (param : Bytes) : Option Param :=
  (ParamName.all.find? (named (splitParam param).1)).bind (readValue · (splitParam param).2)

/-- The parameters of an element of the header, when its name is that of the extension. -/
def paramsOf : List Bytes → Option (List Bytes)
  | [] => none
  | name :: params => if Bytes.eqIgnoreCase (trimAscii name) extensionName then some params else none

/-- The parameters of the first permessage-deflate of a response, for some way of cutting. -/
def firstDeflate (cutAt : UInt8 → Bytes → List Bytes) (response : Bytes) : Option (List Bytes) :=
  (cutAt 44 response).findSome? fun element => paramsOf (cutAt 59 element)

/-- Just known parameters with legal values, none of them twice, and no window that is too
small. -/
structure LegalParams (params : List Bytes) (read : List Param) : Prop where
  known : params.mapM readParam = some read
  once : (read.map Param.name).Nodup
  window : ∀ param ∈ read, param.name = .clientMaxWindowBits → param.bits = some 15

section Splitting

variable {separator : UInt8} {bytes : Bytes}

/-- Without a quote the grammar cuts where a split does. -/
theorem cut_eq_splitOn (free : (34 : UInt8) ∉ bytes) : cut separator bytes = bytes.splitOn separator := by
  unfold cut
  induction bytes with
  | nil => rfl
  | cons byte rest ih =>
      have noQuote : byte ≠ 34 := fun same => free (same ▸ List.mem_cons_self)
      have following := ih fun member => free (List.mem_cons_of_mem _ member)
      rw [cutFrom, List.splitOn_cons_eq_if_modifyHead, Quoting.next, if_neg noQuote, following]
      simp only [true_and, beq_iff_eq]

theorem splitOn_pieces (separator : UInt8) (bytes : Bytes) :
    ∀ piece ∈ bytes.splitOn separator, piece ⊆ bytes := by
  induction bytes with
  | nil => exact fun piece member => (List.mem_singleton.mp member ▸ List.Subset.refl [])
  | cons byte rest ih =>
      rw [List.splitOn_cons_eq_if_modifyHead]
      intro piece member
      split at member
      · rcases List.mem_cons.mp member with rfl | later
        · exact List.nil_subset _
        · exact fun _ inside => List.mem_cons_of_mem _ (ih piece later inside)
      · cases pieces : rest.splitOn separator with
        | nil => exact absurd pieces (List.splitOn_ne_nil separator rest)
        | cons first others =>
            rw [pieces] at ih member
            rcases List.mem_cons.mp member with rfl | later
            · exact List.cons_subset_cons byte (ih first List.mem_cons_self)
            · exact fun _ inside =>
                List.mem_cons_of_mem _ (ih piece (List.mem_cons_of_mem _ later) inside)

/-- The first permessage-deflate as a plain split finds it. -/
def plainDeflate (response : Bytes) : Option (List Bytes) :=
  firstDeflate List.splitOn response

theorem firstDeflate_eq_plain {response : Bytes} (free : (34 : UInt8) ∉ response) :
    firstDeflate cut response = plainDeflate response := by
  have pieces := splitOn_pieces 44 response
  unfold plainDeflate firstDeflate
  rw [cut_eq_splitOn free]
  generalize response.splitOn 44 = elements at pieces
  induction elements with
  | nil => rfl
  | cons element elements ih =>
      have unquoted : (34 : UInt8) ∉ element := fun member =>
        free (pieces element List.mem_cons_self member)
      rw [List.findSome?_cons, List.findSome?_cons, cut_eq_splitOn unquoted,
        ih fun piece member => pieces piece (List.mem_cons_of_mem _ member)]

end Splitting

section Reading

variable {params : List Bytes} {read : List Param}

/-- Whether a parameter of that name is among these, with whatever value. -/
def asks (name : ParamName) (params : List Bytes) : Bool :=
  params.any fun param => named (splitParam param).1 name

theorem named_unique {key : Bytes} {name other : ParamName} (first : named key name = true)
    (second : named key other = true) : name = other := by
  have same := (Bytes.eqIgnoreCase_iff.mp first).symm.trans (Bytes.eqIgnoreCase_iff.mp second)
  cases name <;> cases other <;> first | rfl | exact absurd same (by decide)

theorem readValue_name {name : ParamName} {value : Option Bytes} {param : Param}
    (read : readValue name value = some param) : param.name = name := by
  unfold readValue at read
  split at read
  · cases read; rfl
  · cases read; rfl
  · obtain ⟨bits, -, rfl⟩ := Option.map_eq_some_iff.mp read; rfl
  · obtain ⟨bits, -, rfl⟩ := Option.map_eq_some_iff.mp read; rfl
  · cases read

theorem readParam_name {bytes : Bytes} {param : Param} (read : readParam bytes = some param)
    (name : ParamName) : named (splitParam bytes).1 name = true ↔ param.name = name := by
  obtain ⟨found, search, value⟩ := Option.bind_eq_some_iff.mp read
  have spelled : named (splitParam bytes).1 found = true := List.find?_some search
  rw [readValue_name value]
  exact ⟨named_unique spelled, fun same => same ▸ spelled⟩

/-- What legal parameters ask for is what has been read of them. -/
theorem asks_iff_read (known : params.mapM readParam = some read) (name : ParamName) :
    asks name params = true ↔ name ∈ read.map Param.name := by
  induction params generalizing read with
  | nil => cases known; simp [asks]
  | cons param params ih =>
      rw [List.mapM_cons] at known
      obtain ⟨first, readFirst, known⟩ := Option.bind_eq_some_iff.mp known
      obtain ⟨others, readOthers, known⟩ := Option.bind_eq_some_iff.mp known
      cases known
      rw [asks, List.any_cons, Bool.or_eq_true, readParam_name readFirst, List.map_cons, List.mem_cons,
        ← ih readOthers, asks]
      exact or_congr_left eq_comm

end Reading

section Accepting

variable {γ δ : Type} [Deflate γ] [NewInflate δ]

/-- Whether a parameter sets the client a window that is written as a small number. -/
def limits (param : Bytes) : Bool :=
  named (splitParam param).1 .clientMaxWindowBits &&
    (((splitParam param).2.bind Text.fromUtf8).bind (Text.fromStrRadix 10)).any (· < 15)

theorem acceptParam_eq (resets : Bool × Bool) (param : Bytes) :
    acceptParam resets param =
      if limits param then
        .error (.handshake "permessage-deflate client_max_window_bits below 15 is unsupported")
      else .ok (resets.1 || named (splitParam param).1 .clientNoContextTakeover,
        resets.2 || named (splitParam param).1 .serverNoContextTakeover) := by
  have server := @named_unique (splitParam param).1 .serverNoContextTakeover
  have client := @named_unique (splitParam param).1 .clientNoContextTakeover
  unfold acceptParam limits
  change (if named (splitParam param).1 .serverNoContextTakeover then Except.ok (resets.1, true)
    else if named (splitParam param).1 .clientNoContextTakeover then .ok (true, resets.2)
    else if named (splitParam param).1 .clientMaxWindowBits then
      if (((splitParam param).2.bind Text.fromUtf8).bind (Text.fromStrRadix 10)).any (· < 15) then _
      else .ok resets
    else .ok resets) = _
  cases asServer : named (splitParam param).1 .serverNoContextTakeover with
  | true =>
      cases asClient : named (splitParam param).1 .clientNoContextTakeover with
      | true => exact absurd (server asServer asClient) (by decide)
      | false =>
          cases asWindow : named (splitParam param).1 .clientMaxWindowBits with
          | true => exact absurd (server asServer asWindow) (by decide)
          | false => simp
  | false =>
      cases asClient : named (splitParam param).1 .clientNoContextTakeover with
      | true =>
          cases asWindow : named (splitParam param).1 .clientMaxWindowBits with
          | true => exact absurd (client asClient asWindow) (by decide)
          | false => simp
      | false => simp [Bool.and_eq_true, ite_and]

theorem foldlM_acceptParam (resets : Bool × Bool) (params : List Bytes) :
    params.foldlM acceptParam resets =
      if params.any limits then
        .error (.handshake "permessage-deflate client_max_window_bits below 15 is unsupported")
      else .ok (resets.1 || asks .clientNoContextTakeover params,
        resets.2 || asks .serverNoContextTakeover params) := by
  induction params generalizing resets with
  | nil => simp [asks, pure, Except.pure]
  | cons param params ih =>
      rw [List.foldlM_cons, acceptParam_eq, List.any_cons]
      cases limited : limits param with
      | true => rfl
      | false =>
          have rest := ih (resets.1 || named (splitParam param).1 .clientNoContextTakeover,
            resets.2 || named (splitParam param).1 .serverNoContextTakeover)
          simp only [asks, List.any_cons, Bool.or_assoc] at rest ⊢
          exact rest

/-- What the code makes of the parameters it has found. -/
def codecFor : Option (List Bytes) → Except WsError (Option (FullCodec γ δ))
  | none => .ok none
  | some params =>
      if params.any limits then
        .error (.handshake "permessage-deflate client_max_window_bits below 15 is unsupported")
      else .ok (some (.new (asks .clientNoContextTakeover params) (asks .serverNoContextTakeover params)))

theorem clientCodec_eq (response : Bytes) :
    clientCodec (γ := γ) (δ := δ) response = codecFor (plainDeflate response) := by
  unfold clientCodec plainDeflate firstDeflate
  induction response.splitOn 44 with
  | nil => rfl
  | cons element elements ih =>
      rw [clientCodecLoop, List.findSome?_cons]
      cases parts : element.splitOn 59 with
      | nil => exact absurd parts (List.splitOn_ne_nil 59 element)
      | cons name params =>
          simp only [paramsOf, foldlM_acceptParam]
          cases Bytes.eqIgnoreCase (trimAscii name) extensionName with
          | false => exact ih
          | true =>
              cases limited : params.any limits <;> simp [codecFor, limited, bind, Except.bind]

/-- Whether an outcome for a response is one that the client can honour. -/
def Honours (response : Bytes) : Except WsError (Option (FullCodec γ δ)) → Prop
  | .error _ => True
  | .ok none => firstDeflate cut response = none
  | .ok (some codec) => ∃ params read, firstDeflate cut response = some params ∧ LegalParams params read ∧
      (codec.resetCompressor = true ↔ .clientNoContextTakeover ∈ read.map Param.name) ∧
      (codec.resetDecompressor = true ↔ .serverNoContextTakeover ∈ read.map Param.name)

/-- Whether the plain split serves a response that names the extension: it meets a small window,
or what it finds asks for the resets of the true first element, which is legal. -/
def Served (response : Bytes) (found : List Bytes) : Prop :=
  found.any limits = true ∨
    ∃ params read, firstDeflate cut response = some params ∧ LegalParams params read ∧
      asks .clientNoContextTakeover found = asks .clientNoContextTakeover params ∧
      asks .serverNoContextTakeover found = asks .serverNoContextTakeover params

theorem codecFor_honours (response : Bytes) :
    Honours response (codecFor (γ := γ) (δ := δ) (plainDeflate response)) ↔
      (plainDeflate response = none ∧ firstDeflate cut response = none) ∨
        ∃ found, plainDeflate response = some found ∧ Served response found := by
  cases plain : plainDeflate response with
  | none => simp [codecFor, Honours]
  | some found =>
      have only : ((some found = none ∧ firstDeflate cut response = none) ∨
          ∃ params, some found = some params ∧ Served response params) ↔ Served response found := by simp
      rw [only]
      cases limited : found.any limits with
      | true => simp [codecFor, Honours, Served, limited]
      | false =>
          rw [Served, limited, codecFor, limited]
          simp only [Bool.false_eq_true, if_false, false_or, Honours, FullCodec.new]
          -- What the true element has been read as asks for is what its parameters ask for.
          have agrees : ∀ {params read}, LegalParams params read → ∀ name,
              (asks name found = true ↔ name ∈ read.map Param.name) ↔ asks name found = asks name params := by
            intro params read legal name
            rw [← asks_iff_read legal.known]
            exact Bool.eq_iff_iff.symm
          constructor
          · rintro ⟨params, read, named, legal, client, server⟩
            exact ⟨params, read, named, legal, (agrees legal _).mp client, (agrees legal _).mp server⟩
          · rintro ⟨params, read, named, legal, client, server⟩
            exact ⟨params, read, named, legal, (agrees legal _).mpr client, (agrees legal _).mpr server⟩

/-- Exactly the responses for which the client does what it can honour. -/
theorem clientCodec_honours_iff (response : Bytes) :
    Honours response (clientCodec (γ := γ) (δ := δ) response) ↔
      (plainDeflate response = none ∧ firstDeflate cut response = none) ∨
        ∃ found, plainDeflate response = some found ∧ Served response found := by
  rw [clientCodec_eq]
  exact codecFor_honours response

/-- A limit in quotes is not seen. -/
theorem clientCodec_skips_quoted :
    ¬ Honours (ascii "permessage-deflate; client_max_window_bits=\"10\"")
      (clientCodec (γ := Unit) (δ := Unit)
        (ascii "permessage-deflate; client_max_window_bits=\"10\"")) := by
  have accepted : clientCodec (γ := Unit) (δ := Unit)
      (ascii "permessage-deflate; client_max_window_bits=\"10\"") = .ok (some (.new false false)) := by
    rw [clientCodec_eq]
    rfl
  rw [accepted]
  rintro ⟨params, read, found, legal, -⟩
  have these : firstDeflate cut (ascii "permessage-deflate; client_max_window_bits=\"10\"") =
      some [ascii " client_max_window_bits=\"10\""] := by decide
  cases these.symm.trans found
  have limit : [ascii " client_max_window_bits=\"10\""].mapM readParam =
      some [⟨.clientMaxWindowBits, some 10⟩] := by decide
  cases limit.symm.trans legal.known
  exact absurd (legal.window _ List.mem_cons_self rfl) (by decide)

/-- Without quotes just the parameters matter. -/
theorem clientCodec_honours_unquoted {response : Bytes} (free : (34 : UInt8) ∉ response) :
    Honours response (clientCodec (γ := γ) (δ := δ) response) ↔
      ∀ params, plainDeflate response = some params →
        params.any limits = true ∨ ∃ read, LegalParams params read := by
  rw [clientCodec_eq, codecFor_honours]
  unfold Served
  rw [firstDeflate_eq_plain free]
  cases plainDeflate response with
  | none => simp
  | some params =>
      constructor
      · intro served _ same
        cases same
        obtain ⟨absent, -⟩ | ⟨_, same, limited | ⟨_, read, again, legal, -⟩⟩ := served
        · cases absent
        · cases same
          exact .inl limited
        · cases again
          exact .inr ⟨read, legal⟩
      · intro served
        refine .inr ⟨params, rfl, (served params rfl).imp_right ?_⟩
        rintro ⟨read, legal⟩
        exact ⟨params, read, rfl, legal, rfl, rfl⟩

end Accepting

end TptAsync.Ws
