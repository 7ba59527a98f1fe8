import TptAsync.Http.PoolProperties
import TptAsync.Http.RenderedFraming

set_option autoImplicit false

/-!
# The hops of a call

A call sends one request a hop. What it takes from hop to hop are the authority and the request
itself, whose target is replaced and whose body is dropped.
-/

namespace TptAsync.Http

open Lib

namespace HttpClient

/-- A request that a call sends, the authority it has connected to, and the transport to there. -/
structure Hop where
  request : Request
  authority : Bytes
  io : Transport

/-- The status that the hop is answered with. -/
def Hop.status (hop : Hop) : Option Nat :=
  match ClientConnection.send hop.request (hostOf hop.authority) (.new hop.io) with
  | (.ready response, _) => some response.head.status
  | _ => none

/-- The fields that are sent. -/
def Hop.fields (hop : Hop) : List (Bytes × Bytes) := hop.request.fields (hostOf hop.authority)

/-- The call that an event is about. -/
def Event.index : Event → Option Nat
  | .request .. => none
  | .proceed index | .connected index _ | .drop index => some index

/-- The hop that a call has just begun. -/
def CallState.begun : CallState → List Hop
  | .exchanging request authority _ io => [⟨request, authority, io⟩]
  | .looping .. | .connecting .. | .putting .. | .returned _ | .dropped => []

/-- The hops of one call over some events, up to one that is not possible. -/
def hops (index : Nat) : List Event → HttpClient → List Hop
  | [], _ => []
  | event :: events, client =>
      match client.step event with
      | none => []
      | some next =>
          (if event.index = some index then (next.calls[index]?.map (·.state.begun)).getD [] else []) ++
            hops index events next

/-- The hops of a call that is made now. -/
def hopsOf (client : HttpClient) (original : Request) (maxRedirects : Nat) (events : List Event) :
    List Hop :=
  hops client.calls.length (.request original maxRedirects :: events) client

section Fields

def isHost (field : Bytes × Bytes) : Bool := Bytes.eqIgnoreCase field.1 (ascii "host")

/-- Just one `Host` field is sent, and it names what is connected to. -/
def Hop.Addressed (hop : Hop) : Prop :=
  ∃ field, hop.fields.filter isHost = [field] ∧ Bytes.eqIgnoreCase field.2 hop.authority = true

/-- Whether the headers of a request fit an authority. -/
def NamesHost (headers : List (Bytes × Bytes)) (authority : Bytes) : Prop :=
  match headers.filter isHost with
  | [] => 58 ∉ authority
  | [field] => Bytes.eqIgnoreCase field.2 authority = true
  | _ => False

/-- A status behind which the request is to stay the same. -/
def Hop.Preserves (hop : Hop) : Prop := hop.status = some 307 ∨ hop.status = some 308

/-- How the hops of a call should be. -/
structure Shaped (original : Request) (hops : List Hop) : Prop where
  addressed : ∀ hop ∈ hops, hop.Addressed
  preserved : ∀ pair ∈ hops.zip hops.tail, pair.1.Preserves →
    pair.2.request.method = original.method ∧ pair.2.request.body = original.body

/-- The one `Host` header of the request names every authority that is connected to, or there is no
such header and no authority has a port; and no body has to be sent again. -/
structure Plain (original : Request) (hops : List Hop) : Prop where
  host : ∀ hop ∈ hops, NamesHost original.headers hop.authority
  body : original.body = [] ∨ ∀ hop ∈ hops.dropLast, ¬ hop.Preserves

theorem hostOf_eq_iff (authority : Bytes) :
    Bytes.eqIgnoreCase (hostOf authority) authority = true ↔ 58 ∉ authority := by
  constructor
  · intro same
    have lengths := congrArg List.length (Bytes.eqIgnoreCase_iff.mp same)
    rw [List.length_map, List.length_map] at lengths
    have whole : hostOf authority = authority :=
      (List.takeWhile_prefix _).eq_of_length lengths
    intro colon
    rw [← whole] at colon
    simpa using List.mem_takeWhile_imp colon
  · intro colonless
    have whole : hostOf authority = authority := by
      rw [hostOf, List.takeWhile_eq_self_iff]
      intro byte member
      exact decide_eq_true fun same => colonless (same ▸ member)
    rw [whole, Bytes.eqIgnoreCase_iff]

theorem addressed_iff (hop : Hop) : hop.Addressed ↔ NamesHost hop.request.headers hop.authority := by
  have length : ∀ value, isHost (ascii "content-length", value) = false := by
    intro value
    have other : Bytes.eqIgnoreCase (ascii "content-length") (ascii "host") = false := by decide
    exact other
  have host : ∀ value, isHost (ascii "host", value) = true := by
    intro value
    have same : Bytes.eqIgnoreCase (ascii "host") (ascii "host") = true := by decide
    exact same
  have fields : hop.fields = hop.request.headers ++
      ((if hop.request.headers.any isHost then [] else [(ascii "host", hostOf hop.authority)]) ++
        [(ascii "content-length", decimal hop.request.body.length)]) := rfl
  have sent : hop.fields.filter isHost = if hop.request.headers.filter isHost = [] then
      [(ascii "host", hostOf hop.authority)] else hop.request.headers.filter isHost := by
    rw [fields, List.filter_append, List.filter_append,
      List.filter_singleton, length]
    by_cases none : hop.request.headers.filter isHost = []
    · have absent : hop.request.headers.any isHost = false := by
        simpa [List.filter_eq_nil_iff] using none
      simp [none, absent, host]
    · have present : hop.request.headers.any isHost = true := by
        simpa [List.filter_eq_nil_iff] using none
      simp [none, present]
  rw [Hop.Addressed, sent, NamesHost]
  cases own : hop.request.headers.filter isHost with
  | nil =>
      simp only [if_true, List.cons.injEq, and_true, exists_eq_left']
      exact hostOf_eq_iff hop.authority
  | cons field rest =>
      cases rest with
      | nil => simp
      | cons other rest => simp

/-- Where the strings of the request are safe, these are the fields on the wire. -/
theorem Hop.fields_sent {hop : Hop} (safe : hop.request.Safe (hostOf hop.authority)) :
    textFields (hop.request.head (hostOf hop.authority)) = hop.fields := by
  obtain ⟨ranges, read, _⟩ := safe.read
  have parsed := read.parsed
  rw [parseRequestRanges_eq] at parsed
  exact (parseHead_fields parsed).symm.trans read.headers

end Fields

section Step

variable {client next : HttpClient} {event : Event} {call : Call} {index : Nat}

/-- How a call goes on. -/
inductive Advances (maxRedirects : Nat) : CallState → CallState → Prop where
  | connect {request authority authority' hops} :
      Advances maxRedirects (.looping request authority hops) (.connecting request authority' hops)
  | take {request authority authority' hops io} :
      Advances maxRedirects (.looping request authority hops) (.exchanging request authority' hops io)
  | connected {request authority hops io} :
      Advances maxRedirects (.connecting request authority hops) (.exchanging request authority hops io)
  | redirected {request authority authority' hops io target} : hops < maxRedirects →
      Advances maxRedirects (.exchanging request authority hops io)
        (.looping { request with target, body := [] } authority' (hops + 1))
  | put {state authority io response} : Advances maxRedirects state (.putting authority io response)
  | returned {state result} : Advances maxRedirects state (.returned result)
  | dropped {state} : Advances maxRedirects state .dropped

theorem exchange_of_redirect {request : Request} {authority authority' target : Bytes}
    {hops maxRedirects : Nat} {conn after : HttpConnection}
    (runs : (exchange request authority hops maxRedirects).Runs conn (.redirect authority' target) after) :
    hops < maxRedirects := by
  obtain ⟨answer, sent, sends, runs⟩ := runs.of_bind
  dsimp only at runs
  split at runs
  · split at runs
    · cases runs
    · next more => exact Nat.lt_of_not_le more
  · obtain ⟨_, _, _, runs⟩ := runs.of_bind
    cases runs

theorem Finishes.advances {request : Request} {authority : Bytes} {hops maxRedirects : Nat}
    {ended : Outcome HttpError Round × HttpConnection} {io : Transport} {state : CallState}
    (finishes : Finishes request authority hops ended state)
    (ends : exchange request authority hops maxRedirects (.new io) = ended) :
    Advances maxRedirects (.exchanging request authority hops io) state := by
  cases finishes with
  | failed | closed => exact .returned
  | redirected => exact .redirected (exchange_of_redirect ends)
  | kept => exact .put

/-- A step of a call takes it on, and no other. -/
theorem step_cases (goes : client.step event = some next) (own : event.index = some index) :
    ∃ call state, client.calls[index]? = some call ∧ Advances call.maxRedirects call.state state ∧
      next.calls = client.calls.set index { call with state } := by
  cases event with
  | request => cases own
  | drop other =>
      cases own
      obtain ⟨call, found, rfl⟩ := Option.map_eq_some_iff.mp goes
      exact ⟨call, _, found, .dropped, rfl⟩
  | connected other result =>
      cases own
      obtain ⟨call, found, goes⟩ := Option.bind_eq_some_iff.mp goes
      cases connected_cases goes with
      | ok state => exact ⟨call, _, found, state ▸ .connected, rfl⟩
      | error state => exact ⟨call, _, found, .returned, rfl⟩
  | proceed other =>
      cases own
      obtain ⟨call, found, goes⟩ := Option.bind_eq_some_iff.mp goes
      cases proceed_cases goes with
      | take state => exact ⟨call, _, found, state ▸ .take, rfl⟩
      | connect state => exact ⟨call, _, found, state ▸ .connect, rfl⟩
      | finish state ends finishes => exact ⟨call, _, found, state ▸ finishes.advances ends, rfl⟩
      | put state => exact ⟨call, _, found, .returned, rfl⟩

theorem step_own (goes : client.step event = some next) (own : event.index = some index)
    (found : client.calls[index]? = some call) :
    ∃ state, Advances call.maxRedirects call.state state ∧
      next.calls[index]? = some { call with state } := by
  obtain ⟨call', state, found', advances, calls⟩ := step_cases goes own
  obtain rfl := Option.some.inj (found.symm.trans found')
  have inside := (List.getElem?_eq_some_iff.mp found).1
  exact ⟨state, advances, by rw [calls, List.getElem?_set_self inside]⟩

theorem step_other (goes : client.step event = some next) (other : event.index ≠ some index)
    (found : client.calls[index]? = some call) : next.calls[index]? = some call := by
  cases about : event.index with
  | none =>
      cases event with
      | request request maxRedirects =>
          cases goes
          rw [List.getElem?_append_left (List.getElem?_eq_some_iff.mp found).1, found]
      | proceed | connected | drop => cases about
  | some index' =>
      obtain ⟨call', state, _, _, calls⟩ := step_cases goes about
      have different : index' ≠ index := fun same => other (same ▸ about)
      rw [calls, List.getElem?_set_ne different, found]

end Step

section Chain

variable {original request : Request} {maxRedirects index : Nat}

/-- What a call keeps of the original request from hop to hop. -/
structure Alike (original request : Request) : Prop where
  method : request.method = original.method
  headers : request.headers = original.headers

/-- The hops of one call. -/
structure Chain (original : Request) (hops : List Hop) : Prop where
  alike : ∀ hop ∈ hops, Alike original hop.request
  body : ∀ hop ∈ hops.tail, hop.request.body = []

/-- Where a call is behind some hops. -/
def Progress (original : Request) (maxRedirects : Nat) (earlier : List Hop) : CallState → Prop
  | .looping request _ hops | .connecting request _ hops =>
      Alike original request ∧ (earlier ≠ [] → request.body = []) ∧ earlier.length = hops ∧
        hops ≤ maxRedirects
  | .exchanging request _ hops _ =>
      Alike original request ∧ earlier.length = hops + 1 ∧ hops ≤ maxRedirects
  | .putting .. | .returned _ | .dropped => earlier.length ≤ maxRedirects + 1

theorem Progress.length {earlier : List Hop} {state : CallState}
    (progress : Progress original maxRedirects earlier state) : earlier.length ≤ maxRedirects + 1 := by
  cases state with
  | looping | connecting =>
      obtain ⟨_, _, count, bound⟩ := progress
      omega
  | exchanging =>
      obtain ⟨_, count, bound⟩ := progress
      omega
  | putting | returned | dropped => exact progress

theorem Chain.concat {earlier : List Hop} {hop : Hop} (chain : Chain original earlier)
    (alike : Alike original hop.request) (body : earlier ≠ [] → hop.request.body = []) :
    Chain original (earlier ++ [hop]) where
  alike := List.forall_mem_append.mpr ⟨chain.alike, List.forall_mem_singleton.mpr alike⟩
  body := by
    cases earlier with
    | nil => simp
    | cons first rest =>
        exact List.forall_mem_append.mpr ⟨chain.body, List.forall_mem_singleton.mpr (body (by simp))⟩

/-- A step keeps the chain. -/
theorem Progress.advances {earlier : List Hop} {before after : CallState}
    (chain : Chain original earlier) (progress : Progress original maxRedirects earlier before)
    (advances : Advances maxRedirects before after) :
    Chain original (earlier ++ after.begun) ∧
      Progress original maxRedirects (earlier ++ after.begun) after := by
  have length := progress.length
  cases advances with
  | connect =>
      rw [CallState.begun, List.append_nil]
      exact ⟨chain, progress⟩
  | take | connected =>
      obtain ⟨alike, body, count, bound⟩ := progress
      refine ⟨chain.concat alike body, alike, ?_, bound⟩
      rw [CallState.begun, List.length_append, List.length_singleton, count]
  | redirected more =>
      obtain ⟨alike, count, bound⟩ := progress
      rw [CallState.begun, List.append_nil]
      exact ⟨chain, ⟨alike.method, alike.headers⟩, fun _ => rfl, count, more⟩
  | put | returned | dropped =>
      rw [CallState.begun, List.append_nil]
      exact ⟨chain, length⟩

/-- So does a whole run. -/
theorem hops_chain {events : List Event} {client : HttpClient} {call : Call} {earlier : List Hop}
    (found : client.calls[index]? = some call) (chain : Chain original earlier)
    (progress : Progress original call.maxRedirects earlier call.state) :
    Chain original (earlier ++ hops index events client) ∧
      (earlier ++ hops index events client).length ≤ call.maxRedirects + 1 := by
  induction events generalizing client call earlier with
  | nil =>
      rw [hops, List.append_nil]
      exact ⟨chain, progress.length⟩
  | cons event events ih =>
      rw [hops]
      cases goes : client.step event with
      | none =>
          dsimp only
          rw [List.append_nil]
          exact ⟨chain, progress.length⟩
      | some next =>
          dsimp only
          by_cases own : event.index = some index
          · obtain ⟨state, advances, found'⟩ := step_own goes own found
            obtain ⟨chain', progress'⟩ := progress.advances chain advances
            rw [if_pos own, found', Option.map_some, Option.getD_some, ← List.append_assoc]
            exact @ih next { call with state } _ found' chain' progress'
          · rw [if_neg own, List.nil_append]
            exact ih (step_other goes own found) chain progress

theorem hopsOf_chain (client : HttpClient) (original : Request) (maxRedirects : Nat)
    (events : List Event) :
    Chain original (client.hopsOf original maxRedirects events) ∧
      (client.hopsOf original maxRedirects events).length ≤ maxRedirects + 1 := by
  let call : Call := ⟨maxRedirects, .looping original [] 0⟩
  let started : HttpClient := { client with calls := client.calls ++ [call] }
  have found : started.calls[client.calls.length]? = some call := by simp [started]
  have started : client.hopsOf original maxRedirects events =
      hops client.calls.length events started := rfl
  have empty : Chain original [] := ⟨by simp, by simp⟩
  have progress : Progress original maxRedirects [] call.state :=
    ⟨⟨rfl, rfl⟩, fun none => absurd rfl none, rfl, Nat.zero_le _⟩
  rw [started]
  exact hops_chain found empty progress

theorem mem_dropLast_iff {hop : Hop} {hops : List Hop} :
    hop ∈ hops.dropLast ↔ ∃ next, (hop, next) ∈ hops.zip hops.tail := by
  induction hops with
  | nil => simp
  | cons first rest ih =>
      cases rest with
      | nil => simp
      | cons second rest =>
          rw [List.dropLast_cons_cons, List.mem_cons, ih]
          simp only [List.tail_cons, List.zip_cons_cons, List.mem_cons, Prod.mk.injEq]
          constructor
          · rintro (rfl | ⟨next, pair⟩)
            · exact ⟨second, .inl ⟨rfl, rfl⟩⟩
            · exact ⟨next, .inr pair⟩
          · rintro ⟨next, ⟨rfl, _⟩ | pair⟩
            · exact .inl rfl
            · exact .inr ⟨next, pair⟩

/-- The hops of a chain are as they should be if its hosts are named and no body is lost. -/
theorem Chain.shaped_iff {hops : List Hop} (chain : Chain original hops) :
    Shaped original hops ↔ Plain original hops := by
  have addressed : ∀ hop ∈ hops, hop.Addressed ↔ NamesHost original.headers hop.authority := by
    intro hop member
    rw [addressed_iff, (chain.alike hop member).headers]
  constructor
  · intro shaped
    constructor
    case host => exact fun hop member => (addressed hop member).mp (shaped.addressed hop member)
    case body =>
      by_contra lost
      rw [not_or] at lost
      obtain ⟨body, follows⟩ := lost
      refine follows fun hop member preserves => body ?_
      obtain ⟨next, pair⟩ := mem_dropLast_iff.mp member
      obtain ⟨_, same⟩ := shaped.preserved _ pair preserves
      rw [← same]
      exact chain.body next (List.of_mem_zip pair).2
  · intro plain
    constructor
    case addressed => exact fun hop member => (addressed hop member).mpr (plain.host hop member)
    case preserved =>
      rintro ⟨hop, next⟩ pair preserves
      obtain ⟨_, later⟩ := List.of_mem_zip pair
      have alike := chain.alike next (List.mem_of_mem_tail later)
      refine ⟨alike.method, (chain.body next later).trans ?_⟩
      cases plain.body with
      | inl empty => exact empty.symm
      | inr none => exact absurd preserves (none hop (mem_dropLast_iff.mpr ⟨next, pair⟩))

end Chain

/-- The requests of a call are addressed and shaped as they should be exactly if the authority stays
the one that is named, without a port where none is given, and no body has to be kept. A call never
sends more requests than it is allowed. -/
theorem hops_shaped_iff (client : HttpClient) (original : Request) (maxRedirects : Nat)
    (events : List Event) :
    (Shaped original (client.hopsOf original maxRedirects events) ↔
        Plain original (client.hopsOf original maxRedirects events)) ∧
      (client.hopsOf original maxRedirects events).length ≤ maxRedirects + 1 := by
  obtain ⟨chain, bound⟩ := hopsOf_chain client original maxRedirects events
  exact ⟨chain.shaped_iff, bound⟩

/-- A call that is redirected once. -/
def redirectedOnce (location : String) : List Event :=
  let io : Transport := ⟨[ascii "HTTP/1.1 307 Temporary Redirect\r\nContent-Length: 0\r\nLocation: " ++
    ascii location ++ ascii "\r\n\r\n"], .pending, []⟩
  [.proceed 0, .connected 0 (.ok io), .proceed 0, .proceed 0, .connected 0 (.ok io)]

/-- The port of the new authority is not named, and the body is not sent again. -/
theorem hops_misshaped :
    ¬ Shaped (ResponseData.bare (ascii "GET")) ((new 1).hopsOf (ResponseData.bare (ascii "GET")) 5
        (redirectedOnce "http://h:8080/")) ∧
      ¬ Shaped { ResponseData.bare (ascii "PUT") with body := ascii "hi" }
        ((new 1).hopsOf { ResponseData.bare (ascii "PUT") with body := ascii "hi" } 5
          (redirectedOnce "/there")) := by
  constructor
  · intro shaped
    obtain ⟨chain, _⟩ := hopsOf_chain (new 1) (ResponseData.bare (ascii "GET")) 5
      (redirectedOnce "http://h:8080/")
    have authorities : ((new 1).hopsOf (ResponseData.bare (ascii "GET")) 5
        (redirectedOnce "http://h:8080/")).map (·.authority) = [ascii "localhost", ascii "h:8080"] := by
      decide +kernel
    have there : ascii "h:8080" ∈ [ascii "localhost", ascii "h:8080"] := .tail _ (.head _)
    rw [← authorities] at there
    obtain ⟨hop, member, same⟩ := List.mem_map.mp there
    have named : 58 ∉ hop.authority := (chain.shaped_iff.mp shaped).host hop member
    rw [same] at named
    exact named (by decide)
  · intro shaped
    obtain ⟨chain, _⟩ := hopsOf_chain (new 1) { ResponseData.bare (ascii "PUT") with body := ascii "hi" } 5
      (redirectedOnce "/there")
    have answers : ((new 1).hopsOf { ResponseData.bare (ascii "PUT") with body := ascii "hi" } 5
        (redirectedOnce "/there")).map Hop.status = [some 307, some 307] := by
      decide +kernel
    obtain ⟨first, rest, hops, status, answers⟩ := List.map_eq_cons_iff.mp answers
    obtain ⟨second, _, rfl, _, _⟩ := List.map_eq_cons_iff.mp answers
    cases (chain.shaped_iff.mp shaped).body with
    | inl empty => exact absurd empty (by decide)
    | inr none =>
        rw [hops] at none
        exact none first (by simp) (.inl status)

end HttpClient

end TptAsync.Http
