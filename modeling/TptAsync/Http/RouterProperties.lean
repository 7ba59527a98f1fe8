import Mathlib.Data.List.Sigma
import TptAsync.Http.DialogueProperties
import TptAsync.Http.Router

set_option autoImplicit false

/-!
# What a router answers

A router is put together by any number of registrations. It stands for a site, in which the first
registration for a method and a path counts, and the last fallback.
-/

namespace TptAsync.Http

open Lib

variable {σ : Type}

/-- A call of the builder. -/
inductive Registration (σ : Type) where
  | route (method path : Bytes) (handler : Handler σ)
  | fallback (handler : Handler σ)

/-- What there is for each method and path, and for everything else. -/
structure Site (σ : Type) where
  entry : Bytes → Bytes → Option (Handler σ)
  fallback : Handler σ

open Classical in
/-- The query does not count, and a path that is there for other methods only is told from one
that is not there. -/
noncomputable def Site.respond (site : Site σ) : Handler σ := fun state request =>
  let path := request.target.takeWhile (· ≠ 63)
  match site.entry request.method path with
  | some handler => handler state request
  | none =>
      if ∃ method handler, site.entry method path = some handler then
        .respond .methodNotAllowed state
      else site.fallback state request

namespace Registration

/-- What is registered, the fallback under no key. -/
def binding : Registration σ → Sigma fun _ : Option (Bytes × Bytes) => Handler σ
  | .route method path handler => ⟨some (method, path), handler⟩
  | .fallback handler => ⟨none, handler⟩

def asRoute : Registration σ → Option (Route σ)
  | .route method path handler => some ⟨method, path, handler⟩
  | .fallback _ => none

end Registration

/-- The site of some registrations. -/
def site (registrations : List (Registration σ)) : Site σ where
  entry method path := (registrations.map Registration.binding).dlookup (some (method, path))
  fallback := ((registrations.reverse.map Registration.binding).dlookup none).getD
    fun state _ => .respond .notFound state

namespace Router

def register (router : Router σ) : Registration σ → Router σ
  | .route method path handler => router.route method path handler
  | .fallback handler => router.withFallback handler

def built (registrations : List (Registration σ)) : Router σ := registrations.foldl register new

theorem pathOnly_eq (target : Bytes) : pathOnly target = target.takeWhile (· ≠ 63) := by
  rw [pathOnly]
  induction target with
  | nil => rfl
  | cons first rest ih =>
      rw [List.findIdx?_cons, List.takeWhile_cons]
      by_cases mark : first = 63
      · simp [mark]
      · simp only [mark, ← ih]
        cases rest.findIdx? (· = 63) <;> simp [mark]

theorem selectLoop_eq (path method : Bytes) (routes : List (Route σ)) (pathMatched : Bool) :
    selectLoop path method routes pathMatched =
      (routes.find? fun route => route.method = method ∧ route.path = path,
        pathMatched || routes.any fun route => route.path = path) := by
  induction routes generalizing pathMatched with
  | nil => simp [selectLoop]
  | cons route routes ih =>
      rw [selectLoop]
      by_cases here : route.path = path
      · by_cases same : route.method = method <;> simp [here, same, ih]
      · simp [here, ih]

theorem built_concat (registrations : List (Registration σ)) (last : Registration σ) :
    built (registrations ++ [last]) = (built registrations).register last := by
  rw [built, List.foldl_append]
  rfl

theorem built_routes (registrations : List (Registration σ)) :
    (built registrations).routes = registrations.filterMap Registration.asRoute := by
  induction registrations using List.reverseRecOn with
  | nil => rfl
  | append_singleton registrations last ih =>
      rw [built_concat, List.filterMap_append, ← ih]
      cases last with
      | route method path handler => rfl
      | fallback handler => exact (List.append_nil _).symm

theorem built_fallback (registrations : List (Registration σ)) :
    (built registrations).fallback = (site registrations).fallback := by
  induction registrations using List.reverseRecOn with
  | nil => rfl
  | append_singleton registrations last ih =>
      rw [built_concat, site, List.reverse_append, List.reverse_singleton, List.singleton_append,
        List.map_cons]
      cases last with
      | route method path handler =>
          rw [List.dlookup_cons_ne _ _ (by simp [Registration.binding])]
          exact ih
      | fallback handler => rw [Registration.binding, List.dlookup_cons_eq]; rfl

theorem site_route (routeMethod routePath method path : Bytes) (handler : Handler σ)
    (registrations : List (Registration σ)) :
    (site (.route routeMethod routePath handler :: registrations)).entry method path =
      if routeMethod = method ∧ routePath = path then some handler
      else (site registrations).entry method path := by
  simp only [site, List.map_cons]
  split
  · next here =>
      rw [← here.1, ← here.2]
      exact List.dlookup_cons_eq _ _ _
  · next elsewhere =>
      refine List.dlookup_cons_ne _ _ fun same => elsewhere ?_
      cases same
      exact ⟨rfl, rfl⟩

theorem site_fallback (method path : Bytes) (handler : Handler σ)
    (registrations : List (Registration σ)) :
    (site (.fallback handler :: registrations)).entry method path =
      (site registrations).entry method path := by
  simp only [site, List.map_cons]
  exact List.dlookup_cons_ne _ _ fun same => Option.some_ne_none _ same

/-- The route that the loop selects is the entry of the site. -/
theorem find_asRoute (registrations : List (Registration σ)) (method path : Bytes) :
    ((registrations.filterMap Registration.asRoute).find? fun route =>
        route.method = method ∧ route.path = path).map Route.handler =
      (site registrations).entry method path := by
  induction registrations with
  | nil => rfl
  | cons first registrations ih =>
      cases first with
      | route routeMethod routePath handler =>
          rw [site_route]
          by_cases here : routeMethod = method ∧ routePath = path
          · simp [Registration.asRoute, here]
          · simpa [Registration.asRoute, here] using ih
      | fallback handler =>
          rw [site_fallback]
          exact ih

theorem any_asRoute (registrations : List (Registration σ)) (path : Bytes) :
    (registrations.filterMap Registration.asRoute).any (fun route => route.path = path) = true ↔
      ∃ method handler, (site registrations).entry method path = some handler := by
  simp only [← find_asRoute, Option.map_eq_some_iff, List.any_eq_true, decide_eq_true_eq]
  constructor
  · rintro ⟨route, member, same⟩
    have found : ((registrations.filterMap Registration.asRoute).find? fun other =>
        other.method = route.method ∧ other.path = path).isSome := by
      rw [List.find?_isSome]
      exact ⟨route, member, by simp [same]⟩
    obtain ⟨other, chosen⟩ := Option.isSome_iff_exists.mp found
    exact ⟨route.method, other.handler, other, chosen, rfl⟩
  · rintro ⟨method, _, route, chosen, _⟩
    have matched := List.find?_some chosen
    exact ⟨route, List.mem_of_find?_eq_some chosen, by simp at matched; exact matched.2⟩

/-- The loop of the router answers as its site does. -/
theorem handle_eq (registrations : List (Registration σ)) :
    (built registrations).handle = (site registrations).respond := by
  funext state request
  rw [handle, Site.respond, selectLoop_eq, Bool.false_or, pathOnly_eq, built_routes, built_fallback]
  generalize request.target.takeWhile (· ≠ 63) = path
  have chosen := find_asRoute registrations request.method path
  have known := any_asRoute registrations path
  simp only [← chosen]
  cases found : (registrations.filterMap Registration.asRoute).find? fun route =>
      route.method = request.method ∧ route.path = path with
  | some route => rfl
  | none =>
      simp only [Option.map_none]
      cases any : (registrations.filterMap Registration.asRoute).any fun route => route.path = path with
      | true => rw [if_pos (known.mp any)]
      | false => rw [if_neg (mt known.mpr (by simp [any]))]

/-- The order of the registrations does not count as long as nothing is registered twice. -/
theorem handle_perm {first second : List (Registration σ)} (same : first.Perm second)
    (distinct : (first.map Registration.binding).NodupKeys) :
    (built first).handle = (built second).handle := by
  have bindings := same.map Registration.binding
  have reversed := ((first.reverse_perm.trans same).trans second.reverse_perm.symm).map
    Registration.binding
  have sites : site first = site second := by
    simp only [site]
    congr 1
    · funext method path
      exact List.perm_dlookup _ distinct bindings
    · rw [List.perm_dlookup none ((List.perm_nodupKeys (first.reverse_perm.map _)).mpr distinct) reversed]
  rw [handle_eq, handle_eq, sites]

/-- In every dialogue, from any state of it, a router is as good as its site, whatever the two ends
make of each other. Where they can read each other, each request is answered by the first route for
its method and path. Unless something is registered twice, that does not depend on the order. -/
theorem built_calls (registrations : List (Registration σ)) (calls : List Call) :
    (∀ dialogue : Dialogue σ, dialogue.calls (built registrations).handle calls =
      dialogue.calls (site registrations).respond calls) ∧
    (∀ state, Conducted (site registrations).respond (some state) calls →
      ∃ last, (Dialogue.new state).calls (built registrations).handle calls =
        some (replies (site registrations).respond (some state) calls, last)) ∧
    ∀ others, registrations.Perm others → (registrations.map Registration.binding).NodupKeys →
      ∀ dialogue : Dialogue σ, dialogue.calls (built others).handle calls =
        dialogue.calls (built registrations).handle calls := by
  refine ⟨fun dialogue => by rw [handle_eq], fun state conducted => ?_, fun others same distinct dialogue => ?_⟩
  · have starts : (Dialogue.new state).InStep (some state) :=
      .going rfl HttpConnection.new_idle HttpConnection.new_idle
    obtain ⟨last, ends, _⟩ := starts.calls conducted
    rw [handle_eq]
    exact ⟨last, ends⟩
  · rw [handle_perm same distinct]

section Example

theorem ok_fits : (ascii "ok").length < 2 ^ 63 := by decide

def getHealth : Registration Unit :=
  .route (ascii "GET") (ascii "/health") fun state _ => .respond ⟨200, [], ascii "ok", ok_fits⟩ state

/-- The fallback of a router without one, spelled out. -/
def elsewhere : Registration Unit := .fallback fun state _ => .respond .notFound state

/-- A query, and a path that is not there for POST. -/
def twoProbes : List Call :=
  [⟨⟨ascii "GET", ascii "/health?verbose=1", [], []⟩, ascii "localhost", 64, .bytewise, .bytewise, none⟩,
    ⟨⟨ascii "POST", ascii "/health", [], []⟩, ascii "localhost", 64, .bytewise, .bytewise, none⟩]

theorem built_calls_health :
    (∃ last, (Dialogue.new ()).calls (built [getHealth, elsewhere]).handle twoProbes =
      some ([.ready ⟨200, ascii "OK", [(ascii "content-length", ascii "2")], ascii "ok"⟩,
        .ready ⟨405, ascii "Method Not Allowed", [(ascii "content-length", ascii "18")],
          ascii "method not allowed"⟩], last)) ∧
    (Dialogue.new ()).calls (built [elsewhere, getHealth]).handle twoProbes =
      (Dialogue.new ()).calls (built [getHealth, elsewhere]).handle twoProbes := by
  obtain ⟨_, replied, reordered⟩ := built_calls [getHealth, elsewhere] twoProbes
  rw [← handle_eq] at replied
  have conducted : Conducted (built [getHealth, elsewhere]).handle (some ()) twoProbes := by
    have query : LineBytes (ascii "/health?verbose=1") := by unfold LineBytes; decide
    have plain : LineBytes (ascii "/health") := by unfold LineBytes; decide
    refine ⟨⟨⟨by decide, ⟨by decide, by decide, query⟩, nofun, by decide, by decide⟩, by decide,
      by decide, nofun, by decide⟩, .respond _ _ _, ⟨by decide, nofun, by decide, by decide, by decide⟩, ?_⟩
    exact ⟨⟨⟨by decide, ⟨by decide, by decide, plain⟩, nofun, by decide, by decide⟩, by decide,
      by decide, nofun, by decide⟩, .respond _ _ _, ⟨by decide, nofun, by decide, by decide, by decide⟩,
      trivial⟩
  have distinct : ([getHealth, elsewhere].map Registration.binding).NodupKeys := by
    unfold List.NodupKeys
    decide
  exact ⟨replied () conducted, reordered [elsewhere, getHealth] (.swap _ _ _) distinct _⟩

end Example

end Router

end TptAsync.Http
