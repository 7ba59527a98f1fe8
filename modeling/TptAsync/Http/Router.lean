import TptAsync.Http.Server

set_option autoImplicit false

/-!
# Routing

`router.rs`: a handler that picks another one by the method and the path of a request. The handlers
are shared closures, whose state is the state that the router keeps.
-/

namespace TptAsync.Http

open Lib

variable {σ : Type}

structure Route (σ : Type) where
  method : Bytes
  path : Bytes
  handler : Handler σ

structure Router (σ : Type) where
  routes : List (Route σ)
  fallback : Handler σ

namespace ResponseData

def notFound : ResponseData := ⟨404, [], ascii "not found", by decide⟩

def methodNotAllowed : ResponseData := ⟨405, [], ascii "method not allowed", by decide⟩

end ResponseData

/-- Path portion of a request target, without the query string. -/
def pathOnly (target : Bytes) : Bytes :=
  match target.findIdx? (· = 63) with
  | some stop => target.take stop
  | none => target

namespace Router

def new : Router σ := ⟨[], fun state _ => .respond .notFound state⟩

def route (router : Router σ) (method path : Bytes) (handler : Handler σ) : Router σ :=
  { router with routes := router.routes ++ [⟨method, path, handler⟩] }

def get (router : Router σ) (path : Bytes) (handler : Handler σ) : Router σ :=
  router.route (ascii "GET") path handler

def post (router : Router σ) (path : Bytes) (handler : Handler σ) : Router σ :=
  router.route (ascii "POST") path handler

/-- Replace the handler used when no route matches. -/
def withFallback (router : Router σ) (handler : Handler σ) : Router σ :=
  { router with fallback := handler }

/-- The loop over the routes, with `path_matched`. -/
def selectLoop (path method : Bytes) : List (Route σ) → Bool → Option (Route σ) × Bool
  | [], pathMatched => (none, pathMatched)
  | route :: routes, pathMatched =>
      if route.path ≠ path then selectLoop path method routes pathMatched
      else if route.method = method then (some route, true)
      else selectLoop path method routes true

def handle (router : Router σ) : Handler σ := fun state request =>
  match selectLoop (pathOnly request.target) request.method router.routes false with
  | (some route, _) => route.handler state request
  | (none, true) => .respond .methodNotAllowed state
  | (none, false) => router.fallback state request

end Router

end TptAsync.Http
