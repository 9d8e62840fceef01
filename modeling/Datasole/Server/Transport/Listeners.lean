import Mathlib.Data.List.Basic
import Mathlib.Data.Option.Basic

/-!
# The listeners on the HTTP server

`ServerTransport.attach` puts two listeners on the HTTP server: one for `request`, before those of
the application, which serves the two browser bundles, and one for `upgrade`. Both read the path of
the request with `new URL(target, base)`, where the target and the `Host` header come from the
network. An exception in a listener is not caught by anyone and ends the process.

The URL parser is a parameter: it gives a pathname or throws. `listeners_return_iff` says for which
requests the listeners return, and then what they do: the parser has to accept the target, except
that a request with a method other than `GET` and `HEAD` is passed on unread. `serve_eq_ok_iff` is
the same for a server that takes one request after another, `emitRequest_asset` and
`emitRequest_other` say what the listeners of the application can add to a response.
-/

namespace Datasole

/-- What the listeners read of a request. -/
structure IncomingMessage where
  method : Option String
  url : Option String
  host : Option String
  ifNoneMatch : Option String

/-- What is called on a response. -/
inductive ResponseCall where
  | setHeader (name value : String)
  | writeHead (status : ℕ) (headers : List (String × String))
  | endWith (body : Option (List UInt8))
  deriving DecidableEq

/-- A response: the calls that had an effect, and whether its methods were replaced by no-ops. -/
structure ServerResponse where
  sent : List ResponseCall
  silenced : Bool
  deriving DecidableEq

namespace ServerResponse

/-- The response that the server hands to the listeners. -/
def fresh : ServerResponse := ⟨[], false⟩

def call (res : ServerResponse) (c : ResponseCall) : ServerResponse :=
  if res.silenced then res else { res with sent := res.sent ++ [c] }

/-- `silenceHttpResponseAfterStaticSend`. -/
def silence (res : ServerResponse) : ServerResponse := { res with silenced := true }

/-- A silenced response takes no more calls. -/
theorem foldl_call_of_silenced {res : ServerResponse} (h : res.silenced = true)
    (calls : List ResponseCall) : calls.foldl call res = res := by
  induction calls with
  | nil => rfl
  | cons c calls ih => rw [List.foldl_cons, call, if_pos h, ih]

/-- Another one takes them all, in order. -/
theorem foldl_call_of_not_silenced {res : ServerResponse} (h : res.silenced = false)
    (calls : List ResponseCall) :
    calls.foldl call res = { res with sent := res.sent ++ calls } := by
  induction calls generalizing res with
  | nil => simp
  | cons c calls ih =>
    have hcall : res.call c = { res with sent := res.sent ++ [c] } := if_neg (by simp [h])
    have hrest := @ih { res with sent := res.sent ++ [c] } h
    rw [List.foldl_cons, hcall, hrest, List.append_assoc]
    rfl

end ServerResponse

/-! ## Assets -/

structure StaticAsset where
  body : List UInt8
  etag : String
  deriving DecidableEq

def normalizeBasePath (path : String) : String :=
  let chars := path.toList
  if chars.head? ≠ some '/' then "/" ++ path
  else if chars.getLast? = some '/' ∧ 1 < chars.length then String.ofList chars.dropLast
  else path

structure StaticAssetServer where
  clientAsset : Option StaticAsset
  workerAsset : Option StaticAsset
  clientPath : String
  workerPath : String
  deriving DecidableEq

namespace StaticAssetServer

/-- The entity tag of a body; `sha256` gives the digest in hexadecimal digits. -/
def asset (sha256 : List UInt8 → String) (body : List UInt8) : StaticAsset :=
  ⟨body, "\"" ++ String.ofList ((sha256 body).toList.take 24) ++ "\""⟩

/-- The constructor. An asset that is not passed in is the first file found under its name, by
`loadFile`. -/
def new (sha256 : List UInt8 → String) (loadFile : String → Option (List UInt8)) (path : String)
    (client worker : Option (List UInt8)) : StaticAssetServer :=
  let basePath := normalizeBasePath path
  { clientPath := basePath ++ "/datasole.iife.min.js"
    workerPath := basePath ++ "/datasole-worker.iife.min.js"
    clientAsset := (client.or (loadFile "datasole.iife.min.js")).map (asset sha256)
    workerAsset := (worker.or (loadFile "datasole-worker.iife.min.js")).map (asset sha256) }

def cacheControl : String × String := ("Cache-Control", "public, max-age=31536000, immutable")

/-- The isolation headers; the worker script may be loaded from other origins. -/
def isolationHeaders (workerScript : Bool) : List (String × String) :=
  [("Cross-Origin-Opener-Policy", "same-origin"),
    ("Cross-Origin-Embedder-Policy", "require-corp"),
    ("Cross-Origin-Resource-Policy", if workerScript then "cross-origin" else "same-origin")]

/-- The calls of `sendAsset`. -/
def sendAsset (asset : StaticAsset) (req : IncomingMessage) (workerScript : Bool) :
    List ResponseCall :=
  if req.ifNoneMatch = some asset.etag then
    [.writeHead 304 (("ETag", asset.etag) :: cacheControl :: isolationHeaders workerScript),
      .endWith none]
  else
    [.writeHead 200 (("Content-Type", "application/javascript; charset=utf-8") ::
        ("Content-Length", asset.body.length.repr) :: ("ETag", asset.etag) :: cacheControl ::
        isolationHeaders workerScript),
      .endWith (if req.method = some "HEAD" then none else some asset.body)]

/-- The asset, if it is there and the request is for its path. -/
def assetAt (asset : Option StaticAsset) (assetPath pathname : String) : Option StaticAsset :=
  if pathname = assetPath then asset else none

end StaticAssetServer

/-! ## The two listeners -/

section

variable (parseUrl : String → String → Option String)

/-- `new URL(req.url ?? '/', 'http://' + (req.headers.host ?? 'localhost')).pathname`; nothing where
the constructor throws. -/
def IncomingMessage.pathname (req : IncomingMessage) : Option String :=
  parseUrl (req.url.getD "/") ("http://" ++ req.host.getD "localhost")

/-- The exception of the `URL` constructor. -/
def invalidUrl : String := "Invalid URL"

/-- `handleRequest`: whether the request was answered, and the response. -/
def StaticAssetServer.handleRequest (server : StaticAssetServer) (req : IncomingMessage)
    (res : ServerResponse) : Except String (Bool × ServerResponse) :=
  let method := req.method.getD "GET"
  if method ≠ "GET" ∧ method ≠ "HEAD" then .ok (false, res)
  else
    match req.pathname parseUrl with
    | none => .error invalidUrl
    | some pathname =>
      match assetAt server.clientAsset server.clientPath pathname,
        assetAt server.workerAsset server.workerPath pathname with
      | some asset, _ => .ok (true, (sendAsset asset req false).foldl .call res)
      | none, some asset => .ok (true, (sendAsset asset req true).foldl .call res)
      | none, none => .ok (false, res)

/-- The listener for `request` that `attach` installs. -/
def staticRequestHandler (server : StaticAssetServer) (req : IncomingMessage)
    (res : ServerResponse) : Except String ServerResponse := do
  let (handled, res) ← server.handleRequest parseUrl req res
  return if handled then res.silence else res

/-- What the listener for `upgrade` does with the socket. -/
inductive UpgradeOutcome where
  | destroyed
  | handleUpgrade
  deriving DecidableEq

/-- The listener for `upgrade` that `WsServer.start` installs. -/
def upgradeListener (path : String) (req : IncomingMessage) : Except String UpgradeOutcome :=
  match req.pathname parseUrl with
  | none => .error invalidUrl
  | some pathname => .ok (if pathname ≠ path then .destroyed else .handleUpgrade)

/-- The server emits `request`: the listener first, then those of the application, with what they
call on the response. -/
def emitRequest (server : StaticAssetServer) (req : IncomingMessage)
    (application : List ResponseCall) : Except String ServerResponse :=
  (staticRequestHandler parseUrl server req .fresh).map (application.foldl .call)

/-- What arrives at the server. -/
inductive HttpInput where
  | request (req : IncomingMessage) (application : List ResponseCall)
  | upgrade (req : IncomingMessage)

/-- The listeners run for one input. -/
def listen (server : StaticAssetServer) (path : String) : HttpInput → Except String Unit
  | .request req application => (emitRequest parseUrl server req application).map fun _ => ()
  | .upgrade req => (upgradeListener parseUrl path req).map fun _ => ()

/-- The server, which takes one input after another until a listener throws. -/
def serve (server : StaticAssetServer) (path : String) : List HttpInput → Except String Unit
  | [] => .ok ()
  | input :: inputs => (listen parseUrl server path input).bind fun _ => serve server path inputs

/-! ## Where they return -/

variable {parseUrl}

/-- The request is passed on without a look at its target. -/
def IncomingMessage.Unread (req : IncomingMessage) : Prop :=
  req.method.getD "GET" ≠ "GET" ∧ req.method.getD "GET" ≠ "HEAD"

/-- The request asks for one of the two assets. -/
def StaticAssetServer.IsFor (parseUrl : String → String → Option String)
    (server : StaticAssetServer)
    (req : IncomingMessage) : Prop :=
  ¬ req.Unread ∧ ∃ pathname ∈ req.pathname parseUrl,
    pathname = server.clientPath ∨ pathname = server.workerPath

/-- A file is found at its own path only. -/
theorem assetAt_eq_some {asset : Option StaticAsset} {a : StaticAsset} {assetPath pathname : String}
    (h : StaticAssetServer.assetAt asset assetPath pathname = some a) : pathname = assetPath := by
  unfold StaticAssetServer.assetAt at h
  split at h
  · assumption
  · cases h

/-- The listener throws exactly if it reads a target that the parser does not accept. -/
theorem staticRequestHandler_eq_error (server : StaticAssetServer) {req : IncomingMessage}
    (res : ServerResponse) (hread : ¬ req.Unread) (hparse : req.pathname parseUrl = none) :
    staticRequestHandler parseUrl server req res = .error invalidUrl := by
  have hmethod : ¬ (req.method.getD "GET" ≠ "GET" ∧ req.method.getD "GET" ≠ "HEAD") := hread
  simp only [staticRequestHandler, StaticAssetServer.handleRequest, if_neg hmethod, hparse]
  rfl

/-- Otherwise it returns: it answers and silences the response if the request is for an asset, and
leaves the response alone if not. -/
theorem staticRequestHandler_eq_ok (server : StaticAssetServer) {req : IncomingMessage}
    (hread : req.Unread ∨ (req.pathname parseUrl).isSome) :
    (∃ asset worker, server.IsFor parseUrl req ∧
      staticRequestHandler parseUrl server req .fresh =
        .ok ⟨StaticAssetServer.sendAsset asset req worker, true⟩) ∨
    staticRequestHandler parseUrl server req .fresh = .ok .fresh := by
  by_cases hmethod : req.Unread
  · refine .inr ?_
    have hmethod' : req.method.getD "GET" ≠ "GET" ∧ req.method.getD "GET" ≠ "HEAD" := hmethod
    simp only [staticRequestHandler, StaticAssetServer.handleRequest, if_pos hmethod']
    rfl
  · obtain ⟨pathname, hparse⟩ := Option.isSome_iff_exists.mp (hread.resolve_left hmethod)
    have hmethod' : ¬ (req.method.getD "GET" ≠ "GET" ∧ req.method.getD "GET" ≠ "HEAD") := hmethod
    simp only [staticRequestHandler, StaticAssetServer.handleRequest, if_neg hmethod', hparse]
    have hsent (calls : List ResponseCall) :
        (calls.foldl .call ServerResponse.fresh).silence = ⟨calls, true⟩ := by
      rw [ServerResponse.foldl_call_of_not_silenced rfl]
      rfl
    cases hclient : StaticAssetServer.assetAt server.clientAsset server.clientPath pathname with
    | some asset =>
      refine .inl ⟨asset, false, ⟨hmethod, pathname, hparse, .inl (assetAt_eq_some hclient)⟩, ?_⟩
      exact congrArg Except.ok (hsent _)
    | none =>
      cases hworker : StaticAssetServer.assetAt server.workerAsset server.workerPath pathname with
      | some asset =>
        refine .inl ⟨asset, true, ⟨hmethod, pathname, hparse, .inr (assetAt_eq_some hworker)⟩, ?_⟩
        exact congrArg Except.ok (hsent _)
      | none => exact .inr rfl

/-- The listener for `request` returns, and answers only requests for an asset. -/
def RequestHandled (parseUrl : String → String → Option String) (server : StaticAssetServer)
    (req : IncomingMessage) : Prop :=
  ∃ res, staticRequestHandler parseUrl server req .fresh = .ok res ∧
    (res.sent ≠ [] → server.IsFor parseUrl req)

/-- The listener for `upgrade` returns, and destroys the socket unless the path matches. -/
def UpgradeHandled (parseUrl : String → String → Option String) (path : String)
    (req : IncomingMessage) : Prop :=
  ∃ outcome, upgradeListener parseUrl path req = .ok outcome ∧
    (outcome = .destroyed ↔ req.pathname parseUrl ≠ some path)

/-- A request is handled if its target can be read, or need not be. -/
theorem requestHandled_iff (server : StaticAssetServer) (req : IncomingMessage) :
    RequestHandled parseUrl server req ↔ req.Unread ∨ (req.pathname parseUrl).isSome := by
  constructor
  · rintro ⟨res, hres, -⟩
    by_contra hread
    obtain ⟨hmethod, hparse⟩ := not_or.mp hread
    rw [Option.not_isSome_iff_eq_none] at hparse
    rw [staticRequestHandler_eq_error server .fresh hmethod hparse] at hres
    cases hres
  · intro hread
    rcases staticRequestHandler_eq_ok server hread with ⟨asset, worker, hfor, hres⟩ | hres
    · exact ⟨_, hres, fun _ => hfor⟩
    · exact ⟨_, hres, fun hsent => absurd rfl hsent⟩

/-- An upgrade is handled if its target can be read. -/
theorem upgradeHandled_iff (path : String) (req : IncomingMessage) :
    UpgradeHandled parseUrl path req ↔ (req.pathname parseUrl).isSome := by
  unfold UpgradeHandled upgradeListener
  cases hparse : req.pathname parseUrl with
  | none => simp
  | some pathname =>
    refine ⟨fun _ => rfl, fun _ => ⟨_, rfl, ?_⟩⟩
    by_cases hpath : pathname = path <;> simp [hpath]

/-- Exactly when the listeners do what they are for: the parser accepts the target under the `Host`
header of the request, or the method of a `request` is neither `GET` nor `HEAD`. -/
theorem listeners_return_iff (parseUrl : String → String → Option String)
    (server : StaticAssetServer) (path : String) (req : IncomingMessage) :
    (RequestHandled parseUrl server req ↔ req.Unread ∨ (req.pathname parseUrl).isSome) ∧
      (UpgradeHandled parseUrl path req ↔ (req.pathname parseUrl).isSome) :=
  ⟨requestHandled_iff server req, upgradeHandled_iff path req⟩

/-- A request and an upgrade for the target `//`, which the parser does not accept. -/
theorem two_slashes_throw :
    let parseUrl : String → String → Option String :=
      fun target _ => if target = "//" then none else some target
    let server := StaticAssetServer.new (fun _ => "") (fun _ => none) "/__ds" none none
    let req : IncomingMessage := ⟨some "GET", some "//", some "localhost", none⟩
    ¬ RequestHandled parseUrl server req ∧ ¬ UpgradeHandled parseUrl "/__ds" req := by
  refine ⟨?_, ?_⟩
  · rintro ⟨res, hres, -⟩
    cases hres
  · rintro ⟨outcome, houtcome, -⟩
    cases houtcome

/-! ## The server over many inputs, and the listeners of the application -/

/-- The listener that takes this input reads a target that the parser accepts, or none. -/
def HttpInput.Accepted (parseUrl : String → String → Option String) : HttpInput → Prop
  | .request req _ => req.Unread ∨ (req.pathname parseUrl).isSome
  | .upgrade req => (req.pathname parseUrl).isSome

/-- No listener throws exactly on the inputs that are accepted. -/
theorem listen_eq_ok_iff (server : StaticAssetServer) (path : String) (input : HttpInput) :
    listen parseUrl server path input = .ok () ↔ input.Accepted parseUrl := by
  cases input with
  | request req application =>
    by_cases hread : req.Unread ∨ (req.pathname parseUrl).isSome
    · rcases staticRequestHandler_eq_ok server hread with ⟨_, _, -, hres⟩ | hres <;>
        simp [listen, emitRequest, hres, Except.map, HttpInput.Accepted, hread]
    · obtain ⟨hmethod, hparse⟩ := not_or.mp hread
      rw [Option.not_isSome_iff_eq_none] at hparse
      have hres := staticRequestHandler_eq_error server .fresh hmethod hparse
      simp [listen, emitRequest, hres, Except.map, HttpInput.Accepted, hread]
  | upgrade req =>
    cases hparse : req.pathname parseUrl <;>
      simp [listen, upgradeListener, hparse, Except.map, HttpInput.Accepted]

/-- The server gets through its inputs exactly if each of them is accepted. -/
theorem serve_eq_ok_iff (server : StaticAssetServer) (path : String) (inputs : List HttpInput) :
    serve parseUrl server path inputs = .ok () ↔ ∀ input ∈ inputs, input.Accepted parseUrl := by
  induction inputs with
  | nil => simp [serve]
  | cons input inputs ih =>
    rw [List.forall_mem_cons, ← ih, ← listen_eq_ok_iff server path input, serve]
    cases listen parseUrl server path input <;> simp [Except.bind]

/-- The listeners of the application add nothing to the response for an asset. -/
theorem emitRequest_asset {server : StaticAssetServer} {req : IncomingMessage}
    {asset : StaticAsset} {worker : Bool}
    (h : staticRequestHandler parseUrl server req .fresh =
      .ok ⟨StaticAssetServer.sendAsset asset req worker, true⟩) (application : List ResponseCall) :
    emitRequest parseUrl server req application =
      .ok ⟨StaticAssetServer.sendAsset asset req worker, true⟩ := by
  rw [emitRequest, h]
  exact congrArg Except.ok (ServerResponse.foldl_call_of_silenced rfl application)

/-- To a request that is not for an asset they answer as if they were alone. -/
theorem emitRequest_other {server : StaticAssetServer} {req : IncomingMessage}
    (hread : req.Unread ∨ (req.pathname parseUrl).isSome) (hfor : ¬ server.IsFor parseUrl req)
    (application : List ResponseCall) :
    emitRequest parseUrl server req application = .ok ⟨application, false⟩ := by
  rcases staticRequestHandler_eq_ok server hread with ⟨_, _, hfor', -⟩ | hres
  · exact absurd hfor' hfor
  · rw [emitRequest, hres]
    exact congrArg Except.ok (ServerResponse.foldl_call_of_not_silenced rfl application)

end

end Datasole
