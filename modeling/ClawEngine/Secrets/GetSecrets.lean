import ClawEngine.Core.Url
import ClawEngine.Secrets.OpenBao

/-!
# OpenBaoSecretProvider.get_secrets

The request, what becomes of it, and what the provider makes of the answer. Of `requests` and
`http.client` the order of their steps is modelled: the url is prepared, the headers are checked,
the network is reached, and the headers are encoded and written. A header value that fails a check
or cannot be written is refused with an exception of its own. What the network and the server do is
a parameter.
-/

set_option autoImplicit false

namespace ClawEngine.Secrets

open ClawEngine.Core ClawEngine.Context

/-! ## requests -/

/-- An exception of a library: its class, its arguments and its text. -/
structure LibException where
  className : String
  args : List String
  text : String
  deriving DecidableEq, Repr

/-- A response, as far as it is read: its status, and what `response.json()` returns or raises. -/
structure HttpResponse where
  statusCode : Int
  json : Except PyError Json

/-- How `requests.get` ends: with a `Timeout`, with a `ConnectionError`, with another exception or
with a response. -/
inductive HttpOutcome
  | timeout (e : LibException)
  | connectionError (e : LibException)
  | raised (e : LibException)
  | answered (response : HttpResponse)

/-- What the network does with a request: it ends before the headers are written, or after. -/
inductive Exchange
  | early (outcome : HttpOutcome)
  | full (outcome : HttpOutcome)

/-- The behaviour of the network and the server. -/
abbrev Network := (url : String) → (timeout : PyFloat × PyFloat) → Exchange

/-- What `requests` and `http.client` raise: for a url, where it is refused, and for a header value
that is refused. -/
structure RequestsLib where
  prepareUrl : String → Option LibException
  refused : String → LibException

/-- A text without one line break at its end, before which `$` matches too. -/
def dropFinalBreak (cs : List Char) : List Char :=
  if cs.getLast? = some '\n' then cs.dropLast else cs

/-- The check of a header value in `requests`, a match of `^\S[^\r\n]*$|^$`. -/
def isCheckedValue (value : String) : Bool :=
  match dropFinalBreak value.toList with
  | [] => true
  | c :: cs => !isSpace c && (c :: cs).all fun c => c ≠ '\r' && c ≠ '\n'

/-- The line breaks of a header value that `http.client` refuses: those that no blank follows. -/
def hasIllegalBreak : List Char → Bool
  | [] => false
  | c :: cs =>
    (c = '\n' && cs.head? ≠ some ' ' && cs.head? ≠ some '\t') ||
    (c = '\r' && cs.head? ≠ some ' ' && cs.head? ≠ some '\t' && cs.head? ≠ some '\n') ||
    hasIllegalBreak cs

/-- The header values `http.client` writes: encoded in Latin-1, without illegal line breaks. -/
def isWritableValue (value : String) : Bool :=
  value.toList.all (fun c => c.toNat ≤ 0xff) && !hasIllegalBreak value.toList

/-- The first header value that fails a check. -/
def refusedValue (accepts : String → Bool) (headers : Dict String String) : Option String :=
  (headers.items.map Prod.snd).find? fun value => !accepts value

/-- `requests.get`. -/
def requestsGet (lib : RequestsLib) (network : Network) (request : SecretRequest) : HttpOutcome :=
  match lib.prepareUrl request.url with
  | some e => .raised e
  | none =>
    match refusedValue isCheckedValue request.headers with
    | some value => .raised (lib.refused value)
    | none =>
      match network request.url request.timeout with
      | .early outcome => outcome
      | .full outcome =>
        match refusedValue isWritableValue request.headers with
        | some value => .raised (lib.refused value)
        | none => outcome

/-! ## Errors -/

/-- `_VALID_STAGES`. -/
inductive Stage
  | auth | backend | timeout | network | parse
  deriving DecidableEq, Repr

structure SecretProviderError where
  message : String
  stage : Stage
  status : Option Int := none
  deriving DecidableEq, Repr

/-- What leaves `get_secrets`: what the request and the url of an error message raise, the
provider's own errors, other exceptions of the library, and those of the code's expressions. -/
inductive GetSecretsError
  | openBao (e : OpenBaoError)
  | provider (e : SecretProviderError)
  | library (e : LibException)
  | py (e : PyError)

/-- The parts `urlparse` splits a url into, as far as they are read; a port can be no number. -/
structure UrlParts where
  scheme : String
  hostname : Option String
  port : Except PyError (Option Int)
  path : String

structure SecretsLib extends OpenBaoLib where
  json : PyLib
  requests : RequestsLib
  splitUrl : String → Except PyError UrlParts
  /-- `urlunparse((scheme, netloc, path, "", "", ""))`. -/
  urlunparse : (scheme netloc path : String) → String

/-- `[host]` for an IPv6 host. -/
def bracketHost (host : String) : String :=
  if ':' ∈ host.toList then "[" ++ host ++ "]" else host

/-- `f":{parsed.port}" if parsed.port else ""`. -/
def portPart : Option Int → String
  | some port => if port = 0 then "" else ":" ++ toString port
  | none => ""

/-- `_safe_url_for_error`. -/
def OpenBaoSecretProvider.safeUrlForError (lib : SecretsLib) (p : OpenBaoSecretProvider)
    (workspaceId : String) : Except OpenBaoError String := do
  let path ← formatTemplate lib.toOpenBaoLib p.pathTemplate workspaceId
  let raw := p.endpoint ++ "/v1/" ++ p.mount ++ "/data/" ++ String.ofList path
  let parsed ← (lib.splitUrl raw).mapError .urlparse
  let port ← parsed.port.mapError .urlparse
  return lib.urlunparse parsed.scheme (bracketHost (parsed.hostname.getD "") ++ portPart port)
    parsed.path

/-- `raise SecretProviderError(message=f"..{url}", ..)`; the url may raise first. -/
def raiseAt (lib : SecretsLib) (p : OpenBaoSecretProvider) (workspaceId message : String)
    (stage : Stage) (status : Option Int) : Except GetSecretsError (Dict String String) :=
  match p.safeUrlForError lib workspaceId with
  | .error e => .error (.openBao e)
  | .ok url => .error (.provider { message := message ++ url, stage, status })

/-! ## get_secrets -/

/-- `v[key]`, which raises a `KeyError` or a `TypeError` where there is none. -/
def subscript (v : Json) (key : String) : Option Json :=
  match v.members? with
  | none => none
  | some members => if Json.has members key then some (Json.get members key) else none

/-- The exceptions of `response.json()` that are caught. -/
def isParseFailure (e : PyError) : Bool :=
  match e.kind with
  | .typeError | .valueError | .jsonDecodeError | .unicodeDecodeError => true
  | _ => false

/-- `{k: str(v) for k, v in secrets_raw.items()}`. -/
def coerceSecrets (lib : SecretsLib) (raw : Json) : Except GetSecretsError (Dict String String) :=
  match raw.members? with
  | none => .error (.py ⟨.attributeError, "object has no attribute 'items'"⟩)
  | some members => .ok (members.foldl (fun d m => d.set m.1 (lib.json.str m.2)) ∅)

/-- The body of a response with status 200. -/
def readBody (lib : SecretsLib) (p : OpenBaoSecretProvider) (workspaceId : String)
    (json : Except PyError Json) : Except GetSecretsError (Dict String String) :=
  let malformed := raiseAt lib p workspaceId
    "OpenBao response body malformed (missing data.data or invalid JSON) at " .parse (some 200)
  match json with
  | .error e => if isParseFailure e then malformed else .error (.py e)
  | .ok body =>
    match (subscript body "data").bind (subscript · "data") with
    | none => malformed
    | some raw => coerceSecrets lib raw

/-- What follows a response. -/
def readResponse (lib : SecretsLib) (p : OpenBaoSecretProvider) (workspaceId : String)
    (response : HttpResponse) : Except GetSecretsError (Dict String String) :=
  let status := response.statusCode
  if status = 404 then .ok ∅
  else if status = 401 ∨ status = 403 then
    raiseAt lib p workspaceId "OpenBao authentication/authorization error at " .auth (some status)
  else if 500 ≤ status then
    raiseAt lib p workspaceId ("OpenBao backend error (HTTP " ++ toString status ++ ") at ")
      .backend (some status)
  else if status ≠ 200 then
    raiseAt lib p workspaceId ("OpenBao unexpected HTTP " ++ toString status ++ " at ")
      .backend (some status)
  else readBody lib p workspaceId response.json

/-- What follows `requests.get`. -/
def readOutcome (lib : SecretsLib) (p : OpenBaoSecretProvider) (workspaceId : String) :
    HttpOutcome → Except GetSecretsError (Dict String String)
  | .timeout _ => raiseAt lib p workspaceId "OpenBao request timed out: " .timeout none
  | .connectionError _ => raiseAt lib p workspaceId "OpenBao connection failed: " .network none
  | .raised e => .error (.library e)
  | .answered response => readResponse lib p workspaceId response

/-- `get_secrets`. -/
def OpenBaoSecretProvider.getSecrets (lib : SecretsLib) (network : Network)
    (p : OpenBaoSecretProvider) (workspaceId : String) :
    Except GetSecretsError (Dict String String) :=
  match p.request lib.toOpenBaoLib workspaceId with
  | .error e => .error (.openBao e)
  | .ok request => readOutcome lib p workspaceId (requestsGet lib.requests network request)

/-- `__repr__`. -/
def OpenBaoSecretProvider.repr (py : Interpreter) (p : OpenBaoSecretProvider) : String :=
  "OpenBaoSecretProvider(endpoint=" ++ reprStr py p.endpoint ++ ", mount=" ++ reprStr py p.mount ++
    ", path_template=" ++ reprStr py p.pathTemplate ++ ", token=<redacted>)"

/-- `__str__`. -/
def OpenBaoSecretProvider.str (py : Interpreter) (p : OpenBaoSecretProvider) : String := p.repr py

end ClawEngine.Secrets
