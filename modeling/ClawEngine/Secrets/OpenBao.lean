import ClawEngine.Context.Workspace
import ClawEngine.Core.Format
import ClawEngine.Core.Json

/-!
# OpenBaoSecretProvider

`adapters/secrets/openbao/provider.py`: the constructor with its checks, and the request that
`get_secrets` makes. The path template is a format string; it is checked with one sentinel in the
place of a workspace id.
-/

set_option autoImplicit false

namespace ClawEngine.Secrets

open ClawEngine.Core ClawEngine.Context

/-- What `urlparse` gives, as far as the constructor looks at it. -/
structure ParsedUrl where
  username : Option String
  password : Option String
  query : String
  fragment : String

/-- The library functions whose results are left open. -/
structure OpenBaoLib extends FormatLib where
  urlparse : String → Except PyError ParsedUrl
  /-- `repr` of a float. -/
  reprFloat : PyFloat → String

/-- What the constructor and the request raise: a `ValueError`, an exception of `str.format`, or
one of `urlparse`. -/
inductive OpenBaoError
  | valueError (text : String)
  | format (e : FormatError)
  | urlparse (e : PyError)

/-- `if refused: raise ValueError(text)`. -/
def refuseIf (refused : Bool) (text : String) : Except OpenBaoError Unit :=
  if refused then .error (.valueError text) else .ok ()

/-- `_TEMPLATE_PLACEHOLDER_SENTINEL`. -/
def templatePlaceholderSentinel : String := "__WS_PLACEHOLDER_SENTINEL__"

/-- `_UNSAFE_TEMPLATE_CHARS`. -/
def unsafeTemplateChars : List Char := ['?', '#', '\\', ':', '@', '%']

/-- `_validate_mount`. -/
def validateMount (py : OpenBaoLib) (mount : String) : Except OpenBaoError Unit := do
  refuseIf (mount = "") "mount must be a non-empty string"
  refuseIf (mount = "." || mount = "..")
    ("mount must not be '.' or '..' (path traversal), got " ++ reprStr py.toInterpreter mount)
  refuseIf (!mount.toList.all isNameChar)
    ("mount must match [A-Za-z0-9_.-]+ (single URL path segment), got " ++
      reprStr py.toInterpreter mount)

/-- The arguments `path_template.format(workspace_id=..)` is given. -/
def workspaceArgs (workspaceId : String) : FormatArgs := fun key =>
  if key = "workspace_id".toList then some workspaceId.toList else none

/-- `path_template.format(workspace_id=workspace_id)`. -/
def formatTemplate (py : OpenBaoLib) (template workspaceId : String) :
    Except OpenBaoError (List Char) :=
  (strFormat py.toFormatLib (workspaceArgs workspaceId) template.toList).mapError .format

/-- The names of the fields of a template. -/
def fieldNames (chunks : List Chunk) : List String :=
  (chunks.filterMap (·.field)).map fun field => String.ofList field.name

/-- The checks of one segment of the sample. -/
def checkSegment (py : OpenBaoLib) (template : String) (seg : List Char) :
    Except OpenBaoError Unit := do
  refuseIf (seg = []) ("path_template has empty segment (consecutive '/'): " ++
    reprStr py.toInterpreter template)
  refuseIf (seg = ['.'] || seg = ['.', '.']) ("path_template segment " ++
    reprStr py.toInterpreter (String.ofList seg) ++ " is '.' or '..' (path traversal): " ++
    reprStr py.toInterpreter template)
  let found := unsafeTemplateChars.filter (· ∈ seg)
  refuseIf (seg ≠ templatePlaceholderSentinel.toList && found ≠ []) ("path_template segment " ++
    reprStr py.toInterpreter (String.ofList seg) ++ " contains unsafe URL chars " ++
    reprList py.toInterpreter ((found.mergeSort (· ≤ ·)).map fun c => String.ofList [c]) ++ ": " ++
    reprStr py.toInterpreter template)

/-- The checks of the segments, one after the other. -/
def checkSegments (py : OpenBaoLib) (template : String) : List (List Char) →
    Except OpenBaoError Unit
  | [] => .ok ()
  | seg :: segs => do
    checkSegment py template seg
    checkSegments py template segs

/-- `_validate_path_template`. -/
def validatePathTemplate (py : OpenBaoLib) (template : String) : Except OpenBaoError Unit := do
  refuseIf (template = "") "path_template must be a non-empty string"
  refuseIf (template.toList.head? = some '/' || template.toList.getLast? = some '/')
    ("path_template must not start or end with '/', got " ++ reprStr py.toInterpreter template)
  match parseMarkup template.toList with
  | (_, some e) =>
    .error (.valueError ("path_template has malformed placeholder syntax: " ++
      reprStr py.toInterpreter template ++ " (" ++ e.text ++ ")"))
  | (chunks, none) =>
    refuseIf (fieldNames chunks ≠ ["workspace_id"])
      ("path_template must contain exactly one '\x7bworkspace_id\x7d' placeholder and no others, " ++
        "got placeholders " ++ reprList py.toInterpreter (fieldNames chunks) ++ " in " ++
        reprStr py.toInterpreter template)
    let sample ← formatTemplate py template templatePlaceholderSentinel
    checkSegments py template (Posix.splitNames sample)

structure OpenBaoSecretProvider where
  endpoint : String
  token : String
  mount : String := "secret"
  pathTemplate : String := "claw/workspaces/\x7bworkspace_id\x7d"
  timeoutConnect : PyFloat := .finite 5
  timeoutRead : PyFloat := .finite 30

/-- The checks of the endpoint. -/
def validateEndpoint (py : OpenBaoLib) (endpoint : String) : Except OpenBaoError Unit := do
  refuseIf (endpoint = "") "endpoint must be a non-empty string"
  refuseIf (!("http://".toList.isPrefixOf endpoint.toList ||
      "https://".toList.isPrefixOf endpoint.toList))
    ("endpoint must start with 'http://' or 'https://', got " ++ reprStr py.toInterpreter endpoint)
  let parsed ← (py.urlparse endpoint).mapError .urlparse
  refuseIf (parsed.username.getD "" ≠ "" || parsed.password.getD "" ≠ "")
    ("endpoint must not contain embedded credentials (user:pass@host); " ++
      "pass the OpenBao token via the `token` parameter instead")
  refuseIf (parsed.query ≠ "" || parsed.fragment ≠ "")
    ("endpoint must not contain query or fragment, got " ++ reprStr py.toInterpreter endpoint)

/-- `timeout <= 0`. -/
def isNonPositive : PyFloat → Bool
  | .finite q => q ≤ 0
  | .negZero => true
  | .inf negative => negative
  | .nan => false

/-- The check of a timeout. -/
def validateTimeout (py : OpenBaoLib) (name : String) (timeout : PyFloat) :
    Except OpenBaoError Unit :=
  refuseIf (isNonPositive timeout)
    (name ++ " must be a positive number, got " ++ py.reprFloat timeout)

/-- `OpenBaoSecretProvider(..)`. -/
def OpenBaoSecretProvider.init (py : OpenBaoLib) (given : OpenBaoSecretProvider) :
    Except OpenBaoError OpenBaoSecretProvider := do
  validateEndpoint py given.endpoint
  refuseIf (given.token = "") "token must be a non-empty string"
  validateMount py given.mount
  validatePathTemplate py given.pathTemplate
  validateTimeout py "timeout_connect" given.timeoutConnect
  validateTimeout py "timeout_read" given.timeoutRead
  return { given with
    endpoint := String.ofList (given.endpoint.toList.reverse.dropWhile (· = '/')).reverse }

/-- What `get_secrets` hands to `requests.get`. -/
structure SecretRequest where
  url : String
  headers : Dict String String
  timeout : PyFloat × PyFloat

/-- The path that is requested for a workspace. -/
def OpenBaoSecretProvider.requestPath (py : OpenBaoLib) (p : OpenBaoSecretProvider)
    (workspaceId : String) : Except OpenBaoError String := do
  refuseIf (!isPlainName workspaceId)
    ("Invalid workspace_id (path-traversal / URL-injection guard): " ++
      reprStr py.toInterpreter workspaceId ++ ". Must match [A-Za-z0-9_.-]+ and not be '.' or '..'.")
  let path ← formatTemplate py p.pathTemplate workspaceId
  return "/v1/" ++ p.mount ++ "/data/" ++ String.ofList path

/-- The request of `get_secrets`. -/
def OpenBaoSecretProvider.request (py : OpenBaoLib) (p : OpenBaoSecretProvider)
    (workspaceId : String) : Except OpenBaoError SecretRequest := do
  let path ← p.requestPath py workspaceId
  return {
    url := p.endpoint ++ path
    headers := ((∅ : Dict String String).set "X-Vault-Token" p.token).set "Accept" "application/json"
    timeout := (p.timeoutConnect, p.timeoutRead) }

end ClawEngine.Secrets
