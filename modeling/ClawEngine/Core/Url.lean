import ClawEngine.Core.Json
import ClawEngine.Core.PyText
import Mathlib.Data.List.DropRight

/-!
# urllib.parse

`urlsplit`, `urlparse` and what is read off a netloc, on lists of characters. The netloc ends at the
first `/`, `?` or `#`, the fragment starts at the first `#` and the query at the first `?` before it;
so a text appended to a url goes to the last of these parts that the url has begun, be it empty.
-/

set_option autoImplicit false

namespace ClawEngine.Core.Url

/-- The functions of the library that depend on the tables of Unicode, and `_check_bracketed_netloc`
with its check of an address. -/
structure UrlLib where
  lower : List Char → List Char
  nfkc : List Char → List Char
  checkBracketedNetloc : List Char → Except PyError Unit

/-! ## Splitting -/

/-- `text.partition(c)`: what stands before the first `c`, and what follows it. -/
def partition (c : Char) : List Char → List Char × Option (List Char)
  | [] => ([], none)
  | d :: cs =>
    if d = c then ([], some cs) else (d :: (partition c cs).1, (partition c cs).2)

/-- `text.rpartition(c)`: what stands before the last `c`, and what follows it. -/
def rpartition (c : Char) (cs : List Char) : Option (List Char) × List Char :=
  ((partition c cs.reverse).2.map List.reverse, (partition c cs.reverse).1.reverse)

/-- The tabs and line breaks that are removed from a url. -/
def isRemoved (c : Char) : Bool := c = '\t' || c = '\r' || c = '\n'

/-- The text without tabs and line breaks. -/
def kept (url : List Char) : List Char := url.filter fun c => !isRemoved c

/-- The control characters and the blank, which are removed from the start of a url. -/
def isLeading (c : Char) : Bool := c.toNat ≤ 0x20

/-- The url without what is removed from it. -/
def clean (url : List Char) : List Char := kept (url.dropWhile isLeading)

/-- `scheme_chars`. -/
def isSchemeChar (c : Char) : Bool :=
  c.isAlpha || c.isDigit || c = '+' || c = '-' || c = '.'

/-- The scheme in lower case, when there is one, and what follows it. -/
def splitScheme (url : List Char) : List Char × List Char :=
  match partition ':' url with
  | (before, some rest) =>
    if before.head?.any Char.isAlpha && before.all isSchemeChar then (before.map Char.toLower, rest)
    else ([], url)
  | (_, none) => ([], url)

/-- The characters before which a netloc ends. -/
def endsNetloc (c : Char) : Bool := c = '/' || c = '?' || c = '#'

/-- `_splitnetloc` after `//`. -/
def splitNetloc : List Char → List Char × List Char
  | '/' :: '/' :: rest =>
    (rest.takeWhile fun c => !endsNetloc c, rest.dropWhile fun c => !endsNetloc c)
  | url => ([], url)

/-- The check of the brackets of a netloc. -/
def checkBrackets (lib : UrlLib) (netloc : List Char) : Except PyError Unit :=
  if '[' ∈ netloc ∧ ']' ∈ netloc then lib.checkBracketedNetloc netloc
  else if '[' ∈ netloc ∨ ']' ∈ netloc then .error ⟨.valueError, "Invalid IPv6 URL"⟩
  else .ok ()

/-- `_checknetloc`. -/
def checkNetloc (lib : UrlLib) (netloc : List Char) : Except PyError Unit :=
  let n := netloc.filter fun c => !(c = '@' || c = ':' || c = '#' || c = '?')
  if netloc.all fun c => c.toNat < 128 then .ok ()
  else if n = lib.nfkc n then .ok ()
  else if ['/', '?', '#', '@', ':'].any fun c => c ∈ lib.nfkc n then
    .error ⟨.valueError, "netloc '" ++ String.ofList netloc ++
      "' contains invalid characters under NFKC normalization"⟩
  else .ok ()

/-- What `urlparse` gives. -/
structure ParseResult where
  scheme : List Char
  netloc : List Char
  path : List Char
  params : List Char
  query : List Char
  fragment : List Char
  deriving DecidableEq, Repr

/-- The path, the query and the fragment. -/
def splitPath (url : List Char) : List Char × List Char × List Char :=
  let beforeFragment := partition '#' url
  let beforeQuery := partition '?' beforeFragment.1
  (beforeQuery.1, beforeQuery.2.getD [], beforeFragment.2.getD [])

/-- `urlsplit`, with no params. -/
def urlsplit (lib : UrlLib) (url : List Char) : Except PyError ParseResult :=
  let scheme := splitScheme (clean url)
  let netloc := splitNetloc scheme.2
  let parts := splitPath netloc.2
  do
    checkBrackets lib netloc.1
    checkNetloc lib netloc.1
    return ⟨scheme.1, netloc.1, parts.1, [], parts.2.1, parts.2.2⟩

/-- `uses_params`. -/
def usesParams : List String :=
  ["", "ftp", "hdl", "prospero", "http", "imap", "https", "shttp", "rtsp", "rtsps", "rtspu", "sip",
    "sips", "mms", "sftp", "tel"]

/-- `_splitparams`: the params follow the first `;` of the last segment. -/
def splitParams (path : List Char) : List Char × List Char :=
  let last := path.rtakeWhile fun c => c ≠ '/'
  (path.rdropWhile (fun c => c ≠ '/') ++ (partition ';' last).1, (partition ';' last).2.getD [])

/-- `urlparse`. -/
def urlparse (lib : UrlLib) (url : List Char) : Except PyError ParseResult :=
  (urlsplit lib url).map fun r =>
    if String.ofList r.scheme ∈ usesParams then
      { r with path := (splitParams r.path).1, params := (splitParams r.path).2 }
    else r

/-! ## What is read off a netloc -/

/-- The netloc without user and password. -/
def hostInfo (netloc : List Char) : List Char := (rpartition '@' netloc).2

/-- `_hostinfo`: the text of the host and the text of the port, empty where there is none. -/
def hostAndPort (netloc : List Char) : List Char × List Char :=
  match partition '[' (hostInfo netloc) with
  | (_, some bracketed) =>
    let host := partition ']' bracketed
    (host.1, (partition ':' (host.2.getD [])).2.getD [])
  | (_, none) =>
    let host := partition ':' (hostInfo netloc)
    (host.1, host.2.getD [])

/-- `hostname`: the scope of an IPv6 address keeps its case. -/
def hostname (lib : UrlLib) (netloc : List Char) : Option (List Char) :=
  let host := (hostAndPort netloc).1
  if host = [] then none
  else
    let address := partition '%' host
    some (lib.lower address.1 ++ address.2.elim [] ('%' :: ·))

/-- `int(text)` of ASCII digits. -/
def digitsValue (text : List Char) : Nat :=
  text.foldl (fun n c => n * 10 + (c.toNat - '0'.toNat)) 0

/-- `port`. -/
def port (py : Interpreter) (netloc : List Char) : Except PyError (Option Int) :=
  let text := (hostAndPort netloc).2
  if text = [] then .ok none
  else if text.all Char.isDigit then
    if digitsValue text ≤ 65535 then .ok (some (digitsValue text))
    else .error ⟨.valueError, "Port out of range 0-65535"⟩
  else .error ⟨.valueError, "Port could not be cast to integer value as " ++
    reprStr py (String.ofList text)⟩

section Append

variable {c : Char} {xs suffix : List Char}

end Append

/-! ## A path joined to a url -/

section Join

variable {lib : UrlLib} {scheme rest path url after netloc : List Char} {r e : ParseResult}

end Join

end ClawEngine.Core.Url
