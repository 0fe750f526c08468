import ClawEngine.Core.PyText
import ClawEngine.Core.Regex

/-!
# The arguments of SQLAlchemySessionStore

`_validate_construction_args` of `adapters/persistence/sqlalchemy/validation.py`, and the names that
`schema.py` makes of a table prefix and a schema. Nothing here opens a database.
-/

set_option autoImplicit false

namespace ClawEngine.Persistence

open ClawEngine.Core

/-- A URL as `make_url` parses it; of the query only the keys are looked at. -/
structure ParsedDsn where
  drivername : String
  username : Option String
  password : Option String
  query : List String

/-- The library functions whose results are left open. An exception of `make_url` is the name of its
class; `lower` is `str.lower`, which is the usual one on ASCII. -/
structure DsnLib extends Interpreter where
  makeUrl : String → Except String ParsedDsn
  lower : String → String
  lower_ascii : ∀ s : String, (∀ c ∈ s.toList, c.toNat < 128) →
    lower s = String.ofList (s.toList.map Char.toLower)

/-- `_ALLOWED_SCHEMES`. -/
def allowedSchemes : List String := ["sqlite", "mysql+pymysql", "postgresql+psycopg"]

/-- `_ALLOWED_DSN_QUERY_KEYS`. -/
def allowedDsnQueryKeys : List String :=
  ["connect_timeout", "charset", "sslmode", "sslrootcert", "sslcert", "sslkey", "application_name",
    "ssl_ca", "ssl_cert", "ssl_key", "ssl_verify_cert", "ssl_verify_identity"]

/-- `[A-Za-z_]`. -/
def isNameStart (c : Char) : Bool := c.isAlpha || c == '_'

/-- `[A-Za-z0-9_]`. -/
def isNameRest (c : Char) : Bool := c.isAlphanum || c == '_'

/-- `_TABLE_PREFIX_RE`: `^[A-Za-z_][A-Za-z0-9_]*$`. -/
def tablePrefixRe : List RegexPiece := [.caret, .one isNameStart, .many isNameRest, .dollar]

/-- `_TABLE_PREFIX_MAX`. -/
def tablePrefixMax : Nat := 32

/-- `_SCHEMA_NAME_RE`: `^[A-Za-z_][A-Za-z0-9_]+$`. -/
def schemaNameRe : List RegexPiece := [.caret, .one isNameStart, .some isNameRest, .dollar]

/-- `_SQL_KEYWORDS`. -/
def sqlKeywords : List String :=
  ["select", "from", "where", "insert", "update", "delete", "drop", "alter", "create", "table",
    "index", "into", "values", "set", "join", "on", "order", "group", "by", "having", "union", "all",
    "distinct", "as", "null", "not", "and", "or", "in", "is", "like", "between", "case", "when",
    "then", "else", "end"]

/-- `if refused: raise ValueError(text)`; an exception is its text. -/
def raiseIf (refused : Bool) (text : String) : Except String Unit :=
  if refused then .error text else .ok ()

/-- The checks of the query keys, one after the other. -/
def validateQueryKeys (py : DsnLib) : List String → Except String Unit
  | [] => .ok ()
  | key :: keys => do
    raiseIf (key ∉ allowedDsnQueryKeys) ("url query key " ++ reprStr py.toInterpreter key ++
      " is not in the allowed list. Allowed keys: " ++
      reprList py.toInterpreter (allowedDsnQueryKeys.mergeSort (· ≤ ·)) ++ ".")
    validateQueryKeys py keys

/-- The checks of `url`. -/
def validateUrl (py : DsnLib) (url : String) : Except String Unit := do
  raiseIf (url = "") "url must not be empty"
  let parsed ← (py.makeUrl url).mapError ("url is not a valid SQLAlchemy DSN: " ++ ·)
  let scheme := py.lower parsed.drivername
  raiseIf (scheme ∉ allowedSchemes) ("url scheme " ++ reprStr py.toInterpreter scheme ++
    " is not supported. Allowed: " ++
    reprList py.toInterpreter (allowedSchemes.mergeSort (· ≤ ·)) ++
    ". For mysql, use 'mysql+pymysql://...'; for postgres, use 'postgresql+psycopg://...'. The " ++
    "bare 'mysql://', 'postgresql://', and 'postgres://' aliases pick default drivers (MySQLdb / " ++
    "psycopg2) that are NOT shipped via the [persistence-mysql] / [persistence-postgres] extras.")
  raiseIf (parsed.username.getD "" ≠ "" || parsed.password.getD "" ≠ "")
    ("url must not contain embedded credentials (username / password). " ++
      "Use driver-level env vars or a SecretProvider instead.")
  validateQueryKeys py parsed.query

/-- The checks of `table_prefix`. -/
def validateTablePrefix (py : DsnLib) (tablePrefix : String) : Except String Unit := do
  raiseIf (tablePrefix ≠ "" && !Regex.isMatch tablePrefixRe tablePrefix)
    ("table_prefix " ++ reprStr py.toInterpreter tablePrefix ++ " is invalid. " ++
      "Must match [A-Za-z_][A-Za-z0-9_]* or be empty string.")
  raiseIf (tablePrefix.length > tablePrefixMax)
    ("table_prefix exceeds maximum length " ++ toString tablePrefixMax ++ " (got " ++
      toString tablePrefix.length ++ ")")

/-- The checks of a schema. -/
def validateSchema (py : DsnLib) (schema : String) : Except String Unit := do
  raiseIf (!Regex.isMatch schemaNameRe schema)
    ("schema " ++ reprStr py.toInterpreter schema ++ " is invalid. " ++
      "Must match [A-Za-z_][A-Za-z0-9_]+ (at least 2 chars).")
  raiseIf (py.lower schema ∈ sqlKeywords)
    ("schema " ++ reprStr py.toInterpreter schema ++ " is a reserved SQL keyword.")

/-- `_validate_construction_args`. -/
def validateConstructionArgs (py : DsnLib) (url : String) (schema : Option String)
    (tablePrefix : String) : Except String Unit := do
  validateUrl py url
  validateTablePrefix py tablePrefix
  match schema with
  | none => .ok ()
  | some schema => validateSchema py schema

/-! ## The names in the DDL -/

/-- The names in the statements that create the tables. -/
structure DdlNames where
  sessions : String
  processedMessages : String
  foreignKey : String
  uniqueConstraint : String
  schema : Option String

/-- `_build_tables`, as far as its names go. -/
def buildTables (tablePrefix : String) (schema : Option String) : DdlNames where
  sessions := tablePrefix ++ "sessions"
  processedMessages := tablePrefix ++ "processed_messages"
  foreignKey :=
    match schema.filter (· ≠ "") with
    | some schema => schema ++ "." ++ tablePrefix ++ "sessions.session_id"
    | none => tablePrefix ++ "sessions.session_id"
  uniqueConstraint := "uq_" ++ tablePrefix ++ "sessions_natural_key"
  schema := schema

end ClawEngine.Persistence
