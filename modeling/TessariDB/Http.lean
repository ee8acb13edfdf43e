import TessariDB.Errors
import TessariDB.Events
import TessariDB.Script

/-!
# The HTTP Surface

What the routes of `http.py` send and how they read what is answered: the paths of `_files.py`
and `_events.py`, the credentials, the refusal an answer makes, and the documents of a listing
(`_files.py`) and of a node's health (`health.py`).
-/

namespace TessariDB

open ByteCodec Utf8 Text

/-- `str(node)`. -/
def Interpreter.format (python : Interpreter) : Json → Str
  | .string value => value
  | node => python.repr node

namespace Http

open JsonValues Script

/-- An interpreter and what the surface takes from its library. -/
structure Library extends Interpreter where
  /-- `json.loads(body)`. -/
  loads : Bytes → Except JsonRaised Json
  platform : Platform

/-- An answer of the node. -/
structure HttpAnswer where
  status : ℕ
  body : Bytes
  location : Str := []
  deriving DecidableEq, Repr

/-- What leaves a call. -/
inductive HttpRaised where
  | httpError (status : ℕ) (message : Json) (location : Str) (refusalClass : Option RefusalClass)
  | document (why : JsonRaised)
  | notAnEvent (why : NotAnEvent)
  | valueError (message : Str)
  | unicodeEncodeError
  /-- A request that came to no answer: TLS, the socket, or a header the library refused. -/
  | requestFailed

/-- A request as a route makes it, before it carries a credential. -/
structure RouteRequest where
  method : String
  where_ : Str
  body : Option Bytes := none
  media : Option String := none
  deriving DecidableEq, Repr

/-! ### Paths -/

/-- What `bucket_path` and `series_path` ask of a segment; past ASCII no character passes. -/
def IsSegment (segment : Str) : Prop :=
  segment.filter (fun c => c ≠ codePoint 0x5F) ≠ [] ∧ ∀ c ∈ segment, IsWord c

instance (segment : Str) : Decidable (IsSegment segment) := instDecidableAnd

/-- Three checked names under a root. -/
def namedPath (python : Interpreter) (root : String) (namespace_ database name : Str) :
    Except HttpRaised Str :=
  match [namespace_, database, name].find? fun segment => ¬ IsSegment segment with
  | some segment => .error (.valueError
      (python.repr (.string segment) ++ " is not a name — these segments are [A-Za-z0-9_]+"))
  | none => .ok (root ++ "/" ++ namespace_ ++ "/" ++ database ++ "/" ++ name)

/-- `bucket_path`. -/
def bucketPath (python : Interpreter) (namespace_ database bucket : Str) : Except HttpRaised Str :=
  namedPath python "/files" namespace_ database bucket

/-- `series_path`. -/
def seriesPath (python : Interpreter) (namespace_ database series : Str) : Except HttpRaised Str :=
  namedPath python "/series" namespace_ database series

/-- `s.encode("utf-8")`. -/
def encodeUtf8 (s : Str) : Except HttpRaised Bytes :=
  match Utf8.encode s with
  | some raw => .ok raw
  | none => .error .unicodeEncodeError

/-- The bytes a path shows as they are: letters, digits and `_`, `.`, `-`, `~`, `/`. -/
def IsSafe (b : UInt8) : Prop :=
  IsWord (codePoint b.toNat) ∨ b = 0x2E ∨ b = 0x2D ∨ b = 0x7E ∨ b = 0x2F

instance (b : UInt8) : Decidable (IsSafe b) := instDecidableOr

/-- An upper-case hexadecimal digit. -/
def upperDigit (d : ℕ) : CodePoint := codePoint (if d < 10 then 0x30 + d else 0x37 + d)

/-- `quote(path, safe="/")`. -/
def quote (path : Str) : Except HttpRaised Str := do
  let raw ← encodeUtf8 path
  return raw.flatMap fun b =>
    if IsSafe b then [codePoint b.toNat]
    else [codePoint 0x25, upperDigit (b.toNat / 16), upperDigit (b.toNat % 16)]

/-- `file_path`. -/
def filePath (python : Interpreter) (namespace_ database bucket path : Str) :
    Except HttpRaised Str := do
  let bucketPath ← bucketPath python namespace_ database bucket
  let path ← quote path
  return bucketPath ++ "/" ++ path

/-! ### Credentials -/

/-- A digit of base 64. -/
def base64Digit (d : ℕ) : CodePoint :=
  codePoint (if d < 26 then 0x41 + d else if d < 52 then 0x47 + d
    else if d < 62 then d - 4 else if d = 62 then 0x2B else 0x2F)

/-- `base64.b64encode(raw).decode("ascii")`: four digits for three bytes. -/
def base64 : Bytes → Str
  | a :: b :: c :: rest =>
      base64Digit (a.toNat / 4) :: base64Digit (a.toNat % 4 * 16 + b.toNat / 16) ::
        base64Digit (b.toNat % 16 * 4 + c.toNat / 64) :: base64Digit (c.toNat % 64) :: base64 rest
  | [a, b] =>
      [base64Digit (a.toNat / 4), base64Digit (a.toNat % 4 * 16 + b.toNat / 16),
        base64Digit (b.toNat % 16 * 4), codePoint 0x3D]
  | [a] => [base64Digit (a.toNat / 4), base64Digit (a.toNat % 4 * 16), codePoint 0x3D, codePoint 0x3D]
  | [] => []

example : base64 [0x61, 0x3A, 0xFF, 0xFB] = ofString "YTr/+w==" := by decide

/-- `_basic`. -/
def basic (user : Str) (password : Option Str) : Except HttpRaised Str := do
  let raw ← encodeUtf8 (user ++ ":" ++ password.getD [])
  return "Basic " ++ base64 raw

/-- The header a token is presented in. -/
def bearer (python : Interpreter) (token : Json) : Str := "Bearer " ++ python.format token

/-! ### Refusals -/

variable (lib : Library)

/-- `_json`. -/
def json (body : Bytes) : Except JsonRaised Json :=
  match lib.loads body with
  | .error (.valueError why) => .error (.malformed ("the answer is not JSON: " ++ why))
  | answer => answer

/-- `_message`. -/
def message (body : Bytes) : Except JsonRaised Json :=
  match lib.loads body with
  | .error (.valueError _) => .ok (.string (decodeReplace body))
  | .error why => .error why
  | .ok node => do return (← get node "error").getD (.string [])

/-- `_code`. -/
def code (body : Bytes) : Except JsonRaised (Option RefusalClass) :=
  match (do get (← lib.loads body) "code") with
  | .error (.valueError _) => .ok none
  | .error .attributeError => .ok none
  | .error why => .error why
  | .ok (some (.string word)) => .ok (some (.fromWord word))
  | .ok _ => .ok none

/-- The `HTTPError` that is raised of an answer. -/
def refusal (answer : HttpAnswer) (location : Str) : HttpRaised :=
  match (do return (← message lib answer.body, ← code lib answer.body)) with
  | .error why => .document why
  | .ok (message, refusalClass) => .httpError answer.status message location refusalClass

/-! ### Documents -/

/-- `path` is always there; the others are `None` where they are not. -/
structure FileEntry where
  path : Str
  size : Json
  updated : Json
  deriving Repr

/-- `read_entry`. -/
def readEntry (python : Interpreter) (node : Json) : Except JsonRaised FileEntry := do
  if (← contains "kind" node) && (← contains "records" node) then
    .error (.malformed (ofString "this node answered the retired wrapped listing " ++
      "(a records outcome inside `files`) rather than the shape §5.1 specifies — see Q-PY-007"))
  else
    match ← get node "path" with
    | some (.string path) =>
        return ⟨path, (← get node "size").getD .null, (← get node "updated").getD .null⟩
    | _ => .error (.malformed ("a listing element carries a `path` string, got " ++ python.repr node))

inductive Health where
  | healthy (committed : ℤ)
  | unwell (committed backgroundErrors : ℤ) (complaint : Json)
  | leaving
  deriving Repr

/-- `read_health`. -/
def readHealth (python : Interpreter) (body : Json) : Except JsonRaised Health := do
  let status := (← get body "status").getD .null
  if status.isWord "ok" then
    return .healthy (← toInt python (← subscript body "committed"))
  else if status.isWord "unwell" then do
    let committed ← toInt python (← subscript body "committed")
    let backgroundErrors ← toInt python ((← get body "background_errors").getD (.int 0))
    return .unwell committed backgroundErrors ((← get body "complaint").getD (.string []))
  else if status.isWord "leaving" then
    return .leaving
  else
    .error (.malformed (python.repr status ++
      " is not a health this build knows, and guessing would be worse"))

end Http

end TessariDB
