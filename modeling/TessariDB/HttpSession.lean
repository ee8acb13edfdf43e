import TessariDB.Effects
import TessariDB.Http

/-!
# The HTTP Client

`HTTPClient` of `http.py`: its session (a token, or that there is none to be had), the one request
and the one retry of a route, and the routes. The node answers as it likes: what it answers to a
request, or that there is no answer, may hang on everything that went before.

What the lock guards is `Session`; each of its guarded sections is one function here.
-/

namespace TessariDB

open ByteCodec Utf8 Text

namespace Http

open Script

/-! ### The session -/

/-- `_token`, which is `None` when there is none, and `_sessionless`. -/
structure Session where
  token : Json := .null
  sessionless : Bool := false

/-- What the next request is to present. -/
inductive Presents where
  | token (token : Json)
  | password
  /-- What a sign-in yields. -/
  | fresh

namespace Session

/-- The section of `_authorization`. -/
def present (s : Session) : Presents :=
  if s.token.isNull then
    if s.sessionless then .password else .fresh
  else .token s.token

theorem present_null {s : Session} (h : s.token = .null) :
    s.present = if s.sessionless then .password else .fresh := by
  rw [present, h, if_pos (show Json.null.isNull = true from rfl)]

theorem present_string {s : Session} {token : Str} (h : s.token = .string token) :
    s.present = .token (.string token) := by
  rw [present, h, if_neg (show ¬ (Json.string token).isNull = true from Bool.false_ne_true)]

/-- The sections of `_open_session`. -/
def store (token : Json) (s : Session) : Session := { s with token }

def markSessionless (s : Session) : Session := { s with sessionless := true }

/-- The section of `_discard`, which answers whether a token was held. -/
def discard (s : Session) : Bool × Session := (!s.token.isNull, { s with token := .null })

end Session

/-! ### Exchanges -/

structure Request extends RouteRequest where
  authorization : Option Str
  deriving DecidableEq, Repr

inductive Response where
  | answered (answer : HttpAnswer)
  | failed
  deriving DecidableEq, Repr

structure Exchange where
  request : Request
  response : Response
  deriving DecidableEq, Repr

/-- The session, and every exchange so far. -/
structure World where
  session : Session := {}
  history : List Exchange := []

abbrev Client := EStateM HttpRaised World

structure HTTPClient where
  user : Option Str := none
  password : Option Str := none

def SESSION : Str := ofString "/session"

section

variable (lib : Library) (node : List Exchange → Request → Response) (client : HTTPClient)

/-- `_request`. -/
def request (r : RouteRequest) (authorization : Option Str) : Client HttpAnswer := fun w =>
  let r : Request := { r with authorization }
  let response := node w.history r
  let w := { w with history := w.history ++ [⟨r, response⟩] }
  match response with
  | .answered answer => .ok answer w
  | .failed => .error .requestFailed w

/-- `with self._lock`. -/
def locked {α : Type} (guarded : Session → α × Session) : Client α := fun w =>
  .ok (guarded w.session).1 { w with session := (guarded w.session).2 }

/-- The token a sign-in was answered with. -/
def sessionToken (body : Bytes) : Except JsonRaised Json := do
  subscript (← json lib body) "token"

/-- `_open_session`. -/
def openSession (user : Str) : Client Json := do
  let basic ← ByteStream.settle (basic user client.password)
  let answer ← request node ⟨"POST", SESSION, none, none⟩ (some basic)
  if answer.status = 200 then do
    let token ← ByteStream.settle ((sessionToken lib answer.body).mapError .document)
    locked fun s => ((), s.store token)
    return token
  else if answer.status = 401 then do
    locked fun s => ((), s.markSessionless)
    return .null
  else throw (refusal lib answer [])

/-- `_authorization`. -/
def authorization : Client (Option Str) :=
  match client.user with
  | none => return none
  | some user => do
      match ← locked fun s => (s.present, s) with
      | .token token => return some (bearer lib.toInterpreter token)
      | .password => return some (← ByteStream.settle (basic user client.password))
      | .fresh => do
          let token ← openSession lib node client user
          if token.truthy then return some (bearer lib.toInterpreter token)
          else return some (← ByteStream.settle (basic user client.password))

/-- The request, with the credential of the moment. -/
def attempt (r : RouteRequest) : Client HttpAnswer := do
  request node r (← authorization lib node client)

/-- The one retry, when a token was held and stopped working. -/
def retried (r : RouteRequest) (answer : HttpAnswer) : Client HttpAnswer :=
  if answer.status = 401 then do
    if ← locked Session.discard then attempt lib node client r
    else return answer
  else return answer

/-- An answer, or the refusal it is; a 307 is one. -/
def accept (allow : List ℕ) (answer : HttpAnswer) : Except HttpRaised HttpAnswer :=
  if answer.status ∈ allow ∨ (200 ≤ answer.status ∧ answer.status < 300) then .ok answer
  else .error (refusal lib answer answer.location)

/-- `_send`. -/
def send (r : RouteRequest) (allow : List ℕ) : Client HttpAnswer := do
  let first ← attempt lib node client r
  let answer ← retried lib node client r first
  ByteStream.settle (accept lib allow answer)

/-- `end_session`. -/
def endSession : Client Unit := do
  let token ← locked fun s => (s.token, s.store .null)
  if token.isNull then return ()
  else
    discard (request node ⟨"DELETE", SESSION, none, none⟩ (some (bearer lib.toInterpreter token)))

end

/-! ### Routes -/

/-- A route: its request, the statuses past 2xx it takes for answers, and how it reads one. -/
structure Route (α : Type) where
  request : Except HttpRaised RouteRequest
  allow : List ℕ := []
  read : HttpAnswer → Except HttpRaised α

/-- What a route does. -/
def Route.call {α : Type} (lib : Library) (node : List Exchange → Request → Response)
    (client : HTTPClient) (route : Route α) : Client α := do
  let r ← ByteStream.settle route.request
  let answer ← send lib node client r route.allow
  ByteStream.settle (route.read answer)

section

variable (lib : Library)

/-- A document of an answer, read. -/
def readDocument {α : Type} (read : Json → Except JsonRaised α) (answer : HttpAnswer) :
    Except HttpRaised α :=
  (do read (← json lib answer.body)).mapError .document

def script (source : Str) (declared : Option Reading) : Route (List ScriptOutcome) where
  request := do return ⟨"POST", "/script", some (← encodeUtf8 source), some "text/plain"⟩
  read := readDocument lib (readResults lib.toInterpreter (declared.getD {}))

def put (namespace_ database bucket path : Str) (content : Bytes) : Route Unit where
  request := do return ⟨"PUT", ← filePath lib.toInterpreter namespace_ database bucket path,
    some content, some "application/octet-stream"⟩
  read _ := .ok ()

def get (namespace_ database bucket path : Str) : Route (Option Bytes) where
  request := do return ⟨"GET", ← filePath lib.toInterpreter namespace_ database bucket path,
    none, none⟩
  allow := [404]
  read answer := .ok (if answer.status = 404 then none else some answer.body)

def delete (namespace_ database bucket path : Str) : Route Unit where
  request := do return ⟨"DELETE", ← filePath lib.toInterpreter namespace_ database bucket path,
    none, none⟩
  read _ := .ok ()

def listing (namespace_ database bucket : Str) : Route (Option (List FileEntry)) where
  request := do return ⟨"GET", ← bucketPath lib.toInterpreter namespace_ database bucket,
    none, none⟩
  allow := [404]
  read answer :=
    if answer.status = 404 then .ok none
    else readDocument lib (fun body => do
      let files := (← Script.get body "files").getD (.array [])
      return some (← (← JsonValues.iterate files).mapM (readEntry lib.toInterpreter))) answer

def append (namespace_ database series : Str) (events : List Value) : Route ℤ where
  request := do
    let batch ← (Events.batch lib.platform events).mapError .notAnEvent
    let body ← encodeUtf8 batch
    return ⟨"POST", ← seriesPath lib.toInterpreter namespace_ database series, some body,
      some "text/plain"⟩
  read := readDocument lib fun body => do
    match ← Script.get body "appended" with
    | some (.int landed) => return landed
    -- a `bool` is an `int`
    | some (.bool landed) => return if landed then 1 else 0
    | _ => .error (.malformed "the node's answer does not say how many landed")

def backup (since : Option ℤ) : Route Bytes where
  request := .ok ⟨"GET", match since with
    | none => "/backup"
    | some position => "/backup?from=" ++ str position, none, none⟩
  read answer := .ok answer.body

/-- `_condition`: 503 is an answer. -/
def condition (path : String) : Route Health where
  request := .ok ⟨"GET", path, none, none⟩
  allow := [503]
  read := readDocument lib (readHealth lib.toInterpreter)

def health : Route Health := condition lib "/health"

def ready : Route Health := condition lib "/ready"

end

/-! ### Calls -/

/-- A call of a client. -/
inductive Call where
  | script (source : Str) (declared : Option Reading)
  | put (namespace_ database bucket path : Str) (content : Bytes)
  | get (namespace_ database bucket path : Str)
  | delete (namespace_ database bucket path : Str)
  | listing (namespace_ database bucket : Str)
  | append (namespace_ database series : Str) (events : List Value)
  | backup (since : Option ℤ)
  | health
  | ready
  | endSession

section

variable (lib : Library) (node : List Exchange → Request → Response) (client : HTTPClient)

/-- What a call does, but for what it returns. -/
def Call.perform : Call → Client Unit
  | .script source declared => discard ((Http.script lib source declared).call lib node client)
  | .put namespace_ database bucket path content =>
      (Http.put lib namespace_ database bucket path content).call lib node client
  | .get namespace_ database bucket path =>
      discard ((Http.get lib namespace_ database bucket path).call lib node client)
  | .delete namespace_ database bucket path =>
      (Http.delete lib namespace_ database bucket path).call lib node client
  | .listing namespace_ database bucket =>
      discard ((Http.listing lib namespace_ database bucket).call lib node client)
  | .append namespace_ database series events =>
      discard ((Http.append lib namespace_ database series events).call lib node client)
  | .backup since => discard ((Http.backup since).call lib node client)
  | .health => discard ((Http.health lib).call lib node client)
  | .ready => discard ((Http.ready lib).call lib node client)
  | .endSession => Http.endSession lib node

/-- The world after one call, whether it returned or raised. -/
def Call.next (w : World) (call : Call) : World :=
  ByteStream.after (call.perform lib node client w)

/-- The world after calls made one at a time. -/
def run (calls : List Call) (w : World) : World := calls.foldl (Call.next lib node client) w

end

end Http

end TessariDB
