import Almanac.Json.Reader
import Almanac.Plan.Json
import Almanac.Task.Order
import Almanac.Text.Percent
import Almanac.Web.BasicAuth
import Almanac.Web.Problem

/-!
# Answering requests

`Web.handle` answers a request to the timetable. Four kinds of paths are known. Those of
entries ask for credentials before anything else, and a method that a path does not know
is refused after that.
-/

namespace Almanac.Web

def version : String := "0.3.0"

/-- The paths that are known. An id is kept as it is written. -/
inductive Route where
  | home
  | health
  | entries
  | entry (id : List Char)
  deriving DecidableEq, Repr

namespace Route

def withoutQuery (path : List Char) : List Char := path.takeWhile fun c => c != '?' && c != '#'

/-- What follows a text, if another begins with it. -/
def after? : List Char → List Char → Option (List Char)
  | [], s => some s
  | _ :: _, [] => none
  | a :: start, c :: s => if a = c then after? start s else none

def ofPath? (path : String) : Option Route :=
  let path := withoutQuery path.toList
  if path = ['/'] then some home
  else if path = "/health".toList then some health
  else if path = "/api/v0/tasks".toList then some entries
  else
    match after? "/api/v0/tasks/".toList path with
    | some id => if id.isEmpty || id.contains '/' then none else some (entry id)
    | none => none

def methods : Route → List String
  | home => ["GET", "HEAD"]
  | health => ["GET", "HEAD"]
  | entries => ["GET", "HEAD", "POST"]
  | entry _ => ["GET", "HEAD", "PUT", "DELETE"]

/-- Holds of the routes that ask for credentials. -/
def isGuarded : Route → Bool
  | home => false
  | health => false
  | entries => true
  | entry _ => true

end Route

/-- The outcome of a handler: a response, a problem, or a break. -/
abbrev Handled := Attempt Problem Response

def objectOf (body : List UInt8) : Except Problem Json :=
  match Json.readOctets body with
  | .error e => .error (.invalidBody e.message)
  | .ok value =>
    if value.isObject then .ok value else .error (.invalidBody "expected a JSON object")

def planOf (value : Json) (now : Instant) : Attempt Problem Plan :=
  match PlanRequest.ofJson value with
  | .error e => Attempt.refuse (.invalidBody e.message)
  | .ok request => (request.resolve now).mapReason fun e => .service (.plan e)

def idOf (raw : List Char) : Except Problem Nat :=
  match Text.numeral (2 ^ 32) raw with
  | .ok (n + 1) => .ok (n + 1)
  | _ => .error (.invalidId (String.ofList raw))

def orderOf [Locators] (body : List UInt8) (now : Instant) : Attempt Problem (Task × Plan) := do
  let value ← Attempt.ofExcept (objectOf body)
  let task ← (Task.ofJson value).mapReason fun e => .service (.task e)
  let plan ← planOf value now
  pure (task, plan)

def changeOf (id : List Char) (body : List UInt8) (now : Instant) :
    Attempt Problem (Nat × Plan) := do
  let id ← Attempt.ofExcept (idOf id)
  let value ← Attempt.ofExcept (objectOf body)
  let plan ← planOf value now
  pure (id, plan)

def shown (status : Nat) (outcome : Attempt TimetableError EntryView) : Handled :=
  (outcome.mapReason Problem.service).map fun v => .data status v.json

def bodyLimit : Nat := 2 * 1024 * 1024

def overlong : Response :=
  .plain 413 "Failed to buffer the request body: length limit exceeded"

def listEntries (t : Timetable) : Handled :=
  match t.list with
  | .ok views => .ok (.data 200 (.array (views.map EntryView.json)))
  | .error e => Attempt.refuse (.service e)

def createEntry [Locators] (t : Timetable) (body : List UInt8) : Handled × Timetable :=
  match orderOf body t.now with
  | .error e => (.error e, t)
  | .ok (task, plan) =>
    let (outcome, t) := t.create task plan
    (shown 201 outcome, t)

def showEntry (t : Timetable) (id : List Char) : Handled :=
  match idOf id with
  | .error p => Attempt.refuse p
  | .ok id => shown 200 (Attempt.ofExcept (t.get id))

def changeEntry (t : Timetable) (id : List Char) (body : List UInt8) : Handled × Timetable :=
  match changeOf id body t.now with
  | .error e => (.error e, t)
  | .ok (id, plan) =>
    let (outcome, t) := t.update id plan
    (shown 200 outcome, t)

def deleteEntry (t : Timetable) (id : List Char) : Handled × Timetable :=
  match idOf id with
  | .error p => (Attempt.refuse p, t)
  | .ok id =>
    match t.remove id with
    | (.ok (), t) => (.ok ⟨204, [], .empty⟩, t)
    | (.error e, t) => (Attempt.refuse (.service e), t)

def showHealth (t : Timetable) : Response :=
  .data 200 (Json.ofMembers [("status", .string "ok"), ("version", .string version),
    ("entries", Json.ofOption Json.nat t.size.toOption)])

/-- The response to a handler's outcome. A problem is logged. -/
def conclude (t : Timetable) : Handled → Response × Timetable
  | .ok response => (response, t)
  | .error (.refused problem) => (problem.response, t.record (.logged problem.logLine))
  | .error .brokenOff => (.plain 500 "Service panicked", t)

/-- Answers a request for one entry by its method. The id may be percent-encoded. -/
def handleEntry (t : Timetable) (method : String) (raw : List Char) (body : List UInt8) :
    Response × Timetable :=
  match Text.decode? (Text.percentDecode raw) with
  | none => (.plain 400 "Invalid URL: Invalid UTF-8 in `id`", t)
  | some id =>
    match method with
    | "PUT" =>
      if bodyLimit < body.length then (overlong, t)
      else
        let (outcome, t) := changeEntry t id body
        conclude t outcome
    | "DELETE" =>
      let (outcome, t) := deleteEntry t id
      conclude t outcome
    | _ => conclude t (showEntry t id)

/-- Answers a request by its route; its method is one of the route's. -/
def dispatch [Locators] (t : Timetable) (route : Route) (r : Request) : Response × Timetable :=
  match route with
  | .home => (.plain 200 "Prodda\n", t)
  | .health => (showHealth t, t)
  | .entries =>
    match r.method with
    | "POST" =>
      if bodyLimit < r.body.length then (overlong, t)
      else
        let (outcome, t) := createEntry t r.body
        conclude t outcome
    | _ => conclude t (listEntries t)
  | .entry id => handleEntry t r.method id r.body

/-- Answers a request of a known route behind the gate. -/
def answer [Locators] (credentials : Option (String × String)) (t : Timetable) (route : Route)
    (r : Request) : Response × Timetable :=
  match if route.isGuarded then judge credentials r else .admitted with
  | .admitted =>
    if route.methods.contains r.method then dispatch t route r else (⟨405, [], .empty⟩, t)
  | .badCredentials => (unauthorized, t.log .warning "basic auth failed: bad credentials")
  | .noCredentials =>
    (unauthorized, t.log .warning "basic auth failed: missing or malformed header")

/-- Adds what the method calls for: whatever the answer to a method that its route does not know,
it lists those that it does, and an answer to `HEAD` has no content. -/
def Response.forMethod (response : Response) (route : Route) (method : String) : Response :=
  if route.methods.contains method then
    if method = "HEAD" then response.headersOnly else response
  else
    { response with headers := ("allow", ",".intercalate route.methods) :: response.headers }

def handle [Locators] (credentials : Option (String × String)) (t : Timetable) (r : Request) :
    Response × Timetable :=
  match Route.ofPath? r.path with
  | none => (⟨404, [], .empty⟩, t)
  | some route =>
    let (response, t) := answer credentials t route r
    (response.forMethod route r.method, t)

example : Route.ofPath? "/api/v0/tasks/7?x" = some (.entry ['7']) := by decide +kernel
example : Route.ofPath? "/api/v0/tasks/" = none := by decide +kernel
example : (idOf "0".toList).toOption = none := by decide +kernel

end Almanac.Web
