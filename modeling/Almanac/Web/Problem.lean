import Almanac.Timetable.Service
import Almanac.Web.Message

/-!
# Problems with requests

Why a request about entries fails, the response that tells so, and the line that is
logged.
-/

namespace Almanac.Web

inductive Problem where
  | invalidBody (text : String)
  | invalidId (text : String)
  | service (cause : TimetableError)
  deriving DecidableEq, Repr

namespace Problem

def status : Problem → Nat
  | invalidBody _ => 400
  | invalidId _ => 404
  | service (.task (.unknownKind _)) => 422
  | service (.task (.failed _)) => 500
  | service (.task _) => 400
  | service (.plan _) => 400
  | service (.alarm (.plan _)) => 400
  | service (.alarm _) => 409
  | service (.roster (.notFound _)) => 404
  | service (.roster _) => 500

def code : Problem → String
  | invalidBody _ => "INVALID_BODY"
  | invalidId _ => "NOT_FOUND"
  | service cause => cause.code

def message : Problem → String
  | invalidBody text => "Invalid request body: " ++ text
  | invalidId text => "Task not found: " ++ text
  | service cause => cause.message

def response (p : Problem) : Response :=
  .data p.status (Json.ofMembers [("error", .string p.message), ("code", .string p.code)])

def logLine (p : Problem) : LogLine :=
  if 500 ≤ p.status then ⟨.failure, "request failed", none⟩
  else ⟨.warning, "request rejected", none⟩

end Problem

end Almanac.Web
