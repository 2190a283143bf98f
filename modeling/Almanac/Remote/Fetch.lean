import Almanac.Log
import Almanac.Remote.Exchange
import Almanac.Url.Basic

/-!
# Fetching a locator

A fetch asks for its locator once and logs what came back. Whatever that is, the fetch
counts as done.
-/

namespace Almanac.Remote

/-- The request of a fetch, if its locator can be requested at all. -/
def fetchRequest? [Locators] (url : String) : Option Request :=
  match Locators.read url with
  | .error _ => none
  | .ok u =>
    if isRequestable u then
      some { method := "GET", target := String.ofList u.target, accept := "*/*",
             authorization := basicHeader? u }
    else none

def replyLines : Reply → List LogLine
  | .unreachable => [⟨.warning, "task encountered error", none⟩]
  | .answered status body brokenOff =>
    let unexpected : List LogLine :=
      if isSuccess status then []
      else [⟨.warning, "task received non-success status", some status⟩]
    let content : LogLine :=
      match bodyText? status body brokenOff with
      | none => ⟨.warning, "task encountered error reading response body", none⟩
      | some text =>
        if text.isEmpty then ⟨.warning, "task response body empty", some status⟩
        else ⟨.info, "task response", some status⟩
    unexpected ++ [content]

def fetchLines (reply : Reply) : List LogLine :=
  ⟨.info, "url-get task started", none⟩ :: replyLines reply ++
    [⟨.info, "url-get task completed", none⟩]

/-- Makes a fetch of a locator and runs it against a server that would reply so: what went out,
and what was logged. -/
def fetch [Locators] (url : String) (reply : Reply) : Option Request × List LogLine :=
  match fetchRequest? url, reply with
  | none, _ => (none, fetchLines .unreachable)
  | some _, .unreachable => (none, fetchLines .unreachable)
  | some request, reply => (some request, fetchLines reply)

end Almanac.Remote
