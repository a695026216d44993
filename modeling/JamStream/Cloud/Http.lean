import JamStream.Cloud.Provider
import JamStream.Foundations.Attempts
import JamStream.Foundations.Commands
import JamStream.Foundations.Search

/-! Requests to a provider: how an answer is classified, and when the request is sent again. -/

namespace JamStream.Cloud
open Foundations

def maxAttempts : ℕ := 4

/-- In seconds. -/
def retryAfterCap : ℕ := 15

/-- An answer, with its reason phrase, the seconds it asks to wait, as much of its body as an
error has room for, and its body if that can be read. -/
structure Response where
  status : ℕ
  reason : String
  retryAfter : Option ℕ
  snippet : String
  text : Except String String

inductive Reply
  | response (response : Response)
  | connect (text : String)
  | timeout (text : String)
  | other (text : String)

inductive Outcome
  | ok (response : Response)
  | fatal (error : ProviderError)
  | retry (error : ProviderError) (retryAfter : Option ℕ)

def errorMessage (response : Response) : String :=
  let status := toString response.status ++ " " ++ response.reason
  if response.snippet.isEmpty then "http " ++ status
  else "http " ++ status ++ ": " ++ response.snippet

def classify (response : Response) (accept : List ℕ) : Outcome :=
  let status := response.status
  if (200 ≤ status ∧ status < 300) ∨ status ∈ accept then .ok response
  else if status = 429 then .retry (.rateLimited response.retryAfter) response.retryAfter
  else if status = 401 ∨ status = 403 then .fatal (.auth (errorMessage response))
  else if status = 404 ∨ status = 410 then .fatal (.notFound (errorMessage response))
  else if 500 ≤ status ∧ status < 600 then .retry (.transient (errorMessage response)) none
  else .fatal (.other (errorMessage response))

def Reply.outcome (accept : List ℕ) : Reply → Outcome
  | .response r => classify r accept
  | .connect text => .retry (.transient text) none
  | .timeout text => .retry (.transient text) none
  | .other text => .fatal (.other text)

/-- A service that wants to be left alone for longer is not asked again. -/
def Outcome.verdict : Outcome → Verdict ProviderError Response
  | .ok response => .done response
  | .fatal error => .fatal error
  | .retry error retryAfter =>
    if retryAfter.any (retryAfterCap < ·) then .fatal error else .again error

/-- The request is sent again, and again after it, while what comes of it may pass. -/
def Reply.retried (sent : Reply) : Bool := Attempts.goesOn (sent.outcome []).verdict

section
variable {ω : Type}

def sendRetryingAccepting (accept : List ℕ) (send : ℕ → ω → Reply × ω) :
    Command ω ProviderError Response :=
  ExceptT.mk (Attempts.retrying (fun k s => (((send k s).1.outcome accept).verdict, (send k s).2))
    (maxAttempts - 1) 0)

def sendRetrying (send : ℕ → ω → Reply × ω) : Command ω ProviderError Response :=
  sendRetryingAccepting [] send

end

def hasText (s pat : String) : Bool := (splitFirst pat.toList s.toList).isSome

def stripPrefix (s start : String) : Option String :=
  if start.toList.isPrefixOf s.toList then some (String.ofList (s.toList.drop start.length))
  else none

def splitOnce (s separator : String) : Option (String × String) :=
  (splitFirst separator.toList s.toList).map fun r => (String.ofList r.1, String.ofList r.2)

def errorBody (error : ProviderError) : Option String := do
  let rest ← stripPrefix (← error.message?) "http "
  let (status, body) ← splitOnce rest ": "
  let looksLikeStatus := 3 ≤ status.length && (status.toList.take 3).all Char.isDigit
  if looksLikeStatus && !body.isEmpty then some body else none

end JamStream.Cloud
