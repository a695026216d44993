import JamStream.Cloud.Http
import JamStream.Cloud.Xml
import JamStream.Session.Control

/-! Calls of the EC2 Query API, and what their errors are made of. -/

namespace JamStream.Cloud
open Foundations

def awsSetupUrl : String := "https://sean-reid.github.io/jamstream/guides/providers/aws.html"

def encodedAuthorizationMessage : String := "Encoded authorization failure message:"

def awsQuote : String := " (AWS said:"

/-- The text of the first element of a name. -/
def xmlText (body tag : String) : Option String :=
  (xmlValue body.toList tag.toList).map fun text => String.ofList (xmlUnescape text)

def deniedAction (message : String) : Option String := do
  let (_, after) ← splitOnce message "is not authorized to perform: "
  let action := after.toList.takeWhile fun c => !([' ', ',', '.'].contains c)
  if action.isEmpty then none else some (String.ofList action)

def mapErrorBody (body : String) : ProviderError :=
  let code := (xmlText body "Code").getD ""
  let message := (xmlText body "Message").getD ""
  let detail := code ++ ": " ++ message
  if code = "UnauthorizedOperation" then
    let missing := match deniedAction message with
      | some action => "the IAM policy is missing " ++ action
      | none => "the IAM policy is missing a permission this call needs"
    let said := Session.trim (((splitOnce message encodedAuthorizationMessage).map Prod.fst).getD
      message)
    .auth (code ++ ": " ++ missing ++ ". Update the jamstream-host policy at " ++ awsSetupUrl ++
      awsQuote ++ " " ++ said ++ ")")
  else if code = "RequestLimitExceeded" ∨ code = "Throttling" then .rateLimited none
  else if hasText code "NotFound" ∨ code = "InvalidInstanceID.Malformed" then .notFound detail
  else if code = "AuthFailure" ∨ code = "SignatureDoesNotMatch" then .auth detail
  else if hasText code "LimitExceeded" ∨ code = "InsufficientInstanceCapacity" then
    .quotaExceeded detail
  else .other detail

/-- The code of an error, from the body it carries or from how its message was made. -/
def errorCode (error : ProviderError) : Option String :=
  match (errorBody error).bind fun body => xmlText body "Code" with
  | some code => some code
  | none => do
    let (code, _) ← splitOnce (← error.message?) ": "
    if code.toList.contains ' ' || code.isEmpty then none else some code

/-- An error of a call as EC2 means it, where its body tells. -/
def remapped (error : ProviderError) : ProviderError :=
  match error, errorBody error with
  | .other _, some body => if hasText body "<Code>" then mapErrorBody body else error
  | .auth _, some body => if hasText body "<Code>" then mapErrorBody body else error
  | _, _ => error

def ec2Call {ω : Type} (action : String) (send : ℕ → ω → Reply × ω) :
    Command ω ProviderError String := do
  let response ← ExceptT.adapt remapped (sendRetrying send)
  Command.answer (response.text.mapError fun e =>
    .other ("reading " ++ action ++ " response: " ++ e))

end JamStream.Cloud
