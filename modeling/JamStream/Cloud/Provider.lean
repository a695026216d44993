import JamStream.Protocol.Wire

/-! What every provider answers with, and how long a caller keeps asking. Times are in
milliseconds. -/

namespace JamStream.Cloud

inductive ProviderError
  | auth (message : String)
  | quotaExceeded (message : String)
  | notFound (message : String)
  | rateLimited (retryAfter : Option ℕ)
  | transient (message : String)
  | other (message : String)
deriving DecidableEq

def ProviderError.display : ProviderError → String
  | .auth message => "authentication failed: " ++ message
  | .quotaExceeded message => "quota exceeded: " ++ message
  | .notFound message => "not found: " ++ message
  | .rateLimited _ => "rate limited"
  | .transient message => "transient failure: " ++ message
  | .other message => message

def ProviderError.message? : ProviderError → Option String
  | .auth message => some message
  | .quotaExceeded message => some message
  | .notFound message => some message
  | .rateLimited _ => none
  | .transient message => some message
  | .other message => some message

def ProviderError.whileDoing (op : String) : ProviderError → ProviderError
  | .auth message => .auth (op ++ ": " ++ message)
  | .quotaExceeded message => .quotaExceeded (op ++ ": " ++ message)
  | .notFound message => .notFound (op ++ ": " ++ message)
  | .rateLimited retryAfter => .rateLimited retryAfter
  | .transient message => .transient (op ++ ": " ++ message)
  | .other message => .other (op ++ ": " ++ message)

inductive ProviderKind
  | aws
  | digitalOcean
  | gcp
  | localHost
deriving DecidableEq

def ProviderKind.asStr : ProviderKind → String
  | .aws => "aws"
  | .digitalOcean => "digitalocean"
  | .gcp => "gcp"
  | .localHost => "local"

abbrev RegionId := String

def sessionTagKey : String := "jamstream-session"

def sessionIdFromTags (tags : List (String × String)) : Option String :=
  (tags.find? fun tag => tag.1 = sessionTagKey).map Prod.snd

structure Instance where
  provider : ProviderKind
  region : RegionId
  id : String
  publicIp : Option Protocol.IpAddr
  tags : List (String × String)
deriving DecidableEq

def Instance.sessionId (i : Instance) : Option String := sessionIdFromTags i.tags

structure LaunchSpec where
  region : RegionId
  tags : List (String × String)

def LaunchSpec.sessionId (spec : LaunchSpec) : Option String := sessionIdFromTags spec.tags

/-- What one listing saw, and the regions it did not reach. -/
structure Listing where
  instances : List Instance
  unsearched : List RegionId
deriving DecidableEq

def Listing.isComplete (listing : Listing) : Bool := listing.unsearched.isEmpty

structure WaitOpts where
  initialBackoff : ℕ
  maxBackoff : ℕ
  totalTimeout : ℕ

def firewallWait : WaitOpts := ⟨1000, 8000, 90000⟩

/-- A duration as its debug text has it: seconds, or milliseconds below one. -/
def debugDuration (d : ℕ) : String :=
  if 1000 ≤ d then
    let digits := (toString (1000 + d % 1000)).toList.tail.rdropWhile (· = '0')
    toString (d / 1000) ++ (if digits.isEmpty then "" else "." ++ String.ofList digits) ++ "s"
  else if 0 < d then toString d ++ "ms"
  else "0ns"

/-- The budget has room for so many more sleeps, each at most twice as long as the last. -/
def WaitOpts.allows (opts : WaitOpts) : ℕ → ℕ → ℕ → Prop
  | 0, _, _ => True
  | sleeps + 1, elapsed, backoff =>
    elapsed + backoff ≤ opts.totalTimeout ∧
      opts.allows sleeps (elapsed + backoff) (min (backoff * 2) opts.maxBackoff)

instance WaitOpts.decidableAllows (opts : WaitOpts) :
    ∀ sleeps elapsed backoff, Decidable (opts.allows sleeps elapsed backoff)
  | 0, _, _ => isTrue trivial
  | sleeps + 1, elapsed, backoff =>
    @instDecidableAnd _ _ (inferInstance : Decidable (elapsed + backoff ≤ opts.totalTimeout))
      (WaitOpts.decidableAllows opts sleeps (elapsed + backoff)
        (min (backoff * 2) opts.maxBackoff))

end JamStream.Cloud
