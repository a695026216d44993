import Mathlib

/-! The shape of a session and its rate limits. Time is the caller's, in
milliseconds, and the bucket's own accounting is in thousandths of a token. -/

namespace JamStream.Session

def maxMusicians : ℕ := 10
def maxListeners : ℕ := 20
def defaultMemberTimeoutMs : UInt64 := 10000
def memberQuietAfterMs : UInt64 := 2000
def fanoutBurst : UInt32 := 12
def fanoutRefillPerSec : UInt32 := 2
def violationBurst : UInt32 := 32
def violationRefillPerSec : UInt32 := 1
def serverLogBurst : UInt32 := 32
def serverLogPerSec : UInt32 := 8
def serverLogHighWater : ℕ := 16

def saturatingSub (a b : UInt64) : UInt64 := if a < b then 0 else a - b

def saturatingMul (a b : UInt64) : UInt64 :=
  if a.toNat * b.toNat < 2 ^ 64 then a * b else 0xFFFFFFFFFFFFFFFF

def saturatingAdd32 (a b : UInt32) : UInt32 :=
  if a.toNat + b.toNat < 2 ^ 32 then a + b else 0xFFFFFFFF

def saturatingU32 (n : UInt64) : UInt32 :=
  if n < 0x100000000 then n.toUInt32 else 0xFFFFFFFF

structure TokenBucket where
  capacity : UInt32
  perSec : UInt32
  tokens : UInt32
  millitokens : UInt64
  lastMs : UInt64
deriving DecidableEq

namespace TokenBucket

def new (capacity perSec : UInt32) : TokenBucket :=
  { capacity, perSec, tokens := capacity, millitokens := 0, lastMs := 0 }

def refill (b : TokenBucket) (nowMs : UInt64) : TokenBucket :=
  let elapsed := saturatingSub nowMs b.lastMs
  let b := { b with lastMs := max b.lastMs nowMs }
  if b.capacity ≤ b.tokens then { b with millitokens := 0 }
  else
    let total := b.millitokens + saturatingMul elapsed b.perSec.toUInt64
    let tokens := min b.capacity (saturatingAdd32 b.tokens (saturatingU32 (total / 1000)))
    { b with tokens, millitokens := if b.capacity ≤ tokens then 0 else total % 1000 }

def take (b : TokenBucket) (nowMs : UInt64) : TokenBucket × Bool :=
  let b := b.refill nowMs
  if b.tokens = 0 then (b, false) else ({ b with tokens := b.tokens - 1 }, true)

def available (b : TokenBucket) (nowMs : UInt64) : TokenBucket × Bool :=
  let b := b.refill nowMs
  (b, 0 < b.tokens)

end TokenBucket
end JamStream.Session
