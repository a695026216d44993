import JamStream.Cloud.RecordingConfig
import JamStream.Server.Revocations

/-! The server's own configuration, as its parser reads it: the last assignment of a key counts,
and a key that is not known is refused. A slice that cuts a character in two panics. -/

namespace JamStream.Server
open Protocol Foundations Foundations.Lines Session Cloud

inductive ConfigError
  | syntaxAt (line : ℕ)
  | unknownKey (key : String)
  | missingKey (key : String)
  | badValue (key : String)
deriving DecidableEq

inductive Fault
  | refused (error : ConfigError)
  | panicked
deriving DecidableEq

def FixedBytes (n : ℕ) : Type := { bytes : Bytes // bytes.length = n }

def tryInto (n : ℕ) (bytes : Bytes) : Option (FixedBytes n) :=
  if h : bytes.length = n then some ⟨bytes, h⟩ else none

structure Config where
  sessionId : FixedBytes 16
  port : UInt16
  serverPrivateKey : Bytes
  issuerPublicKey : FixedBytes 32
  idleShutdownMin : UInt32
  maxDurationMin : UInt32

namespace Config

structure Fields where
  sessionIdHex : Option Text
  port : Option Text
  serverPrivate : Option Text
  issuerPublic : Option Text
  idle : Option Text
  maxDur : Option Text
deriving DecidableEq

def Fields.empty : Fields := ⟨none, none, none, none, none, none⟩

def Fields.assign (f : Fields) (key value : Text) : Except Fault Fields :=
  if key = "session_id_hex".toList then .ok { f with sessionIdHex := some value }
  else if key = "port".toList then .ok { f with port := some value }
  else if key = "server_private_key_b64".toList then .ok { f with serverPrivate := some value }
  else if key = "issuer_public_key_b64".toList then .ok { f with issuerPublic := some value }
  else if key = "idle_shutdown_min".toList then .ok { f with idle := some value }
  else if key = "max_duration_min".toList then .ok { f with maxDur := some value }
  else .error (.refused (.unknownKey (String.ofList key)))

def readLines : ℕ → List Text → Fields → Except Fault Fields
  | _, [], f => .ok f
  | i, line :: rest, f =>
    if (trimmed line).isEmpty || (trimmed line).head? = some '#' then readLines (i + 1) rest f
    else
      match splitOnceAt '=' (trimmed line) with
      | none => .error (.refused (.syntaxAt (i + 1)))
      | some kv => (f.assign (trimmed kv.1) (trimmed kv.2)).bind (readLines (i + 1) rest)

/-- Two bytes at a time. A pair of characters of one byte each is read as a number; a character
of two bytes is none; a slice that ends inside a character is a panic. -/
def hexPairs : Text → Except Fault (Option Bytes)
  | [] => .ok (some [])
  | a :: rest =>
    if 2 < a.utf8Size then .error .panicked
    else if a.utf8Size = 2 then .ok none
    else
      match rest with
      | [] => .ok none
      | b :: rest =>
        if 1 < b.utf8Size then .error .panicked
        else
          match fromStrRadix a b with
          | none => .ok none
          | some byte => (hexPairs rest).map fun bytes => bytes.map fun bytes => byte :: bytes

def hexDecode (s : Text) : Except Fault (Option Bytes) :=
  if (String.ofList s).utf8ByteSize % 2 ≠ 0 then .ok none else hexPairs s

def want (field : Option Text) (key : String) : Except Fault Text :=
  match field with
  | some value => .ok value
  | none => .error (.refused (.missingKey key))

def good {β : Type} (value : Option β) (key : String) : Except Fault β :=
  match value with
  | some value => .ok value
  | none => .error (.refused (.badValue key))

def parseU16 (text : Text) : Option UInt16 := (parseUnsigned (2 ^ 16) text).map UInt16.ofNat

def parseU32 (text : Text) : Option UInt32 := (parseUnsigned (2 ^ 32) text).map UInt32.ofNat

def ofFields (f : Fields) : Except Fault Config := do
  let sessionIdHex ← want f.sessionIdHex "session_id_hex"
  let sessionBytes ← (hexDecode sessionIdHex).bind (good · "session_id_hex")
  let sessionId ← good (tryInto 16 sessionBytes) "session_id_hex"
  let port ← (want f.port "port").bind fun t => good (parseU16 t) "port"
  let serverPrivateKey ← (want f.serverPrivate "server_private_key_b64").bind fun t =>
    good (PaddedBase64.decode t) "server_private_key_b64"
  let issuerBytes ← (want f.issuerPublic "issuer_public_key_b64").bind fun t =>
    good (PaddedBase64.decode t) "issuer_public_key_b64"
  let issuerPublicKey ← good (tryInto 32 issuerBytes) "issuer_public_key_b64"
  let idleShutdownMin ← (want f.idle "idle_shutdown_min").bind fun t =>
    good (parseU32 t) "idle_shutdown_min"
  let maxDurationMin ← (want f.maxDur "max_duration_min").bind fun t =>
    good (parseU32 t) "max_duration_min"
  pure { sessionId, port, serverPrivateKey, issuerPublicKey, idleShutdownMin, maxDurationMin }

def parse (text : Text) : Except Fault Config :=
  (readLines 0 (textLines text) .empty).bind ofFields

end Config
end JamStream.Server
