import JamStream.Cloud.Provider
import JamStream.Foundations.Commands

/-! The records a host keeps of its sessions, and what a command does besides asking the
provider: it prints lines and writes records, and either may fail. -/

namespace JamStream.Cli
open Foundations Cloud

inductive CliError
  | usage (message : String)
  | failed (message : String)
  | io (message : String)
  | provider (error : ProviderError)
  | state (message : String)
deriving DecidableEq

inductive SessionStatus
  | running
  | ended
deriving DecidableEq

structure SessionState where
  sessionIdHex : String
  provider : String
  region : RegionId
  instanceId : String
  createdUnix : ℕ
  issuerPrivateKeyB64 : String
  status : SessionStatus
  endedUnix : Option ℕ
deriving DecidableEq

namespace SessionState

def forgetIssuerKey (s : SessionState) : SessionState := { s with issuerPrivateKeyB64 := "" }

def markEndedUnlisted (s : SessionState) (endedUnix : ℕ) : SessionState :=
  { s with
    status := .ended
    endedUnix := some endedUnix }

def markEnded (s : SessionState) (endedUnix : ℕ) : SessionState :=
  (s.markEndedUnlisted endedUnix).forgetIssuerKey

end SessionState

structure Desk where
  out : List String
  written : List SessionState
deriving DecidableEq

namespace CliError

def display : CliError → String
  | usage message => message
  | failed message => message
  | io message => message
  | provider error => error.display
  | state message => "state file: " ++ message

end CliError

section
variable {ε : Type}

def writeln (prints : ℕ → Except ε Unit) (line : String) : Command Desk ε Unit :=
  ExceptT.mk fun desk => (prints desk.out.length,
    if (prints desk.out.length).isOk then { desk with out := desk.out ++ [line] } else desk)

/-- A record that replaces the file it had, or the file stays as it was. -/
def writeTo (saves : Except ε Unit) (session : SessionState) : Command Desk ε Unit :=
  ExceptT.mk fun desk => (saves,
    if saves.isOk then { desk with written := desk.written ++ [session] } else desk)

theorem ends_writeln_iff {prints : ℕ → Except ε Unit} {line : String} {desk t : Desk} :
    (writeln prints line).ends desk = (.ok (), t) ↔
      prints desk.out.length = .ok () ∧ t = { desk with out := desk.out ++ [line] } := by
  show (prints desk.out.length, if (prints desk.out.length).isOk then
    { desk with out := desk.out ++ [line] } else desk) = _ ↔ _
  rw [Prod.mk.injEq]
  apply and_congr_right
  intro hprints
  rw [hprints]
  exact eq_comm

theorem keeps_writeln {prints : ℕ → Except ε Unit} {line : String} :
    Command.Keeps Desk.written (writeln prints line) := by
  intro desk
  show (if (prints desk.out.length).isOk then
    { desk with out := desk.out ++ [line] } else desk).written = _
  split_ifs <;> rfl

theorem ends_writeTo (saves : Except ε Unit) (session : SessionState) (desk : Desk) :
    (writeTo saves session).ends desk = (saves,
      if saves.isOk then { desk with written := desk.written ++ [session] } else desk) := rfl

end

end JamStream.Cli
