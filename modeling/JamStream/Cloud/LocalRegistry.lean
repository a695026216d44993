import JamStream.Cloud.Liveness
import JamStream.Foundations.Runs

/-! The registry of the servers that this computer runs. Launches add to it, and destroys and
lists take from it what has ended, each in cycles that exclude one another. -/

namespace JamStream.Cloud
open Runs

structure Recorded extends RegistryEntry where
  own : UInt64
deriving DecidableEq

structure LocalLaunch where
  who : ℕ
  spec : LaunchSpec
  session : String
  dir : String
  image : Option String

structure LocalTarget where
  who : ℕ
  id : String

inductive LocalOutcome
  | launched (i : Instance)
  | listed (l : Listing)
  | destroyed
  | failed (err : ProviderError)

inductive LocalCall
  | spawned (l : LocalLaunch) (pid : UInt32) (own : UInt64)
  | unrecorded (l : LocalLaunch) (e : Recorded)
  | starting (l : LocalLaunch) (e : Recorded)
  | unstarted (l : LocalLaunch) (e : Recorded)
  | asked (t : LocalTarget) (pid : UInt32)
  | found (t : LocalTarget) (e : Recorded)
  | gone (t : LocalTarget) (e : Recorded)
  | waiting (t : LocalTarget) (e : Recorded) (liveness : Liveness) (killed : Bool)
  | reaping (t : LocalTarget) (e : Recorded)
  | stopped (t : LocalTarget) (e : Recorded)
  | returned (r : LocalOutcome)

/-- A list that is under way, with the entries it keeps and those it has yet to judge. -/
structure Pruning where
  who : ℕ
  tag : Option String
  kept : List Recorded
  todo : List Recorded

/-- The computer: its processes, the tokens given so far, whose child each pid is to whom, the
registry's file with all that was ever written to it, and the calls. -/
structure LocalMachine where
  procs : List HostProcess
  tokens : List UInt64
  children : ℕ → UInt32 → Option UInt64
  registry : List Recorded
  recorded : List Recorded
  pruning : Option Pruning
  calls : List LocalCall

/-- What a call meets with when it goes on. -/
structure LocalInput where
  nowUnix : ℕ
  readable : Bool
  marker : Bool
  late : Bool
  saved : Except String Unit
  ip : Protocol.IpAddr

inductive LocalMove
  | start (p : HostProcess)
  | exit (pid : UInt32)
  | reap (pid : UInt32)
  | launch (who : ℕ) (spec : LaunchSpec) (dir : String) (image : Option String) (p : HostProcess)
  | destroy (who : ℕ) (id : String)
  | list (who : ℕ) (tag : Option String)
  | judge (readable : Bool)
  | save (saved : Except String Unit) (ip : Protocol.IpAddr)
  | advance (i : ℕ) (input : LocalInput)

def localRegion : RegionId := "local"

def parseU32 (text : List Char) : Option UInt32 :=
  let digits := if text.head? = some '+' then text.tail else text
  let value := Nat.ofDigitChars 10 digits 0
  if digits.isEmpty || digits.any (fun c => !c.isDigit) || 2 ^ 32 ≤ value then none
  else some (UInt32.ofNat value)

def instanceFor (e : RegistryEntry) (ip : Protocol.IpAddr) : Instance :=
  { provider := .localHost
    region := localRegion
    id := toString e.pid.toNat
    publicIp := some ip
    tags := [(sessionTagKey, e.session)] }

namespace LocalMachine

def init : LocalMachine :=
  { procs := []
    tokens := []
    children := fun _ _ => none
    registry := []
    recorded := []
    pruning := none
    calls := [] }

def held (s : LocalMachine) (pid : UInt32) : Option HostProcess := s.procs.find? (·.pid = pid)

/-- A process that the operating system starts has a pid that is free and a token of its own. -/
def canStart (s : LocalMachine) (p : HostProcess) : Bool :=
  !p.zombie && (s.held p.pid).isNone && !s.tokens.contains p.token

def start (s : LocalMachine) (p : HostProcess) : LocalMachine :=
  { s with procs := s.procs ++ [p], tokens := s.tokens ++ [p.token] }

def exit (s : LocalMachine) (pid : UInt32) : LocalMachine :=
  { s with procs := s.procs.map fun p => if p.pid = pid then { p with zombie := true } else p }

def reap (s : LocalMachine) (pid : UInt32) : LocalMachine :=
  { s with procs := s.procs.filter fun p => !(p.pid = pid && p.zombie) }

def forget (s : LocalMachine) (who : ℕ) (pid : UInt32) : LocalMachine :=
  { s with children := Function.update s.children who (Function.update (s.children who) pid none) }

/-- What becomes of asking after a child; none where it is not a child, or not any more. -/
def tryWait (s : LocalMachine) (who : ℕ) (pid : UInt32) : Option (LocalMachine × Liveness) :=
  match s.children who pid with
  | none => none
  | some token =>
    match s.held pid with
    | none => none
    | some p =>
      if p.token = token then
        some (if p.zombie then ((s.reap pid).forget who pid, .dead) else (s, .ours))
      else none

def liveness (s : LocalMachine) (who : ℕ) (e : RegistryEntry) (readable : Bool) :
    LocalMachine × Liveness :=
  match s.tryWait who e.pid with
  | some r => r
  | none => (s, (e.probe readable (s.held e.pid)).liveness)

def dropPid (s : LocalMachine) (pid : UInt32) : LocalMachine :=
  { s with registry := s.registry.filter fun e => e.pid ≠ pid }

def push (s : LocalMachine) (e : Recorded) : LocalMachine :=
  { s with registry := s.registry ++ [e], recorded := s.recorded ++ [e] }

/-- A cycle on the registry; while another one has it, the call stays where it is. -/
def cycle (s : LocalMachine) (input : LocalInput) (call : LocalCall)
    (f : LocalMachine × LocalCall) : LocalMachine × LocalCall :=
  if s.pruning.isSome then (s, call)
  else
    match input.saved with
    | .error message => (s, .returned (.failed (.other message)))
    | .ok _ => f

def uncorroborated (id : String) (pid : UInt32) : ProviderError :=
  .other ("local instance " ++ id ++ " is still running after the shutdown request, and the " ++
    "registry entry cannot corroborate that pid " ++ toString pid.toNat ++ " is still the server " ++
    "it launched (entry from an older build?); skipped the forced SIGKILL - end the process by " ++
    "hand if it is yours")

/-- The handle of a child goes once the child is gone. -/
def waitChild (s : LocalMachine) (t : LocalTarget) (e : Recorded) : LocalMachine × LocalCall :=
  match s.children t.who e.pid with
  | none => (s, .stopped t e)
  | some token =>
    if s.procs.any fun p => p.pid = e.pid && p.token = token && !p.zombie then (s, .reaping t e)
    else (((if s.procs.any fun p => p.pid = e.pid && p.token = token then s.reap e.pid else s)).forget
      t.who e.pid, .stopped t e)

def advance (s : LocalMachine) (input : LocalInput) : LocalCall → LocalMachine × LocalCall
  | .spawned l pid own => (s, .unrecorded l {
      pid
      session := l.session
      configPath := l.dir ++ "/config"
      startedUnix := input.nowUnix
      imageName := l.image
      procStart := (s.held pid).map (·.token)
      own })
  | .unrecorded l e => s.cycle input (.unrecorded l e) (s.push e, .starting l e)
  | .starting l e =>
    let r := s.liveness l.who e.toRegistryEntry input.readable
    if r.2 = .dead then (r.1, .unstarted l e)
    else if input.marker then
      (r.1, .returned (.launched { instanceFor e.toRegistryEntry input.ip with tags := l.spec.tags }))
    else if input.late then (r.1, .asked { who := l.who, id := toString e.pid.toNat } e.pid)
    else (r.1, .starting l e)
  | .unstarted l e =>
    if s.pruning.isSome then (s, .unstarted l e)
    else (if input.saved.isOk then s.dropPid e.pid else s, .returned (.failed (.other
      ("jamstreamd exited during startup; see " ++ l.dir ++ "/server.log"))))
  | .asked t pid => s.cycle input (.asked t pid)
    (match s.registry.find? (·.pid = pid) with
    | none => (s, .returned (.failed (.notFound ("local instance " ++ t.id))))
    | some e => (s, .found t e))
  | .found t e =>
    let r := s.liveness t.who e.toRegistryEntry input.readable
    (r.1, if r.2 = .dead then .gone t e else .waiting t e r.2 false)
  | .gone t e => s.cycle input (.gone t e) (s.dropPid e.pid,
    .returned (.failed (.notFound ("local instance " ++ t.id ++ " already dead"))))
  | .waiting t e liveness killed =>
    let r := s.liveness t.who e.toRegistryEntry input.readable
    if r.2 = .dead then (r.1, .reaping t e)
    else if !input.late then (r.1, .waiting t e liveness killed)
    else if killed then
      (r.1, .returned (.failed (.other ("local instance " ++ t.id ++ " survived SIGKILL"))))
    else if liveness = .unverified then (r.1, .returned (.failed (uncorroborated t.id e.pid)))
    else (r.1, .waiting t e liveness true)
  | .reaping t e => s.waitChild t e
  | .stopped t e => s.cycle input (.stopped t e) (s.dropPid e.pid, .returned .destroyed)
  | .returned r => (s, .returned r)

def launch (s : LocalMachine) (who : ℕ) (spec : LaunchSpec) (dir : String) (image : Option String)
    (p : HostProcess) : LocalMachine :=
  if spec.region ≠ localRegion then
    { s with calls := s.calls ++ [.returned (.failed (.notFound ("local region " ++ spec.region)))] }
  else
    match spec.sessionId with
    | none => { s with
        calls := s.calls ++
          [.returned (.failed (.other "launch spec carries no jamstream-session tag"))] }
    | some session =>
      if s.canStart p then
        { s.start p with
          children := Function.update s.children who
            (Function.update (s.children who) p.pid (some p.token))
          calls := s.calls ++ [.spawned { who, spec, session, dir, image } p.pid p.token] }
      else s

def destroy (s : LocalMachine) (who : ℕ) (id : String) : LocalMachine :=
  match parseU32 id.toList with
  | none => { s with calls := s.calls ++ [.returned (.failed (.notFound ("local instance " ++ id)))] }
  | some pid => { s with calls := s.calls ++ [.asked { who, id } pid] }

def list (s : LocalMachine) (who : ℕ) (tag : Option String) : LocalMachine :=
  match s.pruning with
  | none => { s with pruning := some { who, tag, kept := [], todo := s.registry } }
  | some _ => s

def judge (s : LocalMachine) (readable : Bool) : LocalMachine :=
  match s.pruning with
  | none => s
  | some c =>
    match c.todo with
    | [] => s
    | e :: rest =>
      let r := s.liveness c.who e.toRegistryEntry readable
      { r.1 with pruning := some { c with
          kept := if r.2 = .dead then c.kept else c.kept ++ [e]
          todo := rest } }

def save (s : LocalMachine) (saved : Except String Unit) (ip : Protocol.IpAddr) : LocalMachine :=
  match s.pruning with
  | none => s
  | some c =>
    if !c.todo.isEmpty then s
    else
      match saved with
      | .error message =>
        { s with pruning := none, calls := s.calls ++ [.returned (.failed (.other message))] }
      | .ok _ =>
        { s with
          pruning := none
          registry := c.kept
          calls := s.calls ++ [.returned (.listed {
            instances := (c.kept.filter fun e => c.tag.all (e.session = ·)).map
              fun e => instanceFor e.toRegistryEntry ip
            unsearched := [] })] }

def step (s : LocalMachine) : LocalMove → LocalMachine
  | .start p => if s.canStart p then s.start p else s
  | .exit pid => s.exit pid
  | .reap pid => s.reap pid
  | .launch who spec dir image p => s.launch who spec dir image p
  | .destroy who id => s.destroy who id
  | .list who tag => s.list who tag
  | .judge readable => s.judge readable
  | .save saved ip => s.save saved ip
  | .advance i input =>
    match s.calls[i]? with
    | none => s
    | some call =>
      let r := s.advance input call
      { r.1 with calls := r.1.calls.set i r.2 }

def Holds (s : LocalMachine) (pid : UInt32) (token : UInt64) : Prop :=
  ∃ p ∈ s.procs, p.pid = pid ∧ p.token = token ∧ p.zombie = false

def Running (s : LocalMachine) (e : Recorded) : Prop := s.Holds e.pid e.own

def Kept (s : LocalMachine) : Prop := ∀ e ∈ s.recorded, s.Running e → e ∈ s.registry

end LocalMachine

def LocalCall.drops : LocalCall → Option Recorded
  | .unstarted _ e | .gone _ e | .stopped _ e => some e
  | _ => none

namespace LocalMachine

/-- When a pid is dropped, it has not been given to another server that runs and is in the
registry. -/
def Unshared (s : LocalMachine) : LocalMove → Prop
  | .advance i input => s.pruning = none → input.saved.isOk = true →
    ∀ call ∈ s.calls[i]?, ∀ e ∈ call.drops, ∀ other ∈ s.registry,
      other.pid = e.pid → s.Running other → other.own = e.own
  | _ => True

end LocalMachine
end JamStream.Cloud
