import JamStream.Cloud.Provider
import JamStream.Session.Fitting

/-! Whether the process of a registry entry still runs. A pid alone does not tell: the operating
system gives it again once its process is gone. -/

namespace JamStream.Cloud

structure RegistryEntry where
  pid : UInt32
  session : String
  configPath : String
  startedUnix : ℕ
  imageName : Option String
  /-- None where the platform reported none. -/
  procStart : Option UInt64
deriving DecidableEq

/-- A process as the platform's books have it, until its parent has reaped it. -/
structure HostProcess where
  pid : UInt32
  token : UInt64
  startUnix : Option ℕ
  images : List String
  zombie : Bool
deriving DecidableEq

structure Observed where
  zombie : Bool
  startToken : Option UInt64
  startUnix : Option ℕ
  images : List String

def HostProcess.observe (p : HostProcess) : Observed :=
  { zombie := p.zombie, startToken := some p.token, startUnix := p.startUnix, images := p.images }

inductive PidProbe
  | dead
  | alive (corroborated : Bool)
  | mismatch (running : String)
deriving DecidableEq

inductive Liveness
  | dead
  | ours
  | unverified
deriving DecidableEq

/-- In seconds. -/
def startSlack : ℕ := 300

def commMax : ℕ := 15

def fileName (path : List Char) : List Char := (path.reverse.takeWhile (· ≠ '/')).reverse

def sameCommand (observed expected : String) : Bool :=
  let observed := fileName observed.toList
  let expected := fileName expected.toList
  observed = expected || (commMax ≤ Session.utf8Len observed && observed.isPrefixOf expected)

namespace RegistryEntry

def wrongImage (e : RegistryEntry) (o : Observed) : Bool :=
  e.imageName.any fun want => !o.images.isEmpty && !o.images.any (sameCommand · want)

def late (e : RegistryEntry) (o : Observed) : Option ℕ :=
  o.startUnix.bind fun started =>
    if 0 < e.startedUnix ∧ e.startedUnix + startSlack < started then
      some (started - e.startedUnix)
    else none

/-- What there is to go by without a token on either side. -/
def contradict (e : RegistryEntry) (o : Observed) : PidProbe :=
  if e.wrongImage o then .mismatch (String.intercalate ", " o.images)
  else
    match e.late o with
    | some s => .mismatch (o.images.headD "unknown image" ++ ", started " ++ toString s ++
        "s after the registry entry")
    | none => .alive false

def classify (e : RegistryEntry) (o : Observed) : PidProbe :=
  if o.zombie then .dead
  else
    match o.startToken with
    | none => e.contradict o
    | some seen =>
      match e.procStart with
      | none => e.contradict o
      | some recorded =>
        if seen = recorded then .alive true
        else .mismatch (o.images.headD "unknown image" ++ ", start token " ++
          toString seen.toNat ++ " against recorded " ++ toString recorded.toNat)

def probe (e : RegistryEntry) (readable : Bool) : Option HostProcess → PidProbe
  | none => .dead
  | some p => if readable then e.classify p.observe else .alive false

theorem classify_own {e : RegistryEntry} {p : HostProcess} (hzombie : p.zombie = false)
    (htoken : e.procStart = some p.token) : e.classify p.observe = .alive true := by
  have hseen : p.observe.startToken = some p.token := rfl
  have halive : p.observe.zombie = false := hzombie
  rw [classify, halive, hseen, htoken, if_neg Bool.false_ne_true]
  exact if_pos rfl

theorem probe_own {e : RegistryEntry} {p : HostProcess} (hzombie : p.zombie = false)
    (htoken : e.procStart = some p.token) (readable : Bool) :
    ∃ corroborated, e.probe readable (some p) = .alive corroborated := by
  rcases readable with _ | _
  · exact ⟨false, rfl⟩
  · exact ⟨true, classify_own hzombie htoken⟩

end RegistryEntry

def PidProbe.liveness : PidProbe → Liveness
  | .dead => .dead
  | .alive true => .ours
  | .alive false => .unverified
  | .mismatch _ => .dead

theorem PidProbe.liveness_alive (corroborated : Bool) :
    (PidProbe.alive corroborated).liveness ≠ .dead := by
  cases corroborated <;> exact nofun

end JamStream.Cloud
