import JamStream.Foundations.Lines
import JamStream.Session.Control

/-! The processes behind a broadcast, and what a pusher says about itself. The host keeps
a child from its spawn to its kill; a pusher's progress file belongs to its destination and
not to the process, so what stands in it may be of an earlier one. -/

namespace JamStream.Stream
open Protocol Foundations

inductive Task
  | encoder
  | pusher (id : DestinationId)
deriving DecidableEq

/-- A handle is opaque and unique: it names a process by what it is for and by how many
were spawned for that before. -/
structure ProcId where
  task : Task
  nth : ℕ
deriving DecidableEq

inductive Label
  | encoder
  | pusher (platform : StreamPlatform) (id : DestinationId)
deriving DecidableEq

def Label.task : Label → Task
  | .encoder => .encoder
  | .pusher _ id => .pusher id

inductive Stdin
  | pipe
  | secretFile (line : String)
deriving DecidableEq

structure ProcSpec where
  label : Label
  stdin : Stdin
deriving DecidableEq

inductive Exit
  | running
  | exited (reason : String)
deriving DecidableEq

structure IoError where
  notFound : Bool
  text : String
deriving DecidableEq

structure Progress where
  text : List Char
  writers : List ProcId
  written : writers ≠ []

/-- The file says whatever the process likes from now on. -/
def Progress.after (file : Option Progress) (proc : ProcId) (text : List Char) : Progress where
  text := text
  writers := proc :: (file.map Progress.writers).getD []
  written := List.cons_ne_nil _ _

inductive Act
  | spawned (spec : ProcSpec) (proc : ProcId)
  | killed (proc : ProcId)
  | sawBlock (id : DestinationId) (writers : List ProcId)
deriving DecidableEq

def Act.task : Act → Task
  | .spawned _ proc | .killed proc => proc.task
  | .sawBlock id _ => .pusher id

inductive PipelineEvent
  | encoderUp
  | encoderDown (reason : String)
  | destinationChanged (id : DestinationId) (platform : StreamPlatform) (state : DestinationState)
deriving DecidableEq

def PipelineEvent.task : PipelineEvent → Task
  | .encoderUp | .encoderDown _ => .encoder
  | .destinationChanged id _ _ => .pusher id

/-- What the destinations of a pipeline share: the process host, the progress files of its
work directory, the event list. -/
@[ext]
structure Outside where
  procs : ProcId → Option Exit
  spawned : Task → ℕ
  progress : DestinationId → Option Progress
  log : List Act
  events : List PipelineEvent

def progressRunning : List Char := "progress=continue".toList

def progressHeadBytes : ℕ := 4096

/-- The first bytes of a text, decoded: what is left of a character cut in two is replaced. -/
def headText (cap : ℕ) (text : List Char) : List Char :=
  let head := Session.fitHead cap text
  if head.length < text.length ∧ (head.map Char.utf8Size).sum < cap then head ++ ['\uFFFD']
  else head

def trimEnd (line : List Char) : List Char := line.rdropWhile Session.isWhitespace

namespace Outside

def new : Outside :=
  { procs := fun _ => none, spawned := fun _ => 0, progress := fun _ => none, log := [], events := [] }

def spawn (o : Outside) (spec : ProcSpec) : Option IoError → Except IoError ProcId × Outside
  | some err => (.error err, o)
  | none =>
    let task := spec.label.task
    let proc := { task, nth := o.spawned task }
    (.ok proc, { o with
      procs := Function.update o.procs proc (some .running)
      spawned := Function.update o.spawned task (o.spawned task + 1)
      log := o.log ++ [.spawned spec proc] })

def poll (o : Outside) (proc : ProcId) : Exit :=
  (o.procs proc).getD (.exited "process handle is gone")

def kill (o : Outside) (proc : ProcId) : Outside :=
  match o.procs proc with
  | none => o
  | some _ => { o with
    procs := Function.update o.procs proc none
    log := o.log ++ [.killed proc] }

/-- A file that is not there is as good as removed. -/
def clearProgress (o : Outside) (id : DestinationId) : Option String → Except String Unit × Outside
  | some err => (.error err, o)
  | none => (.ok (), { o with progress := Function.update o.progress id none })

def pushed (o : Outside) (id : DestinationId) : Bool :=
  (o.progress id).any fun file =>
    (Lines.lines '\n' (headText progressHeadBytes file.text)).any fun line =>
      trimEnd line = progressRunning

def sawBlock (o : Outside) (id : DestinationId) : Outside :=
  { o with log := o.log ++ (o.progress id).toList.map fun file => .sawBlock id file.writers }

def trimProgress (o : Outside) (id : DestinationId) (opens : Bool) : Outside :=
  if opens then
    { o with progress :=
        Function.update o.progress id ((o.progress id).map fun file => { file with text := [] }) }
  else o

def emit (o : Outside) (event : PipelineEvent) : Outside :=
  { o with events := o.events ++ [event] }

def exits (o : Outside) (proc : ProcId) (reason : String) : Outside :=
  if o.procs proc = some .running then
    { o with procs := Function.update o.procs proc (some (.exited reason)) }
  else o

def writes (o : Outside) (proc : ProcId) (text : List Char) : Outside :=
  match proc.task with
  | .encoder => o
  | .pusher id =>
    if o.procs proc = some .running then
      { o with progress :=
          Function.update o.progress id (some (.after (o.progress id) proc text)) }
    else o

/-- Nothing but what belongs to one task differs, and the histories only grew by it. -/
structure Only (t : Task) (o o' : Outside) : Prop where
  procs : ∀ p, p.task ≠ t → o'.procs p = o.procs p
  spawned : ∀ u, u ≠ t → o'.spawned u = o.spawned u
  progress : ∀ id, .pusher id ≠ t → o'.progress id = o.progress id
  log : ∃ acts, o'.log = o.log ++ acts ∧ ∀ a ∈ acts, a.task = t
  events : ∃ events, o'.events = o.events ++ events ∧ ∀ e ∈ events, e.task = t

variable {t : Task} {o o₁ o₂ : Outside}

theorem Only.refl (t : Task) (o : Outside) : Only t o o where
  procs _ _ := rfl
  spawned _ _ := rfl
  progress _ _ := rfl
  log := ⟨[], (List.append_nil _).symm, by simp⟩
  events := ⟨[], (List.append_nil _).symm, by simp⟩

theorem Only.trans (h₁ : Only t o o₁) (h₂ : Only t o₁ o₂) : Only t o o₂ where
  procs p hp := (h₂.procs p hp).trans (h₁.procs p hp)
  spawned u hu := (h₂.spawned u hu).trans (h₁.spawned u hu)
  progress id hid := (h₂.progress id hid).trans (h₁.progress id hid)
  log := by
    obtain ⟨acts₁, heq₁, hacts₁⟩ := h₁.log
    obtain ⟨acts₂, heq₂, hacts₂⟩ := h₂.log
    refine ⟨acts₁ ++ acts₂, by rw [heq₂, heq₁, List.append_assoc], fun a ha => ?_⟩
    exact (List.mem_append.mp ha).elim (hacts₁ a) (hacts₂ a)
  events := by
    obtain ⟨events₁, heq₁, hevents₁⟩ := h₁.events
    obtain ⟨events₂, heq₂, hevents₂⟩ := h₂.events
    refine ⟨events₁ ++ events₂, by rw [heq₂, heq₁, List.append_assoc], fun e he => ?_⟩
    exact (List.mem_append.mp he).elim (hevents₁ e) (hevents₂ e)

theorem only_emit (o : Outside) (event : PipelineEvent) (h : event.task = t) :
    Only t o (o.emit event) :=
  { Only.refl t o with events := ⟨[event], rfl, by simpa using h⟩ }

theorem only_spawn (o : Outside) (spec : ProcSpec) (fails : Option IoError) :
    Only spec.label.task o (o.spawn spec fails).2 := by
  cases fails with
  | some err => exact .refl _ _
  | none =>
    refine { Only.refl spec.label.task o with
      procs := fun p hp => ?_, spawned := fun u hu => ?_, log := ⟨[_], rfl, by simp [Act.task]⟩ }
    · exact Function.update_of_ne (fun heq => hp (congrArg ProcId.task heq)) _ _
    · exact Function.update_of_ne hu _ _

theorem only_kill (o : Outside) (proc : ProcId) : Only proc.task o (o.kill proc) := by
  unfold kill
  split
  · exact .refl _ _
  · refine { Only.refl proc.task o with
      procs := fun p hp => ?_, log := ⟨[_], rfl, by simp [Act.task]⟩ }
    exact Function.update_of_ne (fun heq => hp (congrArg ProcId.task heq)) _ _

theorem only_clearProgress (o : Outside) (id : DestinationId) (fails : Option String) :
    Only (.pusher id) o (o.clearProgress id fails).2 := by
  cases fails with
  | some err => exact .refl _ _
  | none =>
    refine { Only.refl (.pusher id) o with progress := fun other hother => ?_ }
    exact Function.update_of_ne (fun heq => hother (congrArg Task.pusher heq)) _ _

theorem only_sawBlock (o : Outside) (id : DestinationId) :
    Only (.pusher id) o (o.sawBlock id) := by
  refine { Only.refl (.pusher id) o with log := ⟨_, rfl, fun a ha => ?_⟩ }
  obtain ⟨file, _, rfl⟩ := List.mem_map.mp ha
  rfl

theorem only_trimProgress (o : Outside) (id : DestinationId) (opens : Bool) :
    Only (.pusher id) o (o.trimProgress id opens) := by
  unfold trimProgress
  split
  · refine { Only.refl (.pusher id) o with progress := fun other hother => ?_ }
    exact Function.update_of_ne (fun heq => hother (congrArg Task.pusher heq)) _ _
  · exact .refl _ _

theorem only_exits (o : Outside) (proc : ProcId) (reason : String) :
    Only proc.task o (o.exits proc reason) := by
  unfold exits
  split
  · refine { Only.refl proc.task o with procs := fun p hp => ?_ }
    exact Function.update_of_ne (fun heq => hp (congrArg ProcId.task heq)) _ _
  · exact .refl _ _

theorem only_writes (o : Outside) (proc : ProcId) (text : List Char) :
    Only proc.task o (o.writes proc text) := by
  unfold writes
  split
  · exact .refl _ _
  · next id htask =>
    split
    · refine { Only.refl proc.task o with progress := fun other hother => ?_ }
      rw [htask] at hother
      exact Function.update_of_ne (fun heq => hother (congrArg Task.pusher heq)) _ _
    · exact .refl _ _

end Outside
end JamStream.Stream
