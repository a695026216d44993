import JamStream.Protocol.LinkWindow
import JamStream.Recording.Worker
import JamStream.Session.Calls
import JamStream.Session.Plaintext

/-! How the room learns what became of a recording: the recorder's state goes from the
thread to the core, which tells everyone connected. A reason too long for the message is
not cut on the way, and the link turns the message down. -/

namespace JamStream.Recording
open Protocol Session Runs
variable {X : Externals} {E : Encoding}

/-- Where takes go; the place itself is the sink's business. -/
structure RecordingOptions where
  stems : Bool

structure Runtime (X : Externals) (E : Encoding) where
  core : ServerCore X
  recordingOpts : Option RecordingOptions
  recorder : Option (Worker E)

def recordStatus (state : RecordingState) (stemsCfg : Bool) : Protocol.RecordingState × Bool :=
  match state with
  | .idle => (.idle, stemsCfg)
  | .recording stems => (.recording, stems)
  | .uploading => (.uploading, stemsCfg)
  | .failed reason => (.failed reason, stemsCfg)

namespace Runtime

def musicians (rt : Runtime X E) : List (MemberId × String) :=
  (rt.core.members.toList.filter fun e => e.2.role = .musician).map fun e => (e.1, e.2.name)

def stemsCfg (rt : Runtime X E) : Bool := rt.recordingOpts.any RecordingOptions.stems

def reportRecordStatus (rt : Runtime X E) : Runtime X E :=
  match rt.recorder with
  | none => rt
  | some worker =>
    let status := recordStatus worker.state rt.stemsCfg
    { rt with core := rt.core.setRecordStatus status.1 status.2 }

/-- The host's start or stop. `spawned` is what comes of starting the thread, where there
is none yet. -/
def routeRecordCtl (rt : Runtime X E) (op : RecordOp) (unixSecs : UInt64)
    (spawned : Except String (Worker E)) : Runtime X E :=
  match rt.recordingOpts with
  | none =>
    { rt with
      core := rt.core.setRecordStatus (.failed "recording is not configured for this session") false }
  | some cfg =>
    match rt.recorder.elim spawned .ok with
    | .error err =>
      { rt with
        core := rt.core.setRecordStatus (.failed ("cannot start the recorder: " ++ err)) cfg.stems }
    | .ok worker =>
      let worker := match op with
        | .start => worker.start unixSecs (if cfg.stems then some rt.musicians else none)
        | .stop => worker.stop
      { rt with recorder := some worker }.reportRecordStatus

/-- Once a second. -/
def beatRecord (rt : Runtime X E) : Runtime X E := rt.reportRecordStatus

end Runtime

inductive RecordEvent (E : Encoding)
  | ctl (op : RecordOp) (unixSecs : UInt64) (spawned : Except String (Worker E))
  | beat
  /-- Whatever else happens to the worker: its thread's turns, and the ticks it is fed. -/
  | worker (a : Action E)

namespace Runtime

def step (rt : Runtime X E) : RecordEvent E → Runtime X E
  | .ctl op unixSecs spawned => rt.routeRecordCtl op unixSecs spawned
  | .beat => rt.beatRecord
  | .worker a => { rt with recorder := rt.recorder.map fun w => w.step a }

/-- The outcome an event reports. -/
def outcome (rt : Runtime X E) : RecordEvent E → Option (Protocol.RecordingState × Bool)
  | .ctl op unixSecs spawned =>
    match rt.recordingOpts with
    | none => some (.failed "recording is not configured for this session", false)
    | some cfg =>
      match rt.recorder.elim spawned .ok with
      | .error err => some (.failed ("cannot start the recorder: " ++ err), cfg.stems)
      | .ok worker =>
        let worker := match op with
          | .start => worker.start unixSecs (if cfg.stems then some rt.musicians else none)
          | .stop => worker.stop
        some (recordStatus worker.state rt.stemsCfg)
  | .beat => rt.recorder.map fun worker => recordStatus worker.state rt.stemsCfg
  | .worker _ => none

theorem step_core (rt : Runtime X E) (ev : RecordEvent E) :
    (rt.step ev).core = match rt.outcome ev with
      | none => rt.core
      | some status => rt.core.setRecordStatus status.1 status.2 := by
  obtain ⟨core, recordingOpts, recorder⟩ := rt
  cases ev with
  | ctl op unixSecs spawned =>
    simp only [step, outcome, routeRecordCtl]
    cases recordingOpts with
    | none => rfl
    | some cfg =>
      simp only
      generalize recorder.elim spawned Except.ok = started
      cases started with
      | error err => rfl
      | ok worker => rfl
  | beat =>
    cases recorder with
    | none => rfl
    | some worker => rfl
  | worker a => rfl

end Runtime

/-- A new status is taken by the link of every connected member that has room for it. -/
def TellsRoom (s s' : ServerCore X) : Prop :=
  (s'.recordStatus, s'.recordStems) ≠ (s.recordStatus, s.recordStems) →
    ∀ (id : MemberId) (m : Member X), s.members[id]? = some m → m.connected →
      m.link.pending.length < maxPending → ∃ m' : Member X,
        s'.members[id]? = some m' ∧
          m.link.send (.recordStatus s'.recordStatus s'.recordStems) = .ok m'.link

def reasonLen : Protocol.RecordingState → ℕ
  | .failed reason => reason.utf8ByteSize
  | _ => 0

def Tellable (s : ServerCore X) (status : Protocol.RecordingState × Bool) : Prop :=
  status = (s.recordStatus, s.recordStems) ∨ reasonLen status.1 ≤ maxRecordReasonLen ∨
    ∀ (id : MemberId) (m : Member X), s.members[id]? = some m → m.connected →
      maxPending ≤ m.link.pending.length

theorem checkLengths_recordStatus (state : Protocol.RecordingState) (stems : Bool) :
    checkLengths (.recordStatus state stems) = .ok () ↔ reasonLen state ≤ maxRecordReasonLen := by
  cases state with
  | idle => simp [checkLengths, reasonLen]
  | recording => simp [checkLengths, reasonLen]
  | uploading => simp [checkLengths, reasonLen]
  | failed reason =>
    simp only [checkLengths, reasonLen, refuseIf]
    split_ifs with h
    · simp only [false_iff]
      omega
    · simp only [true_iff]
      omega

theorem send_recordStatus (l : ControlLink) (state : Protocol.RecordingState) (stems : Bool)
    (hroom : l.pending.length < maxPending) :
    (∃ l', l.send (.recordStatus state stems) = .ok l') ↔ reasonLen state ≤ maxRecordReasonLen := by
  rw [← checkLengths_recordStatus state stems]
  constructor
  · rintro ⟨l', h⟩
    exact (ControlLink.send_ok h).1
  · intro h
    unfold ControlLink.send
    rw [h, if_neg (not_le.mpr hroom)]
    exact ⟨_, rfl⟩

theorem getElem?_relay (s : ServerCore X) (msg : ControlMsg) (id : MemberId) :
    (s.relay msg).members[id]? =
      s.members[id]?.map fun m => if m.connected then m.send msg else m := by
  show (s.members.map _)[id]? = _
  rw [Std.ExtTreeMap.getElem?_map]
  refine congrArg (fun f => (s.members[id]?).map f) (funext fun m => ?_)
  show (if m.connected then _ else _ : Member X × Outgoing × List Refusal).1 = _
  split_ifs
  · rfl
  · rfl

theorem setRecordStatus_tells_iff (s : ServerCore X) (state : Protocol.RecordingState)
    (stems : Bool) : TellsRoom s (s.setRecordStatus state stems) ↔ Tellable s (state, stems) := by
  unfold ServerCore.setRecordStatus
  split_ifs with hsame
  · obtain ⟨rfl, rfl⟩ := hsame
    exact ⟨fun _ => .inl rfl, fun _ hnew => absurd rfl hnew⟩
  · have hnew : (state, stems) ≠ (s.recordStatus, s.recordStems) :=
      fun h => hsame ⟨congrArg Prod.fst h, congrArg Prod.snd h⟩
    have htold : ∀ (id : MemberId) (m : Member X), s.members[id]? = some m → m.connected →
        m.link.pending.length < maxPending →
        ((∃ m' : Member X, (ServerCore.relay { s with recordStatus := state, recordStems := stems }
            (.recordStatus state stems)).members[id]? = some m' ∧
          m.link.send (.recordStatus state stems) = .ok m'.link) ↔
            reasonLen state ≤ maxRecordReasonLen) := by
      intro id m hm hconnected hroom
      rw [getElem?_relay, hm, Option.map_some, if_pos hconnected, ← send_recordStatus m.link _ stems hroom]
      unfold Member.send
      constructor
      · rintro ⟨m', -, hsent⟩
        exact ⟨m'.link, hsent⟩
      · rintro ⟨l', hsent⟩
        rw [hsent]
        exact ⟨_, rfl, rfl⟩
    constructor
    · intro h
      by_cases hfits : reasonLen state ≤ maxRecordReasonLen
      · exact .inr (.inl hfits)
      · refine .inr (.inr fun id m hm hconnected => ?_)
        by_contra hroom
        exact hfits ((htold id m hm hconnected (not_le.mp hroom)).mp
          (h hnew id m hm hconnected (not_le.mp hroom)))
    · rintro (h | h | h) - id m hm hconnected hroom
      · exact absurd h hnew
      · exact (htold id m hm hconnected hroom).mpr h
      · exact absurd hroom (not_lt.mpr (h id m hm hconnected))

/-- The status reaches the room. -/
theorem outcome_tells_room (rt : Runtime X E) (ev : RecordEvent E) :
    TellsRoom rt.core (rt.step ev).core ↔
      ∀ status, rt.outcome ev = some status → Tellable rt.core status := by
  rw [rt.step_core ev]
  cases rt.outcome ev with
  | none => exact ⟨fun _ _ h => absurd h (Option.some_ne_none _).symm, fun _ hnew => absurd rfl hnew⟩
  | some status =>
    refine (setRecordStatus_tells_iff rt.core status.1 status.2).trans ?_
    exact ⟨fun h _ hstatus => Option.some.inj hstatus ▸ h, fun h => h status rfl⟩

/-- The host is in, and the mix could not be opened, for a reason of 200 letters. -/
def unopened : Runtime plaintext Recorder.mute where
  core := run ServerCore.step (.start plaintext Plaintext.config none [])
    [.handleDatagram 0 0 (Plaintext.addrOf 0) (Plaintext.initOf 0 .musician) []]
  recordingOpts := some { stems := false }
  recorder := some (run Worker.step
    (.spawn Recorder.mute (fun _ => some (String.ofList (List.replicate 200 'x'))) false)
    [.start 0 none, .work])

theorem outcome_tells_room_long : ¬TellsRoom unopened.core (unopened.step .beat).core := by
  have hroom : (unopened.core.members[(0 : MemberId)]?.any fun m =>
      m.connected && decide (m.link.pending.length < maxPending)) = true := by
    decide +kernel
  have hstatus : (unopened.outcome .beat).any (fun status =>
      status ≠ (unopened.core.recordStatus, unopened.core.recordStems) &&
        decide (maxRecordReasonLen < reasonLen status.1)) = true := by
    decide +kernel
  have hcore := unopened.step_core .beat
  generalize unopened.outcome .beat = reported at hstatus hcore
  generalize unopened.step .beat = next at hcore ⊢
  generalize unopened.core = core at hroom hstatus hcore ⊢
  obtain ⟨m, hm, hopen⟩ := (Option.any_eq_true _ _).mp hroom
  obtain ⟨status, rfl, hlong⟩ := (Option.any_eq_true _ _).mp hstatus
  rw [Bool.and_eq_true, decide_eq_true_eq] at hopen hlong
  rw [hcore, setRecordStatus_tells_iff]
  rintro (h | h | h)
  · exact absurd h hlong.1
  · exact absurd h (not_le.mpr (of_decide_eq_true hlong.2))
  · exact absurd (h 0 m hm hopen.1) (not_le.mpr hopen.2)

end JamStream.Recording
