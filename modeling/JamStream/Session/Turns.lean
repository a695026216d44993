import JamStream.Session.Control

/-! Everything a control message can do, said once: handling one is a sequence of
turns, each of a kind that names what it touches and who may cause it. Every law
about control traffic is a case analysis over these kinds. -/

namespace JamStream.Session
open Protocol Engine Foundations Relation
open Std (ExtTreeMap)
variable {X : Externals}

def Answers (sender : MemberId) : ControlMsg → ControlMsg → Prop
  | .chat _ text, m => m = .chat sender text
  | .metronomeSet bpm beatsPerBar enabled, m => m = .metronomeSet bpm beatsPerBar enabled
  | .broadcastMixSet target gainDb pan muted, m =>
    m = .broadcastMixSet target (clampGain gainDb) (clampPan pan) muted
  | .ping nonce sentMs, m => m = .pong nonce sentMs
  | .setAvatar hash _, m => m = .avatarRequest hash
  | .avatarRequest hash, m => m = .avatarRequest hash
  | _, _ => False

def ServerEvent.IsHostOnly : ServerEvent → Prop
  | .tokenRevoked _ | .streamCtl _ | .recordCtl _ => True
  | _ => False

def ServerEvent.count? : ServerEvent → Option ℕ
  | .musicianCountChanged count => some count
  | _ => none

namespace Member

/-- `m` with what a member sets about themselves, and what their messages cost them,
as `m'` has it. -/
def settings (m m' : Member X) : Member X :=
  { m with
    faders := m'.faders, clickEnabled := m'.clickEnabled, hearSelf := m'.hearSelf
    name := m'.name, rttMsLast := m'.rttMsLast, avatar := m'.avatar
    violations := m'.violations, violationBudget := m'.violationBudget
    fanoutBudget := m'.fanoutBudget }

def trains (m m' : Member X) : Member X :=
  { m with avatarRx := m'.avatarRx, avatarTx := m'.avatarTx }

end Member

namespace ServerCore

/-- One turn in handling `msg`; `live` says the sender was connected when it came, and
`leaving` that it may cost somebody their connection. -/
inductive Turn (nowMs : UInt64) (sender : MemberId) (live leaving : Prop) (msg : ControlMsg) :
    ServerCore X → ServerCore X → Prop
  | settings (s : ServerCore X) (f : Member X → Member X) (hf : ∀ m, f m = m.settings (f m)) :
      Turn nowMs sender live leaving msg s (s.update sender f)
  | trains (s : ServerCore X) (id : MemberId) (f : Member X → Member X)
      (hf : ∀ m, f m = m.trains (f m)) (hlive : live → s.isConnected id) :
      Turn nowMs sender live leaving msg s (s.update id f)
  | queue (s : ServerCore X) (id : MemberId) (m : ControlMsg) (hm : Answers sender msg m) :
      Turn nowMs sender live leaving msg s (s.queue id m)
  | relay (s : ServerCore X) (m : ControlMsg) (hm : Answers sender msg m) :
      Turn nowMs sender live leaving msg s (s.relay m)
  | emit (s : ServerCore X) (event : ServerEvent) (hcount : event.count? = none)
      (hhost : event.IsHostOnly → sender = hostMemberId) :
      Turn nowMs sender live leaving msg s (s.emit event)
  | roster (s : ServerCore X) : Turn nowMs sender live leaving msg s s.queueRoster
  | store (s : ServerCore X) (cache : AvatarCache)
      (waiters : ExtTreeMap AvatarHash (List MemberId)) :
      Turn nowMs sender live leaving msg s { s with avatarCache := cache, avatarWaiters := waiters }
  | host (s : ServerCore X) (metronome : Metronome) (enabled : Bool)
      (faders : ExtTreeMap MemberId Fader) (hhost : sender = hostMemberId) :
      Turn nowMs sender live leaving msg s
        { s with metronome, metronomeEnabled := enabled, bcastFaders := faders }
  | audition (s : ServerCore X) (on : Bool) (hhost : sender = hostMemberId)
      (hlive : live → s.isConnected sender) :
      Turn nowMs sender live leaving msg s { s with audition := on }
  | leave (s : ServerCore X) (event : ServerEvent) (hcount : event.count? = none)
      (hhost : ¬event.IsHostOnly) (hleave : leaving) :
      Turn nowMs sender live leaving msg s
        (((s.disconnectMember sender).emit event).queueRoster).noteMusicianCount
  | revoke (s : ServerCore X) (jti : TokenId) (hhost : sender = hostMemberId)
      (hmsg : msg = .revoke jti) (hleave : leaving) :
      Turn nowMs sender live leaving msg s (s.revoke nowMs jti).1

abbrev Turns (nowMs : UInt64) (sender : MemberId) (live leaving : Prop) (msg : ControlMsg) :
    ServerCore X → ServerCore X → Prop :=
  ReflTransGen (Turn nowMs sender live leaving msg)

variable {nowMs : UInt64} {sender : MemberId} {live leaving : Prop} {msg : ControlMsg}
  {s : ServerCore X}

theorem Turn.turns {s' : ServerCore X} (h : Turn nowMs sender live leaving msg s s') :
    Turns nowMs sender live leaving msg s s' := .single h

theorem isConnected_iff {id : MemberId} :
    s.isConnected id ↔ ∃ m, s.members[id]? = some m ∧ m.connected := Option.any_eq_true _ _

theorem isConnected_update {s : ServerCore X} {f : Member X → Member X} {id id' : MemberId}
    (hf : ∀ m, (f m).connected = m.connected) :
    (s.update id f).isConnected id' = s.isConnected id' := by
  unfold isConnected update
  rw [OrderedMap.getElem?_modify]
  split_ifs
  · cases s.members[id']? with
    | none => rfl
    | some m => exact hf m
  · rfl


theorem violation_turns (hleave : leaving) (s : ServerCore X) (what : String) :
    Turns nowMs sender live leaving msg s (s.violation nowMs sender what) := by
  simp only [violation]
  split
  · exact .single (.emit s _ rfl False.elim)
  · -- the charge itself, the event that reports it, and perhaps the ejection
    split_ifs
    · refine .tail (.single (.settings s _ ?_)) (.emit _ _ rfl False.elim)
      exact fun _ => rfl
    · refine .tail (.tail (.single (.settings s _ ?_)) (.emit _ _ rfl False.elim))
        (.leave _ _ rfl id hleave)
      exact fun _ => rfl

theorem takeFanout_turns (hleave : leaving) (s : ServerCore X) :
    Turns nowMs sender live leaving msg s (s.takeFanout nowMs sender).1 := by
  simp only [takeFanout]
  split
  · exact .refl
  · split_ifs
    · exact .single (.settings s _ fun _ => rfl)
    · refine .trans (.single (.settings s _ ?_)) (violation_turns hleave _ _)
      exact fun _ => rfl

theorem takeFanout_connected (h : (s.takeFanout nowMs sender).2) (id : MemberId) :
    (s.takeFanout nowMs sender).1.isConnected id = s.isConnected id := by
  simp only [takeFanout] at h ⊢
  split at h
  · exact absurd h Bool.false_ne_true
  · split_ifs at h ⊢
    exact isConnected_update fun _ => rfl

theorem pullAvatar_turns (s : ServerCore X) {owner : MemberId} {hash : AvatarHash}
    (len : UInt32) (hm : Answers sender msg (.avatarRequest hash))
    (hlive : live → s.isConnected owner) :
    Turns nowMs sender live leaving msg s (s.pullAvatar owner hash len) := by
  refine .tail (.single (.trains s owner _ ?_ hlive)) (.queue _ _ _ hm)
  exact fun _ => rfl

theorem announceAvatar_turns (s : ServerCore X) {hash : AvatarHash} (len : UInt32)
    (unchanged : Bool) (hm : Answers sender msg (.avatarRequest hash))
    (hlive : live → s.isConnected sender) :
    Turns nowMs sender live leaving msg s (s.announceAvatar sender hash len unchanged) := by
  simp only [announceAvatar]
  split
  · split_ifs
    · exact .single (.store s _ _)
    · exact .refl
  · rename_i m _
    let t := s.update sender fun m => { m with avatar := some (hash, len) }
    have hnamed : Turns nowMs sender live leaving msg s t := .single (.settings s _ fun _ => rfl)
    have hlive' : live → t.isConnected sender := by
      have hsame : t.isConnected sender = s.isConnected sender := isConnected_update fun _ => rfl
      rwa [hsame]
    -- the upload is ended, left alone or started
    have hupload : Turns nowMs sender live leaving msg t
        (if s.avatarCache.contains hash then
          (t.touchAvatar hash).update sender fun m => { m with avatarRx := none }
        else if unchanged && m.avatarRx.any fun rx => rx.hash = hash then t
        else t.pullAvatar sender hash len) := by
      split_ifs
      · exact .tail (.single (.store t _ _)) (.trains _ sender _ (fun _ => rfl) hlive')
      · exact .refl
      · exact pullAvatar_turns t len hm hlive'
    cases unchanged with
    | true => exact hnamed.trans hupload
    | false => exact (hnamed.trans hupload).tail (.roster _)

theorem setAvatar_turns (hleave : leaving) (s : ServerCore X) (hash : AvatarHash) (len : UInt32)
    (hm : Answers sender msg (.avatarRequest hash)) (hlive : live → s.isConnected sender) :
    Turns nowMs sender live leaving msg s (s.setAvatar nowMs sender hash len) := by
  simp only [setAvatar]
  split_ifs with _ _ htaken
  · exact violation_turns hleave s _
  · exact announceAvatar_turns s len true hm hlive
  · refine (takeFanout_turns hleave s).trans (announceAvatar_turns _ len false hm ?_)
    rwa [takeFanout_connected htaken]
  · exact takeFanout_turns hleave s

theorem serve_turns (hash : AvatarHash) (waiting : List MemberId) (s : ServerCore X) :
    Turns nowMs sender live leaving msg s
      (waiting.foldl (fun s id => if s.isConnected id then s.startTrain id hash else s) s) := by
  induction waiting generalizing s with
  | nil => exact .refl
  | cons id rest ih =>
    rw [List.foldl_cons]
    refine .trans ?_ (ih _)
    split_ifs with hid
    · exact .single (.trains s id _ (fun _ => rfl) fun _ => hid)
    · exact .refl

theorem avatarChunk_turns (hleave : leaving) (s : ServerCore X) (hash : AvatarHash)
    (index total : UInt16) (data : Bytes) (hlive : live → s.isConnected sender) :
    Turns nowMs sender live leaving msg s (s.avatarChunk nowMs sender hash index total data) := by
  simp only [avatarChunk]
  split
  · exact .refl
  · rename_i m _
    let t := s.update sender fun m' =>
      { m' with avatarRx := (takeChunk X m.avatarRx hash index total data).1 }
    have ht : Turns nowMs sender live leaving msg s t := .single (.trains s sender _ (fun _ => rfl) hlive)
    split
    · exact ht
    · exact (ht.tail (.store t _ _)).trans (serve_turns _ _ _)
    · exact ht.trans (violation_turns hleave t _)

theorem noteAvatarWaiter_store (s : ServerCore X) (hash : AvatarHash) (waiter : MemberId) :
    ∃ waiters, s.noteAvatarWaiter hash waiter = { s with avatarWaiters := waiters } := by
  simp only [noteAvatarWaiter]
  split_ifs <;> exact ⟨_, rfl⟩

theorem avatarRequest_turns (s : ServerCore X) {hash : AvatarHash}
    (hm : Answers sender msg (.avatarRequest hash)) (hlive : live → s.isConnected sender) :
    Turns nowMs sender live leaving msg s (s.avatarRequest sender hash) := by
  simp only [avatarRequest]
  split_ifs with hcached hqueued
  · exact .tail (.single (.store s _ _)) (.trains _ sender _ (fun _ => rfl) hlive)
  · exact .single (.store s _ _)
  · split
    · exact .refl
    · rename_i owner len _
      obtain ⟨waiters, hw⟩ := noteAvatarWaiter_store s hash sender
      have hnoted : Turns nowMs sender live leaving msg s (s.noteAvatarWaiter hash sender) := by
        rw [hw]
        exact .single (.store s _ _)
      split_ifs with hidle
      · refine hnoted.trans (pullAvatar_turns _ len hm fun _ => ?_)
        rw [hw]
        obtain ⟨o, ho, hidle⟩ := (Option.any_eq_true _ _).mp hidle
        exact isConnected_iff.mpr ⟨o, ho, (Bool.and_eq_true_iff.mp hidle).1⟩
      · exact hnoted

theorem hostOnly_turns (hleave : leaving) {s t : ServerCore X} (what : String)
    (ht : sender = hostMemberId → Turns nowMs sender live leaving msg s t) :
    Turns nowMs sender live leaving msg s (s.hostOnly nowMs sender what t) := by
  unfold hostOnly
  split_ifs with hhost
  · exact violation_turns hleave s what
  · exact ht (not_not.mp hhost)

theorem handleControl_turns (s : ServerCore X) (nowMs : UInt64) (sender : MemberId)
    (msg : ControlMsg) :
    Turns nowMs sender (s.isConnected sender = true) True msg s (s.handleControl nowMs sender msg).1 := by
  cases msg with
  | chat claimed text =>
    simp only [handleControl]
    split_ifs
    · exact (takeFanout_turns trivial s).tail (.relay _ _ rfl)
    · exact takeFanout_turns trivial s
  | mixerSet target gainDb pan muted =>
    simp only [handleControl]
    split_ifs
    · exact violation_turns trivial s _
    · exact .single (.settings s _ fun _ => rfl)
  | metronomeSet bpm beatsPerBar enabled =>
    refine hostOnly_turns trivial _ fun hhost => ?_
    exact .tail (.single (.host s _ _ _ hhost)) (.relay _ _ rfl)
  | clickEnable enabled => exact .single (.settings s _ fun _ => rfl)
  | hearSelf enabled =>
    simp only [handleControl, hearSelf]
    split
    · exact .refl
    · split_ifs
      · exact violation_turns trivial s _
      · exact .single (.settings s _ fun _ => rfl)
  | broadcastMixSet target gainDb pan muted =>
    refine hostOnly_turns trivial _ fun hhost => ?_
    split_ifs
    · exact violation_turns trivial s _
    · exact .tail (.single (.host s _ _ _ hhost)) (.relay _ _ rfl)
  | broadcastAudition enabled =>
    refine hostOnly_turns trivial _ fun hhost => ?_
    exact .single (.audition s _ hhost id)
  | ping nonce sentMs => exact .single (.queue s sender _ rfl)
  | pong nonce sentMs => exact .single (.settings s _ fun _ => rfl)
  | revoke jti =>
    simp only [handleControl]
    split_ifs with hhost
    · exact violation_turns trivial s _
    · exact .single (.revoke s jti (not_not.mp hhost) rfl trivial)
  | bye reason =>
    simp only [handleControl, bye]
    split_ifs
    · exact .single (.leave s _ rfl id trivial)
    · exact .refl
  | setAvatar hash len => exact setAvatar_turns trivial s hash len rfl id
  | avatarChunk hash index total data => exact avatarChunk_turns trivial s hash index total data id
  | avatarRequest hash => exact avatarRequest_turns s rfl id
  | streamCtl op =>
    refine hostOnly_turns trivial _ fun hhost => ?_
    have haccept : Turns nowMs sender (s.isConnected sender = true) True (.streamCtl op) s
        (s.emit (.streamCtl op)) := .single (.emit s _ rfl fun _ => hhost)
    cases op with
    | addDestination id platform key =>
      show Turns _ _ _ _ _ s (if _ then _ else _)
      split_ifs
      · exact violation_turns trivial s _
      · exact haccept
    | removeDestination id => exact haccept
    | start => exact haccept
    | stop => exact haccept
  | recordCtl op =>
    refine hostOnly_turns trivial _ fun hhost => ?_
    exact .single (.emit s _ rfl fun _ => hhost)
  | setName name =>
    simp only [handleControl, setName]
    split_ifs
    · exact .refl
    · refine .tail (.single (.settings s _ ?_)) (.roster _)
      exact fun _ => rfl
    · exact .refl
  | roster members => exact violation_turns trivial s _
  | stats loss depth recovered => exact violation_turns trivial s _
  | streamStatus destinations => exact violation_turns trivial s _
  | recordStatus state stems => exact violation_turns trivial s _
  | broadcastReadiness state => exact violation_turns trivial s _
  | serverLog line => exact violation_turns trivial s _

end ServerCore
end JamStream.Session
