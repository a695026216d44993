import JamStream.Protocol.DatagramSize
import JamStream.Session.Fitting
import JamStream.Stream.Supervision

/-! What a broadcast reports to everyone in the session, and that the report is never too
large to go out. Every reason is cut where a state is set, so what holds of one destination
after each of its own steps holds of all of them, and of the message they travel in. -/

namespace JamStream.Stream
open Protocol Foundations Each Session
open Runs hiding run

def Brief : DestinationState → Prop
  | .failed reason => reason.utf8ByteSize ≤ streamReasonBudget
  | _ => True

theorem utf8ByteSize_fitStreamReason (reason : String) :
    (fitStreamReason reason).utf8ByteSize ≤ streamReasonBudget := by
  rw [fitStreamReason, utf8ByteSize_ofList]
  exact utf8Len_fitHead_le _ _

theorem brief_fitted (state : DestinationState) : Brief (fitted state) := by
  cases state with
  | failed reason => exact utf8ByteSize_fitStreamReason reason
  | _ => trivial

namespace Destination

theorem brief_setState {d : Destination} (h : Brief d.state) (state : DestinationState)
    (o : Outside) : Brief (d.setState state o).1.state := by
  unfold setState
  split_ifs
  · exact h
  · exact brief_fitted state

theorem brief_failed {d : Destination} (h : Brief d.state) (nowMs : UInt64) (reason : String)
    (o : Outside) : Brief (d.failed nowMs reason o).1.state := by
  unfold failed
  apply brief_setState
  exact h

theorem brief_readReport {d : Destination} (h : Brief d.state) (c : Conditions) (nowMs : UInt64)
    (o : Outside) : Brief (d.readReport c nowMs o).1.state := by
  unfold readReport
  by_cases hearly : nowMs < d.progressAtMs
  · rw [if_pos hearly]
    exact h
  · rw [if_neg hearly]
    split
    · split_ifs
      · apply brief_setState
        exact h
      · exact h
    · exact h
    · exact h

theorem brief_spawnPusher {d : Destination} (h : Brief d.state) (cfg : StreamConfig)
    (c : Conditions) (nowMs : UInt64) (o : Outside) :
    Brief (d.spawnPusher cfg c nowMs o).1.state := by
  unfold spawnPusher
  split
  · exact brief_setState h _ o
  · split
    · exact brief_failed h nowMs _ _
    · split
      · exact brief_failed h nowMs _ _
      · simp only
        split
        · apply brief_setState
          exact h
        · exact brief_failed h nowMs _ _

theorem brief_poll {d : Destination} (h : Brief d.state) (cfg : StreamConfig) (c : Conditions)
    (nowMs : UInt64) (encoding : Bool) (encoderReason : Option String) (o : Outside) :
    Brief (d.poll cfg c nowMs encoding encoderReason o).1.state := by
  unfold poll
  split
  · split
    · exact brief_readReport h c nowMs o
    · apply brief_failed
      exact h
  · unfold attempt
    split_ifs
    · split
      · exact brief_setState h _ o
      · exact h
    · exact h
    · exact brief_spawnPusher h cfg c nowMs o

theorem brief_replace {d : Destination} (h : Brief d.state) (c : Conditions)
    (platform : StreamPlatform) (key : String) (o : Outside) :
    Brief (d.replace c platform key o).1.state := by
  unfold replace
  apply brief_setState
  exact h

theorem brief_idle {d : Destination} (h : Brief d.state) (c : Conditions) (o : Outside) :
    Brief (d.idle c o).1.state := by
  unfold idle
  apply brief_setState
  exact h

end Destination

theorem each_brief {f : Destination → Outside → Destination × Outside}
    (hf : ∀ d o, Brief d.state → Brief (f d o).1.state) {ds : List Destination}
    (hds : ∀ d ∈ ds, Brief d.state) (o : Outside) :
    (each f ds o).1.length = ds.length ∧ ∀ d ∈ (each f ds o).1, Brief d.state := by
  induction ds generalizing o with
  | nil => exact ⟨rfl, hds⟩
  | cons d ds ih =>
    obtain ⟨hlen, hrest⟩ := ih (fun e he => hds e (List.mem_cons_of_mem d he)) (f d o).2
    rw [each_cons]
    refine ⟨?_, ?_⟩
    · rw [List.length_cons, List.length_cons, hlen]
    · exact List.forall_mem_cons.mpr ⟨hf d o (hds d List.mem_cons_self), hrest⟩

structure Rates where
  videoKbps : UInt32
  audioKbps : UInt32

def Rates.totalKbps (r : Rates) : UInt32 := r.videoKbps + r.audioKbps

namespace Pipeline

/-- What a status can carry whole: few enough destinations, each with a brief reason. -/
structure Reportable (s : Pipeline) : Prop where
  count : s.dests.length ≤ maxDestinations
  brief : ∀ d ∈ s.dests, Brief d.state

def status (s : Pipeline) (rates : Rates) : List DestinationStatus :=
  s.dests.map fun d =>
    { id := d.id, platform := d.platform, state := d.state, bitrateKbps := rates.totalKbps
      droppedFrames := UInt64.ofNat s.droppedFrames
      repeatedFrames := UInt64.ofNat s.repeatedFrames }

theorem reportable_new (cfg : StreamConfig) : (new cfg).Reportable where
  count := Nat.zero_le _
  brief _ hd := absurd hd List.not_mem_nil

theorem Reportable.of_dests {s s' : Pipeline} (h : s.Reportable) (hdests : s'.dests = s.dests) :
    s'.Reportable where
  count := hdests ▸ h.count
  brief := hdests ▸ h.brief

theorem Reportable.eachDestination {s : Pipeline} (h : s.Reportable)
    {f : Destination → Outside → Destination × Outside}
    (hf : ∀ d o, Brief d.state → Brief (f d o).1.state) : (s.eachDestination f).Reportable := by
  obtain ⟨hlen, hbrief⟩ := each_brief hf h.brief s.outside
  exact ⟨hlen.le.trans h.count, hbrief⟩

theorem dests_dropEncoder (s : Pipeline) : s.dropEncoder.dests = s.dests := by
  unfold dropEncoder
  cases s.encoder <;> rfl

theorem dests_pollEncoder (s : Pipeline) (c : Conditions) (nowMs : UInt64) :
    (s.pollEncoder c nowMs).dests = s.dests := by
  unfold pollEncoder
  split
  · split
    · split_ifs <;> rfl
    · exact dests_dropEncoder s
  · split_ifs
    · rfl
    · unfold spawnEncoder
      split <;> rfl

theorem Reportable.poll {s : Pipeline} (h : s.Reportable) (c : Conditions) (nowMs : UInt64) :
    (s.poll c nowMs).Reportable := by
  unfold Pipeline.poll
  split_ifs
  · refine (h.of_dests (dests_pollEncoder s c nowMs)).eachDestination fun d o hd => ?_
    exact Destination.brief_poll hd _ c nowMs _ _ o
  · exact h

theorem Reportable.addDestination {s : Pipeline} (h : s.Reportable) (c : Conditions)
    (nowMs : UInt64) (id : DestinationId) (platform : StreamPlatform) (key : String) :
    (s.addDestination c nowMs id platform key).2.Reportable := by
  unfold Pipeline.addDestination
  split
  · exact h
  · split
    · rename_i hon
      obtain ⟨pre, d, post, hdests, -, hr⟩ := onDestination_eq_some hon
      obtain ⟨rfl, rfl⟩ := Prod.mk.inj hr
      apply Reportable.poll
      have hcount := h.count
      have hbrief := h.brief
      rw [hdests] at hcount hbrief
      constructor
      · simpa only [List.length_append, List.length_cons] using hcount
      · intro e he
        rcases List.mem_append.mp he with hpre | htail
        · exact hbrief e (List.mem_append_left _ hpre)
        · rcases List.mem_cons.mp htail with rfl | hpost
          · exact Destination.brief_replace (hbrief d (by simp)) c platform key s.outside
          · exact hbrief e (List.mem_append_right _ (List.mem_cons_of_mem d hpost))
    · split_ifs with hfull
      · exact h
      · apply Reportable.poll
        constructor
        · show (s.dests ++ [Destination.new id platform key]).length ≤ maxDestinations
          rw [List.length_append, List.length_singleton]
          omega
        · intro e he
          rcases List.mem_append.mp he with hold | hnew
          · exact h.brief e hold
          · rw [List.mem_singleton.mp hnew]
            trivial

theorem Reportable.removeDestination {s : Pipeline} (h : s.Reportable) (c : Conditions)
    (id : DestinationId) : (s.removeDestination c id).2.Reportable := by
  unfold Pipeline.removeDestination
  split
  · exact h
  · exact ⟨(List.length_eraseP_le ..).trans h.count,
      fun e he => h.brief e (List.mem_of_mem_eraseP he)⟩

theorem dests_stopEncoder (s : Pipeline) : s.stopEncoder.dests = s.dests := by
  unfold stopEncoder
  split
  · exact dests_dropEncoder s
  · rfl

theorem Reportable.stop {s : Pipeline} (h : s.Reportable) (c : Conditions) :
    (s.stop c).Reportable := by
  have hstopped : { s with started := false }.Reportable := h.of_dests rfl
  have hidle := hstopped.eachDestination fun d o hd => Destination.brief_idle hd c o
  exact hidle.of_dests (dests_stopEncoder _)

theorem dests_pushFrames (w : Writes) (nowMs : UInt64) (rendered : Bool) (frames : List ℕ)
    (s : Pipeline) : (pushFrames w nowMs rendered frames s).dests = s.dests := by
  induction frames generalizing rendered s with
  | nil => rfl
  | cons frame frames ih =>
    have hcounted : (if rendered then { s with repeatedFrames := s.repeatedFrames + 1 }
        else s).dests = s.dests := by
      split_ifs <;> rfl
    rw [pushFrames]
    split
    · exact (ih _ _).trans hcounted
    · exact (ih _ _).trans hcounted
    · exact (dests_dropEncoder _).trans hcounted

theorem dests_pushTick (s : Pipeline) (w : Writes) (nowMs : UInt64) (samples : ℕ) :
    (s.pushTick w nowMs samples).dests = s.dests := by
  unfold pushTick
  split
  · rfl
  · split
    · exact dests_dropEncoder s
    · exact dests_pushFrames w nowMs false _ _

theorem Reportable.step {s : Pipeline} (h : s.Reportable) (e : Event) : (s.step e).Reportable := by
  cases e with
  | apply c nowMs op =>
    cases op with
    | addDestination id platform key => exact h.addDestination c nowMs id platform key
    | removeDestination id => exact h.removeDestination c id
    | start =>
      have hstarted : { s with started := true, encoderRetryAtMs := none }.Reportable :=
        h.of_dests rfl
      exact hstarted.poll c nowMs
    | stop => exact h.stop c
  | poll c nowMs => exact h.poll c nowMs
  | pushTick w nowMs samples => exact h.of_dests (dests_pushTick s w nowMs samples)
  | exits proc reason => exact h.of_dests rfl
  | writes proc text => exact h.of_dests rfl

theorem wireLen_status_le {d : DestinationStatus} (h : Brief d.state) : d.wireLen ≤ 160 := by
  have hstate : d.state.wireLen ≤ 131 := by
    cases hd : d.state with
    | failed reason =>
      rw [hd] at h
      have hlen : ¬streamReasonBudget < reason.utf8ByteSize := Nat.not_lt.mpr h
      have htext := textLen_le hlen (by decide)
      simp only [DestinationState.wireLen, streamReasonBudget] at htext ⊢
      omega
    | _ => simp [DestinationState.wireLen]
  have hid := varintLen_u16 d.id
  have hrate := varintLen_u32 d.bitrateKbps
  have hdropped := varintLen_u64 d.droppedFrames
  have hrepeated := varintLen_u64 d.repeatedFrames
  unfold DestinationStatus.wireLen
  omega

theorem wireLen_streamStatus_le {s : Pipeline} (h : s.Reportable) (rates : Rates) :
    (ControlMsg.streamStatus (s.status rates)).wireLen ≤ 1282 := by
  have hlen : (s.status rates).length ≤ 8 := by
    rw [status, List.length_map]
    exact h.count
  have hsum := List.sum_le_card_nsmul ((s.status rates).map DestinationStatus.wireLen) 160 (by
    intro n hn
    obtain ⟨d, hd, rfl⟩ := List.mem_map.mp hn
    obtain ⟨dest, hdest, rfl⟩ := List.mem_map.mp hd
    exact wireLen_status_le (h.brief dest hdest))
  have hcount := varintLen_le (k := 1) (n := (s.status rates).length) (by omega) (by norm_num)
  rw [List.length_map, smul_eq_mul] at hsum
  simp only [ControlMsg.wireLen]
  omega

theorem checkLengths_status {s : Pipeline} (h : s.Reportable) (rates : Rates) :
    checkLengths (.streamStatus (s.status rates)) = .ok () := by
  refine refuseIf_ok.mpr (not_or.mpr ⟨?_, ?_⟩)
  · rw [status, List.length_map]
    exact Nat.not_lt.mpr h.count
  · rintro ⟨d, hd, hbad⟩
    obtain ⟨dest, hdest, rfl⟩ := List.mem_map.mp hd
    have hbrief := h.brief dest hdest
    have hcap : streamReasonBudget ≤ maxStreamReasonLen := by decide
    cases hstate : dest.state with
    | failed reason =>
      rw [hstate] at hbrief
      simp only [hstate, DestinationState.badReason, decide_eq_true_eq] at hbad
      exact absurd (hbrief.trans hcap) (Nat.not_le.mpr hbad)
    | _ => simp [hstate, DestinationState.badReason] at hbad

/-- Whatever happened to a broadcast, its status passes the length rules and fits a packet
that no path fragments; and a reason is cut to its head, whole characters of it. -/
theorem status_goes_whole (cfg : StreamConfig) (rates : Rates) (events : List Event) :
    let s := Runs.run step (new cfg) events
    checkLengths (.streamStatus (s.status rates)) = .ok () ∧
    (∀ (l : ControlLink) (p : Pending), p.msg = .streamStatus (s.status rates) →
      sealedLen (Protocol.encode Postcard.ctlPacket (l.framePacket p)) ≤ 1472) ∧
    ∀ (text : List Char) (cap : ℕ), ∃ head, cutHead text cap = some head ∧ head <+: text ∧
      utf8Len head ≤ cap := by
  intro s
  have hs : s.Reportable := run_invariant (fun s e h => h.step e) (reportable_new cfg) events
  refine ⟨checkLengths_status hs rates, ?_, ?_⟩
  · intro l p hp
    have hmsg := wireLen_streamStatus_le hs rates
    have hack := varintLen_u64 l.recvNext
    have hbits := varintLen_u32 l.ackBits
    have hseq := varintLen_u64 p.seq
    rw [sealedLen_encode Postcard.ctlPacket_sized]
    simp only [CtlPacket.wireLen, ControlLink.framePacket, Option.elim_some, hp]
    omega
  · intro text cap
    exact ⟨fitHead cap text, cutHead_eq text cap, fitHead_prefix cap text,
      utf8Len_fitHead_le cap text⟩

end Pipeline
end JamStream.Stream
