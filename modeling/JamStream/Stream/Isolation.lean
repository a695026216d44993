import JamStream.Stream.Supervision

/-! One destination left out of a run. Whatever is done for another destination or for the
encoder reads and writes only what is theirs, so it comes out the same over a state from
which everything that belongs to the one was taken away. -/

namespace JamStream.Stream
open Protocol Foundations Each Runs

namespace Outside

/-- What a destination has outside is gone, and never was. -/
def without (x : DestinationId) (o : Outside) : Outside :=
  { procs := fun p => if p.task = .pusher x then none else o.procs p
    spawned := fun t => if t = .pusher x then 0 else o.spawned t
    progress := fun id => if id = x then none else o.progress id
    log := o.log.filter (·.task ≠ .pusher x)
    events := o.events.filter (·.task ≠ .pusher x) }

def lacking {β : Type} (x : DestinationId) (r : β × Outside) : β × Outside := (r.1, r.2.without x)

variable {x id : DestinationId} {o o' : Outside} {t : Task}

theorem filter_append_of_none {β : Type} {p : β → Bool} (xs : List β) {ys : List β}
    (h : ∀ y ∈ ys, p y = false) : (xs ++ ys).filter p = xs.filter p := by
  have hnil : ys.filter p = [] := List.filter_eq_nil_iff.mpr (by simpa using h)
  rw [List.filter_append, hnil, List.append_nil]

theorem update_hidden {β γ : Type} [DecidableEq β] (c : β → Prop) [DecidablePred c] {b : β}
    (h : ¬ c b) (f : β → γ) (z v : γ) :
    Function.update (fun a => if c a then z else f a) b v =
      fun a => if c a then z else Function.update f b v a := by
  funext a
  simp only [Function.update_apply]
  split_ifs with hab hc
  · exact absurd (hab ▸ hc) h
  · rfl
  · rfl
  · rfl

theorem Only.without (h : Only (.pusher x) o o') : o'.without x = o.without x := by
  obtain ⟨acts, hlog, hacts⟩ := h.log
  obtain ⟨events, heq, hevents⟩ := h.events
  unfold Outside.without
  congr 1
  · funext p
    split_ifs with hp
    · rfl
    · exact h.procs p hp
  · funext t
    split_ifs with ht
    · rfl
    · exact h.spawned t ht
  · funext id
    split_ifs with hid
    · rfl
    · exact h.progress id (by simpa using hid)
  · rw [hlog, filter_append_of_none]
    exact fun a ha => by simp [hacts a ha]
  · rw [heq, filter_append_of_none]
    exact fun e he => by simp [hevents e he]

theorem without_new (x : DestinationId) : Outside.new.without x = .new := by
  simp [Outside.without, Outside.new]

theorem emit_without (event : PipelineEvent) (h : event.task ≠ .pusher x) (o : Outside) :
    (o.without x).emit event = (o.emit event).without x := by
  simp [Outside.emit, Outside.without, h]

theorem poll_without {p : ProcId} (h : p.task ≠ .pusher x) (o : Outside) :
    (o.without x).poll p = o.poll p := by
  simp [Outside.poll, Outside.without, h]

theorem kill_without {p : ProcId} (h : p.task ≠ .pusher x) (o : Outside) :
    (o.without x).kill p = (o.kill p).without x := by
  have hprocs : (o.without x).procs p = o.procs p := by simp [Outside.without, h]
  unfold Outside.kill
  rw [hprocs]
  split
  · rfl
  · refine Outside.ext (update_hidden (fun p : ProcId => p.task = .pusher x) h _ _ _) rfl rfl ?_ rfl
    simp [Outside.without, Act.task, h]

theorem spawn_without (spec : ProcSpec) (h : spec.label.task ≠ .pusher x) (o : Outside)
    (fails : Option IoError) :
    (o.without x).spawn spec fails = lacking x (o.spawn spec fails) := by
  cases fails with
  | some err => rfl
  | none =>
    have hspawned : (o.without x).spawned spec.label.task = o.spawned spec.label.task := by
      simp [Outside.without, h]
    simp only [Outside.spawn, hspawned, lacking]
    refine Prod.ext rfl (Outside.ext ?_ ?_ rfl ?_ rfl)
    · exact update_hidden (fun p : ProcId => p.task = .pusher x) h _ _ _
    · exact update_hidden (· = Task.pusher x) h _ _ _
    · simp [Outside.without, Act.task, h]

theorem clearProgress_without (h : id ≠ x) (o : Outside) (fails : Option String) :
    (o.without x).clearProgress id fails = lacking x (o.clearProgress id fails) := by
  cases fails with
  | some err => rfl
  | none => exact Prod.ext rfl (Outside.ext rfl rfl (update_hidden (· = x) h _ _ _) rfl rfl)

theorem progress_without (h : id ≠ x) (o : Outside) :
    (o.without x).progress id = o.progress id := if_neg h

theorem pushed_without (h : id ≠ x) (o : Outside) : (o.without x).pushed id = o.pushed id := by
  unfold Outside.pushed
  rw [progress_without h]

theorem sawBlock_without (h : id ≠ x) (o : Outside) :
    (o.without x).sawBlock id = (o.sawBlock id).without x := by
  have hkept : ∀ a ∈ (o.progress id).toList.map (fun file => Act.sawBlock id file.writers),
      decide (a.task ≠ .pusher x) = true := by
    intro a ha
    obtain ⟨file, _, rfl⟩ := List.mem_map.mp ha
    simpa [Act.task] using h
  unfold Outside.sawBlock
  rw [progress_without h]
  refine Outside.ext rfl rfl rfl ?_ rfl
  change _ = List.filter _ _
  rw [List.filter_append, List.filter_eq_self.mpr hkept]
  rfl

theorem trimProgress_without (h : id ≠ x) (o : Outside) (opens : Bool) :
    (o.without x).trimProgress id opens = (o.trimProgress id opens).without x := by
  unfold Outside.trimProgress
  rw [progress_without h]
  split
  · exact Outside.ext rfl rfl (update_hidden (· = x) h _ _ _) rfl rfl
  · rfl

theorem exits_without {p : ProcId} (h : p.task ≠ .pusher x) (o : Outside) (reason : String) :
    (o.without x).exits p reason = (o.exits p reason).without x := by
  have hprocs : (o.without x).procs p = o.procs p := by simp [Outside.without, h]
  unfold Outside.exits
  rw [hprocs]
  split
  · exact Outside.ext (update_hidden (fun p : ProcId => p.task = .pusher x) h _ _ _) rfl rfl rfl rfl
  · rfl

theorem writes_without {p : ProcId} (h : p.task ≠ .pusher x) (o : Outside) (text : List Char) :
    (o.without x).writes p text = (o.writes p text).without x := by
  have hprocs : (o.without x).procs p = o.procs p := by simp [Outside.without, h]
  unfold Outside.writes
  rw [hprocs]
  split
  · rfl
  · next id htask =>
    have hid : id ≠ x := fun heq => h (heq ▸ htask)
    rw [progress_without hid]
    split
    · exact Outside.ext rfl rfl (update_hidden (· = x) hid _ _ _) rfl rfl
    · rfl

end Outside

open Outside

namespace Destination
variable {x : DestinationId} {d : Destination}

theorem setState_without (h : d.id ≠ x) (state : DestinationState) (o : Outside) :
    d.setState state (o.without x) = lacking x (d.setState state o) := by
  unfold setState
  split
  · rfl
  · rw [emit_without _ (by simpa [PipelineEvent.task] using h)]
    rfl

theorem failed_without (h : d.id ≠ x) (nowMs : UInt64) (reason : String) (o : Outside) :
    d.failed nowMs reason (o.without x) = lacking x (d.failed nowMs reason o) :=
  setState_without (d := { d with
    backoff := d.backoff.fail.1, retryAtMs := some (nowMs + d.backoff.fail.2) }) h _ o

def Own (d : Destination) : Prop := ∀ p, d.proc = some p → p.task = .pusher d.id

theorem Own.task_ne (h : d.Own) (hx : d.id ≠ x) {p : ProcId} (hp : d.proc = some p) :
    p.task ≠ .pusher x := by
  rw [h p hp]
  simpa using hx

theorem stop_without (hown : d.Own) (h : d.id ≠ x) (c : Conditions) (o : Outside) :
    d.stop c (o.without x) = lacking x (d.stop c o) := by
  unfold stop
  cases hproc : d.proc with
  | none => simp only [clearProgress_without h, lacking]
  | some p => simp only [kill_without (hown.task_ne h hproc), clearProgress_without h, lacking]

theorem replace_without (hown : d.Own) (h : d.id ≠ x) (c : Conditions)
    (platform : StreamPlatform) (key : String) (o : Outside) :
    d.replace c platform key (o.without x) = lacking x (d.replace c platform key o) := by
  unfold replace
  rw [stop_without hown h]
  exact setState_without (d := { (d.stop c o).1 with
    platform, key, backoff := .new, retryAtMs := none }) h _ _

theorem idle_without (hown : d.Own) (h : d.id ≠ x) (c : Conditions) (o : Outside) :
    d.idle c (o.without x) = lacking x (d.idle c o) := by
  unfold idle
  rw [stop_without hown h]
  exact setState_without (d := { (d.stop c o).1 with backoff := .new, retryAtMs := none }) h _ _

theorem readReport_without (h : d.id ≠ x) (c : Conditions) (nowMs : UInt64) (o : Outside) :
    d.readReport c nowMs (o.without x) = lacking x (d.readReport c nowMs o) := by
  unfold readReport
  rw [pushed_without h, sawBlock_without h, trimProgress_without h]
  split
  · rfl
  · split
    · split
      · exact setState_without (d := { d with
          backoff := .new, progressAtMs := nowMs + progressTrimMs }) h _ _
      · rfl
    · rfl
    · rfl

theorem spawnPusher_without (h : d.id ≠ x) (cfg : StreamConfig) (c : Conditions)
    (nowMs : UInt64) (o : Outside) :
    d.spawnPusher cfg c nowMs (o.without x) = lacking x (d.spawnPusher cfg c nowMs o) := by
  unfold spawnPusher
  rw [clearProgress_without h]
  split
  · exact setState_without h _ _
  · next spec _ =>
    rcases o.clearProgress d.id (c.clear d.id) with ⟨result, o₁⟩
    cases result with
    | error err => exact failed_without h _ _ _
    | ok u =>
      simp only [lacking]
      cases c.stage d.id with
      | some err => exact failed_without h _ _ _
      | none =>
        have htask : (Label.pusher d.platform d.id).task ≠ .pusher x := by simpa [Label.task] using h
        dsimp only
        rw [spawn_without { label := .pusher d.platform d.id, stdin := _ } htask]
        rcases o₁.spawn _ (c.pusher d.id) with ⟨spawned, o₂⟩
        cases spawned with
        | error err => exact failed_without h _ _ _
        | ok proc =>
          exact setState_without (d := { d with
            proc := some proc, progressAtMs := nowMs, retryAtMs := none }) h _ _

theorem attempt_without (h : d.id ≠ x) (cfg : StreamConfig) (c : Conditions) (nowMs : UInt64)
    (encoding : Bool) (encoderReason : Option String) (o : Outside) :
    d.attempt cfg c nowMs encoding encoderReason (o.without x) =
      lacking x (d.attempt cfg c nowMs encoding encoderReason o) := by
  unfold attempt
  split
  · split
    · exact setState_without h _ _
    · rfl
  · split
    · rfl
    · exact spawnPusher_without h cfg c nowMs o

theorem poll_without (hown : d.Own) (h : d.id ≠ x) (cfg : StreamConfig) (c : Conditions)
    (nowMs : UInt64) (encoding : Bool) (encoderReason : Option String) (o : Outside) :
    d.poll cfg c nowMs encoding encoderReason (o.without x) =
      lacking x (d.poll cfg c nowMs encoding encoderReason o) := by
  unfold poll
  cases hproc : d.proc with
  | none => exact attempt_without h cfg c nowMs encoding encoderReason o
  | some p =>
    have htask := hown.task_ne h hproc
    dsimp only
    rw [Outside.poll_without htask]
    split
    · exact readReport_without h c nowMs o
    · rw [kill_without htask]
      exact failed_without (d := { d with proc := none }) h _ _ _

end Destination

theorem onDestination_without {x id : DestinationId} (hid : id ≠ x)
    {f : Destination → Outside → Destination × Outside} {ds : List Destination} {o : Outside}
    (hkey : ∀ d o, (f d o).1.id = d.id)
    (hf : ∀ d ∈ ds, d.id ≠ x → f d (o.without x) = lacking x (f d o)) :
    onDestination id f (ds.filter (·.id ≠ x)) (o.without x) =
      (onDestination id f ds o).map fun r => (r.1.filter (·.id ≠ x), r.2.without x) := by
  induction ds with
  | nil => rfl
  | cons d ds ih =>
    have hrest := ih fun e he => hf e (List.mem_cons_of_mem _ he)
    by_cases hd : d.id = x
    · have hne : d.id ≠ id := fun heq => hid (heq ▸ hd)
      rw [List.filter_cons_of_neg (by simp [hd]), hrest, onDestination, if_neg hne, Option.map_map]
      refine congrArg (Option.map · _) (funext fun r => Prod.ext ?_ rfl)
      exact (List.filter_cons_of_neg (by simp [hd])).symm
    · have hstep := hf d List.mem_cons_self hd
      rw [List.filter_cons_of_pos (by simpa using hd), onDestination, onDestination]
      split
      · rw [hstep]
        refine congrArg some (Prod.ext ?_ rfl)
        exact (List.filter_cons_of_pos (by simpa [lacking, hkey] using hd)).symm
      · rw [hrest, Option.map_map, Option.map_map]
        refine congrArg (Option.map · _) (funext fun r => Prod.ext ?_ rfl)
        exact (List.filter_cons_of_pos (by simpa using hd)).symm

namespace Pipeline
variable {x : DestinationId} {s : Pipeline}

/-- The pipeline as if a destination had never been. -/
def without (x : DestinationId) (s : Pipeline) : Pipeline :=
  { s with dests := s.dests.filter (·.id ≠ x), outside := s.outside.without x }

theorem without_new (x : DestinationId) (cfg : StreamConfig) : (new cfg).without x = new cfg := by
  simp only [without, new, Outside.without_new, List.filter_nil]

theorem encoderDown_without (x : DestinationId) (s : Pipeline) (nowMs : UInt64) (reason : String) :
    (s.without x).encoderDown nowMs reason = (s.encoderDown nowMs reason).without x := by
  simp only [encoderDown, without, emit, emit_without (x := x) (.encoderDown reason)
    (by simp [PipelineEvent.task])]

theorem dropEncoder_without (h : s.Supervised) :
    (s.without x).dropEncoder = s.dropEncoder.without x := by
  unfold dropEncoder
  cases henc : s.encoder with
  | none => simp only [without, henc]
  | some enc =>
    have htask : enc.proc.task ≠ .pusher x := by
      rw [h.encoder.1 enc.proc (by rw [henc]; rfl)]
      simp
    simp only [without, henc, kill_without htask]

theorem spawnEncoder_without (x : DestinationId) (s : Pipeline) (c : Conditions)
    (nowMs : UInt64) : (s.without x).spawnEncoder c nowMs = (s.spawnEncoder c nowMs).without x := by
  have hspawn := spawn_without (x := x) encoderSpec (by simp [encoderSpec, Label.task])
    s.outside c.encoder
  have hout : (s.without x).outside = s.outside.without x := rfl
  unfold spawnEncoder
  rw [hout, hspawn]
  rcases s.outside.spawn encoderSpec c.encoder with ⟨result, outside⟩
  cases result with
  | error err => exact encoderDown_without x { s with outside } nowMs _
  | ok proc =>
    simp only [lacking, without, emit, emit_without (x := x) .encoderUp
      (by simp [PipelineEvent.task])]

theorem pollEncoder_without (h : s.Supervised) (c : Conditions) (nowMs : UInt64) :
    (s.without x).pollEncoder c nowMs = (s.pollEncoder c nowMs).without x := by
  have hout : (s.without x).encoder = s.encoder := rfl
  unfold pollEncoder
  rw [hout]
  cases henc : s.encoder with
  | none =>
    change (if waits nowMs s.encoderRetryAtMs then s.without x else _) = _
    dsimp only
    split
    · rfl
    · exact spawnEncoder_without x s c nowMs
  | some enc =>
    have htask : enc.proc.task ≠ .pusher x := by
      rw [h.encoder.1 enc.proc (by rw [henc]; rfl)]
      simp
    have hpoll : (s.without x).outside.poll enc.proc = s.outside.poll enc.proc :=
      Outside.poll_without htask s.outside
    dsimp only
    rw [hpoll]
    split
    · split
      · rfl
      · rfl
    · rw [dropEncoder_without h, encoderDown_without]

theorem eachDestination_without (h : s.Supervised)
    {f : Destination → Outside → Destination × Outside}
    (hkeeps : ∀ (d : Destination) (o : Outside), o.Ledger → d.Sound o → d.Keeps o (f d o))
    (hf : ∀ d o, d.Own → d.id ≠ x → f d (o.without x) = lacking x (f d o)) :
    (s.without x).eachDestination f = (s.eachDestination f).without x := by
  have hloop := (owned_of_keeps hkeeps (s.encoder.map Encoder.proc)
    (s.dests.map Destination.id)).each_filter (q := fun id => decide (id ≠ x))
    (fun d o hd hne => hf d o hd.1.holds.1 (of_decide_eq_true hne))
    (fun id o o' honly hx => by
      have hid : id = x := by simpa using hx
      exact Only.without (hid ▸ honly)) h.ids h.shared h.listed
  simp only [eachDestination, without]
  rw [hloop]

theorem poll_without (h : s.Supervised) (c : Conditions) (nowMs : UInt64) :
    (s.without x).poll c nowMs = (s.poll c nowMs).without x := by
  unfold poll
  change (if s.started then _ else _) = _
  split
  · rw [pollEncoder_without h]
    exact eachDestination_without (h.pollEncoder c nowMs)
      (fun d o hl hd => Destination.keeps_poll _ c nowMs _ _ hl hd)
      (fun d o hown hne => Destination.poll_without hown hne _ c nowMs _ _ o)
  · rfl

theorem stopEncoder_without (h : s.Supervised) :
    (s.without x).stopEncoder = s.stopEncoder.without x := by
  have hdrop := dropEncoder_without (x := x) h
  have henc : (s.without x).encoder = s.encoder := rfl
  unfold stopEncoder
  rw [henc, hdrop]
  split
  · simp only [emit, without, emit_without (x := x)
      (.encoderDown "stopped by host") (by simp [PipelineEvent.task])]
  · rfl

theorem stop_without (h : s.Supervised) (c : Conditions) :
    (s.without x).stop c = (s.stop c).without x := by
  have hstarted : Supervised { s with started := false } :=
    ⟨h.ledger, h.encoder, h.dests, h.ids, h.absent⟩
  unfold stop
  rw [← stopEncoder_without (h.idle c), ← eachDestination_without hstarted
    (fun d o hl hd => Destination.keeps_idle c hl hd)
    (fun d o hown hne => Destination.idle_without hown hne c o)]
  rfl

theorem newDestination_without {id : DestinationId} (hid : id ≠ x) (s : Pipeline)
    (platform : StreamPlatform) (key : String) :
    (s.without x).newDestination id platform key =
      (s.newDestination id platform key).without x := by
  have hkept : [Destination.new id platform key].filter (·.id ≠ x) =
      [Destination.new id platform key] :=
    List.filter_eq_self.mpr fun d hd => by
      rw [List.mem_singleton.mp hd]
      exact decide_eq_true hid
  simp only [newDestination, without, List.filter_append, hkept,
    emit_without (x := x) (.destinationChanged id platform .idle)
      (by simpa [PipelineEvent.task] using hid)]

theorem newDestination_self (s : Pipeline) (platform : StreamPlatform) (key : String) :
    (s.newDestination x platform key).without x = s.without x := by
  have honly : Only (.pusher x) s.outside
      (s.outside.emit (.destinationChanged x platform .idle)) := only_emit _ _ rfl
  simp [newDestination, without, honly.without, Destination.new]

theorem without_update {d d' : Destination} {pre post : List Destination} {o : Outside}
    (hdests : s.dests = pre ++ d :: post) (hd : d.id = x) (hd' : d'.id = x)
    (honly : Only (.pusher x) s.outside o) :
    without x { s with dests := pre ++ d' :: post, outside := o } = s.without x := by
  have hleft : ∀ e : Destination, e.id = x →
      (pre ++ e :: post).filter (·.id ≠ x) = (pre ++ post).filter (·.id ≠ x) := by
    intro e he
    rw [List.filter_append, List.filter_cons_of_neg (by simpa using he), List.filter_append]
  simp only [without, hdests, honly.without, hleft d hd, hleft d' hd']

theorem addDestination_without (h : s.Supervised) (c : Conditions) (nowMs : UInt64)
    {id : DestinationId} (hid : id ≠ x) (platform : StreamPlatform) (key : String)
    (hroom : (s.addDestination c nowMs id platform key).1 ≠ .error .tooManyDestinations) :
    ((s.without x).addDestination c nowMs id platform key).2 =
      (s.addDestination c nowMs id platform key).2.without x := by
  have hon : onDestination id (Destination.replace c platform key) (s.without x).dests
      (s.without x).outside = (onDestination id (Destination.replace c platform key) s.dests
        s.outside).map fun r => (r.1.filter (·.id ≠ x), r.2.without x) :=
    onDestination_without hid (fun d o => by
      unfold Destination.replace
      rw [Destination.setState_fst]
      rfl)
    fun d hd hne => Destination.replace_without (h.dests d hd).holds.1 hne c platform key _
  have hadded := h.addDestination c nowMs id platform key
  have hcfg : (s.without x).cfg = s.cfg := rfl
  unfold addDestination at hroom ⊢
  rw [hcfg, hon]
  cases hspec : s.cfg.catalog platform with
  | none => rfl
  | some spec =>
    rw [hspec] at hroom
    dsimp only at hroom ⊢
    cases hdest : onDestination id (Destination.replace c platform key) s.dests s.outside with
    | some r =>
      exact poll_without (h.replaced hdest) c nowMs
    | none =>
      rw [hdest] at hroom
      dsimp only [Option.map_none] at hroom ⊢
      have hlt : ¬ maxDestinations ≤ s.dests.length := by
        intro hle
        rw [if_pos hle] at hroom
        exact hroom rfl
      have hlt' : ¬ maxDestinations ≤ (s.without x).dests.length := by
        have := List.length_filter_le (fun d : Destination => d.id ≠ x) s.dests
        simp only [without]
        omega
      rw [if_neg hlt, if_neg hlt', newDestination_without hid]
      exact poll_without (h.push (onDestination_eq_none hdest) platform key) c nowMs

theorem addDestination_self (h : s.Supervised) (c : Conditions) (nowMs : UInt64)
    (platform : StreamPlatform) (key : String)
    (hroom : (s.addDestination c nowMs x platform key).1 ≠ .error .tooManyDestinations) :
    (s.addDestination c nowMs x platform key).2.without x =
      if (s.cfg.catalog platform).isSome then (s.without x).poll c nowMs else s.without x := by
  unfold addDestination at hroom ⊢
  cases hspec : s.cfg.catalog platform with
  | none => rfl
  | some spec =>
    rw [hspec] at hroom
    dsimp only [Option.isSome_some] at hroom ⊢
    rw [if_pos rfl]
    cases hdest : onDestination x (Destination.replace c platform key) s.dests s.outside with
    | some r =>
      dsimp only
      rw [← poll_without (h.replaced hdest)]
      obtain ⟨pre, d, post, hdests, hd, rfl⟩ := onDestination_eq_some hdest
      have hkeeps := Destination.keeps_replace c platform key h.ledger
        (h.dests d (by simp [hdests]))
      rw [without_update hdests hd (hkeeps.id.trans hd) (hd ▸ hkeeps.only)]
    | none =>
      rw [hdest] at hroom
      dsimp only at hroom ⊢
      split at hroom
      · exact absurd rfl hroom
      · next hlt =>
        rw [if_neg hlt, ← poll_without (h.push (onDestination_eq_none hdest) platform key),
          newDestination_self]

theorem find?_without {id : DestinationId} (hid : id ≠ x) (ds : List Destination) :
    (ds.filter (·.id ≠ x)).find? (·.id = id) = ds.find? (·.id = id) := by
  rw [List.find?_filter]
  refine congrArg (List.find? · ds) (funext fun d => ?_)
  by_cases hd : d.id = id
  · simp [hd, hid]
  · simp [hd]

theorem removeDestination_without (h : s.Supervised) (c : Conditions) {id : DestinationId}
    (hid : id ≠ x) : ((s.without x).removeDestination c id).2 =
      (s.removeDestination c id).2.without x := by
  unfold removeDestination
  rw [show (s.without x).dests = s.dests.filter (·.id ≠ x) from rfl, find?_without hid]
  cases hfind : s.dests.find? (·.id = id) with
  | none => rfl
  | some d =>
    have hd : d.id = id := by simpa using List.find?_some hfind
    have hne : d.id ≠ x := hd ▸ hid
    have hstop := Destination.stop_without
      (h.dests d (List.mem_of_find?_eq_some hfind)).holds.1 hne c s.outside
    have hrest : (s.dests.filter (·.id ≠ x)).eraseP (·.id = d.id) =
        (s.dests.eraseP (·.id = d.id)).filter (·.id ≠ x) := by
      rw [List.eraseP_filter]
      refine congrArg (fun p => (s.dests.eraseP p).filter (·.id ≠ x)) (funext fun e => ?_)
      by_cases he : e.id = d.id
      · simp [he, hne]
      · simp [he]
    simp only [dropDestination, without, hrest, hstop, lacking,
      emit_without (x := x) (.destinationChanged d.id d.platform .idle)
        (by simpa [PipelineEvent.task] using hne)]

theorem removeDestination_self (h : s.Supervised) (c : Conditions) :
    (s.removeDestination c x).2.without x = s.without x := by
  unfold removeDestination
  cases hfind : s.dests.find? (·.id = x) with
  | none => rfl
  | some d =>
    obtain rfl : d.id = x := by simpa using List.find?_some hfind
    obtain ⟨pre, post, hdests⟩ := List.append_of_mem (List.mem_of_find?_eq_some hfind)
    obtain ⟨-, -, -, honly⟩ := Destination.stop_spec c h.ledger (h.dests d (by simp [hdests]))
    have hids := h.ids
    rw [hdests] at hids
    have hout := honly.trans
      (only_emit (d.stop c s.outside).2 (.destinationChanged d.id d.platform .idle) rfl)
    simp only [dropDestination, without, hout.without, hdests, eraseP_ids hids]
    rw [List.filter_append, List.filter_append, List.filter_cons_of_neg (by simp)]

theorem encoderFailed_without (h : s.Supervised) (nowMs : UInt64) (reason : String) :
    (s.without x).encoderFailed nowMs reason = (s.encoderFailed nowMs reason).without x := by
  unfold encoderFailed
  rw [dropEncoder_without h, encoderDown_without]

theorem pushFrames_without (w : Writes) (nowMs : UInt64) (frames : List ℕ) :
    ∀ {s : Pipeline} (rendered : Bool), s.Supervised →
      pushFrames w nowMs rendered frames (s.without x) =
        (pushFrames w nowMs rendered frames s).without x := by
  induction frames with
  | nil => exact fun _ _ => rfl
  | cons frame frames ih =>
    intro s rendered h
    let s' : Pipeline := if rendered then { s with repeatedFrames := s.repeatedFrames + 1 } else s
    have h' : s'.Supervised := by
      cases rendered with
      | true => exact ⟨h.ledger, h.encoder, h.dests, h.ids, h.absent⟩
      | false => exact h
    have hwithout : (if rendered then
        { s.without x with repeatedFrames := (s.without x).repeatedFrames + 1 }
        else s.without x) = s'.without x := by
      cases rendered <;> rfl
    simp only [pushFrames, hwithout]
    split
    · exact ih true h'
    · exact ih (s := { s' with droppedFrames := s'.droppedFrames + 1 }) true
        ⟨h'.ledger, h'.encoder, h'.dests, h'.ids, h'.absent⟩
    · exact encoderFailed_without h' nowMs _

theorem pushTick_without (h : s.Supervised) (w : Writes) (nowMs : UInt64) (samples : ℕ) :
    (s.without x).pushTick w nowMs samples = (s.pushTick w nowMs samples).without x := by
  have hcadence : Supervised { s with cadence := (s.cadence.advance samples).1 } :=
    ⟨h.ledger, h.encoder, h.dests, h.ids, h.absent⟩
  have henc : (s.without x).encoder = s.encoder := rfl
  unfold pushTick
  rw [henc]
  split
  · rfl
  · split
    · exact encoderFailed_without h nowMs _
    · exact pushFrames_without w nowMs _ false hcadence

/-- A call or a happening, with a destination left out: what is done about it is not done,
though the others are still polled where the call polls. -/
def Event.leftOut (catalog : PlatformCatalog) (x : DestinationId) : Event → List Event
  | .apply c nowMs (.addDestination id platform key) =>
    if id = x then
      if (catalog platform).isSome then [.poll c nowMs] else []
    else [.apply c nowMs (.addDestination id platform key)]
  | .apply c nowMs (.removeDestination id) =>
    if id = x then [] else [.apply c nowMs (.removeDestination id)]
  | .exits proc reason => if proc.task = .pusher x then [] else [.exits proc reason]
  | .writes proc text => if proc.task = .pusher x then [] else [.writes proc text]
  | e => [e]

/-- No add is refused because the list is full. -/
def Roomy (s : Pipeline) : Event → Prop
  | .apply c nowMs op => (s.apply c nowMs op).1 ≠ .error .tooManyDestinations
  | _ => True

theorem step_without (h : s.Supervised) {e : Event} (hroom : s.Roomy e) :
    run step (s.without x) (e.leftOut s.cfg.catalog x) = (s.step e).without x := by
  cases e with
  | apply c nowMs op =>
    cases op with
    | addDestination id platform key =>
      rw [Event.leftOut]
      split
      · next hid =>
        subst hid
        have hself := addDestination_self h c nowMs platform key hroom
        refine Eq.trans ?_ hself.symm
        split <;> rfl
      · next hid => exact addDestination_without h c nowMs hid platform key hroom
    | removeDestination id =>
      rw [Event.leftOut]
      split
      · next hid =>
        subst hid
        exact (removeDestination_self h c).symm
      · next hid => exact removeDestination_without h c hid
    | start =>
      have hstarted : Supervised { s with started := true, encoderRetryAtMs := none } :=
        ⟨h.ledger, h.encoder, h.dests, h.ids, h.absent⟩
      exact poll_without hstarted c nowMs
    | stop => exact stop_without h c
  | poll c nowMs => exact poll_without h c nowMs
  | pushTick w nowMs samples => exact pushTick_without h w nowMs samples
  | exits proc reason =>
    rw [Event.leftOut]
    split
    · next htask =>
      have honly := only_exits s.outside proc reason
      rw [htask] at honly
      exact (congrArg (fun o => { s.without x with outside := o }) honly.without).symm
    · next htask =>
      exact congrArg (fun o => { s.without x with outside := o })
        (exits_without htask s.outside reason)
  | writes proc text =>
    rw [Event.leftOut]
    split
    · next htask =>
      have honly := only_writes s.outside proc text
      rw [htask] at honly
      exact (congrArg (fun o => { s.without x with outside := o }) honly.without).symm
    · next htask =>
      exact congrArg (fun o => { s.without x with outside := o })
        (writes_without htask s.outside text)

@[simp] theorem dropEncoder_cfg (s : Pipeline) : s.dropEncoder.cfg = s.cfg := by
  unfold dropEncoder
  split <;> rfl

@[simp] theorem encoderDown_cfg (s : Pipeline) (nowMs : UInt64) (reason : String) :
    (s.encoderDown nowMs reason).cfg = s.cfg := rfl

theorem pollEncoder_cfg (s : Pipeline) (c : Conditions) (nowMs : UInt64) :
    (s.pollEncoder c nowMs).cfg = s.cfg := by
  unfold pollEncoder
  split
  · split
    · split <;> rfl
    · simp
  · split
    · rfl
    · unfold spawnEncoder
      split <;> rfl

theorem poll_cfg (s : Pipeline) (c : Conditions) (nowMs : UInt64) :
    (s.poll c nowMs).cfg = s.cfg := by
  unfold poll
  split
  · exact pollEncoder_cfg s c nowMs
  · rfl

theorem pushFrames_cfg (w : Writes) (nowMs : UInt64) (frames : List ℕ) :
    ∀ (s : Pipeline) (rendered : Bool), (pushFrames w nowMs rendered frames s).cfg = s.cfg := by
  induction frames with
  | nil => exact fun _ _ => rfl
  | cons frame frames ih =>
    intro s rendered
    have hrepeated : (if rendered then { s with repeatedFrames := s.repeatedFrames + 1 }
        else s).cfg = s.cfg := by
      split <;> rfl
    simp only [pushFrames]
    split
    · rw [ih, hrepeated]
    · rw [ih, hrepeated]
    · simp only [encoderFailed, encoderDown_cfg, dropEncoder_cfg, hrepeated]

theorem step_cfg (s : Pipeline) (e : Event) : (s.step e).cfg = s.cfg := by
  cases e with
  | apply c nowMs op =>
    cases op with
    | addDestination id platform key =>
      change (s.addDestination c nowMs id platform key).2.cfg = s.cfg
      unfold addDestination
      split
      · rfl
      · split
        · exact poll_cfg _ c nowMs
        · split
          · rfl
          · exact poll_cfg _ c nowMs
    | removeDestination id =>
      change (s.removeDestination c id).2.cfg = s.cfg
      unfold removeDestination
      split <;> rfl
    | start => exact poll_cfg _ c nowMs
    | stop =>
      change (s.stop c).cfg = s.cfg
      unfold stop stopEncoder
      split
      · exact dropEncoder_cfg _
      · rfl
  | poll c nowMs => exact poll_cfg s c nowMs
  | pushTick w nowMs samples =>
    change (s.pushTick w nowMs samples).cfg = s.cfg
    unfold pushTick
    split
    · rfl
    · split
      · simp only [encoderFailed, encoderDown_cfg, dropEncoder_cfg]
      · exact pushFrames_cfg w nowMs _ _ _
  | exits proc reason => rfl
  | writes proc text => rfl

theorem run_without (x : DestinationId) (events : List Event) :
    ∀ {s : Pipeline}, s.Supervised → Meets step Roomy s events →
      run step (s.without x) (events.flatMap (Event.leftOut s.cfg.catalog x)) =
        (run step s events).without x := by
  induction events with
  | nil => exact fun _ _ => rfl
  | cons e events ih =>
    intro s h hroom
    rw [List.flatMap_cons, run_append, step_without h hroom.1, run_cons, ← ih (h.step e) hroom.2,
      step_cfg]

/-- What there is of one destination: its record, what was done for it, what was told of it. -/
structure Broadcast where
  destination : Option Destination
  acts : List Act
  changes : List PipelineEvent
deriving DecidableEq

def broadcast (s : Pipeline) (id : DestinationId) : Broadcast :=
  { destination := s.dests.find? (·.id = id)
    acts := s.outside.log.filter (·.task = .pusher id)
    changes := s.outside.events.filter (·.task = .pusher id) }

structure Encode where
  started : Bool
  encoder : Option Encoder
  backoff : Backoff
  retryAtMs : Option UInt64
  reason : Option String
  cadence : VideoCadence
  droppedFrames : ℕ
  repeatedFrames : ℕ
  acts : List Act
  changes : List PipelineEvent
deriving DecidableEq

def encode (s : Pipeline) : Encode :=
  { started := s.started, encoder := s.encoder, backoff := s.encoderBackoff
    retryAtMs := s.encoderRetryAtMs, reason := s.encoderReason, cadence := s.cadence
    droppedFrames := s.droppedFrames, repeatedFrames := s.repeatedFrames
    acts := s.outside.log.filter (·.task = .encoder)
    changes := s.outside.events.filter (·.task = .encoder) }

theorem filter_task_ne {β : Type} (task : β → Task) {t u : Task} (h : t ≠ u) (xs : List β) :
    (xs.filter (task · ≠ u)).filter (task · = t) = xs.filter (task · = t) := by
  rw [List.filter_filter]
  refine List.filter_congr fun a _ => ?_
  by_cases ha : task a = t
  · simp [ha, h]
  · simp [ha]

theorem broadcast_without {id : DestinationId} (hid : id ≠ x) (s : Pipeline) :
    (s.without x).broadcast id = s.broadcast id := by
  have htask : Task.pusher id ≠ .pusher x := by simpa using hid
  simp only [broadcast, without, Outside.without, find?_without hid,
    filter_task_ne _ htask]

theorem encode_without (x : DestinationId) (s : Pipeline) :
    (s.without x).encode = s.encode := by
  have htask : Task.encoder ≠ .pusher x := by simp
  simp only [encode, without, Outside.without, filter_task_ne _ htask]

theorem meets_take {C : Pipeline → Event → Prop} {events : List Event} :
    ∀ {s : Pipeline} (n : ℕ), Meets step C s events → Meets step C s (events.take n) := by
  induction events with
  | nil =>
    intro s n h
    rwa [List.take_nil]
  | cons e events ih =>
    intro s n h
    cases n with
    | zero => exact trivial
    | succ n => exact ⟨h.1, ih n h.2⟩

/-- A run with a destination left out gives every other destination the same records, spawns,
kills and states at every moment, and the encoder the same life. -/
theorem destinations_are_isolated (cfg : StreamConfig) (x : DestinationId) (events : List Event)
    (hroom : Meets step Roomy (new cfg) events) (n : ℕ) :
    let s := run step (new cfg) (events.take n)
    let t := run step (new cfg) ((events.take n).flatMap (Event.leftOut cfg.catalog x))
    (∀ id, id ≠ x → t.broadcast id = s.broadcast id) ∧ t.encode = s.encode := by
  have hrun := run_without x (events.take n) (supervised_new cfg) (meets_take n hroom)
  rw [without_new] at hrun
  intro s t
  have ht : t = s.without x := hrun
  rw [ht]
  exact ⟨fun id hid => broadcast_without hid s, encode_without x s⟩

instance (s : Pipeline) : ∀ e : Event, Decidable (s.Roomy e)
  | .apply c nowMs op =>
    inferInstanceAs (Decidable ((s.apply c nowMs op).1 ≠ .error .tooManyDestinations))
  | .poll .. | .pushTick .. | .exits .. | .writes .. => isTrue trivial

def calm : Conditions :=
  { encoder := none, installed := true, onStop := fun _ => none, clear := fun _ => none
    stage := fun _ => none, pusher := fun _ => none, trims := fun _ => true }

/-- Two broadcasts go live; the first dies, waits, comes back, is replaced and removed. -/
def eventful : List Event :=
  [.apply calm 0 (.addDestination 1 .twitch "tw"), .apply calm 0 (.addDestination 2 .youTube "yt"),
    .apply calm 0 .start, .writes ⟨.pusher 1, 0⟩ "progress=continue\n".toList,
    .writes ⟨.pusher 2, 0⟩ "progress=continue\n".toList, .poll calm 200,
    .exits ⟨.pusher 1, 0⟩ "boom", .poll calm 300, .poll calm 900,
    .apply calm 1000 (.addDestination 1 .youTube "other"), .apply calm 1100 (.removeDestination 1),
    .poll calm 1200]

def session : StreamConfig := { catalog := .bundled, fps := 30, ffmpeg := "ffmpeg" }

theorem destinations_are_isolated_eventful :
    let s := run step (new session) (eventful.take 12)
    let t := run step (new session) ((eventful.take 12).flatMap (Event.leftOut session.catalog 1))
    (∀ id, id ≠ 1 → t.broadcast id = s.broadcast id) ∧ t.encode = s.encode :=
  destinations_are_isolated session 1 eventful (by decide +kernel) 12

end Pipeline
end JamStream.Stream
