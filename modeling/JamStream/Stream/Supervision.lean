import JamStream.Foundations.Runs
import JamStream.Stream.Pipeline

/-! Every process that was spawned and not yet killed is held by the encoder or by exactly
one destination, and a destination that is shown as live has heard from the process it
holds: the progress file goes before a pusher is spawned, and the one before it was killed. -/

namespace JamStream.Stream
open Protocol Foundations Each Runs

namespace Outside

def Spawned (o : Outside) (p : ProcId) : Prop := ∃ spec, Act.spawned spec p ∈ o.log

def Unreaped (o : Outside) (p : ProcId) : Prop := o.Spawned p ∧ Act.killed p ∉ o.log

/-- A block of the destination's file was read after `p` was spawned, and `p` alone had
written to it. -/
def Reported (o : Outside) (id : DestinationId) (p : ProcId) : Prop :=
  ∃ pre spec post writers, o.log = pre ++ .spawned spec p :: post ∧
    .sawBlock id writers ∈ post ∧ p ∈ writers ∧ ∀ q ∈ writers, q = p

/-- The host has the processes the history says it has, and numbers them upwards. -/
structure Ledger (o : Outside) : Prop where
  unreaped : ∀ p, (o.procs p).isSome ↔ o.Unreaped p
  numbered : ∀ p, o.Spawned p → p.nth < o.spawned p.task
  killed : ∀ p, .killed p ∈ o.log → o.Spawned p

variable {o o' : Outside} {t : Task} {p : ProcId} {id : DestinationId}

theorem ledger_new : Ledger .new where
  unreaped p := by simp [Unreaped, Spawned, Outside.new]
  numbered p h := by simp [Spawned, Outside.new] at h
  killed p h := by simp [Outside.new] at h

theorem Reported.append (h : o.Reported id p) {acts : List Act}
    (hlog : o'.log = o.log ++ acts) : o'.Reported id p := by
  obtain ⟨pre, spec, post, writers, heq, hmem, hp, hall⟩ := h
  refine ⟨pre, spec, post ++ acts, writers, ?_, List.mem_append_left _ hmem, hp, hall⟩
  rw [hlog, heq, List.append_assoc, List.cons_append]

theorem Ledger.of_quiet (h : o.Ledger) (hprocs : ∀ q, (o'.procs q).isSome = (o.procs q).isSome)
    (hspawned : o'.spawned = o.spawned) {acts : List Act} (hlog : o'.log = o.log ++ acts)
    (hacts : ∀ a ∈ acts, ∃ id writers, a = .sawBlock id writers) : o'.Ledger := by
  have hmem : ∀ a, (∀ id writers, a ≠ .sawBlock id writers) → (a ∈ o'.log ↔ a ∈ o.log) := by
    intro a ha
    rw [hlog, List.mem_append, or_iff_left]
    intro hmem
    obtain ⟨id, writers, rfl⟩ := hacts a hmem
    exact ha id writers rfl
  have hspawn : ∀ q, o'.Spawned q ↔ o.Spawned q :=
    fun q => exists_congr fun spec => hmem _ (by simp)
  have hkill : ∀ q, .killed q ∈ o'.log ↔ .killed q ∈ o.log := fun q => hmem _ (by simp)
  constructor
  · intro q
    rw [hprocs, h.unreaped, Unreaped, Unreaped, hspawn, hkill]
  · intro q hq
    rw [hspawned]
    exact h.numbered q ((hspawn q).mp hq)
  · intro q hq
    exact (hspawn q).mpr (h.killed q ((hkill q).mp hq))

theorem Ledger.emit (h : o.Ledger) (event : PipelineEvent) : (o.emit event).Ledger :=
  ⟨h.unreaped, h.numbered, h.killed⟩

theorem Ledger.clearProgress (h : o.Ledger) (id : DestinationId) (fails : Option String) :
    (o.clearProgress id fails).2.Ledger := by
  cases fails with
  | some err => exact h
  | none => exact ⟨h.unreaped, h.numbered, h.killed⟩

theorem Ledger.trimProgress (h : o.Ledger) (id : DestinationId) (opens : Bool) :
    (o.trimProgress id opens).Ledger := by
  unfold Outside.trimProgress
  split
  · exact ⟨h.unreaped, h.numbered, h.killed⟩
  · exact h

theorem Ledger.sawBlock (h : o.Ledger) (id : DestinationId) : (o.sawBlock id).Ledger := by
  refine h.of_quiet (fun _ => rfl) rfl rfl fun a ha => ?_
  obtain ⟨file, _, rfl⟩ := List.mem_map.mp ha
  exact ⟨id, file.writers, rfl⟩

theorem Ledger.exits (h : o.Ledger) (proc : ProcId) (reason : String) :
    (o.exits proc reason).Ledger := by
  unfold Outside.exits
  split
  · next hrunning =>
    refine h.of_quiet (fun q => ?_) rfl (List.append_nil _).symm (by simp)
    simp only [Function.update_apply]
    split_ifs with hq
    · rw [hq, hrunning]
      rfl
    · rfl
  · exact h

theorem Ledger.writes (h : o.Ledger) (proc : ProcId) (text : List Char) :
    (o.writes proc text).Ledger := by
  unfold Outside.writes
  split
  · exact h
  · split
    · exact ⟨h.unreaped, h.numbered, h.killed⟩
    · exact h

theorem Ledger.fresh (h : o.Ledger) (task : Task) : o.procs ⟨task, o.spawned task⟩ = none := by
  by_contra hne
  have hsome := Option.isSome_iff_ne_none.mpr hne
  exact lt_irrefl _ (h.numbered _ ((h.unreaped _).mp hsome).1)

theorem Ledger.spawn (h : o.Ledger) (spec : ProcSpec) (fails : Option IoError) :
    (o.spawn spec fails).2.Ledger := by
  cases fails with
  | some err => exact h
  | none =>
    obtain ⟨hunreaped, hnumbered, hkilled⟩ := h
    set proc : ProcId := ⟨spec.label.task, o.spawned spec.label.task⟩ with hproc
    have hspawned : ∀ q, (o.spawn spec none).2.Spawned q ↔ o.Spawned q ∨ q = proc := by
      intro q
      simp only [Spawned, Outside.spawn, List.mem_append, List.mem_singleton, Act.spawned.injEq,
        exists_or, exists_and_right, exists_eq, true_and, ← hproc]
    have hkill : ∀ q, .killed q ∈ (o.spawn spec none).2.log ↔ .killed q ∈ o.log := by
      simp [Outside.spawn]
    have hnew : ¬ o.Spawned proc := fun hmem => lt_irrefl _ (hnumbered proc hmem)
    constructor
    · intro q
      rw [Unreaped, hspawned, hkill]
      change (Function.update o.procs proc (some .running) q).isSome ↔ _
      rw [Function.update_apply]
      split_ifs with hq
      · have hnot : Act.killed proc ∉ o.log := fun hmem => hnew (hkilled _ hmem)
        simp [hq, hnot]
      · rw [hunreaped, Unreaped, or_iff_left hq]
    · intro q hq
      change q.nth < Function.update o.spawned proc.task (proc.nth + 1) q.task
      rw [Function.update_apply]
      rcases (hspawned q).mp hq with hold | rfl
      · have hlt := hnumbered q hold
        split_ifs with htask
        · rw [htask] at hlt
          exact Nat.lt_succ_of_lt hlt
        · exact hlt
      · rw [if_pos rfl]
        exact Nat.lt_succ_self _
    · intro q hq
      exact (hspawned q).mpr (.inl (hkilled q ((hkill q).mp hq)))

theorem Ledger.kill (h : o.Ledger) (proc : ProcId) : (o.kill proc).Ledger := by
  unfold Outside.kill
  split
  · exact h
  · next exit hsome =>
    have hspawned : o.Spawned proc := ((h.unreaped proc).mp (by rw [hsome]; rfl)).1
    have hmem : ∀ q, Spawned { o with
        procs := Function.update o.procs proc none, log := o.log ++ [.killed proc] } q ↔
          o.Spawned q := by
      intro q
      simp [Spawned]
    constructor
    · intro q
      rw [Unreaped, hmem]
      simp only [Function.update_apply, List.mem_append, List.mem_singleton, Act.killed.injEq,
        not_or]
      split_ifs with hq
      · simp [hq]
      · rw [h.unreaped, Unreaped, and_iff_left hq]
    · exact fun q hq => h.numbered q ((hmem q).mp hq)
    · intro q hq
      rw [hmem]
      rcases List.mem_append.mp hq with hq | hq
      · exact h.killed q hq
      · rwa [Act.killed.inj (List.mem_singleton.mp hq)]

/-- What a task holds: the handle of its only process, if it has one. -/
def Holds (o : Outside) (t : Task) (proc : Option ProcId) : Prop :=
  (∀ p, proc = some p → p.task = t) ∧ ∀ p, p.task = t → ((o.procs p).isSome ↔ proc = some p)

theorem Holds.frame {proc : Option ProcId} {u : Task} (h : o.Holds t proc) (hu : Only u o o')
    (hne : t ≠ u) : o'.Holds t proc := by
  refine ⟨h.1, fun p hp => ?_⟩
  rw [hu.procs p (hp ▸ hne), h.2 p hp]

theorem Holds.isSome (h : o.Holds t (some p)) : (o.procs p).isSome :=
  (h.2 p (h.1 p rfl)).mpr rfl

theorem holds_none (o : Outside) (t : Task) (h : ∀ p, p.task = t → o.procs p = none) :
    o.Holds t none := by
  refine ⟨by simp, fun p hp => ?_⟩
  simp [h p hp]

theorem Holds.spawn (spec : ProcSpec) (h : o.Holds spec.label.task none) :
    (o.spawn spec none).2.Holds spec.label.task
      (some ⟨spec.label.task, o.spawned spec.label.task⟩) := by
  refine ⟨fun p hp => by rw [← Option.some.inj hp], fun p hp => ?_⟩
  have hnone := h.2 p hp
  change (Function.update o.procs _ (some Exit.running) p).isSome ↔ _
  rw [Function.update_apply, Option.some.injEq, eq_comm (b := p)]
  split_ifs with heq
  · simp [heq]
  · simpa [heq] using hnone

theorem Holds.kill (h : o.Holds t (some p)) : (o.kill p).Holds t none := by
  obtain ⟨exit, hexit⟩ := Option.isSome_iff_exists.mp h.isSome
  refine holds_none _ _ fun q hq => ?_
  have hq' := h.2 q hq
  simp only [Outside.kill, hexit, Function.update_apply]
  split_ifs with heq
  · rfl
  · rw [← Option.not_isSome_iff_eq_none, hq', Option.some.injEq]
    exact fun h => heq h.symm

theorem Holds.clearProgress {proc : Option ProcId} (h : o.Holds t proc) (id : DestinationId)
    (fails : Option String) : (o.clearProgress id fails).2.Holds t proc := by
  cases fails with
  | some err => exact h
  | none => exact h

theorem Holds.exits {proc : Option ProcId} (h : o.Holds t proc) (q : ProcId) (reason : String) :
    (o.exits q reason).Holds t proc := by
  refine ⟨h.1, fun p hp => ?_⟩
  rw [← h.2 p hp]
  unfold Outside.exits
  split
  · next hrunning =>
    simp only [Function.update_apply]
    split_ifs with heq
    · simp [heq, hrunning]
    · rfl
  · rfl

theorem procs_writes (o : Outside) (q : ProcId) (text : List Char) :
    (o.writes q text).procs = o.procs := by
  unfold Outside.writes
  split
  · rfl
  · split <;> rfl

theorem Holds.writes {proc : Option ProcId} (h : o.Holds t proc) (q : ProcId)
    (text : List Char) : (o.writes q text).Holds t proc :=
  ⟨h.1, fun p hp => by rw [procs_writes, h.2 p hp]⟩

end Outside

open Outside

namespace Destination

/-- A process exactly while connecting or live; a progress file that none but the process
wrote to; and no live destination that has not heard from its own. -/
structure Sound (d : Destination) (o : Outside) : Prop where
  holds : o.Holds (.pusher d.id) d.proc
  running : d.proc.isSome ↔ d.state = .connecting ∨ d.state = .live
  file : ∀ p, d.proc = some p → ∀ f, o.progress d.id = some f → ∀ q ∈ f.writers, q = p
  reported : d.state = .live → ∀ p, d.proc = some p → o.Reported d.id p

variable {d d' : Destination} {o o' : Outside} {t : Task} {p : ProcId}

theorem Sound.frame (h : d.Sound o) (ht : Only t o o') (hne : .pusher d.id ≠ t) : d.Sound o' where
  holds := h.holds.frame ht hne
  running := h.running
  file p hp f hf := h.file p hp f (ht.progress _ hne ▸ hf)
  reported hlive p hp := by
    obtain ⟨acts, hlog, _⟩ := ht.log
    exact (h.reported hlive p hp).append hlog

theorem sound_of_none (h : o.Holds (.pusher d.id) none) (hproc : d.proc = none)
    (hconnecting : d.state ≠ .connecting) (hlive : d.state ≠ .live) : d.Sound o where
  holds := hproc ▸ h
  running := by simp [hproc, hconnecting, hlive]
  file p hp := by simp [hproc] at hp
  reported h := absurd h hlive

theorem Sound.holds_none (h : d.Sound o) (hproc : d.proc = none) :
    o.Holds (.pusher d.id) none := hproc ▸ h.holds

/-- What one step on a destination keeps: the books, the destination's own soundness, its
id, and everything that belongs to another task. -/
structure Keeps (d : Destination) (o : Outside) (r : Destination × Outside) : Prop where
  ledger : r.2.Ledger
  sound : r.1.Sound r.2
  id : r.1.id = d.id
  only : Only (.pusher d.id) o r.2

theorem Keeps.after {r : Destination × Outside} (h : Keeps d' o' r) (hid : d'.id = d.id)
    (honly : Only (.pusher d.id) o o') : Keeps d o r :=
  ⟨h.ledger, h.sound, h.id.trans hid, honly.trans (hid ▸ h.only)⟩

theorem setState_fst (d : Destination) (state : DestinationState) (o : Outside) :
    (d.setState state o).1 = { d with state := fitted state } := by
  unfold setState
  split_ifs with h
  · rw [← h]
  · rfl

theorem setState_snd (d : Destination) (state : DestinationState) (o : Outside) :
    (d.setState state o).2 = o ∨
      (d.setState state o).2 = o.emit (.destinationChanged d.id d.platform (fitted state)) := by
  unfold setState
  split_ifs
  · exact .inl rfl
  · exact .inr rfl

theorem keeps_setState {state : DestinationState} (hl : o.Ledger)
    (h : { d with state := fitted state }.Sound o) : Keeps d o (d.setState state o) := by
  rcases setState_snd d state o with hsnd | hsnd
  · constructor
    · rwa [hsnd]
    · rwa [setState_fst, hsnd]
    · rw [setState_fst]
    · rw [hsnd]
      exact .refl _ _
  · constructor
    · rw [hsnd]
      exact hl.emit _
    · rw [setState_fst, hsnd]
      exact ⟨h.holds, h.running, h.file, h.reported⟩
    · rw [setState_fst]
    · rw [hsnd]
      exact only_emit _ _ rfl

theorem keeps_setState_failed (hl : o.Ledger) (h : o.Holds (.pusher d.id) none)
    (hproc : d.proc = none) (reason : String) : Keeps d o (d.setState (.failed reason) o) :=
  keeps_setState hl (sound_of_none h hproc (by simp [fitted]) (by simp [fitted]))

theorem keeps_setState_idle (hl : o.Ledger) (h : o.Holds (.pusher d.id) none)
    (hproc : d.proc = none) : Keeps d o (d.setState .idle o) :=
  keeps_setState hl (sound_of_none h hproc (by simp [fitted]) (by simp [fitted]))

theorem keeps_failed (hl : o.Ledger) (h : o.Holds (.pusher d.id) none) (hproc : d.proc = none)
    (nowMs : UInt64) (reason : String) : Keeps d o (d.failed nowMs reason o) :=
  (keeps_setState_failed (d := { d with
    backoff := d.backoff.fail.1, retryAtMs := some (nowMs + d.backoff.fail.2) })
    hl h hproc reason).after rfl (.refl _ _)

theorem stop_spec (c : Conditions) (hl : o.Ledger) (h : d.Sound o) :
    (d.stop c o).1 = { d with proc := none } ∧ (d.stop c o).2.Ledger ∧
      (d.stop c o).2.Holds (.pusher d.id) none ∧ Only (.pusher d.id) o (d.stop c o).2 := by
  unfold stop
  refine ⟨rfl, ?_⟩
  cases hproc : d.proc with
  | none =>
    exact ⟨hl.clearProgress _ _, (h.holds_none hproc).clearProgress _ _, only_clearProgress _ _ _⟩
  | some p =>
    have hholds : o.Holds (.pusher d.id) (some p) := hproc ▸ h.holds
    have htask := hholds.1 p rfl
    have hkill := only_kill o p
    rw [htask] at hkill
    exact ⟨(hl.kill p).clearProgress _ _, hholds.kill.clearProgress _ _,
      hkill.trans (only_clearProgress _ _ _)⟩

theorem keeps_replace (c : Conditions) (platform : StreamPlatform) (key : String)
    (hl : o.Ledger) (h : d.Sound o) : Keeps d o (d.replace c platform key o) := by
  obtain ⟨hfst, hledger, hholds, honly⟩ := stop_spec c hl h
  unfold replace
  rw [hfst]
  exact (keeps_setState_idle (d := { d with
    platform, key, proc := none, backoff := .new, retryAtMs := none }) hledger hholds rfl).after
      rfl honly

theorem keeps_idle (c : Conditions) (hl : o.Ledger) (h : d.Sound o) :
    Keeps d o (d.idle c o) := by
  obtain ⟨hfst, hledger, hholds, honly⟩ := stop_spec c hl h
  unfold idle
  rw [hfst]
  exact (keeps_setState_idle (d := { d with proc := none, backoff := .new, retryAtMs := none })
    hledger hholds rfl).after rfl honly

theorem keeps_spawnPusher (cfg : StreamConfig) (c : Conditions) (nowMs : UInt64)
    (hl : o.Ledger) (h : o.Holds (.pusher d.id) none) (hproc : d.proc = none) :
    Keeps d o (d.spawnPusher cfg c nowMs o) := by
  unfold spawnPusher
  split
  · exact keeps_setState_failed hl h hproc _
  · next spec _ =>
    have hl' := hl.clearProgress d.id (c.clear d.id)
    have hcleared := h.clearProgress d.id (c.clear d.id)
    have honly := only_clearProgress o d.id (c.clear d.id)
    have hempty : ∀ u, (o.clearProgress d.id (c.clear d.id)).1 = .ok u →
        (o.clearProgress d.id (c.clear d.id)).2.progress d.id = none := by
      intro u hu
      cases hclear : c.clear d.id with
      | some err => simp [hclear, clearProgress] at hu
      | none => simp [clearProgress]
    generalize o.clearProgress d.id (c.clear d.id) = cleared at *
    obtain ⟨result, o₁⟩ := cleared
    cases result with
    | error err => exact (keeps_failed hl' hcleared hproc _ _).after rfl honly
    | ok u =>
      dsimp only
      split
      · exact (keeps_failed hl' hcleared hproc _ _).after rfl honly
      · set procSpec : ProcSpec :=
          { label := .pusher d.platform d.id, stdin := .secretFile (spec.ingestUrl d.key) }
        have honly' := honly.trans (only_spawn o₁ procSpec (c.pusher d.id))
        have hl'' := hl'.spawn procSpec (c.pusher d.id)
        cases hspawn : c.pusher d.id with
        | some err => exact (keeps_failed hl' hcleared hproc _ _).after rfl honly
        | none =>
          rw [hspawn] at honly' hl''
          refine (keeps_setState (d := { d with
            proc := some ⟨procSpec.label.task, o₁.spawned procSpec.label.task⟩
            progressAtMs := nowMs, retryAtMs := none }) hl'' ⟨?_, ?_, ?_, ?_⟩).after rfl honly'
          · exact Holds.spawn procSpec hcleared
          · simp [fitted]
          · intro p _ f hf
            have hf' : o₁.progress d.id = some f := hf
            rw [hempty u rfl] at hf'
            cases hf'
          · exact fun hlive => absurd hlive (by simp [fitted])

theorem Sound.reported_sawBlock (hl : o.Ledger) (h : d.Sound o) (hproc : d.proc = some p)
    (hpushed : o.pushed d.id) : (o.sawBlock d.id).Reported d.id p := by
  obtain ⟨file, hfile, _⟩ := (Option.any_eq_true _ _).mp hpushed
  have hall := h.file p hproc file hfile
  obtain ⟨q, hq⟩ := List.exists_mem_of_ne_nil _ file.written
  have hholds : o.Holds (.pusher d.id) (some p) := hproc ▸ h.holds
  obtain ⟨spec, hspawned⟩ := ((hl.unreaped p).mp hholds.isSome).1
  obtain ⟨pre, post, hlog⟩ := List.append_of_mem hspawned
  refine ⟨pre, spec, post ++ [.sawBlock d.id file.writers], file.writers, ?_, by simp,
    hall q hq ▸ hq, hall⟩
  simp [Outside.sawBlock, hfile, hlog]

theorem Sound.trimProgress (h : d.Sound o) (trims : Bool) :
    d.Sound (o.trimProgress d.id trims) := by
  unfold Outside.trimProgress
  split
  · refine ⟨h.holds, h.running, fun p hp f hf => ?_, h.reported⟩
    simp only [Function.update_self] at hf
    obtain ⟨file, hfile, rfl⟩ := Option.map_eq_some_iff.mp hf
    exact h.file p hp file hfile
  · exact h

theorem Keeps.later (h : Keeps d o (d, o')) (progressAtMs : UInt64) :
    Keeps d o ({ d with progressAtMs }, o') where
  ledger := h.ledger
  sound := ⟨h.sound.holds, h.sound.running, h.sound.file, h.sound.reported⟩
  id := rfl
  only := h.only

theorem keeps_readReport (c : Conditions) (nowMs : UInt64) (hl : o.Ledger) (h : d.Sound o)
    (hproc : d.proc = some p) : Keeps d o (d.readReport c nowMs o) := by
  unfold readReport
  split
  · exact ⟨hl, h, rfl, .refl _ _⟩
  · split
    · next hstate =>
      split
      · next hpushed =>
        refine (keeps_setState (d := { d with
          backoff := .new, progressAtMs := nowMs + progressTrimMs }) (hl.sawBlock d.id)
          ⟨h.holds, ?_, h.file, ?_⟩).after rfl (only_sawBlock o d.id)
        · simp [hproc, fitted]
        · intro _ q hq
          exact h.reported_sawBlock hl hq hpushed
      · have hsame : Keeps d o (d, o) := ⟨hl, h, rfl, .refl _ _⟩
        exact hsame.later _
    · next hstate =>
      have htrimmed : Keeps d o (d, o.trimProgress d.id (c.trims d.id)) :=
        ⟨hl.trimProgress _ _, h.trimProgress _, rfl, only_trimProgress _ _ _⟩
      exact htrimmed.later _
    · exact ⟨hl, h, rfl, .refl _ _⟩

theorem keeps_attempt (cfg : StreamConfig) (c : Conditions) (nowMs : UInt64) (encoding : Bool)
    (encoderReason : Option String) (hl : o.Ledger) (h : d.Sound o) (hproc : d.proc = none) :
    Keeps d o (d.attempt cfg c nowMs encoding encoderReason o) := by
  have hnone := h.holds_none hproc
  unfold attempt
  split
  · split
    · exact keeps_setState_failed hl hnone hproc _
    · exact ⟨hl, h, rfl, .refl _ _⟩
  · split
    · exact ⟨hl, h, rfl, .refl _ _⟩
    · exact keeps_spawnPusher cfg c nowMs hl hnone hproc

theorem keeps_poll (cfg : StreamConfig) (c : Conditions) (nowMs : UInt64) (encoding : Bool)
    (encoderReason : Option String) (hl : o.Ledger) (h : d.Sound o) :
    Keeps d o (d.poll cfg c nowMs encoding encoderReason o) := by
  unfold poll
  cases hproc : d.proc with
  | none => exact keeps_attempt cfg c nowMs encoding encoderReason hl h hproc
  | some p =>
    have hholds : o.Holds (.pusher d.id) (some p) := hproc ▸ h.holds
    dsimp only
    split
    · exact keeps_readReport c nowMs hl h hproc
    · have hkill := only_kill o p
      rw [hholds.1 p rfl] at hkill
      exact (keeps_failed (d := { d with proc := none }) (hl.kill p) hholds.kill rfl _ _).after
        rfl hkill

theorem Sound.exits (h : d.Sound o) (q : ProcId) (reason : String) :
    d.Sound (o.exits q reason) := by
  have hholds := h.holds.exits q reason
  unfold Outside.exits at hholds ⊢
  split
  · next hrunning =>
    rw [if_pos hrunning] at hholds
    exact ⟨hholds, h.running, h.file, h.reported⟩
  · exact h

theorem Sound.writes (h : d.Sound o) (q : ProcId) (text : List Char) :
    d.Sound (o.writes q text) := by
  have hholds := h.holds.writes q text
  unfold Outside.writes at hholds ⊢
  split
  · exact h
  · next id htask =>
    split
    · next hrunning =>
      simp only [htask, hrunning] at hholds
      refine ⟨hholds, h.running, fun p hp f hf => ?_, h.reported⟩
      simp only [Function.update_apply] at hf
      split_ifs at hf with hid
      · have hq : d.proc = some q :=
          (h.holds.2 q (hid ▸ htask)).mp (by rw [hrunning]; rfl)
        obtain rfl : q = p := Option.some.inj (hq.symm.trans hp)
        rw [← Option.some.inj hf]
        intro r hr
        rcases List.mem_cons.mp hr with rfl | hr
        · rfl
        · cases hfile : o.progress id with
          | none => simp [hfile] at hr
          | some file =>
            refine h.file q hp file (hid ▸ hfile) r ?_
            simpa [hfile] using hr
      · exact h.file p hp f hf
    · exact h

end Destination
theorem onDestination_eq_some {id : DestinationId} {f : Destination → Outside → Destination × Outside}
    {ds : List Destination} {o : Outside} {r : List Destination × Outside}
    (h : onDestination id f ds o = some r) :
    ∃ pre d post, ds = pre ++ d :: post ∧ d.id = id ∧
      r = (pre ++ (f d o).1 :: post, (f d o).2) := by
  induction ds generalizing r with
  | nil => cases h
  | cons d ds ih =>
    rw [onDestination] at h
    split_ifs at h with hid
    · exact ⟨[], d, ds, rfl, hid, (Option.some.inj h).symm⟩
    · obtain ⟨r', hr', rfl⟩ := Option.map_eq_some_iff.mp h
      obtain ⟨pre, e, post, rfl, he, rfl⟩ := ih hr'
      exact ⟨d :: pre, e, post, rfl, he, rfl⟩

theorem onDestination_eq_none {id : DestinationId} {f : Destination → Outside → Destination × Outside}
    {ds : List Destination} {o : Outside} (h : onDestination id f ds o = none) :
    id ∉ ds.map Destination.id := by
  induction ds with
  | nil => simp
  | cons d ds ih =>
    rw [onDestination] at h
    split_ifs at h with hid
    rw [List.map_cons, List.mem_cons, not_or]
    exact ⟨fun heq => hid heq.symm, ih (Option.map_eq_none_iff.mp h)⟩

namespace Pipeline

structure Supervised (s : Pipeline) : Prop where
  ledger : s.outside.Ledger
  encoder : s.outside.Holds .encoder (s.encoder.map Encoder.proc)
  dests : ∀ d ∈ s.dests, d.Sound s.outside
  ids : (s.dests.map Destination.id).Nodup
  absent : ∀ id ∉ s.dests.map Destination.id, s.outside.Holds (.pusher id) none

variable {s s' : Pipeline}

theorem supervised_new (cfg : StreamConfig) : Supervised (new cfg) where
  ledger := ledger_new
  encoder := holds_none _ _ fun _ _ => rfl
  dests d hd := by simp [new] at hd
  ids := by simp [new]
  absent _ _ := holds_none _ _ fun _ _ => rfl

theorem Supervised.of_encoder (h : s.Supervised) (hdests : s'.dests = s.dests)
    (hl : s'.outside.Ledger) (henc : s'.outside.Holds .encoder (s'.encoder.map Encoder.proc))
    (honly : Only .encoder s.outside s'.outside) : s'.Supervised where
  ledger := hl
  encoder := henc
  dests d hd := (h.dests d (hdests ▸ hd)).frame honly (by simp)
  ids := hdests ▸ h.ids
  absent id hid := (h.absent id (hdests ▸ hid)).frame honly (by simp)

theorem Supervised.encoderDown (h : s.Supervised) (nowMs : UInt64) (reason : String) :
    (s.encoderDown nowMs reason).Supervised :=
  h.of_encoder rfl (h.ledger.emit _) h.encoder (only_emit _ _ rfl)

theorem Supervised.dropEncoder (h : s.Supervised) :
    s.dropEncoder.Supervised ∧ s.dropEncoder.encoder = none := by
  unfold Pipeline.dropEncoder
  split
  · next enc henc =>
    have hholds : s.outside.Holds .encoder (some enc.proc) := by
      have := h.encoder
      rwa [henc] at this
    have hkill := only_kill s.outside enc.proc
    rw [hholds.1 _ rfl] at hkill
    exact ⟨h.of_encoder rfl (h.ledger.kill _) hholds.kill hkill, rfl⟩
  · next henc => exact ⟨h, henc⟩

theorem Supervised.spawnEncoder (h : s.Supervised) (hnone : s.encoder = none) (c : Conditions)
    (nowMs : UInt64) : (s.spawnEncoder c nowMs).Supervised := by
  have hholds : s.outside.Holds .encoder none := by
    have := h.encoder
    rwa [hnone] at this
  have honly := only_spawn s.outside encoderSpec c.encoder
  have hl := h.ledger.spawn encoderSpec c.encoder
  unfold Pipeline.spawnEncoder
  cases hspawn : c.encoder with
  | some err => exact h.encoderDown nowMs _
  | none =>
    rw [hspawn] at honly hl
    exact h.of_encoder rfl (hl.emit _) (Holds.spawn encoderSpec hholds)
      (honly.trans (only_emit _ _ rfl))

theorem Supervised.pollEncoder (h : s.Supervised) (c : Conditions) (nowMs : UInt64) :
    (s.pollEncoder c nowMs).Supervised := by
  unfold Pipeline.pollEncoder
  split
  · next enc henc =>
    split
    · split
      · refine h.of_encoder rfl h.ledger ?_ (.refl _ _)
        have := h.encoder
        rwa [henc] at this
      · exact h
    · exact h.dropEncoder.1.encoderDown nowMs _
  · next henc =>
    split
    · exact h
    · exact h.spawnEncoder henc c nowMs

/-- What is shared, while the destinations take their steps: the books, the encoder's
process, and nothing held for an id that none of them has. -/
def Shared (enc : Option ProcId) (ids : List DestinationId) (o : Outside) : Prop :=
  o.Ledger ∧ o.Holds .encoder enc ∧ ∀ id ∉ ids, o.Holds (.pusher id) none

theorem Supervised.shared (h : s.Supervised) :
    Shared (s.encoder.map Encoder.proc) (s.dests.map Destination.id) s.outside :=
  ⟨h.ledger, h.encoder, h.absent⟩

theorem Supervised.listed (h : s.Supervised) (d : Destination) (hd : d ∈ s.dests) :
    d.Sound s.outside ∧ d.id ∈ s.dests.map Destination.id :=
  ⟨h.dests d hd, List.mem_map_of_mem hd⟩

theorem owned_of_keeps {f : Destination → Outside → Destination × Outside}
    (hf : ∀ (d : Destination) (o : Outside), o.Ledger → d.Sound o → d.Keeps o (f d o))
    (enc : Option ProcId) (ids : List DestinationId) :
    Owned f Destination.id (Shared enc ids) (fun d o => d.Sound o ∧ d.id ∈ ids)
      (fun id => Only (.pusher id)) where
  step d o hI hP := by
    have hkeeps := hf d o hI.1 hP.1
    refine ⟨hkeeps.id, ⟨hkeeps.ledger, hI.2.1.frame hkeeps.only (by simp), ?_⟩,
      ⟨hkeeps.sound, hkeeps.id ▸ hP.2⟩, hkeeps.only⟩
    intro id hid
    refine (hI.2.2 id hid).frame hkeeps.only fun heq => hid ?_
    rw [Task.pusher.inj heq]
    exact hP.2
  frame id d o o' honly hne hP := ⟨hP.1.frame honly (by simpa using hne), hP.2⟩

theorem Supervised.eachDestination (h : s.Supervised)
    {f : Destination → Outside → Destination × Outside}
    (hf : ∀ (d : Destination) (o : Outside), o.Ledger → d.Sound o → d.Keeps o (f d o)) :
    (s.eachDestination f).Supervised := by
  obtain ⟨hkeys, ⟨hl, henc, habsent⟩, hdests⟩ :=
    (owned_of_keeps hf _ _).each h.ids h.shared h.listed
  constructor
  · exact hl
  · exact henc
  · exact fun d hd => (hdests d hd).1
  · change ((each f s.dests s.outside).1.map Destination.id).Nodup
    exact hkeys ▸ h.ids
  · intro id hid
    change id ∉ (each f s.dests s.outside).1.map Destination.id at hid
    exact habsent id (hkeys ▸ hid)

theorem Supervised.poll (h : s.Supervised) (c : Conditions) (nowMs : UInt64) :
    (s.poll c nowMs).Supervised := by
  unfold Pipeline.poll
  split
  · refine (h.pollEncoder c nowMs).eachDestination fun d o hl hd => ?_
    exact Destination.keeps_poll _ c nowMs _ _ hl hd
  · exact h

theorem Supervised.others (h : s.Supervised) {pre post : List Destination} {d : Destination}
    (hdests : s.dests = pre ++ d :: post) {r : Destination × Outside}
    (hr : d.Keeps s.outside r) : (∀ e ∈ pre ++ post, e.Sound r.2) ∧
      d.id ∉ (pre ++ post).map Destination.id ∧ ((pre ++ post).map Destination.id).Nodup := by
  have hnodup := h.ids
  rw [hdests, List.map_append, List.map_cons, List.nodup_middle, List.nodup_cons,
    ← List.map_append] at hnodup
  refine ⟨fun e he => ?_, hnodup⟩
  have hmem : e ∈ s.dests := by
    rw [hdests]
    simp only [List.mem_append, List.mem_cons] at he ⊢
    tauto
  refine (h.dests e hmem).frame hr.only fun heq => hnodup.1 ?_
  exact Task.pusher.inj heq ▸ List.mem_map_of_mem he

theorem Supervised.update (h : s.Supervised) {pre post : List Destination} {d : Destination}
    (hdests : s.dests = pre ++ d :: post) {r : Destination × Outside}
    (hr : d.Keeps s.outside r) :
    Supervised { s with dests := pre ++ r.1 :: post, outside := r.2 } := by
  obtain ⟨hothers, -, -⟩ := h.others hdests hr
  have hids : (pre ++ r.1 :: post).map Destination.id = s.dests.map Destination.id := by
    rw [hdests]
    simp [hr.id]
  constructor
  · exact hr.ledger
  · exact h.encoder.frame hr.only (by simp)
  · intro e he
    rcases List.mem_append.mp he with he | he
    · exact hothers e (List.mem_append_left _ he)
    · rcases List.mem_cons.mp he with rfl | he
      · exact hr.sound
      · exact hothers e (List.mem_append_right _ he)
  · exact hids ▸ h.ids
  · intro id hid
    rw [hids] at hid
    refine (h.absent id hid).frame hr.only fun heq => hid ?_
    rw [Task.pusher.inj heq, hdests]
    simp

theorem Supervised.remove (h : s.Supervised) {pre post : List Destination} {d : Destination}
    (hdests : s.dests = pre ++ d :: post) {r : Destination × Outside}
    (hr : d.Keeps s.outside r) (hproc : r.1.proc = none) :
    Supervised { s with dests := pre ++ post, outside := r.2 } := by
  obtain ⟨hothers, -, hnodup⟩ := h.others hdests hr
  refine ⟨hr.ledger, h.encoder.frame hr.only (by simp), hothers, hnodup, fun id hid => ?_⟩
  by_cases hd : id = d.id
  · rw [hd, ← hr.id]
    exact hr.sound.holds_none hproc
  · refine (h.absent id fun hmem => hid ?_).frame hr.only (by simpa using hd)
    rw [hdests] at hmem
    simp only [List.map_append, List.map_cons, List.mem_append, List.mem_cons] at hmem ⊢
    tauto

theorem Supervised.push (h : s.Supervised) {id : DestinationId}
    (hid : id ∉ s.dests.map Destination.id) (platform : StreamPlatform) (key : String) :
    (s.newDestination id platform key).Supervised := by
  unfold newDestination
  constructor
  · exact h.ledger.emit _
  · exact h.encoder
  · intro d hd
    rcases List.mem_append.mp hd with hd | hd
    · exact (h.dests d hd).frame (only_emit (t := .pusher id) _ _ rfl) fun heq => hid
        (Task.pusher.inj heq ▸ List.mem_map_of_mem hd)
    · rw [List.mem_singleton.mp hd]
      exact Destination.sound_of_none (h.absent id hid) rfl (by simp [Destination.new])
        (by simp [Destination.new])
  · simp only [List.map_append, List.map_cons, List.map_nil]
    refine List.nodup_append.mpr ⟨h.ids, List.nodup_singleton _, fun a ha b hb heq => hid ?_⟩
    rw [heq, List.mem_singleton.mp hb] at ha
    exact ha
  · intro other hother
    refine h.absent other fun hmem => hother ?_
    rw [List.map_append]
    exact List.mem_append_left _ hmem

theorem Supervised.replaced (h : s.Supervised) {c : Conditions} {id : DestinationId}
    {platform : StreamPlatform} {key : String} {r : List Destination × Outside}
    (hr : onDestination id (Destination.replace c platform key) s.dests s.outside = some r) :
    Supervised { s with dests := r.1, outside := r.2 } := by
  obtain ⟨pre, d, post, hdests, -, rfl⟩ := onDestination_eq_some hr
  exact h.update hdests
    (Destination.keeps_replace c platform key h.ledger (h.dests d (by simp [hdests])))

theorem Supervised.addDestination (h : s.Supervised) (c : Conditions) (nowMs : UInt64)
    (id : DestinationId) (platform : StreamPlatform) (key : String) :
    (s.addDestination c nowMs id platform key).2.Supervised := by
  unfold Pipeline.addDestination
  split
  · exact h
  · split
    · next dests outside hon => exact (h.replaced hon).poll c nowMs
    · next hon =>
      split
      · exact h
      · exact (h.push (onDestination_eq_none hon) platform key).poll c nowMs

theorem eraseP_ids {pre post : List Destination} {d : Destination}
    (hnodup : ((pre ++ d :: post).map Destination.id).Nodup) :
    (pre ++ d :: post).eraseP (·.id = d.id) = pre ++ post := by
  rw [List.map_append, List.map_cons, List.nodup_middle, List.nodup_cons, ← List.map_append] at hnodup
  have hpre : ∀ e ∈ pre, ¬ decide (e.id = d.id) = true := by
    intro e he heq
    refine hnodup.1 (of_decide_eq_true heq ▸ List.mem_map_of_mem (List.mem_append_left _ he))
  rw [List.eraseP_append_right _ hpre]
  simp

theorem Supervised.removeDestination (h : s.Supervised) (c : Conditions) (id : DestinationId) :
    (s.removeDestination c id).2.Supervised := by
  unfold Pipeline.removeDestination
  split
  · exact h
  · next d hfind =>
    obtain ⟨pre, post, hdests⟩ := List.append_of_mem (List.mem_of_find?_eq_some hfind)
    have hsound := h.dests d (by simp [hdests])
    obtain ⟨-, hl, hholds, honly⟩ := Destination.stop_spec c h.ledger hsound
    have hids := h.ids
    rw [hdests] at hids
    unfold dropDestination
    rw [hdests, eraseP_ids hids]
    refine h.remove hdests (r := ({ d with proc := none, state := .idle }, _))
      ⟨hl.emit _, ?_, rfl, honly.trans (only_emit _ _ rfl)⟩ rfl
    exact Destination.sound_of_none hholds rfl (by simp) (by simp)

theorem Supervised.idle (h : s.Supervised) (c : Conditions) :
    ({ s with started := false }.eachDestination (Destination.idle c)).Supervised := by
  have hstarted : Supervised { s with started := false } :=
    ⟨h.ledger, h.encoder, h.dests, h.ids, h.absent⟩
  exact hstarted.eachDestination fun d o hl hd => Destination.keeps_idle c hl hd

theorem Supervised.stop (h : s.Supervised) (c : Conditions) : (s.stop c).Supervised := by
  have hidle := h.idle c
  unfold Pipeline.stop stopEncoder
  split
  · obtain ⟨hdrop, -⟩ := hidle.dropEncoder
    exact hdrop.of_encoder rfl (hdrop.ledger.emit _) hdrop.encoder (only_emit _ _ rfl)
  · exact ⟨hidle.ledger, hidle.encoder, hidle.dests, hidle.ids, hidle.absent⟩

theorem Supervised.encoderFailed (h : s.Supervised) (nowMs : UInt64) (reason : String) :
    (s.encoderFailed nowMs reason).Supervised :=
  h.dropEncoder.1.encoderDown nowMs reason

theorem Supervised.pushFrames (w : Writes) (nowMs : UInt64) (frames : List ℕ) :
    ∀ {s : Pipeline} (rendered : Bool), s.Supervised →
      (Pipeline.pushFrames w nowMs rendered frames s).Supervised := by
  induction frames with
  | nil => exact fun _ h => h
  | cons frame frames ih =>
    intro s rendered h
    have hrepeated : Supervised
        (if rendered then { s with repeatedFrames := s.repeatedFrames + 1 } else s) := by
      split
      · exact ⟨h.ledger, h.encoder, h.dests, h.ids, h.absent⟩
      · exact h
    simp only [Pipeline.pushFrames]
    split
    · exact ih true hrepeated
    · exact ih true ⟨hrepeated.ledger, hrepeated.encoder, hrepeated.dests, hrepeated.ids,
        hrepeated.absent⟩
    · exact hrepeated.encoderFailed nowMs _

theorem Supervised.pushTick (h : s.Supervised) (w : Writes) (nowMs : UInt64) (samples : ℕ) :
    (s.pushTick w nowMs samples).Supervised := by
  unfold Pipeline.pushTick
  split
  · exact h
  · split
    · exact h.encoderFailed nowMs _
    · exact .pushFrames w nowMs _ false ⟨h.ledger, h.encoder, h.dests, h.ids, h.absent⟩

theorem Supervised.step (h : s.Supervised) (e : Event) : (s.step e).Supervised := by
  cases e with
  | apply c nowMs op =>
    cases op with
    | addDestination id platform key => exact h.addDestination c nowMs id platform key
    | removeDestination id => exact h.removeDestination c id
    | start =>
      have hstarted : Supervised { s with started := true, encoderRetryAtMs := none } :=
        ⟨h.ledger, h.encoder, h.dests, h.ids, h.absent⟩
      exact hstarted.poll c nowMs
    | stop => exact h.stop c
  | poll c nowMs => exact h.poll c nowMs
  | pushTick w nowMs samples => exact h.pushTick w nowMs samples
  | exits proc reason =>
    exact ⟨h.ledger.exits _ _, h.encoder.exits _ _, fun d hd => (h.dests d hd).exits _ _, h.ids,
      fun id hid => (h.absent id hid).exits _ _⟩
  | writes proc text =>
    exact ⟨h.ledger.writes _ _, h.encoder.writes _ _, fun d hd => (h.dests d hd).writes _ _, h.ids,
      fun id hid => (h.absent id hid).writes _ _⟩

theorem supervised (cfg : StreamConfig) (events : List Event) :
    (run step (new cfg) events).Supervised :=
  run_invariant (fun _ e h => h.step e) (supervised_new cfg) events

theorem Supervised.unreaped_iff (h : s.Supervised) (p : ProcId) :
    s.outside.Unreaped p ↔
      s.encoder.map Encoder.proc = some p ∨ ∃ d ∈ s.dests, d.proc = some p := by
  rw [← h.ledger.unreaped]
  constructor
  · intro hsome
    cases htask : p.task with
    | encoder => exact .inl ((h.encoder.2 p htask).mp hsome)
    | pusher id =>
      by_cases hid : id ∈ s.dests.map Destination.id
      · obtain ⟨d, hd, rfl⟩ := List.mem_map.mp hid
        exact .inr ⟨d, hd, ((h.dests d hd).holds.2 p htask).mp hsome⟩
      · exact absurd (((h.absent id hid).2 p htask).mp hsome) (by simp)
  · rintro (henc | ⟨d, hd, hp⟩)
    · exact (h.encoder.2 p (h.encoder.1 p henc)).mpr henc
    · have hholds := (h.dests d hd).holds
      exact (hholds.2 p (hholds.1 p hp)).mpr hp

/-- In every reachable state a destination holds a process exactly while it is connecting or
live, what was spawned and neither killed nor reaped is what the encoder and the destinations
hold, and a live destination has been heard from by the process it holds. -/
theorem processes_are_held (cfg : StreamConfig) (events : List Event) :
    let s := run step (new cfg) events
    (∀ d ∈ s.dests, d.proc.isSome ↔ d.state = .connecting ∨ d.state = .live) ∧
      {p | s.outside.Unreaped p} =
        {p | s.encoder.map Encoder.proc = some p} ∪ {p | ∃ d ∈ s.dests, d.proc = some p} ∧
      ∀ d ∈ s.dests, d.state = .live → ∃ p, d.proc = some p ∧ s.outside.Reported d.id p := by
  have h := supervised cfg events
  refine ⟨fun d hd => (h.dests d hd).running, Set.ext fun p => h.unreaped_iff p, ?_⟩
  intro d hd hlive
  obtain ⟨p, hp⟩ := Option.isSome_iff_exists.mp ((h.dests d hd).running.mpr (.inr hlive))
  exact ⟨p, hp, (h.dests d hd).reported hlive p hp⟩

end Pipeline
end JamStream.Stream
