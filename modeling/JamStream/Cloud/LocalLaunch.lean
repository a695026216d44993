import JamStream.Cloud.LocalRegistry

/-! One launch on this computer, on its own from the spawn on. Its server may end and its registry
cycles may fail wherever they like. -/

namespace JamStream.Cloud
open Runs

/-- A launch with the machine it runs on, and the server it has started if it came to that. -/
structure Launching where
  machine : LocalMachine
  call : ℕ
  server : Option (HostProcess × String)

inductive LaunchEvent
  | exit (pid : UInt32)
  | goOn (input : LocalInput)

def LaunchEvent.move (call : ℕ) : LaunchEvent → LocalMove
  | .exit pid => .exit pid
  | .goOn input => .advance call input

/-- Every outcome but an instance is an error of the launch, a server that was stopped again
included. -/
def LocalOutcome.isLaunched : LocalOutcome → Bool
  | .launched _ => true
  | _ => false

def LocalCall.outcome : LocalCall → Option LocalOutcome
  | .returned r => some r
  | _ => none

namespace LocalMachine

def launching (s : LocalMachine) (who : ℕ) (spec : LaunchSpec) (dir : String)
    (image : Option String) (p : HostProcess) : Launching :=
  { machine := s.launch who spec dir image p
    call := s.calls.length
    server :=
      if spec.region = localRegion ∧ s.canStart p = true then
        spec.sessionId.map fun session => (p, session)
      else none }

def entriesOf (s : LocalMachine) (p : HostProcess) (session : String) : List Recorded :=
  s.registry.filter fun e => e.pid = p.pid && e.session = session && e.procStart = some p.token

end LocalMachine

namespace Launching

def current (t : Launching) : Option LocalCall := t.machine.calls[t.call]?

def outcome (t : Launching) : Option LocalOutcome := t.current.bind LocalCall.outcome

def step (t : Launching) (event : LaunchEvent) : Launching :=
  if t.outcome.isSome then t else { t with machine := t.machine.step (event.move t.call) }

/-- At the return, a launched server has its one entry, and after an error it has one or has
ended. -/
def RecordedOrDead (t : Launching) : Prop :=
  ∀ r, t.outcome = some r → ∀ p session, t.server = some (p, session) →
    (r.isLaunched = true → (t.machine.entriesOf p session).length = 1) ∧
    (r.isLaunched = false → t.machine.Holds p.pid p.token → t.machine.entriesOf p session ≠ [])

/-- The cycle that is to record the server goes through, or the server has ended by then. -/
def RecordsServer (t : Launching) : LaunchEvent → Prop
  | .exit _ => True
  | .goOn input => ∀ l e, t.current = some (.unrecorded l e) → t.machine.pruning = none →
    input.saved.isOk = false → ¬t.machine.Holds e.pid e.own

end Launching

namespace LocalMachine
variable {s : LocalMachine} {p : HostProcess} {who : ℕ} {session : String} {pid : UInt32}

/-! The tokens of entries are tokens that were given, so a new server's own is in none. -/

def FromTokens (s : LocalMachine) (e : Recorded) : Prop :=
  ∀ x, e.procStart = some x → x ∈ s.tokens

structure Tokened (s : LocalMachine) : Prop where
  given : ∀ p ∈ s.procs, p.token ∈ s.tokens
  listed : ∀ e ∈ s.registry, s.FromTokens e
  pruning : ∀ c ∈ s.pruning, ∀ e ∈ c.kept ++ c.todo, s.FromTokens e
  calls : ∀ l e, LocalCall.unrecorded l e ∈ s.calls → s.FromTokens e

theorem tokened_init : init.Tokened :=
  ⟨fun _ hp => (nomatch hp), fun _ he => (nomatch he), fun _ hc => (nomatch hc),
    fun _ _ hcall => (nomatch hcall)⟩

structure Fewer (s t : LocalMachine) : Prop where
  procs : ∀ p ∈ t.procs, p ∈ s.procs
  tokens : t.tokens = s.tokens
  registry : t.registry = s.registry
  pruning : t.pruning = s.pruning
  calls : t.calls = s.calls

theorem Fewer.refl (s : LocalMachine) : Fewer s s := ⟨fun _ hp => hp, rfl, rfl, rfl, rfl⟩

theorem fewer_reap (s : LocalMachine) (who : ℕ) (pid : UInt32) :
    Fewer s ((s.reap pid).forget who pid) :=
  ⟨fun _ hp => List.mem_of_mem_filter hp, rfl, rfl, rfl, rfl⟩

theorem fewer_liveness (s : LocalMachine) (who : ℕ) (e : RegistryEntry) (readable : Bool) :
    Fewer s (s.liveness who e readable).1 := by
  rw [liveness]
  cases hwait : s.tryWait who e.pid with
  | none => exact Fewer.refl s
  | some r =>
    rw [tryWait] at hwait
    split at hwait
    · cases hwait
    · split at hwait
      · cases hwait
      · split at hwait
        · obtain rfl := Option.some.inj hwait
          dsimp only
          split
          · exact fewer_reap s who e.pid
          · exact Fewer.refl s
        · cases hwait

theorem fewer_waitChild (s : LocalMachine) (target : LocalTarget) (e : Recorded) :
    Fewer s (s.waitChild target e).1 := by
  rw [waitChild]
  split
  · exact Fewer.refl s
  · split
    · exact Fewer.refl s
    · dsimp only
      split
      · exact fewer_reap s target.who e.pid
      · exact ⟨fun _ hp => hp, rfl, rfl, rfl, rfl⟩

theorem Tokened.fewer {t : LocalMachine} (h : s.Tokened) (hf : Fewer s t) : t.Tokened where
  given q hq := by
    rw [hf.tokens]
    exact h.given q (hf.procs q hq)
  listed e he := by
    rw [FromTokens, hf.tokens]
    exact h.listed e (hf.registry ▸ he)
  pruning c hc e he := by
    rw [FromTokens, hf.tokens]
    exact h.pruning c (hf.pruning ▸ hc) e he
  calls l e hcall := by
    rw [FromTokens, hf.tokens]
    exact h.calls l e (hf.calls ▸ hcall)

theorem Tokened.withCalls (h : s.Tokened) {calls : List LocalCall}
    (hcalls : ∀ l e, LocalCall.unrecorded l e ∈ calls → s.FromTokens e) :
    { s with calls }.Tokened := ⟨h.given, h.listed, h.pruning, hcalls⟩

theorem Tokened.addCall (h : s.Tokened) (call : LocalCall)
    (hcall : ∀ l e, call ≠ .unrecorded l e) : { s with calls := s.calls ++ [call] }.Tokened := by
  apply h.withCalls
  intro l e hmem
  rcases List.mem_append.mp hmem with hold | hnew
  · exact h.calls l e hold
  · exact absurd (List.mem_singleton.mp hnew).symm (hcall l e)

theorem Tokened.start (h : s.Tokened) (p : HostProcess) : (s.start p).Tokened where
  given q hq := by
    rcases List.mem_append.mp hq with hold | hnew
    · exact List.mem_append_left _ (h.given q hold)
    · rw [List.mem_singleton.mp hnew]
      exact List.mem_append_right _ List.mem_cons_self
  listed e he x hx := List.mem_append_left _ (h.listed e he x hx)
  pruning c hc e he x hx := List.mem_append_left _ (h.pruning c hc e he x hx)
  calls l e hcall x hx := List.mem_append_left _ (h.calls l e hcall x hx)

theorem Tokened.dropPid (h : s.Tokened) (pid : UInt32) : (s.dropPid pid).Tokened :=
  ⟨h.given, fun e he => h.listed e (List.mem_of_mem_filter he), h.pruning, h.calls⟩

theorem Tokened.exit (h : s.Tokened) (pid : UInt32) : (s.exit pid).Tokened := by
  refine ⟨fun q hq => ?_, h.listed, h.pruning, h.calls⟩
  obtain ⟨q', hq', rfl⟩ := List.mem_map.mp hq
  have hgiven := h.given q' hq'
  split <;> exact hgiven

theorem Tokened.launch (h : s.Tokened) (who : ℕ) (spec : LaunchSpec) (dir : String)
    (image : Option String) (p : HostProcess) : (s.launch who spec dir image p).Tokened := by
  rw [LocalMachine.launch]
  split
  · exact h.addCall _ fun _ _ hne => nomatch hne
  · split
    · exact h.addCall _ fun _ _ hne => nomatch hne
    next session hsession =>
      split
      · have hstarted := (h.start p).addCall
          (.spawned { who, spec, session, dir, image } p.pid p.token) fun _ _ hne => nomatch hne
        exact ⟨hstarted.given, hstarted.listed, hstarted.pruning, hstarted.calls⟩
      · exact h

def CallTokened (r : LocalMachine × LocalCall) : Prop :=
  r.1.Tokened ∧ ∀ l e, r.2 = .unrecorded l e → r.1.FromTokens e

theorem Tokened.cycle (h : s.Tokened) {input : LocalInput} {call : LocalCall}
    {f : LocalMachine × LocalCall} (hcall : ∀ l e, call = .unrecorded l e → s.FromTokens e)
    (hf : CallTokened f) : CallTokened (s.cycle input call f) := by
  rw [LocalMachine.cycle]
  split
  · exact ⟨h, hcall⟩
  · split
    · exact ⟨h, fun _ _ hne => nomatch hne⟩
    · exact hf

theorem Tokened.advance (h : s.Tokened) (input : LocalInput) {call : LocalCall}
    (hcall : ∀ l e, call = .unrecorded l e → s.FromTokens e) :
    CallTokened (s.advance input call) := by
  have hother : ∀ {m : LocalMachine} {c : LocalCall}, m.Tokened → (∀ l e, c ≠ .unrecorded l e) →
      CallTokened (m, c) := fun hm hc => ⟨hm, fun l e heq => absurd heq (hc l e)⟩
  cases call with
  | spawned l pid own =>
    refine ⟨h, fun l' e heq x hx => ?_⟩
    obtain ⟨-, rfl⟩ := LocalCall.unrecorded.inj heq
    obtain ⟨q, hq, rfl⟩ := Option.map_eq_some_iff.mp hx
    exact h.given q (List.mem_of_find?_eq_some hq)
  | unrecorded l e =>
    have htokens := hcall l e rfl
    refine h.cycle hcall (hother ⟨h.given, fun e' he' => ?_, h.pruning, h.calls⟩ fun _ _ => nofun)
    rcases List.mem_append.mp he' with hold | hnew
    · exact h.listed e' hold
    · rw [List.mem_singleton.mp hnew]
      exact htokens
  | starting l e =>
    have hlive := h.fewer (fewer_liveness s l.who e.toRegistryEntry input.readable)
    simp only [LocalMachine.advance]
    split
    · exact hother hlive fun _ _ => nofun
    · split
      · exact hother hlive fun _ _ => nofun
      · split <;> exact hother hlive fun _ _ => nofun
  | unstarted l e =>
    simp only [LocalMachine.advance]
    split
    · exact hother h fun _ _ => nofun
    · split
      · exact hother (h.dropPid e.pid) fun _ _ => nofun
      · exact hother h fun _ _ => nofun
  | asked target pid =>
    refine h.cycle hcall ?_
    split <;> exact hother h fun _ _ => nofun
  | found target e =>
    have hlive := h.fewer (fewer_liveness s target.who e.toRegistryEntry input.readable)
    simp only [LocalMachine.advance]
    split <;> exact hother hlive fun _ _ => nofun
  | gone target e => exact h.cycle hcall (hother (h.dropPid e.pid) fun _ _ => nofun)
  | waiting target e liveness killed =>
    have hlive := h.fewer (fewer_liveness s target.who e.toRegistryEntry input.readable)
    simp only [LocalMachine.advance]
    split
    · exact hother hlive fun _ _ => nofun
    · split
      · exact hother hlive fun _ _ => nofun
      · split
        · exact hother hlive fun _ _ => nofun
        · split <;> exact hother hlive fun _ _ => nofun
  | reaping target e =>
    refine ⟨h.fewer (fewer_waitChild s target e), fun l' e' heq => ?_⟩
    change (s.waitChild target e).2 = _ at heq
    rw [waitChild] at heq
    split at heq
    · cases heq
    · split at heq
      · cases heq
      · cases heq
  | stopped target e => exact h.cycle hcall (hother (h.dropPid e.pid) fun _ _ => nofun)
  | returned r => exact hother h fun _ _ => nofun

theorem Tokened.judge (h : s.Tokened) (readable : Bool) : (s.judge readable).Tokened := by
  rw [LocalMachine.judge]
  cases hpruning : s.pruning with
  | none => exact h
  | some c =>
    dsimp only
    cases htodo : c.todo with
    | nil => exact h
    | cons e rest =>
      have hf := fewer_liveness s c.who e.toRegistryEntry readable
      have hlive := h.fewer hf
      have hold := hlive.pruning c (hf.pruning.trans hpruning)
      refine ⟨hlive.given, hlive.listed, fun c' hc' e' he' => ?_, hlive.calls⟩
      obtain rfl := Option.some.inj hc'
      refine hold e' ?_
      rw [htodo]
      rcases List.mem_append.mp he' with hkept | hrest
      · dsimp only at hkept
        split at hkept
        · exact List.mem_append_left _ hkept
        · rcases List.mem_append.mp hkept with hkept | hnew
          · exact List.mem_append_left _ hkept
          · rw [List.mem_singleton.mp hnew]
            exact List.mem_append_right _ List.mem_cons_self
      · exact List.mem_append_right _ (List.mem_cons_of_mem _ hrest)

theorem Tokened.save (h : s.Tokened) (saved : Except String Unit) (ip : Protocol.IpAddr) :
    (s.save saved ip).Tokened := by
  rw [LocalMachine.save]
  cases hpruning : s.pruning with
  | none => exact h
  | some c =>
    dsimp only
    split
    · exact h
    · split
      · have hidle : { s with pruning := none }.Tokened :=
          ⟨h.given, h.listed, fun _ hc => (nomatch hc), h.calls⟩
        exact hidle.addCall _ fun _ _ hne => nomatch hne
      · have hpruned : { s with pruning := none, registry := c.kept }.Tokened :=
          ⟨h.given, fun e he => h.pruning c hpruning e (List.mem_append_left _ he),
            fun _ hc => (nomatch hc), h.calls⟩
        exact hpruned.addCall _ fun _ _ hne => nomatch hne

theorem Tokened.step (h : s.Tokened) (move : LocalMove) : (s.step move).Tokened := by
  cases move with
  | start p =>
    simp only [LocalMachine.step]
    split
    · exact h.start p
    · exact h
  | exit pid => exact h.exit pid
  | reap pid => exact h.fewer ⟨fun _ hp => List.mem_of_mem_filter hp, rfl, rfl, rfl, rfl⟩
  | launch who spec dir image p => exact h.launch who spec dir image p
  | destroy who id =>
    simp only [LocalMachine.step, LocalMachine.destroy]
    split <;> exact h.addCall _ fun _ _ hne => nomatch hne
  | list who tag =>
    simp only [LocalMachine.step, LocalMachine.list]
    split
    · refine ⟨h.given, h.listed, fun c hc e he => ?_, h.calls⟩
      obtain rfl := Option.some.inj hc
      exact h.listed e he
    · exact h
  | judge readable => exact h.judge readable
  | save saved ip => exact h.save saved ip
  | advance i input =>
    simp only [LocalMachine.step]
    cases hcall : s.calls[i]? with
    | none => exact h
    | some call =>
      have hmem := List.mem_of_getElem? hcall
      have htokens : ∀ l e, call = .unrecorded l e → s.FromTokens e := by
        rintro l e rfl
        exact h.calls l e hmem
      obtain ⟨hnext, hunrecorded⟩ := h.advance input htokens
      apply hnext.withCalls
      intro l e hin
      rcases List.mem_or_eq_of_mem_set hin with hold | hnew
      · exact hnext.calls l e hold
      · exact hunrecorded l e hnew.symm

theorem tokened_run (past : List LocalMove) : (run step init past).Tokened :=
  run_invariant (P := Tokened) (fun _ move h => h.step move) tokened_init past

theorem Tokened.unlisted (h : s.Tokened) (hstart : s.canStart p = true) (session : String) :
    s.entriesOf p session = [] := by
  refine List.filter_eq_nil_iff.mpr fun e he hmatch => ?_
  rw [Bool.and_eq_true] at hmatch
  have hgiven := h.listed e he p.token (of_decide_eq_true hmatch.2)
  rw [canStart, Bool.and_eq_true] at hstart
  have hnew : p.token ∉ s.tokens := by simpa using hstart.2
  exact hnew hgiven

end LocalMachine
end JamStream.Cloud
