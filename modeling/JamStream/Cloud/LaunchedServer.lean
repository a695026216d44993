import JamStream.Cloud.LocalLaunch

/-! A server that was started and not recorded is one that nothing finds again. One step of its
launch comes to that: the cycle that should have recorded it fails while it runs. -/

namespace JamStream.Cloud
open Runs

namespace LocalMachine
variable {s : LocalMachine} {p : HostProcess} {who : ℕ} {session : String} {pid : UInt32}

/-- The one process under the server's pid is the server, and is still its launcher's child. -/
structure Attended (s : LocalMachine) (who : ℕ) (p : HostProcess) : Prop where
  only : ∃ q, s.procs.filter (fun r => r.pid = p.pid) = [q] ∧ q.token = p.token
  child : s.children who p.pid = some p.token

def Listed (s : LocalMachine) (p : HostProcess) (session : String) : Prop :=
  (s.entriesOf p session).length = 1

structure OwnEntry (p : HostProcess) (session : String) (e : Recorded) : Prop where
  pid : e.pid = p.pid
  session : e.session = session
  own : e.own = p.token
  procStart : e.procStart = some p.token

def Follows (s : LocalMachine) (who : ℕ) (p : HostProcess) (session : String) : LocalCall → Prop
  | .spawned l pid own =>
    s.Attended who p ∧ s.entriesOf p session = [] ∧ l.who = who ∧ l.session = session ∧
      pid = p.pid ∧ own = p.token
  | .unrecorded l e =>
    s.Attended who p ∧ s.entriesOf p session = [] ∧ l.who = who ∧ OwnEntry p session e
  | .starting l e => s.Attended who p ∧ s.Listed p session ∧ l.who = who ∧ e.pid = p.pid
  | .asked target pid => s.Attended who p ∧ s.Listed p session ∧ target.who = who ∧ pid = p.pid
  | .found target e | .waiting target e _ _ =>
    s.Attended who p ∧ s.Listed p session ∧ target.who = who ∧ e.pid = p.pid
  | .unstarted .. | .gone .. | .reaping .. | .stopped .. => ¬s.Holds p.pid p.token
  | .returned r =>
    (r.isLaunched = true → s.Listed p session) ∧
      (r.isLaunched = false → s.Holds p.pid p.token → s.entriesOf p session ≠ [])

theorem Listed.ne_nil (h : s.Listed p session) : s.entriesOf p session ≠ [] := by
  intro hnil
  rw [Listed, hnil] at h
  cases h

theorem Listed.returned (h : s.Listed p session) {r : LocalOutcome} :
    s.Follows who p session (.returned r) := ⟨fun _ => h, fun _ _ => h.ne_nil⟩

theorem follows_of_ended (h : ¬s.Holds p.pid p.token) {r : LocalOutcome}
    (hr : r.isLaunched = false) : s.Follows who p session (.returned r) := by
  refine ⟨fun hlaunched => ?_, fun _ hholds => absurd hholds h⟩
  rw [hr] at hlaunched
  cases hlaunched

theorem held_eq (s : LocalMachine) (pid : UInt32) :
    s.held pid = (s.procs.filter fun r => r.pid = pid).head? := (List.head?_filter ..).symm

theorem Attended.mem_filter (h : s.Attended who p) : ∃ q, q.token = p.token ∧ q.pid = p.pid ∧
    s.held p.pid = some q ∧ ∀ r ∈ s.procs, r.pid = p.pid → r = q := by
  obtain ⟨q, hfilter, htoken⟩ := h.only
  have hmem : q ∈ s.procs.filter fun r => r.pid = p.pid := by
    rw [hfilter]
    exact List.mem_cons_self
  refine ⟨q, htoken, of_decide_eq_true (List.mem_filter.mp hmem).2, ?_, fun r hr hpid => ?_⟩
  · rw [held_eq, hfilter]
    rfl
  · have hin : r ∈ s.procs.filter fun r => r.pid = p.pid :=
      List.mem_filter.mpr ⟨hr, decide_eq_true hpid⟩
    rw [hfilter] at hin
    exact List.mem_singleton.mp hin

theorem Attended.liveness (h : s.Attended who p) {e : RegistryEntry} (he : e.pid = p.pid)
    (readable : Bool) : s.liveness who e readable = (s, .ours) ∨
      ∃ t, s.liveness who e readable = (t, .dead) ∧ ¬t.Holds p.pid p.token := by
  obtain ⟨q, htoken, -, hheld, hall⟩ := h.mem_filter
  have hwait : s.tryWait who p.pid =
      some (if q.zombie then ((s.reap p.pid).forget who p.pid, .dead) else (s, .ours)) := by
    rw [tryWait, h.child, hheld]
    exact if_pos htoken
  rw [LocalMachine.liveness, he, hwait]
  cases hzombie : q.zombie with
  | false => exact .inl rfl
  | true =>
    refine .inr ⟨_, rfl, ?_⟩
    rintro ⟨r, hr, hpid, -, halive⟩
    have hsame := hall r (List.mem_of_mem_filter hr) hpid
    rw [hsame, hzombie] at halive
    cases halive

theorem Attended.exit (h : s.Attended who p) (pid : UInt32) : (s.exit pid).Attended who p := by
  obtain ⟨q, hfilter, htoken⟩ := h.only
  refine ⟨⟨if q.pid = pid then { q with zombie := true } else q, ?_, ?_⟩, h.child⟩
  · have hpids : (fun r : HostProcess => decide (r.pid = p.pid)) ∘
        (fun r => if r.pid = pid then { r with zombie := true } else r) =
          fun r => decide (r.pid = p.pid) := by
      funext r
      change decide ((if r.pid = pid then { r with zombie := true } else r).pid = p.pid) = _
      split <;> rfl
    change List.filter _ (s.procs.map _) = _
    rw [List.filter_map, hpids, hfilter]
    rfl
  · split <;> exact htoken

theorem ended_exit (h : ¬s.Holds p.pid p.token) (pid : UInt32) :
    ¬(s.exit pid).Holds p.pid p.token := by
  rintro ⟨q, hq, hpid, htoken, halive⟩
  obtain ⟨q', hq', rfl⟩ := List.mem_map.mp hq
  split at halive
  · cases halive
  next hother =>
    rw [if_neg hother] at hpid htoken
    exact h ⟨q', hq', hpid, htoken, halive⟩

theorem Follows.exit {call : LocalCall} (h : s.Follows who p session call) (pid : UInt32)
    (hcall : call.outcome = none) : (s.exit pid).Follows who p session call := by
  cases call with
  | spawned l pid' own => exact ⟨h.1.exit pid, h.2⟩
  | unrecorded l e => exact ⟨h.1.exit pid, h.2⟩
  | starting l e => exact ⟨h.1.exit pid, h.2⟩
  | asked target pid' => exact ⟨h.1.exit pid, h.2⟩
  | found target e => exact ⟨h.1.exit pid, h.2⟩
  | waiting target e liveness killed => exact ⟨h.1.exit pid, h.2⟩
  | unstarted l e => exact ended_exit h pid
  | gone target e => exact ended_exit h pid
  | reaping target e => exact ended_exit h pid
  | stopped target e => exact ended_exit h pid
  | returned r => cases hcall

def CallFollows (who : ℕ) (p : HostProcess) (session : String) (r : LocalMachine × LocalCall) :
    Prop := r.1.Follows who p session r.2

theorem Follows.cycle {input : LocalInput} (call : LocalCall) {f : LocalMachine × LocalCall}
    (h : s.Follows who p session call)
    (hfailed : s.pruning = none → input.saved.isOk = false → ∀ message,
      s.Follows who p session (.returned (.failed (.other message))))
    (hf : CallFollows who p session f) : CallFollows who p session (s.cycle input call f) := by
  rw [LocalMachine.cycle]
  split
  · exact h
  next hfree =>
    have hnone := Option.not_isSome_iff_eq_none.mp hfree
    split
    next message hsaved => exact hfailed hnone (by rw [hsaved]; rfl) message
    · exact hf

theorem entriesOf_push {e : Recorded} (h : s.entriesOf p session = []) (he : OwnEntry p session e) :
    (s.push e).Listed p session := by
  have hmatch : (e.pid = p.pid && e.session = session && e.procStart = some p.token) = true := by
    rw [he.pid, he.session, he.procStart]
    simp
  have hnew : (s.push e).entriesOf p session = s.entriesOf p session ++ [e] := by
    change List.filter _ (s.registry ++ [e]) = _
    rw [List.filter_append, List.filter_cons_of_pos (by exact hmatch)]
    rfl
  rw [Listed, hnew, h]
  rfl

theorem Listed.found (h : s.Listed p session) : s.registry.find? (·.pid = p.pid) ≠ none := by
  intro hnone
  obtain ⟨e, he⟩ := List.exists_mem_of_ne_nil _ h.ne_nil
  obtain ⟨hin, hmatch⟩ := List.mem_filter.mp he
  rw [Bool.and_eq_true, Bool.and_eq_true] at hmatch
  exact List.find?_eq_none.mp hnone e hin hmatch.1.1

theorem Follows.advance {call : LocalCall} (h : s.Follows who p session call) (input : LocalInput)
    (hcall : call.outcome = none)
    (hrecords : ∀ l e, call = .unrecorded l e → s.pruning = none → input.saved.isOk = false →
      ¬s.Holds e.pid e.own) : CallFollows who p session (s.advance input call) := by
  cases call with
  | spawned l pid own =>
    obtain ⟨hattended, hnone, hwho, hsession, rfl, rfl⟩ := h
    obtain ⟨q, htoken, -, hheld, -⟩ := hattended.mem_filter
    refine ⟨hattended, hnone, hwho, rfl, hsession, rfl, ?_⟩
    change (s.held p.pid).map (·.token) = some p.token
    rw [hheld]
    exact congrArg some htoken
  | unrecorded l e =>
    obtain ⟨hattended, hnone, hwho, hown⟩ := h
    refine Follows.cycle (.unrecorded l e) ⟨hattended, hnone, hwho, hown⟩ ?_ ?_
    · intro hfree hsaved message
      have hended := hrecords l e rfl hfree hsaved
      rw [hown.pid, hown.own] at hended
      exact follows_of_ended hended rfl
    · exact ⟨⟨hattended.only, hattended.child⟩, entriesOf_push hnone hown, hwho, hown.pid⟩
  | starting l e =>
    obtain ⟨hattended, hlisted, rfl, hpid⟩ := h
    rcases hattended.liveness hpid input.readable with hours | ⟨t, hdead, hended⟩
    · simp only [LocalMachine.advance, hours]
      rw [if_neg (by decide)]
      split
      · exact hlisted.returned
      · split
        · exact ⟨hattended, hlisted, rfl, hpid⟩
        · exact ⟨hattended, hlisted, rfl, hpid⟩
    · simp only [LocalMachine.advance, hdead]
      exact hended
  | asked target pid =>
    obtain ⟨hattended, hlisted, hwho, rfl⟩ := h
    refine Follows.cycle (.asked target p.pid) ⟨hattended, hlisted, hwho, rfl⟩
      (fun _ _ _ => hlisted.returned) ?_
    split
    · exact hlisted.returned
    next e hfound =>
      have hmatch := List.find?_some hfound
      exact ⟨hattended, hlisted, hwho, of_decide_eq_true hmatch⟩
  | found target e =>
    obtain ⟨hattended, hlisted, rfl, hpid⟩ := h
    rcases hattended.liveness hpid input.readable with hours | ⟨t, hdead, hended⟩
    · simp only [LocalMachine.advance, hours]
      exact ⟨hattended, hlisted, rfl, hpid⟩
    · simp only [LocalMachine.advance, hdead]
      exact hended
  | waiting target e liveness killed =>
    obtain ⟨hattended, hlisted, rfl, hpid⟩ := h
    rcases hattended.liveness hpid input.readable with hours | ⟨t, hdead, hended⟩
    · simp only [LocalMachine.advance, hours]
      rw [if_neg (by decide)]
      split
      · exact ⟨hattended, hlisted, rfl, hpid⟩
      · split
        · exact hlisted.returned
        · split
          · exact hlisted.returned
          · exact ⟨hattended, hlisted, rfl, hpid⟩
    · simp only [LocalMachine.advance, hdead]
      exact hended
  | unstarted l e =>
    simp only [LocalMachine.advance]
    split
    · exact h
    · split
      · exact follows_of_ended (s := s.dropPid e.pid) h rfl
      · exact follows_of_ended h rfl
  | gone target e =>
    exact Follows.cycle (.gone target e) h (fun _ _ _ => follows_of_ended h rfl)
      (follows_of_ended (s := s.dropPid e.pid) h rfl)
  | reaping target e =>
    have hfewer := fewer_waitChild s target e
    have hended : ¬(s.waitChild target e).1.Holds p.pid p.token := by
      rintro ⟨q, hq, hrest⟩
      exact h ⟨q, hfewer.procs q hq, hrest⟩
    change (s.waitChild target e).1.Follows who p session (s.waitChild target e).2
    rcases hnext : s.waitChild target e with ⟨t, next⟩
    rw [hnext] at hended
    rw [waitChild] at hnext
    split at hnext
    · rw [← (Prod.mk.inj hnext).2]
      exact hended
    · split at hnext
      · rw [← (Prod.mk.inj hnext).2]
        exact hended
      · rw [← (Prod.mk.inj hnext).2]
        exact hended
  | stopped target e =>
    exact Follows.cycle (.stopped target e) h (fun _ _ _ => follows_of_ended h rfl)
      (follows_of_ended (s := s.dropPid e.pid) h rfl)
  | returned r => cases hcall

theorem Follows.withCalls {call : LocalCall} (h : s.Follows who p session call)
    (calls : List LocalCall) : { s with calls }.Follows who p session call := by
  cases call with
  | spawned l pid own => exact ⟨⟨h.1.only, h.1.child⟩, h.2⟩
  | unrecorded l e => exact ⟨⟨h.1.only, h.1.child⟩, h.2⟩
  | starting l e => exact ⟨⟨h.1.only, h.1.child⟩, h.2⟩
  | asked target pid => exact ⟨⟨h.1.only, h.1.child⟩, h.2⟩
  | found target e => exact ⟨⟨h.1.only, h.1.child⟩, h.2⟩
  | waiting target e liveness killed => exact ⟨⟨h.1.only, h.1.child⟩, h.2⟩
  | unstarted | gone | reaping | stopped | returned => exact h

theorem advance_calls (s : LocalMachine) (input : LocalInput) (call : LocalCall) :
    (s.advance input call).1.calls = s.calls := by
  have hcycle : ∀ (c : LocalCall) (f : LocalMachine × LocalCall), f.1.calls = s.calls →
      (s.cycle input c f).1.calls = s.calls := by
    intro c f hf
    rw [LocalMachine.cycle]
    split
    · rfl
    · split
      · rfl
      · exact hf
  have hlive := fun who (e : RegistryEntry) => (fewer_liveness s who e input.readable).calls
  cases call with
  | spawned l pid own => rfl
  | unrecorded l e => exact hcycle _ _ rfl
  | starting l e =>
    simp only [LocalMachine.advance]
    split
    · exact hlive _ _
    · split
      · exact hlive _ _
      · split <;> exact hlive _ _
  | unstarted l e =>
    simp only [LocalMachine.advance]
    split
    · rfl
    · split <;> rfl
  | asked target pid =>
    refine hcycle _ _ ?_
    split <;> rfl
  | found target e => exact hlive _ _
  | gone target e => exact hcycle _ _ rfl
  | waiting target e liveness killed =>
    simp only [LocalMachine.advance]
    split
    · exact hlive _ _
    · split
      · exact hlive _ _
      · split
        · exact hlive _ _
        · split <;> exact hlive _ _
  | reaping target e => exact (fewer_waitChild s target e).calls
  | stopped target e => exact hcycle _ _ rfl
  | returned r => rfl

end LocalMachine

namespace Launching
open LocalMachine
variable {t : Launching} {call : LocalCall}

/-- A launch that runs stands well with the server it has started, and has started none only when
it is over. -/
def Sound (t : Launching) : Prop :=
  (∀ p session, t.server = some (p, session) → ∃ who call, t.current = some call ∧
    t.machine.Follows who p session call) ∧
  (t.server = none → ∀ call, t.current = some call → call.outcome ≠ none)

theorem Sound.recordedOrDead (h : t.Sound) : t.RecordedOrDead := by
  intro r hr p session hserver
  obtain ⟨who, call, hcurrent, hfollows⟩ := h.1 p session hserver
  rw [outcome, hcurrent] at hr
  cases call with
  | returned r' =>
    obtain rfl : r' = r := Option.some.inj hr
    exact hfollows
  | _ => cases hr

theorem step_over (h : t.outcome.isSome = true) (event : LaunchEvent) : t.step event = t := if_pos h

theorem outcome_none (hcurrent : t.current = some call) (hcall : call.outcome = none) :
    t.outcome.isSome = false := by
  rw [outcome, hcurrent]
  exact congrArg Option.isSome hcall

theorem step_exit (hcurrent : t.current = some call) (hcall : call.outcome = none) (pid : UInt32) :
    t.step (.exit pid) = { t with machine := t.machine.exit pid } := by
  rw [step, outcome_none hcurrent hcall]
  rfl

theorem step_goOn (hcurrent : t.current = some call) (hcall : call.outcome = none)
    (input : LocalInput) :
    (t.step (.goOn input)).server = t.server ∧
      (t.step (.goOn input)).current = some (t.machine.advance input call).2 ∧
      ∃ calls, (t.step (.goOn input)).machine =
        { (t.machine.advance input call).1 with calls } := by
  have hstep : t.step (.goOn input) = { t with machine :=
      { (t.machine.advance input call).1 with
        calls := (t.machine.advance input call).1.calls.set t.call
          (t.machine.advance input call).2 } } := by
    rw [step, outcome_none hcurrent hcall]
    change { t with machine := LocalMachine.step t.machine (.advance t.call input) } = _
    have hget : t.machine.calls[t.call]? = some call := hcurrent
    rw [LocalMachine.step, hget]
  rw [hstep]
  refine ⟨rfl, ?_, _, rfl⟩
  change ((t.machine.advance input call).1.calls.set t.call _)[t.call]? = _
  have hlength : t.call < t.machine.calls.length := (List.getElem?_eq_some_iff.mp hcurrent).1
  rw [advance_calls, List.getElem?_set_self hlength]

theorem step_none (hcurrent : t.current = none) (event : LaunchEvent) :
    (t.step event).server = t.server ∧ (t.step event).current = none := by
  have hoff : t.outcome.isSome = false := by rw [outcome, hcurrent]; rfl
  rw [step, hoff]
  refine ⟨rfl, ?_⟩
  cases event with
  | exit pid => exact hcurrent
  | goOn input =>
    have hget : t.machine.calls[t.call]? = none := hcurrent
    change (LocalMachine.step t.machine (.advance t.call input)).calls[t.call]? = none
    rw [LocalMachine.step, hget]
    exact hget

theorem Sound.step (h : t.Sound) {event : LaunchEvent} (hevent : t.RecordsServer event) :
    (t.step event).Sound := by
  by_cases hover : t.outcome.isSome = true
  · rw [step_over hover]
    exact h
  · cases hserver : t.server with
    | none =>
      cases hcurrent : t.current with
      | some call =>
        refine absurd ?_ (h.2 hserver call hcurrent)
        rw [outcome, hcurrent] at hover
        exact Option.not_isSome_iff_eq_none.mp hover
      | none =>
        obtain ⟨hkept, hnone⟩ := step_none hcurrent event
        refine ⟨fun p session hserver' => ?_, fun _ call hcall => ?_⟩
        · cases hserver.symm.trans (hkept.symm.trans hserver')
        · cases hnone.symm.trans hcall
    | some server =>
      obtain ⟨p, session⟩ := server
      obtain ⟨who, call, hcurrent, hfollows⟩ := h.1 p session hserver
      have hcall : call.outcome = none := by
        rw [outcome, hcurrent] at hover
        exact Option.not_isSome_iff_eq_none.mp hover
      cases event with
      | exit pid =>
        rw [step_exit hcurrent hcall]
        refine ⟨fun p' session' hserver' => ?_, fun hnone => ?_⟩
        · obtain ⟨rfl, rfl⟩ := Prod.mk.inj (Option.some.inj (hserver.symm.trans hserver'))
          exact ⟨who, call, hcurrent, hfollows.exit pid hcall⟩
        · cases hserver.symm.trans hnone
      | goOn input =>
        obtain ⟨hkept, hnext, calls, hmachine⟩ := step_goOn hcurrent hcall input
        refine ⟨fun p' session' hserver' => ?_, fun hnone => ?_⟩
        · obtain ⟨rfl, rfl⟩ := Prod.mk.inj
            (Option.some.inj (hserver.symm.trans (hkept.symm.trans hserver')))
          have hadvanced := hfollows.advance input hcall fun l e heq =>
            hevent l e (hcurrent.trans (congrArg some heq))
          refine ⟨who, _, hnext, ?_⟩
          rw [hmachine]
          exact Follows.withCalls hadvanced calls
        · cases hserver.symm.trans (hkept.symm.trans hnone)

theorem Sound.recordsServer (h : t.Sound) {event : LaunchEvent}
    (hnext : (t.step event).RecordedOrDead) : t.RecordsServer event := by
  cases event with
  | exit pid => trivial
  | goOn input =>
    intro l e hcurrent hfree hsaved
    cases hserver : t.server with
    | none => exact absurd rfl (h.2 hserver _ hcurrent)
    | some server =>
      obtain ⟨p, session⟩ := server
      obtain ⟨who, call, hcall, hfollows⟩ := h.1 p session hserver
      obtain rfl : .unrecorded l e = call := Option.some.inj (hcurrent.symm.trans hcall)
      obtain ⟨-, hunlisted, -, hown⟩ := hfollows
      obtain ⟨hkept, hnow, calls, hmachine⟩ := step_goOn hcurrent rfl input
      obtain ⟨message, hmessage⟩ : ∃ message, input.saved = .error message := by
        cases hcase : input.saved with
        | ok done =>
          rw [hcase] at hsaved
          cases hsaved
        | error message => exact ⟨message, rfl⟩
      have hadvance : t.machine.advance input (.unrecorded l e) =
          (t.machine, .returned (.failed (.other message))) := by
        rw [LocalMachine.advance, cycle, hfree, hmessage]
        rfl
      rw [hadvance] at hnow hmachine
      have houtcome : (t.step (.goOn input)).outcome = some (.failed (.other message)) := by
        rw [outcome, hnow]
        rfl
      have hsafe := (hnext _ houtcome p session (hkept.trans hserver)).2 rfl
      rw [hmachine] at hsafe
      rw [hown.pid, hown.own]
      intro hholds
      exact hsafe hholds hunlisted

theorem launching_sound {s : LocalMachine} (h : s.Tokened) (who : ℕ) (spec : LaunchSpec)
    (dir : String) (image : Option String) (p : HostProcess) :
    (s.launching who spec dir image p).Sound := by
  have hlast : ∀ call : LocalCall, (s.calls ++ [call])[s.calls.length]? = some call := by
    intro call
    rw [List.getElem?_append_right le_rfl, Nat.sub_self]
    rfl
  rw [LocalMachine.launching]
  by_cases hregion : spec.region = localRegion
  · cases hsession : spec.sessionId with
    | none =>
      have hlaunch : s.launch who spec dir image p = { s with
          calls := s.calls ++
            [.returned (.failed (.other "launch spec carries no jamstream-session tag"))] } := by
        rw [launch, if_neg (not_not.mpr hregion), hsession]
      rw [hlaunch]
      refine ⟨fun q session hserver => ?_, fun _ call hcall hnone => ?_⟩
      · split at hserver <;> cases hserver
      · obtain rfl := Option.some.inj ((hlast _).symm.trans hcall)
        cases hnone
    | some session =>
      by_cases hstart : s.canStart p = true
      · have hlaunch : s.launch who spec dir image p = { s.start p with
            children := Function.update s.children who
              (Function.update (s.children who) p.pid (some p.token))
            calls := s.calls ++ [.spawned { who, spec, session, dir, image } p.pid p.token] } := by
          rw [launch, if_neg (not_not.mpr hregion), hsession]
          exact if_pos hstart
        rw [hlaunch, if_pos ⟨hregion, hstart⟩]
        refine ⟨fun q session' hserver => ?_, fun hnone => ?_⟩
        on_goal 2 => cases hnone
        obtain ⟨rfl, rfl⟩ := Prod.mk.inj (Option.some.inj hserver)
        refine ⟨who, _, hlast _, ⟨⟨p, ?_, rfl⟩, ?_⟩, h.unlisted hstart session, rfl, rfl, rfl, rfl⟩
        · have hfree : s.procs.filter (fun r => r.pid = p.pid) = [] := by
            rw [canStart, Bool.and_eq_true, Bool.and_eq_true] at hstart
            have hheld := Option.isNone_iff_eq_none.mp hstart.1.2
            exact List.filter_eq_nil_iff.mpr (List.find?_eq_none.mp hheld)
          change (s.procs ++ [p]).filter _ = _
          have hown : [p].filter (fun r => r.pid = p.pid) = [p] :=
            List.filter_cons_of_pos (decide_eq_true rfl)
          rw [List.filter_append, hfree, hown]
          rfl
        · change Function.update s.children who _ who p.pid = _
          rw [Function.update_self, Function.update_self]
      · have hlaunch : s.launch who spec dir image p = s := by
          rw [launch, if_neg (not_not.mpr hregion), hsession]
          exact if_neg hstart
        rw [hlaunch, if_neg fun hboth => hstart hboth.2]
        refine ⟨fun q session' hserver => ?_, fun _ call hcall => ?_⟩
        · cases hserver
        · have hnone : s.calls[s.calls.length]? = none := List.getElem?_eq_none le_rfl
          cases hnone.symm.trans hcall
  · have hlaunch : s.launch who spec dir image p = { s with
        calls := s.calls ++ [.returned (.failed (.notFound ("local region " ++ spec.region)))] } := by
      rw [launch, if_pos hregion]
    rw [hlaunch, if_neg fun hboth => hregion hboth.1]
    refine ⟨fun q session hserver => ?_, fun _ call hcall hnone => ?_⟩
    · cases hserver
    · obtain rfl := Option.some.inj ((hlast _).symm.trans hcall)
      cases hnone

/-- On a computer with any past, a launch that fails leaves no server that runs unrecorded, and
one that does not leaves exactly its own entry, exactly when the cycle that is to record the server
does not fail while it runs. -/
theorem launched_is_recorded_or_dead_iff (past : List LocalMove) (who : ℕ) (spec : LaunchSpec)
    (dir : String) (image : Option String) (p : HostProcess) (events : List LaunchEvent) :
    Throughout Launching.step RecordedOrDead
        ((run LocalMachine.step init past).launching who spec dir image p) events ↔
      Meets Launching.step RecordsServer
        ((run LocalMachine.step init past).launching who spec dir image p) events :=
  throughout_iff_meets (I := Sound) (fun _ h => h.recordedOrDead) (fun _ _ h hevent => h.step hevent)
    (fun _ _ h hnext => h.recordsServer hnext)
    (launching_sound (tokened_run past) who spec dir image p)

def sessionServer : HostProcess :=
  { pid := 7, token := 1, startUnix := none, images := ["jamstreamd"], zombie := false }

def bandSession : LaunchSpec := { region := localRegion, tags := [(sessionTagKey, "a")] }

def registryInput (saved : Except String Unit) : LocalInput :=
  { nowUnix := 0, readable := true, marker := false, late := false, saved, ip := .v4 0x7F000001 }

def unwritable : List LaunchEvent :=
  [.goOn (registryInput (.ok ())),
    .goOn (registryInput (.error "cannot write registry: disk full"))]

/-- The disk is full when the server is to be recorded: the launch fails, and the server runs on
with nothing that names it. -/
theorem unrecorded_server_runs_on :
    ((run Launching.step (init.launching 0 bandSession "a" (some "jamstreamd") sessionServer)
        unwritable).outcome.any fun r => !r.isLaunched) = true ∧
    (run Launching.step (init.launching 0 bandSession "a" (some "jamstreamd") sessionServer)
      unwritable).machine.procs = [sessionServer] ∧
    (run Launching.step (init.launching 0 bandSession "a" (some "jamstreamd") sessionServer)
      unwritable).machine.registry = [] ∧
    ¬Throughout Launching.step RecordedOrDead
      (init.launching 0 bandSession "a" (some "jamstreamd") sessionServer) unwritable := by
  have hfailed : ((run Launching.step (init.launching 0 bandSession "a" (some "jamstreamd")
      sessionServer) unwritable).outcome.any fun r => !r.isLaunched) = true := by decide +kernel
  have hruns : (run Launching.step (init.launching 0 bandSession "a" (some "jamstreamd")
      sessionServer) unwritable).machine.procs = [sessionServer] := by decide +kernel
  have hunlisted : (run Launching.step (init.launching 0 bandSession "a" (some "jamstreamd")
      sessionServer) unwritable).machine.registry = [] := by decide +kernel
  have hserver : (run Launching.step (init.launching 0 bandSession "a" (some "jamstreamd")
      sessionServer) unwritable).server = some (sessionServer, "a") := by decide +kernel
  refine ⟨hfailed, hruns, hunlisted, fun h => ?_⟩
  obtain ⟨r, hr, hnot⟩ := (Option.any_eq_true _ _).mp hfailed
  rw [Bool.not_eq_true'] at hnot
  have hsafe := (h.last r hr sessionServer "a" hserver).2 hnot
  refine hsafe ⟨sessionServer, ?_, rfl, rfl, rfl⟩ ?_
  · rw [hruns]
    exact List.mem_cons_self
  · rw [entriesOf, hunlisted]
    rfl

end Launching
end JamStream.Cloud
