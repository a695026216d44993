import JamStream.Cloud.LocalRegistry

/-! An entry is only taken for dead once its own process is. What a pid is dropped for is the
entry that was judged; the others under that pid are taken along. -/

namespace JamStream.Cloud
open Runs

namespace LocalMachine
variable {s t : LocalMachine} {e : Recorded} {p : HostProcess} {pid : UInt32}

/-- No two processes have one pid, and each has a token that was given to it. -/
structure PidsApart (s : LocalMachine) : Prop where
  pids : (s.procs.map (·.pid)).Nodup
  given : ∀ p ∈ s.procs, p.token ∈ s.tokens

theorem held_of_mem (h : s.PidsApart) (hp : p ∈ s.procs) : s.held p.pid = some p := by
  rcases hheld : s.held p.pid with _ | q
  · have hnone := List.find?_eq_none.mp hheld p hp
    exact absurd (decide_eq_true rfl) hnone
  · have hq : q ∈ s.procs := List.mem_of_find?_eq_some hheld
    have hsame := List.find?_some hheld
    have hpid : q.pid = p.pid := of_decide_eq_true hsame
    rw [List.inj_on_of_nodup_map h.pids hq hp hpid]

/-- No process begins to run that had been given its token before. -/
structure Later (s t : LocalMachine) : Prop where
  tokens : ∀ x ∈ s.tokens, x ∈ t.tokens
  holds : ∀ pid, ∀ x ∈ s.tokens, t.Holds pid x → s.Holds pid x

def Known (s : LocalMachine) (e : Recorded) : Prop :=
  e.own ∈ s.tokens ∧ (s.Running e → e.procStart = some e.own)

def Ended (s : LocalMachine) (e : Recorded) : Prop := e.own ∈ s.tokens ∧ ¬s.Running e

theorem Known.later (h : s.Known e) (hl : Later s t) : t.Known e :=
  ⟨hl.tokens _ h.1, fun hrunning => h.2 (hl.holds _ _ h.1 hrunning)⟩

theorem Ended.later (h : s.Ended e) (hl : Later s t) : t.Ended e :=
  ⟨hl.tokens _ h.1, fun hrunning => h.2 (hl.holds _ _ h.1 hrunning)⟩

def Stands (s : LocalMachine) : LocalCall → Prop
  | .spawned _ _ own => own ∈ s.tokens
  | .unrecorded _ e | .starting _ e | .found _ e | .waiting _ e _ _ => s.Known e
  | .unstarted _ e | .gone _ e | .reaping _ e | .stopped _ e => s.Ended e
  | .asked .. | .returned _ => True

theorem Stands.later {call : LocalCall} (h : s.Stands call) (hl : Later s t) : t.Stands call := by
  cases call with
  | spawned l pid own => exact hl.tokens _ h
  | unrecorded l e => exact Known.later h hl
  | starting l e => exact Known.later h hl
  | found l e => exact Known.later h hl
  | waiting l e _ _ => exact Known.later h hl
  | unstarted l e => exact Ended.later h hl
  | gone l e => exact Ended.later h hl
  | reaping l e => exact Ended.later h hl
  | stopped l e => exact Ended.later h hl
  | asked t pid => trivial
  | returned r => trivial

structure Moved (s t : LocalMachine) : Prop where
  registry : t.registry = s.registry
  recorded : t.recorded = s.recorded
  pruning : t.pruning = s.pruning
  calls : t.calls = s.calls
  apart : t.PidsApart
  later : Later s t

theorem Moved.refl (h : s.PidsApart) : Moved s s where
  registry := rfl
  recorded := rfl
  pruning := rfl
  calls := rfl
  apart := h
  later := ⟨fun _ hx => hx, fun _ _ _ hholds => hholds⟩

theorem moved_start (h : s.PidsApart) (hp : s.canStart p = true) : Moved s (s.start p) := by
  rw [canStart, Bool.and_eq_true, Bool.and_eq_true] at hp
  obtain ⟨⟨_, hfree⟩, hnew⟩ := hp
  have hnew : p.token ∉ s.tokens := by simpa using hnew
  have hfree := List.find?_eq_none.mp (Option.isNone_iff_eq_none.mp hfree)
  refine ⟨rfl, rfl, rfl, rfl, ⟨?_, ?_⟩, ⟨fun _ hx => List.mem_append_left _ hx, ?_⟩⟩
  · rw [start, List.map_append, List.nodup_append]
    refine ⟨h.pids, List.nodup_singleton _, ?_⟩
    rintro a ha b hb rfl
    obtain ⟨q, hq, rfl⟩ := List.mem_map.mp ha
    rw [List.map_singleton, List.mem_singleton] at hb
    exact hfree q hq (decide_eq_true hb)
  · intro q hq
    rcases List.mem_append.mp hq with hold | hstarted
    · exact List.mem_append_left _ (h.given q hold)
    · rw [List.mem_singleton.mp hstarted]
      exact List.mem_append_right _ List.mem_cons_self
  · rintro pid x hx ⟨q, hq, hpid, rfl, halive⟩
    rcases List.mem_append.mp hq with hold | hstarted
    · exact ⟨q, hold, hpid, rfl, halive⟩
    · rw [List.mem_singleton.mp hstarted] at hx
      exact absurd hx hnew

theorem moved_exit (h : s.PidsApart) (pid : UInt32) : Moved s (s.exit pid) := by
  have hpid : ∀ q : HostProcess,
      (if q.pid = pid then { q with zombie := true } else q).pid = q.pid := fun q => by
    split_ifs <;> rfl
  have htoken : ∀ q : HostProcess,
      (if q.pid = pid then { q with zombie := true } else q).token = q.token := fun q => by
    split_ifs <;> rfl
  refine ⟨rfl, rfl, rfl, rfl, ⟨?_, ?_⟩, ⟨fun _ hx => hx, ?_⟩⟩
  · rw [exit, List.map_map]
    have hsame : ((fun q : HostProcess => q.pid) ∘
        fun q => if q.pid = pid then { q with zombie := true } else q) = fun q => q.pid :=
      funext hpid
    rw [hsame]
    exact h.pids
  · intro q hq
    obtain ⟨q', hq', rfl⟩ := List.mem_map.mp hq
    rw [htoken]
    exact h.given q' hq'
  · rintro pid' x _ ⟨q, hq, hqpid, hqtoken, halive⟩
    obtain ⟨q', hq', rfl⟩ := List.mem_map.mp hq
    rw [hpid] at hqpid
    rw [htoken] at hqtoken
    refine ⟨q', hq', hqpid, hqtoken, ?_⟩
    split_ifs at halive
    exact halive

theorem moved_reap (h : s.PidsApart) (pid : UInt32) : Moved s (s.reap pid) where
  registry := rfl
  recorded := rfl
  pruning := rfl
  calls := rfl
  apart := ⟨h.pids.sublist (List.filter_sublist.map _),
    fun q hq => h.given q (List.mem_of_mem_filter hq)⟩
  later := ⟨fun _ hx => hx, fun _ _ _ ⟨q, hq, hq'⟩ => ⟨q, List.mem_of_mem_filter hq, hq'⟩⟩

theorem Moved.forget (h : Moved s t) (who : ℕ) (pid : UInt32) : Moved s (t.forget who pid) :=
  ⟨h.registry, h.recorded, h.pruning, h.calls, ⟨h.apart.pids, h.apart.given⟩,
    ⟨h.later.tokens, h.later.holds⟩⟩

theorem liveness_spec (h : s.PidsApart) (hknown : s.Known e) (who : ℕ) (readable : Bool) :
    Moved s (s.liveness who e.toRegistryEntry readable).1 ∧
      ((s.liveness who e.toRegistryEntry readable).2 = .dead →
        (s.liveness who e.toRegistryEntry readable).1.Ended e) := by
  have hprobe : (e.toRegistryEntry.probe readable (s.held e.pid)).liveness = .dead → s.Ended e := by
    intro hdead
    refine ⟨hknown.1, ?_⟩
    intro hrunning
    obtain ⟨p, hp, hpid, htoken, halive⟩ := hrunning
    have hheld := held_of_mem h hp
    rw [hpid] at hheld
    have hstart := hknown.2 ⟨p, hp, hpid, htoken, halive⟩
    rw [← htoken] at hstart
    obtain ⟨corroborated, hown⟩ := RegistryEntry.probe_own halive hstart readable
    rw [hheld, hown] at hdead
    exact PidProbe.liveness_alive corroborated hdead
  unfold liveness
  rcases hwait : s.tryWait who e.pid with _ | r
  · exact ⟨.refl h, hprobe⟩
  simp only
  unfold tryWait at hwait
  rcases hchild : s.children who e.pid with _ | token
  · rw [hchild] at hwait
    exact nomatch hwait
  rcases hheld : s.held e.pid with _ | p
  · rw [hchild, hheld] at hwait
    exact nomatch hwait
  rw [hchild, hheld] at hwait
  simp only at hwait
  split_ifs at hwait with htoken hzombie
  · obtain rfl := Option.some.inj hwait
    have hmoved := (moved_reap h e.pid).forget who e.pid
    refine ⟨hmoved, fun _ => ⟨hknown.1, ?_⟩⟩
    intro hrunning
    obtain ⟨q, hq, hpid, _, halive⟩ := hmoved.later.holds _ _ hknown.1 hrunning
    have hsame := held_of_mem h hq
    rw [hpid, hheld] at hsame
    rw [Option.some.inj hsame, halive] at hzombie
    exact Bool.false_ne_true hzombie
  · obtain rfl := Option.some.inj hwait
    exact ⟨.refl h, fun hdead => nomatch hdead⟩

theorem waitChild_spec (h : s.PidsApart) (hended : s.Ended e) (target : LocalTarget) :
    Moved s (s.waitChild target e).1 ∧ (s.waitChild target e).1.Stands (s.waitChild target e).2 := by
  unfold waitChild
  rcases hchild : s.children target.who e.pid with _ | token
  · exact ⟨.refl h, hended⟩
  simp only
  split_ifs
  · exact ⟨.refl h, hended⟩
  · have hmoved := (moved_reap h e.pid).forget target.who e.pid
    exact ⟨hmoved, Ended.later hended hmoved.later⟩
  · have hmoved := (Moved.refl h).forget target.who e.pid
    exact ⟨hmoved, Ended.later hended hmoved.later⟩

structure Registered (s : LocalMachine) : Prop where
  apart : s.PidsApart
  known : ∀ e ∈ s.recorded, s.Known e
  listed : ∀ e ∈ s.registry, e ∈ s.recorded
  kept : s.Kept
  pruning : ∀ c ∈ s.pruning, (∀ e ∈ c.kept ++ c.todo, e ∈ s.registry) ∧
    ∀ e ∈ s.registry, s.Running e → e ∈ c.kept ++ c.todo
  calls : ∀ call ∈ s.calls, s.Stands call

theorem registered_init : init.Registered where
  apart := ⟨List.nodup_nil, fun _ hp => absurd hp List.not_mem_nil⟩
  known _ he := absurd he List.not_mem_nil
  listed _ he := absurd he List.not_mem_nil
  kept _ he := absurd he List.not_mem_nil
  pruning _ hc := nomatch hc
  calls _ hcall := absurd hcall List.not_mem_nil

namespace Registered

theorem moved (h : s.Registered) (hm : Moved s t) : t.Registered where
  apart := hm.apart
  known e he := by
    rw [hm.recorded] at he
    exact (h.known e he).later hm.later
  listed e he := by
    rw [hm.registry] at he
    rw [hm.recorded]
    exact h.listed e he
  kept e he hrunning := by
    rw [hm.recorded] at he
    rw [hm.registry]
    exact h.kept e he (hm.later.holds _ _ (h.known e he).1 hrunning)
  pruning c hc := by
    rw [hm.pruning] at hc
    rw [hm.registry]
    obtain ⟨hsub, hall⟩ := h.pruning c hc
    refine ⟨hsub, ?_⟩
    intro e he hrunning
    exact hall e he (hm.later.holds _ _ (h.known e (h.listed e he)).1 hrunning)
  calls call hcall := by
    rw [hm.calls] at hcall
    exact (h.calls call hcall).later hm.later

theorem withCalls (h : s.Registered) {calls : List LocalCall}
    (hcalls : ∀ call ∈ calls, s.Stands call) : { s with calls }.Registered :=
  ⟨⟨h.apart.pids, h.apart.given⟩, h.known, h.listed, h.kept, h.pruning, hcalls⟩

theorem addCall (h : s.Registered) {call : LocalCall} (hcall : s.Stands call) :
    { s with calls := s.calls ++ [call] }.Registered := by
  apply h.withCalls
  intro c hc
  rcases List.mem_append.mp hc with hold | hnew
  · exact h.calls c hold
  · rw [List.mem_singleton.mp hnew]
    exact hcall

theorem push (h : s.Registered) (hfree : s.pruning = none) (hknown : s.Known e) :
    (s.push e).Registered where
  apart := ⟨h.apart.pids, h.apart.given⟩
  known e' he' := by
    rcases List.mem_append.mp he' with hold | hnew
    · exact h.known e' hold
    · rw [List.mem_singleton.mp hnew]
      exact hknown
  listed e' he' := by
    rcases List.mem_append.mp he' with hold | hnew
    · exact List.mem_append_left _ (h.listed e' hold)
    · exact List.mem_append_right _ hnew
  kept e' he' hrunning := by
    rcases List.mem_append.mp he' with hold | hnew
    · exact List.mem_append_left _ (h.kept e' hold hrunning)
    · exact List.mem_append_right _ hnew
  pruning c hc := by
    have hnone : s.pruning = some c := hc
    rw [hfree] at hnone
    exact nomatch hnone
  calls := h.calls

theorem dropPid (h : s.Registered) (hfree : s.pruning = none)
    (hended : ∀ other ∈ s.registry, other.pid = pid → ¬s.Running other) :
    (s.dropPid pid).Registered where
  apart := ⟨h.apart.pids, h.apart.given⟩
  known := h.known
  listed e he := h.listed e (List.mem_of_mem_filter he)
  kept e he hrunning := by
    have hin := h.kept e he hrunning
    refine List.mem_filter.mpr ⟨hin, decide_eq_true ?_⟩
    intro hpid
    exact hended e hin hpid hrunning
  pruning c hc := by
    have hnone : s.pruning = some c := hc
    rw [hfree] at hnone
    exact nomatch hnone
  calls := h.calls

theorem list (h : s.Registered) (who : ℕ) (tag : Option String) : (s.list who tag).Registered := by
  unfold LocalMachine.list
  rcases hpruning : s.pruning with _ | c
  · refine ⟨⟨h.apart.pids, h.apart.given⟩, h.known, h.listed, h.kept, ?_, h.calls⟩
    intro c hc
    obtain rfl := Option.some.inj hc
    exact ⟨fun e he => he, fun e he _ => he⟩
  · exact h

theorem judge (h : s.Registered) (readable : Bool) : (s.judge readable).Registered := by
  unfold LocalMachine.judge
  rcases hpruning : s.pruning with _ | c
  · exact h
  simp only
  rcases htodo : c.todo with _ | ⟨e, rest⟩
  · exact h
  obtain ⟨hsub, hall⟩ := h.pruning c hpruning
  rw [htodo] at hsub hall
  have hmem : e ∈ s.registry := hsub e (List.mem_append_right _ List.mem_cons_self)
  have hknown := h.known e (h.listed e hmem)
  obtain ⟨hmoved, hdead⟩ := liveness_spec h.apart hknown c.who readable
  simp only
  generalize s.liveness c.who e.toRegistryEntry readable = r at hmoved hdead
  have hr := h.moved hmoved
  refine ⟨⟨hr.apart.pids, hr.apart.given⟩, hr.known, hr.listed, hr.kept, ?_, hr.calls⟩
  intro c' hc'
  obtain rfl := Option.some.inj hc'
  have hregistry : r.1.registry = s.registry := hmoved.registry
  constructor
  · intro e' he'
    show e' ∈ r.1.registry
    rw [hregistry]
    rcases List.mem_append.mp he' with hkept | htodo
    · split_ifs at hkept
      · exact hsub e' (List.mem_append_left _ hkept)
      · rcases List.mem_append.mp hkept with hold | hnew
        · exact hsub e' (List.mem_append_left _ hold)
        · rw [List.mem_singleton.mp hnew]
          exact hmem
    · exact hsub e' (List.mem_append_right _ (List.mem_cons_of_mem _ htodo))
  · intro e' he' hrunning
    have he : e' ∈ s.registry := by
      rw [← hregistry]
      exact he'
    have hstill : s.Running e' :=
      hmoved.later.holds _ _ (h.known e' (h.listed e' he)).1 hrunning
    -- the one that was just judged is left out only when its process has ended
    rcases List.mem_append.mp (hall e' he hstill) with hkept | htodo
    · apply List.mem_append_left
      split_ifs
      · exact hkept
      · exact List.mem_append_left _ hkept
    · rcases List.mem_cons.mp htodo with rfl | hrest
      · apply List.mem_append_left
        split_ifs with hverdict
        · exact absurd hrunning (hdead hverdict).2
        · exact List.mem_append_right _ List.mem_cons_self
      · exact List.mem_append_right _ hrest

theorem save (h : s.Registered) (saved : Except String Unit) (ip : Protocol.IpAddr) :
    (s.save saved ip).Registered := by
  unfold LocalMachine.save
  rcases hpruning : s.pruning with _ | c
  · exact h
  simp only
  split_ifs with htodo
  · exact h
  have hdone : c.todo = [] := by simpa using htodo
  obtain ⟨hsub, hall⟩ := h.pruning c hpruning
  rw [hdone, List.append_nil] at hsub hall
  rcases saved with message | _
  · have hidle : { s with pruning := none }.Registered :=
      ⟨⟨h.apart.pids, h.apart.given⟩, h.known, h.listed, h.kept, fun _ hc => (nomatch hc), h.calls⟩
    exact hidle.addCall trivial
  · have hpruned : { s with pruning := none, registry := c.kept }.Registered :=
      ⟨⟨h.apart.pids, h.apart.given⟩, h.known, fun e he => h.listed e (hsub e he),
        fun e he hrunning => hall e (h.kept e he hrunning) hrunning, fun _ hc => (nomatch hc),
        h.calls⟩
    exact hpruned.addCall trivial

end Registered

/-- What a call leaves, and where it is then. -/
def Good (r : LocalMachine × LocalCall) : Prop := r.1.Registered ∧ r.1.Stands r.2

theorem Registered.cycle (h : s.Registered) {input : LocalInput} {call : LocalCall}
    {f : LocalMachine × LocalCall} (hcall : s.Stands call)
    (hf : s.pruning = none → input.saved.isOk = true → Good f) : Good (s.cycle input call f) := by
  unfold LocalMachine.cycle
  split_ifs with hbusy
  · exact ⟨h, hcall⟩
  rcases hsaved : input.saved with message | _
  · exact ⟨h, trivial⟩
  · refine hf (Option.not_isSome_iff_eq_none.mp hbusy) ?_
    rw [hsaved]
    rfl

/-- A pid that is dropped for an ended process, and under which no other one of the registry
runs. -/
theorem Registered.drop (h : s.Registered) (hfree : s.pruning = none) (hended : s.Ended e)
    (hunshared : ∀ other ∈ s.registry, other.pid = e.pid → s.Running other → other.own = e.own) :
    (s.dropPid e.pid).Registered := by
  apply h.dropPid hfree
  intro other hother hpid hrunning
  have hown := hunshared other hother hpid hrunning
  apply hended.2
  rw [Running, hpid, hown] at hrunning
  exact hrunning

theorem Registered.advance (h : s.Registered) (input : LocalInput) {call : LocalCall}
    (hcall : s.Stands call)
    (hunshared : s.pruning = none → input.saved.isOk = true → ∀ e ∈ call.drops,
      ∀ other ∈ s.registry, other.pid = e.pid → s.Running other → other.own = e.own) :
    Good (s.advance input call) := by
  cases call with
  | spawned l pid own =>
    refine ⟨h, hcall, ?_⟩
    rintro ⟨p, hp, hpid, htoken, _⟩
    have hheld := held_of_mem h.apart hp
    have hpid : p.pid = pid := hpid
    rw [hpid] at hheld
    show (s.held pid).map (·.token) = some own
    rw [hheld]
    exact congrArg some htoken
  | unrecorded l e =>
    apply h.cycle hcall
    intro hfree _
    exact ⟨h.push hfree hcall, hcall⟩
  | starting l e =>
    obtain ⟨hmoved, hdead⟩ := liveness_spec h.apart hcall l.who input.readable
    have hr := h.moved hmoved
    simp only [LocalMachine.advance]
    split_ifs with hverdict
    · exact ⟨hr, hdead hverdict⟩
    · exact ⟨hr, trivial⟩
    · exact ⟨hr, trivial⟩
    · exact ⟨hr, Known.later hcall hmoved.later⟩
  | unstarted l e =>
    simp only [LocalMachine.advance]
    split_ifs with hbusy hsaved
    · exact ⟨h, hcall⟩
    · have hfree := Option.not_isSome_iff_eq_none.mp hbusy
      exact ⟨h.drop hfree hcall (hunshared hfree hsaved e rfl), trivial⟩
    · exact ⟨h, trivial⟩
  | asked target pid =>
    apply h.cycle hcall
    intro _ _
    rcases hfind : s.registry.find? (·.pid = pid) with _ | e
    · rw [hfind]
      exact ⟨h, trivial⟩
    · rw [hfind]
      exact ⟨h, h.known e (h.listed e (List.mem_of_find?_eq_some hfind))⟩
  | found target e =>
    obtain ⟨hmoved, hdead⟩ := liveness_spec h.apart hcall target.who input.readable
    refine ⟨h.moved hmoved, ?_⟩
    simp only [LocalMachine.advance]
    split_ifs with hverdict
    · exact hdead hverdict
    · exact Known.later hcall hmoved.later
  | gone target e =>
    apply h.cycle hcall
    intro hfree hsaved
    exact ⟨h.drop hfree hcall (hunshared hfree hsaved e rfl), trivial⟩
  | waiting target e liveness killed =>
    obtain ⟨hmoved, hdead⟩ := liveness_spec h.apart hcall target.who input.readable
    have hr := h.moved hmoved
    have hstill := Known.later hcall hmoved.later
    simp only [LocalMachine.advance]
    split_ifs with hverdict
    · exact ⟨hr, hdead hverdict⟩
    · exact ⟨hr, hstill⟩
    · exact ⟨hr, trivial⟩
    · exact ⟨hr, trivial⟩
    · exact ⟨hr, hstill⟩
  | reaping target e =>
    obtain ⟨hmoved, hstands⟩ := waitChild_spec h.apart hcall target
    exact ⟨h.moved hmoved, hstands⟩
  | stopped target e =>
    apply h.cycle hcall
    intro hfree hsaved
    exact ⟨h.drop hfree hcall (hunshared hfree hsaved e rfl), trivial⟩
  | returned r => exact ⟨h, trivial⟩

theorem Registered.launch (h : s.Registered) (who : ℕ) (spec : LaunchSpec) (dir : String)
    (image : Option String) (p : HostProcess) : (s.launch who spec dir image p).Registered := by
  unfold LocalMachine.launch
  by_cases hregion : spec.region ≠ localRegion
  · rw [if_pos hregion]
    exact h.addCall trivial
  rw [if_neg hregion]
  rcases hsession : spec.sessionId with _ | session
  · exact h.addCall trivial
  simp only
  split_ifs with hfree
  · have hcall : (s.start p).Stands
        (.spawned { who, spec, session, dir, image } p.pid p.token) :=
      List.mem_append_right _ List.mem_cons_self
    have hstarted := (h.moved (moved_start h.apart hfree)).addCall hcall
    exact ⟨⟨hstarted.apart.pids, hstarted.apart.given⟩, hstarted.known, hstarted.listed,
      hstarted.kept, hstarted.pruning, hstarted.calls⟩
  · exact h

theorem Registered.step (h : s.Registered) {m : LocalMove} (hunshared : s.Unshared m) :
    (s.step m).Registered := by
  cases m with
  | start p =>
    simp only [LocalMachine.step]
    split_ifs with hfree
    · exact h.moved (moved_start h.apart hfree)
    · exact h
  | exit pid => exact h.moved (moved_exit h.apart pid)
  | reap pid => exact h.moved (moved_reap h.apart pid)
  | launch who spec dir image p => exact h.launch who spec dir image p
  | destroy who id =>
    simp only [LocalMachine.step, LocalMachine.destroy]
    rcases parseU32 id.toList with _ | pid <;> exact h.addCall trivial
  | list who tag => exact h.list who tag
  | judge readable => exact h.judge readable
  | save saved ip => exact h.save saved ip
  | advance i input =>
    rcases hi : s.calls[i]? with _ | call
    · simp only [LocalMachine.step, hi]
      exact h
    · simp only [LocalMachine.step, hi]
      obtain ⟨hr, hstands⟩ := h.advance input (h.calls call (List.mem_of_getElem? hi))
        fun hfree hsaved => hunshared hfree hsaved call hi
      apply hr.withCalls
      intro c hc
      rcases List.mem_or_eq_of_mem_set hc with hold | rfl
      · exact hr.calls c hold
      · exact hstands

theorem Unshared.of_kept (h : s.Registered) {m : LocalMove} (hkept : (s.step m).Kept) :
    s.Unshared m := by
  cases m with
  | advance i input =>
    intro hfree hsaved call hcall e he other hother hpid hrunning
    exfalso
    have hcycle : ∀ f, s.cycle input call f = f := by
      intro f
      rcases hok : input.saved with message | _
      · rw [hok] at hsaved
        exact nomatch hsaved
      · rw [LocalMachine.cycle, hfree, hok]
        rfl
    have hdrop : ∃ returned, s.advance input call = (s.dropPid e.pid, returned) := by
      cases call with
      | unstarted l e' =>
        obtain rfl := Option.some.inj he
        simp only [LocalMachine.advance, hfree, hsaved, Option.isSome_none, Bool.false_eq_true,
          if_false, if_true]
        exact ⟨_, rfl⟩
      | gone target e' =>
        obtain rfl := Option.some.inj he
        exact ⟨_, hcycle _⟩
      | stopped target e' =>
        obtain rfl := Option.some.inj he
        exact ⟨_, hcycle _⟩
      | spawned | unrecorded | starting | asked | found | waiting | reaping | returned =>
        exact nomatch he
    obtain ⟨returned, hadvance⟩ := hdrop
    have hstep : s.step (.advance i input) =
        { s.dropPid e.pid with calls := s.calls.set i returned } := by
      rw [Option.mem_def] at hcall
      simp only [LocalMachine.step, hcall, hadvance]
      rfl
    rw [hstep] at hkept
    have hin : other ∈ (s.dropPid e.pid).registry := hkept other (h.listed other hother) hrunning
    exact of_decide_eq_true (List.mem_filter.mp hin).2 hpid
  | start | exit | reap | launch | destroy | list | judge | save => trivial

/-- The entry of a server that runs stays in the registry exactly while no pid is dropped that
was given again to such a server. -/
theorem running_kept_iff (moves : List LocalMove) :
    Throughout step Kept init moves ↔ Meets step Unshared init moves :=
  throughout_iff_meets (I := Registered) (fun _ h => h.kept) (fun _ _ h hm => h.step hm)
    (fun _ _ h hkept => .of_kept h hkept) registered_init

def ready : LocalInput :=
  { nowUnix := 0
    readable := true
    marker := true
    late := false
    saved := .ok ()
    ip := .v4 0x7F000001 }

def server (token : UInt64) : HostProcess :=
  { pid := 7, token, startUnix := none, images := ["jamstreamd"], zombie := false }

def session (id : String) : LaunchSpec := { region := localRegion, tags := [(sessionTagKey, id)] }

/-- A server ends, its pid goes to the next one, and a third process destroys the first. -/
def reused : List LocalMove :=
  [.launch 0 (session "a") "a" (some "jamstreamd") (server 1), .advance 0 ready, .advance 0 ready,
    .advance 0 ready, .exit 7, .reap 7, .launch 1 (session "b") "b" (some "jamstreamd") (server 2),
    .advance 1 ready, .advance 1 ready, .advance 1 ready, .destroy 2 "7", .advance 2 ready,
    .advance 2 ready, .advance 2 ready]

/-- The entry of the second goes with that of the first. -/
theorem kept_reused : ¬∀ moves, Throughout step Kept init moves := by
  intro h
  have hlast := (h reused).last
  have hlost : (run step init reused).recorded.any (fun e =>
      ((run step init reused).procs.any fun p =>
        p.pid = e.pid && p.token = e.own && !p.zombie) &&
        !(run step init reused).registry.contains e) = true := by decide +kernel
  obtain ⟨e, he, hlost⟩ := List.any_eq_true.mp hlost
  rw [Bool.and_eq_true] at hlost
  obtain ⟨hruns, hgone⟩ := hlost
  obtain ⟨p, hp, hruns⟩ := List.any_eq_true.mp hruns
  rw [Bool.and_eq_true, Bool.and_eq_true] at hruns
  obtain ⟨⟨hpid, hown⟩, halive⟩ := hruns
  have hin := hlast e he ⟨p, hp, of_decide_eq_true hpid, of_decide_eq_true hown, by simpa using halive⟩
  rw [List.contains_iff_mem.mpr hin] at hgone
  exact Bool.false_ne_true hgone

end LocalMachine
end JamStream.Cloud
