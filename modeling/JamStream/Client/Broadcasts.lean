import JamStream.Client.DestinationsPanel
import JamStream.Stream.Isolation
import JamStream.Stream.Status

/-! The host's panels, one after another, over the session that keeps its destinations. The
requests of a panel travel in order; a panel that is left takes the last of them with it, and the
next one starts to count again. -/

namespace JamStream.Stream.Pipeline
open Protocol Foundations Each
variable {s : Pipeline}

def ids (s : Pipeline) : List DestinationId := s.dests.map Destination.id

theorem ids_eachDestination (h : s.Supervised)
    {f : Destination → Outside → Destination × Outside}
    (hf : ∀ (d : Destination) (o : Outside), o.Ledger → d.Sound o → d.Keeps o (f d o)) :
    (s.eachDestination f).ids = s.ids :=
  ((owned_of_keeps hf _ _).each h.ids h.shared h.listed).1

theorem ids_poll (h : s.Supervised) (c : Conditions) (nowMs : UInt64) :
    (s.poll c nowMs).ids = s.ids := by
  unfold poll
  split_ifs
  · have hencoder : (s.pollEncoder c nowMs).ids = s.ids := by
      rw [ids, ids, dests_pollEncoder]
    rw [← hencoder]
    exact ids_eachDestination (h.pollEncoder c nowMs) fun d o hl hd =>
      Destination.keeps_poll _ c nowMs _ _ hl hd
  · rfl

theorem ids_addDestination (h : s.Supervised) (c : Conditions) (nowMs : UInt64)
    (id : DestinationId) (platform : StreamPlatform) (key : String) :
    let r := s.addDestination c nowMs id platform key
    (r.1 = .ok () ∧ ∀ i ∈ r.2.ids, i = id ∨ i ∈ s.ids) ∨ (r.1 ≠ .ok () ∧ r.2 = s) := by
  unfold addDestination
  rcases s.cfg.catalog platform with _ | spec
  · exact .inr ⟨fun h => (nomatch h), rfl⟩
  · simp only
    rcases hon : onDestination id (Destination.replace c platform key) s.dests s.outside with
      _ | ⟨dests, outside⟩
    · simp only
      split_ifs
      · exact .inr ⟨fun h => (nomatch h), rfl⟩
      · refine .inl ⟨rfl, fun i hi => ?_⟩
        rw [ids_poll (h.push (onDestination_eq_none hon) platform key)] at hi
        have hids : (s.newDestination id platform key).ids = s.ids ++ [id] := List.map_append
        rw [hids] at hi
        rcases List.mem_append.mp hi with hold | hnew
        · exact .inr hold
        · exact .inl (List.mem_singleton.mp hnew)
    · refine .inl ⟨rfl, fun i hi => .inr ?_⟩
      simp only at hi
      rw [ids_poll (h.replaced hon)] at hi
      obtain ⟨pre, d, post, hdests, hid, hr⟩ := onDestination_eq_some hon
      obtain ⟨rfl, rfl⟩ := Prod.mk.inj hr
      have hkeeps := Destination.keeps_replace c platform key h.ledger
        (h.dests d (by simp [hdests]))
      rw [ids, hdests]
      rw [ids, List.map_append, List.map_cons, hkeeps.id] at hi
      rw [List.map_append, List.map_cons]
      exact hi

theorem ids_removeDestination (c : Conditions) (id : DestinationId) :
    ∀ i ∈ (s.removeDestination c id).2.ids, i ∈ s.ids := by
  intro i hi
  rw [removeDestination] at hi
  rcases hfind : s.dests.find? (·.id = id) with _ | d
  · rw [hfind] at hi
    exact hi
  · rw [hfind] at hi
    exact (List.eraseP_sublist.map Destination.id).subset hi

theorem ids_stop (h : s.Supervised) (c : Conditions) : (s.stop c).ids = s.ids := by
  have hstopped : Supervised { s with started := false } :=
    ⟨h.ledger, h.encoder, h.dests, h.ids, h.absent⟩
  rw [stop, ids, dests_stopEncoder]
  exact ids_eachDestination hstopped fun d o hl hd => Destination.keeps_idle c hl hd

end JamStream.Stream.Pipeline

namespace JamStream.Client
open Protocol JamStream.Stream
open Runs

def addId : StreamOp → Option DestinationId
  | .addDestination id _ _ => some id
  | _ => none

def addIds (ops : List StreamOp) : List DestinationId := ops.filterMap addId

/-- A destination that was asked for, and what the session had when the request came. -/
structure Adding where
  id : DestinationId
  platform : StreamPlatform
  before : List Destination

structure Broadcasts where
  panel : DestinationsPanel
  view : StreamView
  inFlight : List StreamOp
  pipeline : Pipeline
  /-- Of the panel: what it found held or on its way, and how many ids it has minted. -/
  inherited : List DestinationId
  minted : ℕ
  -- history from here on
  /-- Every destination the session has held, by its id. -/
  held : List DestinationId
  /-- Every id minted, with what the session had held by then. -/
  mints : List (DestinationId × List DestinationId)
  adds : List Adding

inductive BroadcastMove
  | press (pr : Press)
  /-- Any report at all, however late. -/
  | report (view : StreamView)
  /-- The first request on its way reaches the pipeline. -/
  | arrive (c : Conditions) (nowMs : UInt64)
  /-- It is refused before it gets there. -/
  | lose
  /-- The host is back with a new panel; only the first `kept` requests are still on their way. -/
  | rejoin (kept : ℕ) (saved : StreamPlatform → Bool)
  | poll (c : Conditions) (nowMs : UInt64)
  | pushTick (w : Writes) (nowMs : UInt64) (samples : ℕ)
  | exits (proc : ProcId) (reason : String)
  | writes (proc : ProcId) (text : List Char)

namespace Broadcasts

def noView : StreamView := { destinations := [], unavailable := false }

def new (cfg : StreamConfig) (saved : StreamPlatform → Bool) : Broadcasts :=
  { panel := .new saved, view := noView, inFlight := [], pipeline := .new cfg, inherited := []
    minted := 0, held := [], mints := [], adds := [] }

def press (s : Broadcasts) (pr : Press) : Broadcasts :=
  let r := s.panel.press s.view pr
  { s with
    panel := r.1
    inFlight := s.inFlight ++ r.2
    minted := s.minted + (addIds r.2).length
    mints := s.mints ++ (addIds r.2).map (·, s.held) }

def adding (op : StreamOp) (before : List Destination) : List Adding :=
  match op with
  | .addDestination id platform _ => [{ id, platform, before }]
  | _ => []

def arrive (s : Broadcasts) (c : Conditions) (nowMs : UInt64) : Broadcasts :=
  match s.inFlight with
  | [] => s
  | op :: rest =>
    let r := s.pipeline.apply c nowMs op
    { s with
      inFlight := rest
      pipeline := r.2
      held := s.held ++ if r.1 = .ok () then addIds [op] else []
      adds := s.adds ++ adding op s.pipeline.dests }

def rejoin (s : Broadcasts) (kept : ℕ) (saved : StreamPlatform → Bool) : Broadcasts :=
  { s with
    panel := .new saved
    view := noView
    inFlight := s.inFlight.take kept
    inherited := s.held ++ addIds (s.inFlight.take kept)
    minted := 0 }

def step (s : Broadcasts) : BroadcastMove → Broadcasts
  | .press pr => s.press pr
  | .report view => { s with view }
  | .arrive c nowMs => s.arrive c nowMs
  | .lose => { s with inFlight := s.inFlight.tail }
  | .rejoin kept saved => s.rejoin kept saved
  | .poll c nowMs => { s with pipeline := s.pipeline.step (.poll c nowMs) }
  | .pushTick w nowMs samples => { s with pipeline := s.pipeline.step (.pushTick w nowMs samples) }
  | .exits proc reason => { s with pipeline := s.pipeline.step (.exits proc reason) }
  | .writes proc text => { s with pipeline := s.pipeline.step (.writes proc text) }

/-- No two destinations the session held had one id, no id minted was one's that the session
held or had held, and no request for one platform came upon another platform's destination. -/
structure Apart (s : Broadcasts) : Prop where
  held : s.held.Nodup
  mints : ∀ m ∈ s.mints, m.1 ∉ m.2
  adds : ∀ a ∈ s.adds, ∀ d ∈ a.before, d.id = a.id → d.platform = a.platform

/-- A press that asks for a destination comes before the ids run out, and its number is not
that of a destination from before the panel was opened. -/
def Uninherited (s : Broadcasts) : BroadcastMove → Prop
  | .press pr => addIds (s.panel.press s.view pr).2 ≠ [] →
    s.minted < 2 ^ 16 ∧ UInt16.ofNat s.minted ∉ s.inherited
  | _ => True

def live (s : Broadcasts) : List DestinationId := s.held ++ addIds s.inFlight

structure Orderly (s : Broadcasts) : Prop where
  supervised : s.pipeline.Supervised
  ids : ∀ i ∈ s.pipeline.ids, i ∈ s.held
  next : s.panel.nextId = UInt16.ofNat s.minted
  minted : s.minted ≤ 2 ^ 16
  nodup : s.live.Nodup
  live : ∀ i ∈ s.live, i ∈ s.inherited ∨ ∃ k < s.minted, i = UInt16.ofNat k
  apart : s.Apart

theorem orderly_new (cfg : StreamConfig) (saved : StreamPlatform → Bool) :
    (new cfg saved).Orderly where
  supervised := Pipeline.supervised_new cfg
  ids _ hi := absurd hi List.not_mem_nil
  next := rfl
  minted := Nat.zero_le _
  nodup := List.nodup_nil
  live _ hi := absurd hi List.not_mem_nil
  apart := ⟨List.nodup_nil, fun _ hm => absurd hm List.not_mem_nil,
    fun _ ha => absurd ha List.not_mem_nil⟩

section
variable {s : Broadcasts}

theorem Apart.same {s' : Broadcasts} (h : s.Apart) (hheld : s'.held = s.held)
    (hmints : s'.mints = s.mints) (hadds : s'.adds = s.adds) : s'.Apart :=
  ⟨hheld ▸ h.held, hmints ▸ h.mints, hadds ▸ h.adds⟩

theorem addIds_append (ops ops' : List StreamOp) : addIds (ops ++ ops') = addIds ops ++ addIds ops' :=
  List.filterMap_append

theorem addIds_none {ops : List StreamOp}
    (h : ∀ op ∈ ops, ∀ id platform key, op ≠ .addDestination id platform key) : addIds ops = [] := by
  rw [addIds, List.filterMap_eq_nil_iff]
  intro op hop
  cases op with
  | addDestination id platform key => exact absurd rfl (h _ hop id platform key)
  | removeDestination id => rfl
  | start => rfl
  | stop => rfl

theorem ofNat_inj {k n : ℕ} (hk : k < 2 ^ 16) (hn : n < 2 ^ 16)
    (h : UInt16.ofNat k = UInt16.ofNat n) : k = n := by
  have hnat := congrArg UInt16.toNat h
  rwa [UInt16.toNat_ofNat', UInt16.toNat_ofNat', Nat.mod_eq_of_lt hk, Nat.mod_eq_of_lt hn] at hnat

theorem Orderly.press (h : s.Orderly) (pr : Press) (hfree : s.Uninherited (.press pr)) :
    (s.press pr).Orderly := by
  rcases s.panel.sends_press s.view pr with ⟨hnext, hnone⟩ | ⟨hnext, platform, key, hsent⟩
  · -- nothing is added: the request, if any, joins the others
    have hadds := addIds_none hnone
    have hlive : (s.press pr).live = s.live := by
      rw [Broadcasts.live, Broadcasts.live, Broadcasts.press, addIds_append, hadds, List.append_nil]
    have hmints : (s.press pr).mints = s.mints := by
      rw [Broadcasts.press, hadds]
      exact List.append_nil _
    have hminted : (s.press pr).minted = s.minted := by
      rw [Broadcasts.press, hadds]
      rfl
    constructor
    · exact h.supervised
    · exact h.ids
    · rw [hminted]
      exact hnext.trans h.next
    · rw [hminted]
      exact h.minted
    · rw [hlive]
      exact h.nodup
    · rw [hlive, hminted]
      exact h.live
    · refine ⟨h.apart.held, ?_, h.apart.adds⟩
      rw [hmints]
      exact h.apart.mints
  · have hadds : addIds (s.panel.press s.view pr).2 = [s.panel.nextId] := by rw [hsent]; rfl
    obtain ⟨hroom, hnot⟩ := hfree (by rw [hadds]; exact List.cons_ne_nil _ _)
    have hlive : (s.press pr).live = s.live ++ [s.panel.nextId] := by
      rw [Broadcasts.live, Broadcasts.live, Broadcasts.press, addIds_append, hadds, List.append_assoc]
    have hminted : (s.press pr).minted = s.minted + 1 := by
      rw [Broadcasts.press, hadds]
      rfl
    -- the panel has not minted this number, and nobody had before
    have hfresh : s.panel.nextId ∉ s.live := by
      intro hmem
      rw [h.next] at hmem
      rcases h.live _ hmem with hold | ⟨k, hk, hsame⟩
      · exact hnot hold
      · have heq := ofNat_inj hroom (hk.trans hroom) hsame
        omega
    constructor
    · exact h.supervised
    · exact h.ids
    · rw [hminted, UInt16.ofNat_add]
      refine hnext.trans ?_
      rw [h.next]
      rfl
    · rw [hminted]
      exact hroom
    · rw [hlive]
      exact List.nodup_append.mpr ⟨h.nodup, List.nodup_singleton _, by
        rintro i hi j hj rfl
        rw [List.mem_singleton.mp hj] at hi
        exact hfresh hi⟩
    · intro i hi
      rw [hlive] at hi
      rw [hminted]
      rcases List.mem_append.mp hi with hold | hnew
      · rcases h.live i hold with hin | ⟨k, hk, hsame⟩
        · exact .inl hin
        · exact .inr ⟨k, by omega, hsame⟩
      · exact .inr ⟨s.minted, by omega, (List.mem_singleton.mp hnew).trans h.next⟩
    · refine ⟨h.apart.held, fun m hm => ?_, h.apart.adds⟩
      have hm' : m ∈ s.mints ++ [(s.panel.nextId, s.held)] := by
        rw [Broadcasts.press, hadds] at hm
        exact hm
      rcases List.mem_append.mp hm' with hold | hnew
      · exact h.apart.mints m hold
      · rw [List.mem_singleton.mp hnew]
        exact fun hheld => hfresh (List.mem_append_left _ hheld)

theorem ids_apply {p : Pipeline} (h : p.Supervised) (c : Conditions) (nowMs : UInt64) (op : StreamOp) :
    ∀ i ∈ (p.apply c nowMs op).2.ids, i ∈ p.ids ∨ ((p.apply c nowMs op).1 = .ok () ∧ i ∈ addIds [op]) := by
  cases op with
  | addDestination id platform key =>
    intro i hi
    rcases Pipeline.ids_addDestination h c nowMs id platform key with ⟨hok, hids⟩ | ⟨_, hsame⟩
    · rcases hids i hi with rfl | hold
      · exact .inr ⟨hok, List.mem_singleton.mpr rfl⟩
      · exact .inl hold
    · have hpipeline : (p.apply c nowMs (.addDestination id platform key)).2 = p := hsame
      rw [hpipeline] at hi
      exact .inl hi
  | removeDestination id => exact fun i hi => .inl (Pipeline.ids_removeDestination c id i hi)
  | start =>
    intro i hi
    have hstarted : Pipeline.Supervised { p with started := true, encoderRetryAtMs := none } :=
      ⟨h.ledger, h.encoder, h.dests, h.ids, h.absent⟩
    have hids : (p.apply c nowMs .start).2.ids = p.ids := Pipeline.ids_poll hstarted c nowMs
    rw [hids] at hi
    exact .inl hi
  | stop =>
    intro i hi
    have hids : (p.apply c nowMs .stop).2.ids = p.ids := Pipeline.ids_stop h c
    rw [hids] at hi
    exact .inl hi

theorem Orderly.arrive (h : s.Orderly) (c : Conditions) (nowMs : UInt64) :
    (s.arrive c nowMs).Orderly := by
  rcases hflight : s.inFlight with _ | ⟨op, rest⟩
  · have hstep : s.arrive c nowMs = s := by rw [Broadcasts.arrive, hflight]
    rw [hstep]
    exact h
  have hnodup := h.nodup
  rw [Broadcasts.live, hflight, ← List.singleton_append, addIds_append] at hnodup
  generalize hr : s.pipeline.apply c nowMs op = r
  generalize hgot : (if r.1 = .ok () then addIds [op] else []) = got
  have hstep : s.arrive c nowMs = { s with
      inFlight := rest
      pipeline := r.2
      held := s.held ++ got
      adds := s.adds ++ adding op s.pipeline.dests } := by
    rw [Broadcasts.arrive, hflight, ← hgot, ← hr]
  have hsub : got.Sublist (addIds [op]) := by
    rw [← hgot]
    split_ifs
    · exact List.Sublist.refl _
    · exact List.nil_sublist _
  have hlive : (s.held ++ got ++ addIds rest).Sublist s.live := by
    rw [Broadcasts.live, hflight, ← List.singleton_append, addIds_append, List.append_assoc]
    exact (hsub.append_right _).append_left _
  rw [hstep]
  constructor
  · rw [← hr]
    exact h.supervised.step (.apply c nowMs op)
  · intro i hi
    have hi' : i ∈ (s.pipeline.apply c nowMs op).2.ids := by rwa [hr]
    rcases ids_apply h.supervised c nowMs op i hi' with hold | ⟨hok, hnew⟩
    · exact List.mem_append_left _ (h.ids i hold)
    · refine List.mem_append_right _ ?_
      rw [← hgot, if_pos (by rw [← hr]; exact hok)]
      exact hnew
  · exact h.next
  · exact h.minted
  · exact h.nodup.sublist hlive
  · exact fun i hi => h.live i (hlive.subset hi)
  · refine ⟨?_, h.apart.mints, fun a ha d hd hsame => ?_⟩
    · exact (h.nodup.sublist hlive).sublist (List.sublist_append_left _ _)
    · rcases List.mem_append.mp ha with hold | hnew
      · exact h.apart.adds a hold d hd hsame
      -- nothing the session holds has the id of a request on its way
      · cases op with
        | addDestination id platform key =>
          obtain rfl := List.mem_singleton.mp hnew
          have hheld : d.id ∈ s.held := h.ids _ (List.mem_map_of_mem hd)
          have hid : id ∈ addIds [.addDestination id platform key] ++ addIds rest :=
            List.mem_append_left _ (List.mem_singleton.mpr rfl)
          exact absurd hsame ((List.nodup_append.mp hnodup).2.2 d.id hheld id hid)
        | removeDestination id => exact absurd hnew List.not_mem_nil
        | start => exact absurd hnew List.not_mem_nil
        | stop => exact absurd hnew List.not_mem_nil

theorem Orderly.of_pipeline (h : s.Orderly) {e : Pipeline.Event}
    (hids : (s.pipeline.step e).ids = s.pipeline.ids) :
    Orderly { s with pipeline := s.pipeline.step e } where
  supervised := h.supervised.step e
  ids := hids ▸ h.ids
  next := h.next
  minted := h.minted
  nodup := h.nodup
  live := h.live
  apart := h.apart.same rfl rfl rfl

theorem Orderly.step (h : s.Orderly) {m : BroadcastMove} (hfree : s.Uninherited m) :
    (s.step m).Orderly := by
  cases m with
  | press pr => exact h.press pr hfree
  | report view => exact ⟨h.supervised, h.ids, h.next, h.minted, h.nodup, h.live, h.apart.same rfl rfl rfl⟩
  | arrive c nowMs => exact h.arrive c nowMs
  | lose =>
    have hsub : (addIds s.inFlight.tail).Sublist (addIds s.inFlight) :=
      (List.tail_sublist _).filterMap _
    refine ⟨h.supervised, h.ids, h.next, h.minted, ?_, ?_, h.apart.same rfl rfl rfl⟩
    · exact h.nodup.sublist (List.Sublist.append_left hsub _)
    · exact fun i hi => h.live i ((List.Sublist.append_left hsub _).subset hi)
  | rejoin kept saved =>
    have hsub : (addIds (s.inFlight.take kept)).Sublist (addIds s.inFlight) :=
      (List.take_sublist _ _).filterMap _
    refine ⟨h.supervised, h.ids, rfl, Nat.zero_le _, ?_, fun i hi => .inl hi, h.apart.same rfl rfl rfl⟩
    exact h.nodup.sublist (List.Sublist.append_left hsub _)
  | poll c nowMs => exact h.of_pipeline (Pipeline.ids_poll h.supervised c nowMs)
  | pushTick w nowMs samples =>
    exact h.of_pipeline (congrArg (·.map Destination.id)
      (Pipeline.dests_pushTick s.pipeline w nowMs samples))
  | exits proc reason => exact h.of_pipeline rfl
  | writes proc text => exact h.of_pipeline rfl

end

/-- While no panel takes up a number from before it was opened, no broadcast takes over
another one. -/
theorem apart_of_uninherited (cfg : StreamConfig) (saved : StreamPlatform → Bool)
    (moves : List BroadcastMove) (hfree : Meets step Uninherited (new cfg saved) moves) :
    Throughout step Apart (new cfg saved) moves :=
  (throughout_of_meets (P := Orderly) (fun _ _ h hfree => h.step hfree)
    (orderly_new cfg saved) hfree).imp fun _ h => h.apart

instance (s : Broadcasts) : ∀ m : BroadcastMove, Decidable (s.Uninherited m)
  | .press pr => inferInstanceAs (Decidable (addIds (s.panel.press s.view pr).2 ≠ [] →
      s.minted < 2 ^ 16 ∧ UInt16.ofNat s.minted ∉ s.inherited))
  | .report _ | .arrive .. | .lose | .rejoin .. | .poll .. | .pushTick .. | .exits .. |
    .writes .. => isTrue trivial

def both : List BroadcastMove :=
  [.press (.useSaved 0 (some "tw")), .press (.useSaved 1 (some "yt")), .arrive Pipeline.calm 0,
    .arrive Pipeline.calm 0, .press .goLive, .arrive Pipeline.calm 0]

theorem apart_of_uninherited_both :
    Throughout step Apart (new Pipeline.session fun _ => true) both :=
  apart_of_uninherited _ _ both (by decide +kernel)

def back : List BroadcastMove :=
  [.press (.useSaved 0 (some "tw")), .arrive Pipeline.calm 0, .rejoin 0 fun _ => true,
    .press (.useSaved 1 (some "yt")), .arrive Pipeline.calm 0]

/-- The second platform's request comes upon the first one's destination. -/
theorem apart_back :
    ¬∀ (cfg : StreamConfig) (saved : StreamPlatform → Bool) (moves : List BroadcastMove),
      Throughout step Apart (new cfg saved) moves := by
  intro h
  have hlast := (h Pipeline.session (fun _ => true) back).last
  have hadds : (run step (new Pipeline.session fun _ => true) back).adds.any (fun a =>
      a.before.any fun d => d.id = a.id ∧ d.platform ≠ a.platform) = true := by decide +kernel
  obtain ⟨a, ha, hbefore⟩ := List.any_eq_true.mp hadds
  obtain ⟨d, hd, hcrossed⟩ := List.any_eq_true.mp hbefore
  obtain ⟨hsame, hother⟩ := of_decide_eq_true hcrossed
  exact hother (hlast.adds a ha d hd hsame)

end Broadcasts
end JamStream.Client
