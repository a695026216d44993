import JamStream.Cloud.Provider
import JamStream.Foundations.Runs

/-! The firewall of a session, put up before its machine, against the cleanup of firewalls with
no machine behind them. Both are several requests to one account, and they interleave. -/

namespace JamStream.Cloud
open Runs

def firewallPrefix : String := "jamstream-"

/-- A firewall as it is asked for: its name, and the tag of the machines it is for. -/
structure FirewallBody where
  name : String
  tag : String
deriving DecidableEq

structure Firewall where
  id : ℕ
  name : String
  tag : String
deriving DecidableEq

def firewallBodies (tag : String) : List FirewallBody :=
  [⟨tag ++ "-allow", tag⟩, ⟨tag ++ "-deny", tag⟩]

def doTagChar (c : Char) : Bool := c.isAlphanum || c = ':' || c = '-' || c = '_'

def sanitizeTagPart (part : String) : String :=
  String.ofList (part.toList.map fun c => if doTagChar c then c else '-')

def toDoTag (key value : String) : String :=
  if value.isEmpty then sanitizeTagPart key
  else sanitizeTagPart key ++ ":" ++ sanitizeTagPart value

def sessionDoTag (sessionId : String) : String := toDoTag sessionTagKey sessionId

def firewallName (sessionId : String) : String :=
  firewallPrefix ++ String.ofList (sessionId.toList.map fun c =>
    if c.isAlphanum || c = '.' || c = '-' then c else '-')

/-- The account a session is launched on, with the network tag it has on GCP. -/
inductive Account
  | gcp (tag : String)
  | digitalOcean (sessionId : String)

namespace Account

def bodies : Account → List FirewallBody
  | gcp tag => firewallBodies tag
  | digitalOcean sessionId => [⟨firewallName sessionId, sessionDoTag sessionId⟩]

def tag : Account → String
  | gcp tag => tag
  | digitalOcean sessionId => sessionDoTag sessionId

/-- A request to delete the firewall `f` takes `g` down: GCP's go by name, DigitalOcean's by
id. -/
def names (a : Account) (f g : Firewall) : Bool :=
  match a with
  | gcp _ => g.name = f.name
  | digitalOcean _ => g.id = f.id

end Account

/-- How far the launch has come. A firewall that is there already is looked up on
DigitalOcean. -/
inductive Stage
  | placing
  | lookingUp
  | creating
  | returned
  | failed
deriving DecidableEq

/-- How far the cleanup has come: the tags of the machines it was shown, and then the
firewalls left to visit. -/
inductive Cleanup
  | start
  | listed (live : List String)
  | visiting (live : List String) (left : List Firewall)
  | done

structure Race where
  firewalls : List Firewall
  machines : List String
  nextId : ℕ
  placed : List FirewallBody
  left : List FirewallBody
  stage : Stage
  cleanup : Cleanup

/-- What becomes of a request: it is sent again, carried out or not, or it is answered, or the
launch gives up on it. -/
inductive Fate
  | lost (executed : Bool)
  | answered
  | failed (executed : Bool)

inductive Move
  | place (fate : Fate)
  | lookUp (answered : Bool)
  | create (fate : Fate)
  | listMachines (complete : Bool)
  | listFirewalls (answered : Bool)
  | visit (executed : Bool) (moves : Bool)

namespace Race

def isUp (s : Race) (body : FirewallBody) : Bool := s.firewalls.any fun f => f.name = body.name

def put (s : Race) (body : FirewallBody) : Race :=
  if s.isUp body then s
  else { s with
    firewalls := s.firewalls ++ [⟨s.nextId, body.name, body.tag⟩]
    nextId := s.nextId + 1 }

def goOn (s : Race) (body : FirewallBody) (left : List FirewallBody) : Race :=
  { s with
    placed := s.placed ++ [body]
    left := left
    stage := if left.isEmpty then .creating else .placing }

def place (a : Account) (s : Race) (fate : Fate) : Race :=
  match s.stage, s.left with
  | .placing, body :: left =>
    match fate with
    | .lost executed => if executed then s.put body else s
    | .failed executed => { (if executed then s.put body else s) with stage := .failed }
    | .answered =>
      match a with
      | .gcp _ => (s.put body).goOn body left
      | .digitalOcean _ =>
        if s.isUp body then { s with stage := .lookingUp } else (s.put body).goOn body left
  | _, _ => s

def lookUp (s : Race) (answered : Bool) : Race :=
  match s.stage, s.left with
  | .lookingUp, body :: left =>
    if answered && s.isUp body then s.goOn body left else { s with stage := .failed }
  | _, _ => s

def create (a : Account) (s : Race) (fate : Fate) : Race :=
  match s.stage with
  | .creating =>
    match fate with
    | .lost executed => if executed then { s with machines := s.machines ++ [a.tag] } else s
    | .failed executed =>
      { s with
        machines := if executed then s.machines ++ [a.tag] else s.machines
        stage := .failed }
    | .answered =>
      { s with
        machines := s.machines ++ [a.tag]
        stage := .returned }
  | _ => s

/-- GCP's cleanup stops where a zone could not be listed. -/
def listMachines (a : Account) (s : Race) (complete : Bool) : Race :=
  match a, s.cleanup with
  | .gcp _, .start =>
    { s with cleanup := if complete then .listed s.machines else .done }
  | _, _ => s

def jamstreamFirewalls (s : Race) : List Firewall :=
  s.firewalls.filter fun f => firewallPrefix.toList.isPrefixOf f.name.toList

def listFirewalls (a : Account) (s : Race) (answered : Bool) : Race :=
  match a, s.cleanup with
  | .gcp _, .listed live =>
    { s with cleanup := if answered then .visiting live s.jamstreamFirewalls else .done }
  | .digitalOcean _, .start =>
    { s with cleanup := if answered then .visiting s.machines s.jamstreamFirewalls else .done }
  | _, _ => s

/-- The next firewall is left alone if a machine it is for was shown, and else deleted. -/
def visit (a : Account) (s : Race) (executed moves : Bool) : Race :=
  match s.cleanup with
  | .visiting live (f :: left) =>
    if live.contains f.tag then { s with cleanup := .visiting live left }
    else { s with
      firewalls := if executed then s.firewalls.filter fun g => !a.names f g else s.firewalls
      cleanup := if moves then .visiting live left else s.cleanup }
  | .visiting _ [] => { s with cleanup := .done }
  | _ => s

def step (a : Account) (s : Race) : Move → Race
  | .place fate => s.place a fate
  | .lookUp answered => s.lookUp answered
  | .create fate => s.create a fate
  | .listMachines complete => s.listMachines a complete
  | .listFirewalls answered => s.listFirewalls a answered
  | .visit executed moves => s.visit a executed moves

/-- The firewalls of a session that is live or being brought up are there: all of them once
its launch has returned, and until then those the launch has put in place. -/
structure Standing (a : Account) (s : Race) : Prop where
  live : s.stage = .returned → ∀ body ∈ a.bodies, s.isUp body
  launching : s.stage ≠ .failed → ∀ body ∈ s.placed, s.isUp body

/-- Where the cleanup has come to a firewall that the launch has put in place, and the launch
has not failed, the session's machine was shown to it. -/
def Spared (a : Account) (s : Race) : Move → Prop
  | .visit true _ => ∀ live f left, s.cleanup = .visiting live (f :: left) →
      s.stage ≠ .failed → (∃ g ∈ s.firewalls, a.names f g ∧ ∃ body ∈ s.placed,
        g.name = body.name) → f.tag ∈ live
  | _ => True

variable {a : Account} {s t : Race} {body : FirewallBody}

theorem isUp_iff : s.isUp body ↔ ∃ f ∈ s.firewalls, f.name = body.name := by
  rw [isUp, List.any_eq_true]
  exact exists_congr fun f => and_congr_right fun _ => decide_eq_true_iff

theorem isUp_congr (h : t.firewalls = s.firewalls) : t.isUp body = s.isUp body := by
  rw [isUp, isUp, h]

theorem isUp_put (s : Race) (body : FirewallBody) : (s.put body).isUp body := by
  unfold put
  split_ifs with hup
  · exact hup
  · rw [isUp_iff]
    exact ⟨_, List.mem_append_right _ (List.mem_singleton.mpr rfl), rfl⟩

theorem isUp_put_of_isUp {other : FirewallBody} (h : s.isUp other) :
    (s.put body).isUp other := by
  unfold put
  split_ifs with hup
  · exact h
  · rw [isUp_iff] at h ⊢
    obtain ⟨f, hf, hname⟩ := h
    exact ⟨f, List.mem_append_left _ hf, hname⟩

/-! ## What the two keep -/

/-- Firewalls have names of their own, and the launch puts its own in place one after another,
all of them before the machine. -/
structure Kept (a : Account) (s : Race) : Prop where
  names : (s.firewalls.map Firewall.name).Nodup
  bodies : s.placed ++ s.left = a.bodies
  first : s.stage = .creating ∨ s.stage = .returned → s.left = []

def InPlace (s : Race) : Prop := s.stage ≠ .failed → ∀ body ∈ s.placed, s.isUp body

theorem Kept.inPlace_iff (h : s.Kept a) : s.Standing a ↔ s.InPlace := by
  constructor
  · exact Standing.launching
  · intro hplaced
    refine ⟨fun hreturned body hbody => ?_, hplaced⟩
    have hall : s.placed = a.bodies := by
      rw [← h.bodies, h.first (.inr hreturned), List.append_nil]
    exact hplaced (hreturned ▸ by decide) body (hall ▸ hbody)

theorem put_names (h : (s.firewalls.map Firewall.name).Nodup) (body : FirewallBody) :
    ((s.put body).firewalls.map Firewall.name).Nodup := by
  unfold put
  split_ifs with hup
  · exact h
  · rw [List.map_append]
    refine h.append (List.nodup_singleton _) ?_
    intro name hname hbody
    obtain ⟨f, hf, rfl⟩ := List.mem_map.mp hname
    exact hup (isUp_iff.mpr ⟨f, hf, List.mem_singleton.mp hbody⟩)

theorem put_other (s : Race) (body : FirewallBody) : (s.put body).placed = s.placed ∧
    (s.put body).left = s.left ∧ (s.put body).stage = s.stage := by
  unfold put
  split_ifs
  · exact ⟨rfl, rfl, rfl⟩
  · exact ⟨rfl, rfl, rfl⟩

theorem Kept.stays (h : s.Kept a) (hnames : (t.firewalls.map Firewall.name).Nodup)
    (hplaced : t.placed = s.placed) (hleft : t.left = s.left)
    (hstage : t.stage = .creating ∨ t.stage = .returned → s.left = []) : t.Kept a where
  names := hnames
  bodies := by rw [hplaced, hleft, h.bodies]
  first hfirst := by rw [hleft, hstage hfirst]

theorem Kept.goOn {left : List FirewallBody} (h : s.Kept a) (hleft : s.left = body :: left) :
    (s.goOn body left).Kept a where
  names := h.names
  bodies := by
    show (s.placed ++ [body]) ++ left = a.bodies
    rw [← h.bodies, hleft, List.append_assoc]
    rfl
  first hfirst := by
    show left = []
    simp only [Race.goOn] at hfirst
    split_ifs at hfirst with hempty
    · exact List.isEmpty_iff.mp hempty
    · rcases hfirst with hfirst | hfirst
      · exact nomatch hfirst
      · exact nomatch hfirst

theorem InPlace.goOn {left : List FirewallBody} (h : s.InPlace) (hrunning : s.stage ≠ .failed)
    (hup : s.isUp body) : (s.goOn body left).InPlace := by
  intro _ other hother
  rcases List.mem_append.mp hother with hold | hnew
  · exact h hrunning other hold
  · rw [List.mem_singleton.mp hnew]
    exact hup

theorem Kept.put (h : s.Kept a) (body : FirewallBody) : (s.put body).Kept a := by
  obtain ⟨hplaced, hleft, hstage⟩ := put_other s body
  exact h.stays (put_names h.names body) hplaced hleft fun hfirst => h.first (hstage ▸ hfirst)

theorem InPlace.put (h : s.InPlace) (body : FirewallBody) : (s.put body).InPlace := by
  obtain ⟨hplaced, -, hstage⟩ := put_other s body
  intro hrunning other hother
  exact isUp_put_of_isUp (h (hstage ▸ hrunning) other (hplaced ▸ hother))

theorem Kept.failed (h : s.Kept a) : Kept a { s with stage := .failed } :=
  h.stays h.names rfl rfl fun hfirst => by
    rcases hfirst with hfirst | hfirst
    · exact nomatch hfirst
    · exact nomatch hfirst

theorem kept_place (h : s.Kept a) (fate : Fate) : (s.place a fate).Kept a := by
  unfold place
  split
  swap
  · exact h
  rename_i body left hstage hleft
  have hput : (s.put body).left = body :: left := (put_other s body).2.1.trans hleft
  rcases fate with executed | _ | executed
  · show Kept a (if executed then s.put body else s)
    split_ifs
    · exact h.put body
    · exact h
  · rcases a with _ | _
    · exact (h.put body).goOn hput
    · show Kept _ (if s.isUp body then { s with stage := .lookingUp } else _)
      split_ifs
      · exact h.stays h.names rfl rfl fun hfirst => by
          rcases hfirst with hfirst | hfirst
          · exact nomatch hfirst
          · exact nomatch hfirst
      · exact (h.put body).goOn hput
  · show Kept a { (if executed then s.put body else s) with stage := .failed }
    split_ifs
    · exact (h.put body).failed
    · exact h.failed

theorem inPlace_place (h : s.InPlace) (fate : Fate) : (s.place a fate).InPlace := by
  unfold place
  split
  swap
  · exact h
  rename_i body left hstage hleft
  have hrunning : (s.put body).stage ≠ .failed := by
    rw [(put_other s body).2.2, hstage]
    decide
  rcases fate with executed | _ | executed
  · show InPlace (if executed then s.put body else s)
    split_ifs
    · exact h.put body
    · exact h
  · have hgoes : ((s.put body).goOn body left).InPlace :=
      (h.put body).goOn hrunning (isUp_put s body)
    rcases a with _ | _
    · exact hgoes
    · show InPlace (if s.isUp body then { s with stage := .lookingUp } else _)
      split_ifs
      · exact fun _ => h (hstage ▸ by decide)
      · exact hgoes
  · exact fun hfailed => absurd rfl hfailed

theorem kept_lookUp (h : s.Kept a) (answered : Bool) : (s.lookUp answered).Kept a := by
  unfold lookUp
  split
  swap
  · exact h
  rename_i body left hstage hleft
  split_ifs
  · exact h.goOn hleft
  · exact h.failed

theorem inPlace_lookUp (h : s.InPlace) (answered : Bool) : (s.lookUp answered).InPlace := by
  unfold lookUp
  split
  swap
  · exact h
  rename_i body left hstage hleft
  split_ifs with hfound
  · rw [Bool.and_eq_true] at hfound
    exact h.goOn (hstage ▸ by decide) hfound.2
  · exact fun hfailed => absurd rfl hfailed

theorem create_other (s : Race) (fate : Fate) : (s.create a fate).firewalls = s.firewalls ∧
    (s.create a fate).placed = s.placed ∧ (s.create a fate).left = s.left := by
  unfold create
  split
  swap
  · exact ⟨rfl, rfl, rfl⟩
  rcases fate with executed | _ | executed
  · cases executed
    · exact ⟨rfl, rfl, rfl⟩
    · exact ⟨rfl, rfl, rfl⟩
  · exact ⟨rfl, rfl, rfl⟩
  · exact ⟨rfl, rfl, rfl⟩

theorem create_stage (s : Race) (fate : Fate) :
    (s.create a fate).stage = s.stage ∨ s.stage = .creating := by
  unfold create
  split
  · rename_i hstage
    exact .inr hstage
  · exact .inl rfl

theorem kept_create (h : s.Kept a) (fate : Fate) : (s.create a fate).Kept a := by
  obtain ⟨hfirewalls, hplaced, hleft⟩ := create_other (a := a) s fate
  refine h.stays (hfirewalls ▸ h.names) hplaced hleft fun hfirst => ?_
  rcases create_stage (a := a) s fate with hsame | hcreating
  · exact h.first (hsame ▸ hfirst)
  · exact h.first (.inl hcreating)

theorem inPlace_create (h : s.InPlace) (fate : Fate) : (s.create a fate).InPlace := by
  obtain ⟨hfirewalls, hplaced, -⟩ := create_other (a := a) s fate
  intro hrunning body hbody
  have hbefore : s.stage ≠ .failed := by
    rcases create_stage (a := a) s fate with hsame | hcreating
    · exact hsame ▸ hrunning
    · exact hcreating ▸ by decide
  rw [isUp_congr hfirewalls]
  exact h hbefore body (hplaced ▸ hbody)

def SameBut (s t : Race) : Prop := t = { s with cleanup := t.cleanup }

theorem sameBut_listMachines (s : Race) (complete : Bool) :
    s.SameBut (s.listMachines a complete) := by
  unfold listMachines
  split
  · rfl
  · rfl

theorem sameBut_listFirewalls (s : Race) (answered : Bool) :
    s.SameBut (s.listFirewalls a answered) := by
  unfold listFirewalls
  split
  · rfl
  · rfl
  · rfl

theorem SameBut.kept (h : s.SameBut t) (hs : s.Kept a) : t.Kept a := by
  rw [h]
  exact ⟨hs.names, hs.bodies, hs.first⟩

theorem SameBut.inPlace (h : s.SameBut t) (hs : s.InPlace) : t.InPlace := by
  rw [h]
  exact hs

theorem visit_cases (a : Account) (s : Race) (executed moves : Bool) :
    (∃ live f left, s.cleanup = .visiting live (f :: left) ∧ f.tag ∉ live ∧ executed = true ∧
      s.visit a executed moves = { s with
        firewalls := s.firewalls.filter fun g => !a.names f g
        cleanup := (s.visit a executed moves).cleanup }) ∨
    ((∀ live f left, s.cleanup = .visiting live (f :: left) → executed = true → f.tag ∈ live) ∧
      s.SameBut (s.visit a executed moves)) := by
  unfold visit
  split
  · rename_i live f left hcleanup
    by_cases hlive : f.tag ∈ live
    · rw [if_pos (List.contains_iff_mem.mpr hlive)]
      refine .inr ⟨fun live' f' left' h _ => ?_, rfl⟩
      obtain ⟨rfl, hcons⟩ := Cleanup.visiting.inj (hcleanup.symm.trans h)
      exact (List.cons.inj hcons).1 ▸ hlive
    · rw [if_neg fun h => hlive (List.contains_iff_mem.mp h)]
      cases executed
      · exact .inr ⟨(fun _ _ _ _ h => nomatch h), rfl⟩
      · exact .inl ⟨live, f, left, hcleanup, hlive, rfl, rfl⟩
  · rename_i hcleanup
    exact .inr ⟨(fun _ _ _ h => nomatch hcleanup.symm.trans h), rfl⟩
  · rename_i hnone _
    exact .inr ⟨(fun live f left h => absurd h (hnone live f left)), rfl⟩

theorem kept_visit (h : s.Kept a) (executed moves : Bool) :
    (s.visit a executed moves).Kept a := by
  rcases visit_cases a s executed moves with ⟨_, f, _, -, -, -, heq⟩ | ⟨-, hsame⟩
  · rw [heq]
    refine h.stays ?_ rfl rfl h.first
    exact h.names.sublist (List.filter_sublist.map Firewall.name)
  · exact hsame.kept h

/-- Of two firewalls of one name, only one is there: a body is up after a deletion exactly if
it was up and the deletion is not of its firewall. -/
theorem isUp_deleted_iff (hnames : (s.firewalls.map Firewall.name).Nodup) (f : Firewall)
    {cleanup : Cleanup} (body : FirewallBody) :
    Race.isUp { s with
      firewalls := s.firewalls.filter fun g => !a.names f g
      cleanup := cleanup } body ↔
      s.isUp body ∧ ∀ g ∈ s.firewalls, g.name = body.name → ¬a.names f g := by
  rw [isUp_iff, isUp_iff]
  constructor
  · rintro ⟨g, hg, hname⟩
    obtain ⟨hthere, hspared⟩ := List.mem_filter.mp hg
    refine ⟨⟨g, hthere, hname⟩, fun g' hg' hname' => ?_⟩
    have hsame : g' = g := List.inj_on_of_nodup_map hnames hg' hthere (hname'.trans hname.symm)
    rw [hsame]
    simpa using hspared
  · rintro ⟨⟨g, hthere, hname⟩, hspared⟩
    refine ⟨g, List.mem_filter.mpr ⟨hthere, ?_⟩, hname⟩
    simpa using hspared g hthere hname

theorem inPlace_visit_iff (hk : s.Kept a) (h : s.InPlace) (executed moves : Bool) :
    (s.visit a executed moves).InPlace ↔ s.Spared a (.visit executed moves) := by
  rcases visit_cases a s executed moves with
    ⟨live, f, left, hcleanup, hlive, rfl, heq⟩ | ⟨hnone, hsame⟩
  · rw [heq]
    constructor
    · intro hafter live' f' left' hcleanup' hrunning
      rintro ⟨g, hg, hnamed, body, hbody, hname⟩
      obtain ⟨rfl, hcons⟩ := Cleanup.visiting.inj (hcleanup.symm.trans hcleanup')
      obtain ⟨rfl, rfl⟩ := List.cons.inj hcons
      have hup := (isUp_deleted_iff hk.names f body).mp (hafter hrunning body hbody)
      exact absurd hnamed (hup.2 g hg hname)
    · intro hspared hrunning body hbody
      refine (isUp_deleted_iff hk.names f body).mpr ⟨h hrunning body hbody, ?_⟩
      intro g hg hname hnamed
      exact hlive (hspared live f left hcleanup hrunning ⟨g, hg, hnamed, body, hbody, hname⟩)
  · apply iff_of_true (hsame.inPlace h)
    cases executed
    · trivial
    · exact fun live f left hcleanup _ _ => hnone live f left hcleanup rfl

theorem kept_step (h : s.Kept a) (move : Move) : (s.step a move).Kept a := by
  cases move with
  | place fate => exact kept_place h fate
  | lookUp answered => exact kept_lookUp h answered
  | create fate => exact kept_create h fate
  | listMachines complete => exact (sameBut_listMachines s complete).kept h
  | listFirewalls answered => exact (sameBut_listFirewalls s answered).kept h
  | visit executed moves => exact kept_visit h executed moves

theorem inPlace_step_iff (hk : s.Kept a) (h : s.InPlace) (move : Move) :
    (s.step a move).InPlace ↔ s.Spared a move := by
  cases move with
  | place fate => exact iff_of_true (inPlace_place h fate) trivial
  | lookUp answered => exact iff_of_true (inPlace_lookUp h answered) trivial
  | create fate => exact iff_of_true (inPlace_create h fate) trivial
  | listMachines complete =>
    exact iff_of_true ((sameBut_listMachines s complete).inPlace h) trivial
  | listFirewalls answered =>
    exact iff_of_true ((sameBut_listFirewalls s answered).inPlace h) trivial
  | visit executed moves => exact inPlace_visit_iff hk h executed moves

/-- What is on the account before: firewalls with names of their own and machines. -/
structure Opening where
  firewalls : List Firewall
  names : (firewalls.map Firewall.name).Nodup
  machines : List String
  nextId : ℕ

def Opening.start (o : Opening) (a : Account) : Race where
  firewalls := o.firewalls
  machines := o.machines
  nextId := o.nextId
  placed := []
  left := a.bodies
  stage := .placing
  cleanup := .start

theorem Opening.kept (o : Opening) (a : Account) : (o.start a).Kept a where
  names := o.names
  bodies := rfl
  first h := by
    rcases h with h | h
    · exact nomatch h
    · exact nomatch h

theorem Opening.inPlace (o : Opening) (a : Account) : (o.start a).InPlace :=
  fun _ _ hbody => absurd hbody List.not_mem_nil

/-- The firewalls of the session stand through the whole race exactly when the session's
machine was shown to the cleanup before it comes to any of them. -/
theorem standing_iff (a : Account) (o : Opening) (moves : List Move) :
    Throughout (step a) (Standing a) (o.start a) moves ↔
      Meets (step a) (Spared a) (o.start a) moves := by
  apply throughout_iff_meets (I := fun s => s.Kept a ∧ s.InPlace)
  · exact fun s h => h.1.inPlace_iff.mpr h.2
  · exact fun s move h hspared =>
      ⟨kept_step h.1 move, (inPlace_step_iff h.1 h.2 move).mpr hspared⟩
  · intro s move h hstanding
    have hinPlace := (kept_step h.1 move).inPlace_iff.mp hstanding
    exact (inPlace_step_iff h.1 h.2 move).mp hinPlace
  · exact ⟨o.kept a, o.inPlace a⟩

section between

def emptyAccount : Opening := ⟨[], List.nodup_nil, [], 1⟩

/-- The cleanup lists an account between the two halves of a launch, and the launch goes on to
its machine and returns. -/
def betweenMoves : List Move :=
  [.place .answered, .listFirewalls true, .create .answered, .visit true true]

def betweenMovesGcp : List Move :=
  [.place .answered, .place .answered, .listMachines true, .listFirewalls true,
    .create .answered, .visit true true]

theorem standing_between :
    ¬Throughout (step (.digitalOcean "5e55101d")) (Standing (.digitalOcean "5e55101d"))
        (emptyAccount.start (.digitalOcean "5e55101d")) betweenMoves ∧
      ¬Throughout (step (.gcp "jamstream-5e55101d")) (Standing (.gcp "jamstream-5e55101d"))
        (emptyAccount.start (.gcp "jamstream-5e55101d")) betweenMovesGcp := by
  have hdo : (run (step (.digitalOcean "5e55101d"))
      (emptyAccount.start (.digitalOcean "5e55101d")) betweenMoves).stage = .returned ∧
      ((run (step (.digitalOcean "5e55101d"))
        (emptyAccount.start (.digitalOcean "5e55101d")) betweenMoves).isUp
          ⟨firewallName "5e55101d", sessionDoTag "5e55101d"⟩) = false := by decide +kernel
  have hgcp : (run (step (.gcp "jamstream-5e55101d"))
      (emptyAccount.start (.gcp "jamstream-5e55101d")) betweenMovesGcp).stage = .returned ∧
      ((run (step (.gcp "jamstream-5e55101d"))
        (emptyAccount.start (.gcp "jamstream-5e55101d")) betweenMovesGcp).isUp
          ⟨"jamstream-5e55101d-allow", "jamstream-5e55101d"⟩) = false := by decide +kernel
  constructor
  · intro h
    have hup := h.last.live hdo.1 _ (List.mem_singleton.mpr rfl)
    rw [hdo.2] at hup
    exact Bool.false_ne_true hup
  · intro h
    have hup := h.last.live hgcp.1 ⟨"jamstream-5e55101d-allow", "jamstream-5e55101d"⟩ (by decide)
    rw [hgcp.2] at hup
    exact Bool.false_ne_true hup

end between

end Race
end JamStream.Cloud
