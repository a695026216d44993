import JamStream.Cloud.Provider
import JamStream.Cloud.Xml

/-! What a session has open in the firewalls of AWS, asked region by region, and the teardown
that asks until nothing is open. -/

namespace JamStream.Cloud
open Foundations Foundations.Markup

structure IngressRule where
  protocol : String
  fromPort : UInt16
  toPort : UInt16
  cidrs : List String
deriving DecidableEq, Ord

def parseU16 (text : List Char) : Option UInt16 :=
  let digits := if text.head? = some '+' then text.tail else text
  let value := Nat.ofDigitChars 10 digits 0
  if digits.isEmpty || digits.any (fun c => !c.isDigit) || 65536 ≤ value then none
  else some (UInt16.ofNat value)

def takeTags (xml tag : List Char) : List (List Char) :=
  match _h : takeTag xml tag with
  | none => []
  | some (text, rest) => text :: takeTags rest tag
termination_by xml.length
decreasing_by exact length_of_takeTag _h

def cidrsOf (item : List Char) : List String :=
  (["cidrIp", "cidrIpv6"].flatMap fun tag =>
    (takeTags item tag.toList).map fun cidr => String.ofList (xmlUnescape cidr)).mergeSort

def portOf (item : List Char) (tag : String) : UInt16 :=
  ((xmlValue item tag.toList).bind parseU16).getD 0

/-- A permission ends where the next one's protocol begins. -/
def itemOf (after : List Char) : List Char :=
  ((splitFirst "<ipProtocol>".toList after).map Prod.fst).getD after

def permissionsOf (block : List Char) : List IngressRule :=
  match _h : takeTag block "ipProtocol".toList with
  | none => []
  | some (protocol, after) =>
    let item := itemOf after
    ⟨String.ofList (xmlUnescape protocol), portOf item "fromPort", portOf item "toPort",
      cidrsOf item⟩ :: permissionsOf (after.drop item.length)
termination_by block.length
decreasing_by
  have hless := length_of_takeTag _h
  rw [List.length_drop]
  exact lt_of_le_of_lt (Nat.sub_le _ _) hless

def parseIngress (xml : List Char) : List IngressRule :=
  match xmlValue xml "ipPermissions".toList with
  | none => []
  | some block => permissionsOf block

inductive Asked
  | answered
  | failed (error : ProviderError)
  | panicked
deriving DecidableEq

/-- A region: its groups named for the session, as it describes them to who reaches it, and
how the task that asks it ends. -/
structure RegionTask where
  groups : List Char
  asked : Asked

def RegionTask.joined (task : RegionTask) : Except String (Except ProviderError (List Char)) :=
  match task.asked with
  | .answered => .ok (.ok task.groups)
  | .failed error => .ok (.error error)
  | .panicked => .error "task panicked"

def RegionTask.ingress (task : RegionTask) : List IngressRule :=
  match task.joined with
  | .ok (.ok body) => parseIngress body
  | _ => []

/-- The ingress of a session, from the regions in the order their tasks end. -/
def sessionIngress (tasks : List RegionTask) : Except ProviderError (List IngressRule) :=
  .ok (((tasks.flatMap RegionTask.ingress).mergeSort fun a b => (compare a b).isLE).destutter
    (· ≠ ·))

/-- One round of a teardown: what deleting orphaned firewalls comes to, and the regions as
they are asked after it. -/
structure Round where
  orphans : Except ProviderError (List String)
  tasks : List RegionTask

structure Closing where
  backoff : ℕ
  elapsed : ℕ
  removed : List String
  refusal : Option ProviderError

namespace Closing

def cleaned (c : Closing) : Except ProviderError (List String) → Closing
  | .ok names => { c with removed := c.removed ++ names }
  | .error error => { c with refusal := some error }

def refused (c : Closing) : Except ProviderError (List IngressRule) → Closing
  | .ok _ => c
  | .error error => { c with refusal := some error }

def slept (opts : WaitOpts) (c : Closing) : Closing :=
  { c with
    elapsed := c.elapsed + c.backoff
    backoff := min (c.backoff * 2) opts.maxBackoff }

/-- The teardown's loop over its rounds: how often it slept, and what it returns. -/
def close (opts : WaitOpts) (session : String) :
    Closing → List Round → Option (ℕ × Except ProviderError (List String))
  | _, [] => none
  | c, round :: rounds =>
    let ingress := sessionIngress round.tasks
    let c := (c.cleaned round.orphans).refused ingress
    if ingress = .ok [] then some (0, .ok c.removed)
    else if c.elapsed + c.backoff > opts.totalTimeout then
      some (0, .error (c.refusal.getD (.transient ("session " ++ session ++
        " still has ingress open after " ++ debugDuration opts.totalTimeout))))
    else (close opts session (c.slept opts) rounds).map fun r => (r.1 + 1, r.2)

end Closing

def closeSessionFirewall (session : String) (opts : WaitOpts) (rounds : List Round) :
    Option (ℕ × Except ProviderError (List String)) :=
  Closing.close opts session ⟨opts.initialBackoff, 0, [], none⟩ rounds

/-! ## What the regions hold -/

def Grants (block : List Char) : Prop := takeTag block "ipProtocol".toList ≠ none

namespace RegionTask

def Holds (task : RegionTask) : Prop :=
  ∃ block ∈ takeTags task.groups "ipPermissions".toList, Grants block

def HoldsFirst (task : RegionTask) : Prop :=
  ∃ block, xmlValue task.groups "ipPermissions".toList = some block ∧ Grants block

/-- A group behind the first one that lists permissions holds one. -/
def HoldsBehind (task : RegionTask) : Prop :=
  ∃ block ∈ (takeTags task.groups "ipPermissions".toList).tail, Grants block

theorem holds_iff (task : RegionTask) : task.Holds ↔ task.HoldsFirst ∨ task.HoldsBehind := by
  unfold Holds HoldsFirst HoldsBehind xmlValue
  rw [takeTags]
  rcases takeTag task.groups "ipPermissions".toList with _ | ⟨first, rest⟩
  · simp
  · simp

theorem ingress_eq_nil (task : RegionTask) :
    task.ingress = [] ↔ (task.asked = .answered → ¬task.HoldsFirst) := by
  have hpermissions : ∀ block, permissionsOf block = [] ↔ ¬Grants block := by
    intro block
    rw [permissionsOf, Grants, ne_eq, not_not]
    rcases takeTag block "ipProtocol".toList with _ | ⟨protocol, after⟩
    · exact iff_of_true rfl rfl
    · exact iff_of_false (List.cons_ne_nil _ _) (Option.some_ne_none _)
  rcases task with ⟨groups, _ | error | _⟩
  · have hparse : parseIngress groups = [] ↔ ¬HoldsFirst ⟨groups, .answered⟩ := by
      unfold parseIngress HoldsFirst
      rcases xmlValue groups "ipPermissions".toList with _ | block
      · simp
      · simpa using hpermissions block
    exact hparse.trans ⟨fun h _ => h, fun h => h rfl⟩
  · exact iff_of_true rfl fun h => nomatch h
  · exact iff_of_true rfl fun h => nomatch h

end RegionTask

theorem sessionIngress_eq_nil (tasks : List RegionTask) :
    sessionIngress tasks = .ok [] ↔
      ∀ task ∈ tasks, task.asked = .answered → ¬task.HoldsFirst := by
  have hsorted : ∀ rules : List IngressRule,
      (rules.mergeSort fun a b => (compare a b).isLE) = [] ↔ rules = [] := fun rules =>
    ⟨fun h => (h ▸ List.mergeSort_perm rules _).symm.eq_nil, fun h => h ▸ List.mergeSort_nil⟩
  unfold sessionIngress
  rw [Except.ok.injEq, List.destutter_eq_nil, hsorted, List.flatMap_eq_nil_iff]
  exact forall₂_congr fun task _ => task.ingress_eq_nil

/-! ## Groups as a region describes them -/

/-- A security group: its permissions, and what else its description has around them. -/
structure Group where
  head : List Piece
  permissions : List Xml
  tail : List Piece
  head_wf : ∀ p ∈ head, p.Wf
  permissions_wf : WfAll permissions
  tail_wf : ∀ p ∈ tail, p.Wf
  head_other : .tag "ipPermissions".toList ∉ head
  permissions_flat : firstOf "ipPermissions".toList permissions = none
  tail_other : .tag "ipPermissions".toList ∉ tail
  protocol_flat : ∀ protocol, firstOf "ipProtocol".toList permissions = some protocol →
    firstOf "ipProtocol".toList protocol = none

def describe (groups : List Group) : List Piece :=
  groups.flatMap fun g => g.head ++ .tag "ipPermissions".toList ::
    (piecesOf g.permissions ++ .tag ('/' :: "ipPermissions".toList) :: g.tail)

theorem isName_ipPermissions : IsName "ipPermissions".toList :=
  ⟨by decide, by decide, by decide, by decide⟩

theorem isName_ipProtocol : IsName "ipProtocol".toList :=
  ⟨by decide, by decide, by decide, by decide⟩

theorem takeTags_describe (groups : List Group) {before : List Piece}
    (hbefore : ∀ p ∈ before, p.Wf) (hother : .tag "ipPermissions".toList ∉ before) :
    takeTags (render (before ++ describe groups)) "ipPermissions".toList =
      groups.map fun g => render (piecesOf g.permissions) := by
  induction groups generalizing before with
  | nil =>
    have hnone : takeTag (render (before ++ describe [])) "ipPermissions".toList = none := by
      rw [describe, List.flatMap_nil, List.append_nil]
      exact takeTag_none isName_ipPermissions hbefore hother
    rw [takeTags]
    split
    · rfl
    · rename_i hsome
      rw [hnone] at hsome
      exact nomatch hsome
  | cons g groups ih =>
    have htext : render (before ++ describe (g :: groups)) =
        render (before ++ g.head) ++ ((Piece.tag "ipPermissions".toList).render ++
          (render (piecesOf g.permissions) ++
            ((Piece.tag ('/' :: "ipPermissions".toList)).render ++
              render (g.tail ++ describe groups)))) := by
      simp only [describe, List.flatMap_cons, render_append, render_cons, List.append_assoc]
    have hwf : ∀ p ∈ before ++ g.head, p.Wf := fun p hp =>
      (List.mem_append.mp hp).elim (hbefore p) (g.head_wf p)
    have hfirst : takeTag (render (before ++ describe (g :: groups))) "ipPermissions".toList =
        some (render (piecesOf g.permissions), render (g.tail ++ describe groups)) := by
      rw [htext]
      apply takeTag_element isName_ipPermissions hwf (piecesOf_wf g.permissions_wf)
      · exact List.not_mem_append hother g.head_other
      · exact (not_mem_piecesOf isName_ipPermissions g.permissions_wf g.permissions_flat).2
    rw [takeTags]
    split
    · rename_i hnone
      rw [hfirst] at hnone
      exact nomatch hnone
    · rename_i hsome
      rw [hfirst] at hsome
      obtain ⟨rfl, rfl⟩ := Prod.mk.inj (Option.some.inj hsome)
      rw [ih g.tail_wf g.tail_other, List.map_cons]

theorem grants_permissions (g : Group) :
    Grants (render (piecesOf g.permissions)) ↔
      (firstOf "ipProtocol".toList g.permissions).isSome := by
  have hvalue := xmlValue_piecesOf isName_ipProtocol g.permissions_wf g.protocol_flat
  have hgrants : Grants (render (piecesOf g.permissions)) ↔
      (xmlValue (render (piecesOf g.permissions)) "ipProtocol".toList).isSome := by
    rw [Grants, xmlValue, Option.isSome_map, ← Option.ne_none_iff_isSome]
  rw [hgrants, hvalue, Option.isSome_map]

theorem holds_describe (groups : List Group) (asked : Asked) :
    (RegionTask.mk (render (describe groups)) asked).Holds ↔
      ∃ g ∈ groups, (firstOf "ipProtocol".toList g.permissions).isSome := by
  have hnone : ∀ p : Piece, p ∈ ([] : List Piece) → p.Wf := fun p hp =>
    absurd hp List.not_mem_nil
  have htags := takeTags_describe groups hnone List.not_mem_nil
  rw [List.nil_append] at htags
  unfold RegionTask.Holds
  rw [htags]
  simp only [List.mem_map, exists_exists_and_eq_and, grants_permissions]

theorem item_wf {p : Piece} (hp : p ∈ [Piece.tag "item".toList, .tag "/item".toList]) : p.Wf := by
  rcases List.mem_pair.mp hp with rfl | rfl
  · exact ⟨by decide, by decide⟩
  · exact ⟨by decide, by decide⟩

def Group.bare : Group where
  head := [.tag "item".toList]
  permissions := []
  tail := [.tag "/item".toList]
  head_wf _ hp := item_wf (List.mem_pair.mpr (.inl (List.mem_singleton.mp hp)))
  permissions_wf := trivial
  tail_wf _ hp := item_wf (List.mem_pair.mpr (.inr (List.mem_singleton.mp hp)))
  head_other h := nomatch List.mem_singleton.mp h
  permissions_flat := rfl
  tail_other h := nomatch List.mem_singleton.mp h
  protocol_flat _ h := nomatch h

def udpPermission : List Xml :=
  [.element "item".toList [.element "ipProtocol".toList [.text "udp".toList]]]

def Group.udp : Group where
  head := Group.bare.head
  permissions := udpPermission
  tail := Group.bare.tail
  head_wf := Group.bare.head_wf
  permissions_wf := by
    have htext : '<' ∉ "udp".toList := by decide
    have hitem : IsName "item".toList := ⟨by decide, by decide, by decide, by decide⟩
    exact ⟨⟨hitem, ⟨isName_ipProtocol, htext, trivial⟩, trivial⟩, trivial⟩
  tail_wf := Group.bare.tail_wf
  head_other := Group.bare.head_other
  permissions_flat := rfl
  tail_other := Group.bare.tail_other
  protocol_flat protocol h := by
    have hprotocol : firstOf "ipProtocol".toList udpPermission = some [.text "udp".toList] := rfl
    rw [hprotocol] at h
    obtain rfl := Option.some.inj h
    rfl

theorem holds_describe_udp (asked : Asked) :
    ¬(RegionTask.mk (render (describe [.bare])) asked).Holds ∧
      (RegionTask.mk (render (describe [.bare, .udp])) asked).Holds := by
  rw [holds_describe, holds_describe]
  constructor
  · rintro ⟨g, hg, hsome⟩
    rw [List.mem_singleton.mp hg] at hsome
    exact absurd hsome Bool.false_ne_true
  · exact ⟨.udp, List.mem_cons_of_mem _ List.mem_cons_self, rfl⟩

/-! ## What the answers show -/

/-- None of the regions that answer holds a permission in its first group. -/
def LooksClosed (tasks : List RegionTask) : Prop :=
  ∀ task ∈ tasks, task.asked = .answered → ¬task.HoldsFirst

/-- Every region answers, and none of them holds a permission. -/
def SeenClosed (tasks : List RegionTask) : Prop :=
  ∀ task ∈ tasks, task.asked = .answered ∧ ¬task.Holds

/-- The round after so many sleeps is the first to look closed, and the budget reaches it. -/
def Decides (opts : WaitOpts) (rounds : List Round) (sleeps : ℕ) (round : Round) : Prop :=
  rounds[sleeps]? = some round ∧ LooksClosed round.tasks ∧
    (∀ earlier ∈ rounds.take sleeps, ¬LooksClosed earlier.tasks) ∧
      opts.allows sleeps 0 opts.initialBackoff

theorem seenClosed_iff_of_looksClosed {tasks : List RegionTask} (h : LooksClosed tasks) :
    SeenClosed tasks ↔ ∀ task ∈ tasks, task.asked = .answered ∧ ¬task.HoldsBehind := by
  apply forall₂_congr
  intro task htask
  have hfirst := h task htask
  rw [task.holds_iff, not_or]
  exact ⟨fun h => ⟨h.1, h.2.2⟩, fun h => ⟨h.1, hfirst h.1, h.2⟩⟩

namespace Closing
variable {opts : WaitOpts} {session : String}

/-- What a round leaves for the next one to go on from. -/
def after (c : Closing) (round : Round) : Closing :=
  (c.cleaned round.orphans).refused (sessionIngress round.tasks)

theorem elapsed_after (c : Closing) (round : Round) : (c.after round).elapsed = c.elapsed := by
  unfold after
  rcases round.orphans with error | names <;> rfl

theorem backoff_after (c : Closing) (round : Round) : (c.after round).backoff = c.backoff := by
  unfold after
  rcases round.orphans with error | names <;> rfl

theorem close_of_looksClosed {c : Closing} {round : Round} {rounds : List Round}
    (h : LooksClosed round.tasks) :
    close opts session c (round :: rounds) = some (0, .ok (c.after round).removed) :=
  if_pos ((sessionIngress_eq_nil round.tasks).mpr h)

theorem close_of_spent {c : Closing} {round : Round} {rounds : List Round}
    (h : ¬LooksClosed round.tasks) (hspent : opts.totalTimeout < c.elapsed + c.backoff) :
    ∃ error, close opts session c (round :: rounds) = some (0, .error error) := by
  have hround : opts.totalTimeout < (c.after round).elapsed + (c.after round).backoff := by
    rw [elapsed_after, backoff_after]
    exact hspent
  exact ⟨_, (if_neg (mt (sessionIngress_eq_nil round.tasks).mp h)).trans (if_pos hround)⟩

theorem close_of_room {c : Closing} {round : Round} {rounds : List Round}
    (h : ¬LooksClosed round.tasks) (hroom : c.elapsed + c.backoff ≤ opts.totalTimeout) :
    close opts session c (round :: rounds) =
      (close opts session ((c.after round).slept opts) rounds).map fun r => (r.1 + 1, r.2) := by
  have hround : ¬opts.totalTimeout < (c.after round).elapsed + (c.after round).backoff := by
    rw [elapsed_after, backoff_after]
    exact not_lt.mpr hroom
  exact (if_neg (mt (sessionIngress_eq_nil round.tasks).mp h)).trans (if_neg hround)

theorem close_ok_iff {rounds : List Round} {c : Closing} {sleeps : ℕ} :
    (∃ removed, close opts session c rounds = some (sleeps, .ok removed)) ↔
      ∃ round, rounds[sleeps]? = some round ∧ LooksClosed round.tasks ∧
        (∀ earlier ∈ rounds.take sleeps, ¬LooksClosed earlier.tasks) ∧
          opts.allows sleeps c.elapsed c.backoff := by
  induction rounds generalizing c sleeps with
  | nil => simp [close]
  | cons round rounds ih =>
    by_cases hlooks : LooksClosed round.tasks
    · rw [close_of_looksClosed hlooks]
      cases sleeps with
      | zero =>
        refine iff_of_true ⟨_, rfl⟩ ⟨round, rfl, hlooks, ?_, trivial⟩
        exact fun earlier h => absurd h List.not_mem_nil
      | succ sleeps =>
        apply iff_of_false
        · rintro ⟨removed, h⟩
          exact absurd (congrArg Prod.fst (Option.some.inj h)) (Nat.succ_ne_zero _).symm
        · rintro ⟨_, -, -, hearlier, -⟩
          exact hearlier round List.mem_cons_self hlooks
    -- The round does not look closed, so an answer comes from a later one, if one is left.
    by_cases hroom : c.elapsed + c.backoff ≤ opts.totalTimeout
    · rw [close_of_room hlooks hroom]
      cases sleeps with
      | zero =>
        apply iff_of_false
        · rintro ⟨removed, h⟩
          obtain ⟨r, -, hr⟩ := Option.map_eq_some_iff.mp h
          exact absurd (congrArg Prod.fst hr) (Nat.succ_ne_zero _)
        · rintro ⟨_, hround, hclosed, -, -⟩
          exact hlooks (Option.some.inj hround ▸ hclosed)
      | succ sleeps =>
        have hlater : (∃ removed, (close opts session ((c.after round).slept opts) rounds).map
            (fun r => (r.1 + 1, r.2)) = some (sleeps + 1, .ok removed)) ↔
            ∃ removed, close opts session ((c.after round).slept opts) rounds =
              some (sleeps, .ok removed) := by
          apply exists_congr
          intro removed
          rw [Option.map_eq_some_iff]
          constructor
          · rintro ⟨⟨k, result⟩, hk, heq⟩
            obtain ⟨hsleeps, rfl⟩ := Prod.mk.inj heq
            obtain rfl := Nat.succ.inj hsleeps
            exact hk
          · exact fun h => ⟨_, h, rfl⟩
        rw [hlater, ih]
        apply exists_congr
        intro later
        have hallows : opts.allows (sleeps + 1) c.elapsed c.backoff ↔
            opts.allows sleeps ((c.after round).slept opts).elapsed
              ((c.after round).slept opts).backoff := by
          have helapsed : ((c.after round).slept opts).elapsed = c.elapsed + c.backoff := by
            rw [slept, elapsed_after, backoff_after]
          have hbackoff : ((c.after round).slept opts).backoff =
              min (c.backoff * 2) opts.maxBackoff := by
            rw [slept, backoff_after]
          rw [helapsed, hbackoff]
          exact and_iff_right hroom
        rw [hallows, List.getElem?_cons_succ, List.take_succ_cons, List.forall_mem_cons,
          and_iff_right hlooks]
    · obtain ⟨error, herror⟩ := @close_of_spent opts session c round rounds hlooks
        (not_le.mp hroom)
      rw [herror]
      apply iff_of_false
      · rintro ⟨removed, h⟩
        exact nomatch congrArg Prod.snd (Option.some.inj h)
      · rintro ⟨later, hround, hclosed, -, hallows⟩
        cases sleeps with
        | zero => exact hlooks (Option.some.inj hround ▸ hclosed)
        | succ sleeps => exact hroom hallows.1

theorem allows_of_close_none {rounds : List Round} {c : Closing}
    (h : close opts session c rounds = none) :
    opts.allows rounds.length c.elapsed c.backoff := by
  induction rounds generalizing c with
  | nil => trivial
  | cons round rounds ih =>
    by_cases hlooks : LooksClosed round.tasks
    · rw [close_of_looksClosed hlooks] at h
      exact absurd h (Option.some_ne_none _)
    by_cases hroom : c.elapsed + c.backoff ≤ opts.totalTimeout
    · rw [close_of_room hlooks hroom, Option.map_eq_none_iff] at h
      have hrest := ih h
      rw [slept, elapsed_after, backoff_after] at hrest
      exact ⟨hroom, hrest⟩
    · obtain ⟨error, herror⟩ := @close_of_spent opts session c round rounds hlooks
        (not_le.mp hroom)
      rw [herror] at h
      exact absurd h (Option.some_ne_none _)

end Closing

theorem closeSessionFirewall_returns (session : String) {rounds : List Round}
    (h : rounds.length = 14) : closeSessionFirewall session firewallWait rounds ≠ none := by
  intro hnone
  have hallows := Closing.allows_of_close_none hnone
  rw [h] at hallows
  exact absurd hallows (by decide)

theorem closeSessionFirewall_ok_iff {opts : WaitOpts} {session : String} {rounds : List Round}
    {sleeps : ℕ} :
    (∃ removed, closeSessionFirewall session opts rounds = some (sleeps, .ok removed)) ↔
      ∃ round, Decides opts rounds sleeps round := Closing.close_ok_iff

theorem seen_closed_iff (session : String) (opts : WaitOpts) :
    (∀ tasks, (sessionIngress tasks = .ok [] → SeenClosed tasks) ↔
      (∃ task ∈ tasks, task.asked = .answered ∧ task.HoldsFirst) ∨
        ∀ task ∈ tasks, task.asked = .answered ∧ ¬task.HoldsBehind) ∧
    ∀ rounds, (∀ sleeps removed, closeSessionFirewall session opts rounds =
        some (sleeps, .ok removed) → ∀ round, rounds[sleeps]? = some round →
          ∀ task ∈ round.tasks, ¬task.Holds) ↔
      ∀ sleeps round, Decides opts rounds sleeps round →
        ∀ task ∈ round.tasks, (task.asked ≠ .answered → ¬task.Holds) ∧ ¬task.HoldsBehind := by
  refine ⟨fun tasks => ?_, fun rounds => ?_⟩
  · by_cases hlooks : LooksClosed tasks
    · have hnone : ¬∃ task ∈ tasks, task.asked = .answered ∧ task.HoldsFirst := by
        rintro ⟨task, htask, hanswered, hfirst⟩
        exact hlooks task htask hanswered hfirst
      rw [sessionIngress_eq_nil, or_iff_right hnone, ← seenClosed_iff_of_looksClosed hlooks]
      exact forall_prop_of_true hlooks
    · have hsome : ∃ task ∈ tasks, task.asked = .answered ∧ task.HoldsFirst := by
        simpa [LooksClosed] using hlooks
      rw [sessionIngress_eq_nil]
      exact iff_of_true (fun h => absurd h hlooks) (.inl hsome)
  · have hgone : ∀ {tasks}, LooksClosed tasks → ∀ task ∈ tasks,
        (¬task.Holds ↔ (task.asked ≠ .answered → ¬task.Holds) ∧ ¬task.HoldsBehind) := by
      intro tasks hlooks task htask
      have hfirst := hlooks task htask
      rw [task.holds_iff, not_or]
      by_cases hanswered : task.asked = .answered
      · exact ⟨fun h => ⟨fun _ => h, h.2⟩, fun h => ⟨hfirst hanswered, h.2⟩⟩
      · exact ⟨fun h => ⟨fun _ => h, h.2⟩, fun h => h.1 hanswered⟩
    constructor
    · intro h sleeps round hdecides task htask
      obtain ⟨removed, hreturned⟩ := closeSessionFirewall_ok_iff.mpr ⟨round, hdecides⟩
      exact (hgone hdecides.2.1 task htask).mp
        (h sleeps removed hreturned round hdecides.1 task htask)
    · intro h sleeps removed hreturned round hround task htask
      obtain ⟨decided, hdecides⟩ := closeSessionFirewall_ok_iff.mp ⟨removed, hreturned⟩
      obtain rfl := Option.some.inj (hdecides.1.symm.trans hround)
      exact (hgone hdecides.2.1 task htask).mpr (h sleeps decided hdecides task htask)

/-- A port is open where nobody answered, and the other region holds nothing. -/
theorem seen_closed_unreached :
    let tasks : List RegionTask :=
      [⟨"<ipPermissions><ipProtocol>udp</ipProtocol></ipPermissions>".toList,
        .failed (.transient "no answer")⟩, ⟨[], .answered⟩]
    sessionIngress tasks = .ok [] ∧ ¬SeenClosed tasks ∧
      closeSessionFirewall "jam" firewallWait [⟨.ok [], tasks⟩] = some (0, .ok []) ∧
        ∃ task ∈ tasks, task.Holds := by
  intro tasks
  have hlooks : LooksClosed tasks := by
    intro task htask hanswered
    rcases List.mem_cons.mp htask with rfl | htask
    · exact nomatch hanswered
    rintro ⟨block, hblock, -⟩
    rw [List.mem_singleton.mp htask] at hblock
    exact nomatch hblock
  have hopen : (RegionTask.mk "<ipPermissions><ipProtocol>udp</ipProtocol></ipPermissions>".toList
      (.failed (.transient "no answer"))).HoldsFirst := by
    refine ⟨"<ipProtocol>udp</ipProtocol>".toList, by decide, ?_⟩
    unfold Grants
    decide
  have hheld : ∃ task ∈ tasks, task.Holds :=
    ⟨_, List.mem_cons_self, (RegionTask.holds_iff _).mpr (.inl hopen)⟩
  refine ⟨(sessionIngress_eq_nil tasks).mpr hlooks, ?_, ?_, hheld⟩
  · obtain ⟨task, htask, hholds⟩ := hheld
    exact fun h => (h task htask).2 hholds
  · exact Closing.close_of_looksClosed hlooks

end JamStream.Cloud
