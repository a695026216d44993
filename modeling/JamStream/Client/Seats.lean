import JamStream.Client.InvitesPanel
import JamStream.Foundations.Runs

/-! Every live invite has a seat: the record, its file, the seats and the map of tokens tell of
the same invites, through every mint, refill and revoke. -/

namespace JamStream.Client
open Protocol Session Runs

/-- A live invite: whose seat, in what role, under which token and as which link. -/
structure Live where
  member : MemberId
  role : Role
  token : TokenId
  encoded : String
deriving DecidableEq

def Seat.live (s : Seat) : Option Live :=
  s.invite.map fun i => { member := s.member, role := s.role, token := i.token, encoded := i.encoded }

def live (seats : List Seat) : List Live := seats.filterMap Seat.live

namespace InvitesPanel

def Covers (state : SessionBook) (seats : List Seat) : Prop :=
  (state.invites.map (·.invite)).Perm ((live seats).map (·.encoded))

end InvitesPanel

/-- The panel over a run: what each call wrote and the seats it left, and what each mint that
returned an error found and left. -/
structure InviteDesk where
  panel : InvitesPanel
  written : List (SessionBook × List Seat)
  failures : List (InvitesPanel × InvitesPanel)

inductive InviteMove
  | mint (role : Role) (jti : TokenId) (saves : Except String Unit)
  | refill (member : MemberId) (jti : TokenId) (saves : Except String Unit)
  | revoke (token : TokenId) (was : Option String) (saves : Except String Unit)
  | typeName (name : String)

namespace InviteDesk
open InvitesPanel

def init (state : SessionBook) (nowUnix : UInt64) : InviteDesk :=
  { panel := .new state nowUnix, written := [], failures := [] }

def keep (d : InviteDesk) (m : Mint) : InviteDesk :=
  { panel := m.panel
    written := d.written ++ (m.written.map fun book => (book, m.panel.seats)).toList
    failures := d.failures ++ if m.result.isOk then [] else [(d.panel, m.panel)] }

def step (F : PanelFormats) (d : InviteDesk) : InviteMove → InviteDesk
  | .mint role jti saves => d.keep (d.panel.mint F role jti saves)
  | .refill member jti saves => d.keep (d.panel.refill F member jti saves)
  | .revoke token was saves =>
    let r := d.panel.revoke token was saves
    { d with panel := r.1, written := d.written ++ (r.2.map fun book => (book, r.1.seats)).toList }
  | .typeName name => { d with panel := { d.panel with mintName := name } }

structure Seated (d : InviteDesk) : Prop where
  record : Covers d.panel.state d.panel.seats
  files : ∀ w ∈ d.written, Covers w.1 w.2
  members : ((live d.panel.seats).map (·.member)).Nodup
  tokens : ∀ member token, d.panel.tokens member = some token ↔
    ∃ l ∈ live d.panel.seats, l.member = member ∧ l.token = token
  caps : ∀ role, d.panel.taken role ≤ cap role
  failures : ∀ f ∈ d.failures, f.2 = f.1

def reaches (F : PanelFormats) (p : InvitesPanel) : InviteMove → Bool
  | .mint role jti _ => p.taken role < cap role &&
    p.openSeat.any fun member => (p.minted F member role jti).isOk
  | .refill member jti _ => (p.seats.find? (·.member = member)).any fun seat =>
    seat.isFree && p.taken seat.role < cap seat.role && (p.minted F member seat.role jti).isOk
  | _ => false

def saves : InviteMove → Except String Unit
  | .mint _ _ saves => saves
  | .refill _ _ saves => saves
  | .revoke _ _ saves => saves
  | .typeName _ => .ok ()

def Writes (F : PanelFormats) (d : InviteDesk) (m : InviteMove) : Prop :=
  reaches F d.panel m = true → (saves m).isOk = true

def memberOf (record : InviteRecord) : Option MemberId :=
  (Invite.decode record.invite).toOption.map (·.token.memberId)

def roleOf (record : InviteRecord) : Option Role :=
  (Invite.decode record.invite).toOption.map (·.token.role)

structure Legible (state : SessionBook) : Prop where
  decodes : ∀ r ∈ state.invites, (Invite.decode r.invite).isOk = true
  distinct : (state.invites.map (memberOf)).Nodup

/-- A record has no more invites of a role than the role has seats. -/
def WithinCaps (state : SessionBook) : Prop :=
  ∀ role, (state.invites.map (roleOf)).count (some role) ≤ cap role

end InviteDesk

section seats
variable {seats : List Seat}

theorem live_append (xs ys : List Seat) : live (xs ++ ys) = live xs ++ live ys :=
  List.filterMap_append

theorem live_cons_free {s : Seat} (h : s.invite = none) (rest : List Seat) :
    live (s :: rest) = live rest := by
  apply List.filterMap_cons_none
  rw [Seat.live, h]
  rfl

theorem live_cons_taken {s : Seat} {i : SeatInvite} (h : s.invite = some i) (rest : List Seat) :
    live (s :: rest) =
      { member := s.member, role := s.role, token := i.token, encoded := i.encoded } :: live rest := by
  apply List.filterMap_cons_some
  rw [Seat.live, h]
  rfl

theorem mem_live {l : Live} (h : l ∈ live seats) : ∃ s ∈ seats, s.member = l.member ∧
    s.role = l.role ∧ s.invite = some { token := l.token, encoded := l.encoded } := by
  obtain ⟨s, hs, hlive⟩ := List.mem_filterMap.mp h
  obtain ⟨i, hi, rfl⟩ := Option.map_eq_some_iff.mp hlive
  exact ⟨s, hs, rfl, rfl, hi⟩

theorem live_members_sublist (seats : List Seat) :
    ((live seats).map (·.member)).Sublist (seats.map (·.member)) := by
  induction seats with
  | nil => exact List.Sublist.refl _
  | cons s rest ih =>
    rcases hinvite : s.invite with _ | i
    · rw [live_cons_free hinvite]
      exact ih.cons _
    · rw [live_cons_taken hinvite]
      exact ih.cons_cons _

theorem taken_eq (p : InvitesPanel) (role : Role) :
    p.taken role = (live p.seats).countP fun l => l.role = role := by
  rw [InvitesPanel.taken]
  induction p.seats with
  | nil => rfl
  | cons s rest ih =>
    rcases hinvite : s.invite with _ | i
    · rw [live_cons_free hinvite, List.countP_cons_of_neg (by simp [Seat.isFree, hinvite]), ih]
    · rw [live_cons_taken hinvite, List.countP_cons, List.countP_cons, ih]
      simp [Seat.isFree, hinvite]

theorem tokensOf_fold (seats : List Seat) (map : MemberId → Option TokenId)
    (hnodup : ((live seats).map (·.member)).Nodup) (member : MemberId) (token : TokenId) :
    seats.foldl (fun map seat => seat.invite.elim map fun invite =>
        Function.update map seat.member (some invite.token)) map member = some token ↔
      (∃ l ∈ live seats, l.member = member ∧ l.token = token) ∨
        ((∀ l ∈ live seats, l.member ≠ member) ∧ map member = some token) := by
  induction seats generalizing map with
  | nil =>
    constructor
    · exact fun h => .inr ⟨fun _ hl => absurd hl List.not_mem_nil, h⟩
    · rintro (⟨l, hl, _⟩ | ⟨_, h⟩)
      · exact absurd hl List.not_mem_nil
      · exact h
  | cons s rest ih =>
    rw [List.foldl_cons]
    rcases hinvite : s.invite with _ | i
    · rw [live_cons_free hinvite] at hnodup ⊢
      exact ih map hnodup
    · rw [live_cons_taken hinvite] at hnodup ⊢
      rw [List.map_cons, List.nodup_cons] at hnodup
      have habsent : ∀ l ∈ live rest, l.member ≠ s.member := fun l hl heq =>
        hnodup.1 (List.mem_map.mpr ⟨l, hl, heq⟩)
      refine (ih _ hnodup.2).trans ?_
      by_cases hsame : s.member = member
      · subst hsame
        rw [Option.elim_some, Function.update_self]
        constructor
        · rintro (⟨l, hl, hmember, _⟩ | ⟨_, htoken⟩)
          · exact absurd hmember (habsent l hl)
          · exact .inl ⟨_, List.mem_cons_self, rfl, Option.some.inj htoken⟩
        · rintro (⟨l, hl, hmember, htoken⟩ | ⟨hnone, _⟩)
          · rcases List.mem_cons.mp hl with rfl | hrest
            · exact .inr ⟨habsent, congrArg some htoken⟩
            · exact absurd hmember (habsent l hrest)
          · exact absurd rfl (hnone _ List.mem_cons_self)
      · rw [Option.elim_some, Function.update_of_ne (Ne.symm hsame)]
        simp only [List.mem_cons, exists_eq_or_imp, forall_eq_or_imp, hsame, false_and, false_or,
          ne_eq, not_false_eq_true, true_and]

theorem tokensOf_iff (hnodup : ((live seats).map (·.member)).Nodup) (member : MemberId)
    (token : TokenId) : InvitesPanel.tokensOf seats member = some token ↔
      ∃ l ∈ live seats, l.member = member ∧ l.token = token := by
  refine (tokensOf_fold seats _ hnodup member token).trans ?_
  simp

theorem freeSeat_eq_some {token : TokenId} {was : Option String} {r : MemberId × List Seat}
    (h : InvitesPanel.freeSeat token was seats = some r) :
    ∃ pre s post i, seats = pre ++ s :: post ∧ s.invite = some i ∧ i.token = token ∧
      r = (s.member, pre ++ { s with invite := none, was } :: post) := by
  induction seats generalizing r with
  | nil => exact nomatch h
  | cons s rest ih =>
    rw [InvitesPanel.freeSeat] at h
    split_ifs at h with hholds
    · rcases hinvite : s.invite with _ | i
      · rw [Seat.holds, hinvite] at hholds
        exact nomatch hholds
      · rw [Seat.holds, hinvite] at hholds
        have htoken : i.token = token := of_decide_eq_true hholds
        exact ⟨[], s, rest, i, rfl, hinvite, htoken, (Option.some.inj h).symm⟩
    · obtain ⟨r', hr', rfl⟩ := Option.map_eq_some_iff.mp h
      obtain ⟨pre, t, post, i, rfl, hi, htoken, rfl⟩ := ih hr'
      exact ⟨s :: pre, t, post, i, rfl, hi, htoken, rfl⟩

theorem modify_findIdx {p : Seat → Bool} (h : seats.any p = true) (seat : Seat) :
    ∃ pre s post, seats = pre ++ s :: post ∧ p s = true ∧
      seats.modify (seats.findIdx p) (fun _ => seat) = pre ++ seat :: post := by
  induction seats with
  | nil => exact nomatch h
  | cons s rest ih =>
    rcases hp : p s with _ | _
    · rw [List.any_cons, hp, Bool.false_or] at h
      obtain ⟨pre, t, post, rfl, ht, hmodify⟩ := ih h
      refine ⟨s :: pre, t, post, rfl, ht, ?_⟩
      rw [List.findIdx_cons, hp, cond_false, List.modify_succ_cons, hmodify]
      rfl
    · refine ⟨[], s, rest, rfl, hp, ?_⟩
      rw [List.findIdx_cons, hp]
      rfl

/-- A seat that is put where nobody's is: one live invite more, and still one seat for each
member. -/
theorem putSeat_spec {seat : Seat} {i : SeatInvite} (hseat : seat.invite = some i)
    (hnodup : (seats.map (·.member)).Nodup) (hfree : ∀ l ∈ live seats, l.member ≠ seat.member) :
    (live (InvitesPanel.putSeat seat seats)).Perm ({ member := seat.member, role := seat.role
                                                     token := i.token, encoded := i.encoded }
        :: live seats) ∧
      ((InvitesPanel.putSeat seat seats).map (·.member)).Nodup := by
  unfold InvitesPanel.putSeat
  split_ifs with hthere
  · obtain ⟨pre, s, post, rfl, hmember, hmodify⟩ := modify_findIdx hthere seat
    have hmember : s.member = seat.member := of_decide_eq_true hmember
    have hempty : s.invite = none := by
      rcases hinvite : s.invite with _ | j
      · rfl
      · refine absurd hmember (hfree { member := s.member, role := s.role, token := j.token
                                       encoded := j.encoded } ?_)
        rw [live_append, live_cons_taken hinvite]
        exact List.mem_append_right _ List.mem_cons_self
    rw [hmodify]
    constructor
    · rw [live_append, live_append, live_cons_free hempty, live_cons_taken hseat]
      exact List.perm_middle
    · rw [List.map_append, List.map_cons] at hnodup ⊢
      rw [← hmember]
      exact hnodup
  · have hperm : (InvitesPanel.sorted (seats ++ [seat])).Perm (seats ++ [seat]) :=
      List.perm_insertionSort _ _
    constructor
    · refine (hperm.filterMap Seat.live).trans ?_
      show (live (seats ++ [seat])).Perm _
      rw [live_append, live_cons_taken hseat]
      exact List.perm_append_singleton _ _
    · refine (hperm.map _).nodup_iff.mpr ?_
      rw [List.map_append, List.nodup_append]
      refine ⟨hnodup, List.nodup_singleton _, ?_⟩
      rintro m hm m' hm' rfl
      obtain ⟨s, hs, hsame⟩ := List.mem_map.mp hm
      rw [List.map_singleton, List.mem_singleton] at hm'
      refine hthere (List.any_eq_true.mpr ⟨s, hs, ?_⟩)
      exact decide_eq_true (hsame.trans hm')

end seats

namespace InviteDesk
open InvitesPanel

/-- What each call keeps: the promise, and that the links tell whose they are. -/
structure Sound (d : InviteDesk) : Prop where
  record : Covers d.panel.state d.panel.seats
  files : ∀ w ∈ d.written, Covers w.1 w.2
  apart : (d.panel.seats.map (·.member)).Nodup
  links : ∀ l ∈ live d.panel.seats, ∃ i, Invite.decode l.encoded = .ok i ∧
    i.token.memberId = l.member ∧ i.token.jti = l.token
  tokens : d.panel.tokens = tokensOf d.panel.seats
  caps : ∀ role, d.panel.taken role ≤ cap role
  failures : ∀ f ∈ d.failures, f.2 = f.1

variable {F : PanelFormats} {d : InviteDesk}

theorem Sound.members (h : d.Sound) : ((live d.panel.seats).map (·.member)).Nodup :=
  h.apart.sublist (live_members_sublist _)

theorem Sound.seated (h : d.Sound) : d.Seated where
  record := h.record
  files := h.files
  members := h.members
  tokens member token := by
    rw [h.tokens]
    exact tokensOf_iff h.members member token
  caps := h.caps
  failures := h.failures

theorem Sound.refused (h : d.Sound) (err : String) :
    (d.keep (d.panel.refused err)).Sound where
  record := h.record
  files w hw := by
    have hw' : w ∈ d.written ++ [] := hw
    rw [List.append_nil] at hw'
    exact h.files w hw'
  apart := h.apart
  links := h.links
  tokens := h.tokens
  caps := h.caps
  failures f hf := by
    have hf' : f ∈ d.failures ++ [(d.panel, d.panel)] := hf
    rcases List.mem_append.mp hf' with hold | hnew
    · exact h.failures f hold
    · rw [List.mem_singleton.mp hnew]

theorem of_bind {α β : Type} {x : Except String α} {f : α → Except String β} {b : β}
    (h : (x >>= f) = .ok b) : ∃ a, x = .ok a ∧ f a = .ok b := by
  rcases x with err | a
  · exact nomatch h
  · exact ⟨a, rfl, h⟩

theorem minted_spec {p : InvitesPanel} {member : MemberId} {role : Role}
    {jti : TokenId} {seat : Seat} (h : p.minted F member role jti = .ok seat) :
    seat.member = member ∧ seat.role = role ∧ ∃ encoded,
      seat.invite = some { token := jti, encoded } ∧
        ∃ i, Invite.decode encoded = .ok i ∧ i.token.memberId = member ∧
          i.token.jti = jti := by
  rw [InvitesPanel.minted] at h
  obtain ⟨_, _, h⟩ := of_bind h
  obtain ⟨issuer, _, h⟩ := of_bind h
  obtain ⟨_, _, h⟩ := of_bind h
  obtain ⟨serverPk, _, h⟩ := of_bind h
  obtain ⟨sessionId, _, h⟩ := of_bind h
  rcases haddress : F.socketAddr p.state.address with _ | address
  · rw [haddress] at h
    exact nomatch h
  · rw [haddress] at h
    obtain rfl := Except.ok.inj h
    exact ⟨rfl, rfl, _, rfl, _, Invite.decode_encode (List.cons_ne_nil _ _), rfl, rfl⟩

theorem taken_cons {p q : InvitesPanel} {l : Live} (h : (live q.seats).Perm (l :: live p.seats))
    (role : Role) : q.taken role = p.taken role + if l.role = role then 1 else 0 := by
  rw [taken_eq, taken_eq, h.countP_eq, List.countP_cons]
  simp

theorem Sound.mintInto (h : d.Sound) {member : MemberId} {role : Role}
    {jti : TokenId} {saves : Except String Unit} (hroom : d.panel.taken role < cap role)
    (hfree : ∀ l ∈ live d.panel.seats, l.member ≠ member)
    (hwrites : (d.panel.minted F member role jti).isOk = true → saves.isOk = true) :
    (d.keep (d.panel.mintInto F member role jti saves)).Sound := by
  rcases hminted : d.panel.minted F member role jti with err | seat
  · have hmint : d.panel.mintInto F member role jti saves = d.panel.refused err := by
      rw [InvitesPanel.mintInto, hminted]
      rfl
    rw [hmint]
    exact h.refused err
  rcases saves with err | _
  · rw [hminted] at hwrites
    exact nomatch hwrites rfl
  obtain ⟨rfl, rfl, encoded, hinvite, i, hdecode, hmember, hjti⟩ := minted_spec hminted
  obtain ⟨hlive, hnodup⟩ := putSeat_spec hinvite h.apart hfree
  generalize hstate : ({ d.panel.state with invites := d.panel.state.invites ++
    [{ role := seat.label, invite := encoded }] } : SessionBook) = state
  have hmint : d.panel.mintInto F seat.member seat.role jti (.ok ()) =
      { panel := { d.panel with
          state, seats := putSeat seat d.panel.seats, mintName := "" }.publishTokens
        written := some state
        result := .ok () } := by
    rw [InvitesPanel.mintInto, hminted]
    simp only
    rw [hinvite, ← hstate]
    rfl
  have hcovers : Covers state (putSeat seat d.panel.seats) := by
    have hrecord := h.record
    rw [Covers] at hrecord ⊢
    rw [← hstate, List.map_append]
    refine List.Perm.trans ?_ (hlive.map _).symm
    exact (List.perm_append_singleton _ _).trans (hrecord.cons _)
  rw [hmint]
  constructor
  · exact hcovers
  · intro w hw
    rcases List.mem_append.mp hw with hold | hnew
    · exact h.files w hold
    · obtain rfl := List.mem_singleton.mp hnew
      exact hcovers
  · exact hnodup
  · intro l hl
    rcases List.mem_cons.mp (hlive.subset hl) with rfl | hold
    · exact ⟨i, hdecode, hmember, hjti⟩
    · exact h.links l hold
  · rfl
  · intro role
    have htaken := taken_cons (q := { d.panel with
      state, seats := putSeat seat d.panel.seats, mintName := "" }) hlive role
    have hcaps := h.caps role
    refine le_of_eq_of_le htaken ?_
    by_cases hrole : seat.role = role
    · rw [if_pos hrole]
      rw [hrole] at hroom
      omega
    · rw [if_neg hrole]
      exact hcaps
  · intro f hf
    have hf' : f ∈ d.failures ++ [] := hf
    rw [List.append_nil] at hf'
    exact h.failures f hf'

theorem openSeat_free {p : InvitesPanel} {member : MemberId} (h : p.openSeat = some member) :
    ∀ l ∈ live p.seats, l.member ≠ member := by
  intro l hl heq
  obtain ⟨s, hs, hmember, _, hinvite⟩ := mem_live hl
  have hnone := List.find?_some h
  rw [Bool.not_eq_true', List.any_eq_false] at hnone
  refine hnone s hs ?_
  rw [Seat.isFree, hinvite, hmember, heq]
  simp

/-- In a list with one seat for each member, a free one is the only one of its member. -/
theorem find?_free {p : InvitesPanel} (hnodup : (p.seats.map (·.member)).Nodup) {member : MemberId}
    {seat : Seat} (h : p.seats.find? (·.member = member) = some seat) (hfree : seat.isFree = true) :
    ∀ l ∈ live p.seats, l.member ≠ member := by
  intro l hl heq
  obtain ⟨s, hs, hmember, _, hinvite⟩ := mem_live hl
  have hfound := List.find?_some h
  have hseat : seat.member = member := of_decide_eq_true hfound
  have hsame : s = seat := List.inj_on_of_nodup_map hnodup hs (List.mem_of_find?_eq_some h)
    (hmember.trans (heq.trans hseat.symm))
  rw [hsame] at hinvite
  rw [Seat.isFree, hinvite] at hfree
  exact nomatch hfree

theorem recordHolds_iff {text label : String} {i : Invite}
    (h : Invite.decode text = .ok i) (member : MemberId) (token : TokenId) :
    recordHolds { role := label, invite := text } member token = true ↔
      i.token.memberId = member ∧ i.token.jti = token := by
  rw [recordHolds, h]
  simp only [Bool.and_eq_true, decide_eq_true_eq]

theorem recordHolds_text (r : InviteRecord) (member : MemberId) (token : TokenId) :
    recordHolds { role := "", invite := r.invite } member token = recordHolds r member token := by
  rw [recordHolds, recordHolds]

theorem Sound.covers_freed (h : d.Sound) {pre post : List Seat} {s : Seat} {i : SeatInvite}
    (hseats : d.panel.seats = pre ++ s :: post) (hinvite : s.invite = some i) :
    ((d.panel.state.invites.filter fun r => !recordHolds r s.member i.token).map
      (·.invite)).Perm ((live pre ++ live post).map (·.encoded)) := by
  have hlive : live d.panel.seats = live pre ++
      { member := s.member, role := s.role, token := i.token, encoded := i.encoded } ::
        live post := by
    rw [hseats, live_append, live_cons_taken hinvite]
  have hmembers := h.members
  rw [hlive, List.map_append, List.map_cons, List.nodup_middle, List.nodup_cons,
    ← List.map_append] at hmembers
  generalize hholds : (fun text : String =>
    !recordHolds { role := "", invite := text } s.member i.token) = keeps
  have hfilter : (d.panel.state.invites.filter fun r => !recordHolds r s.member i.token).map
      (·.invite) = (d.panel.state.invites.map (·.invite)).filter keeps := by
    rw [List.filter_map, ← hholds]
    apply congrArg
    apply List.filter_congr
    intro r _
    rw [Function.comp_apply, recordHolds_text]
  have hrecord := h.record
  rw [Covers] at hrecord
  rw [hfilter]
  refine (hrecord.filter keeps).trans ?_
  have hgone : keeps i.encoded = false := by
    obtain ⟨link, hdecode, hmember, hjti⟩ := h.links
      { member := s.member, role := s.role, token := i.token, encoded := i.encoded } (by
        rw [hlive]
        exact List.mem_append_right _ List.mem_cons_self)
    rw [← hholds]
    exact congrArg not ((recordHolds_iff hdecode _ _).mpr ⟨hmember, hjti⟩)
  have hkept : ∀ l ∈ live pre ++ live post, keeps l.encoded = true := by
    intro l hl
    have hmem : l ∈ live d.panel.seats := by
      rw [hlive]
      rcases List.mem_append.mp hl with hpre | hpost
      · exact List.mem_append_left _ hpre
      · exact List.mem_append_right _ (List.mem_cons_of_mem _ hpost)
    obtain ⟨link, hdecode, hmember, hjti⟩ := h.links l hmem
    have hother : recordHolds { role := "", invite := l.encoded } s.member i.token = false := by
      rw [Bool.eq_false_iff]
      intro hsame
      have hsame' := ((recordHolds_iff hdecode _ _).mp hsame).1
      exact hmembers.1 (List.mem_map.mpr ⟨l, hl, hmember.symm.trans hsame'⟩)
    rw [← hholds]
    exact congrArg not hother
  have hleft : ((live d.panel.seats).map (·.encoded)).filter keeps =
      (live pre ++ live post).map (·.encoded) := by
    rw [hlive, List.map_append, List.map_cons, List.filter_append, List.filter_cons_of_neg
      (by rw [hgone]; exact Bool.false_ne_true), ← List.filter_append, ← List.map_append,
      List.filter_eq_self]
    intro text htext
    obtain ⟨l, hl, rfl⟩ := List.mem_map.mp htext
    exact hkept l hl
  rw [hleft]

theorem persist_spec (saves : Except String Unit) (p : InvitesPanel) :
    (persist saves p).1.state = p.state ∧ (persist saves p).1.seats = p.seats ∧
      ∀ book ∈ (persist saves p).2, book = p.state := by
  rcases saves with err | _
  · exact ⟨rfl, rfl, fun _ hbook => (nomatch hbook)⟩
  · exact ⟨rfl, rfl, fun _ hbook => (Option.some.inj hbook).symm⟩

theorem Sound.revoke (h : d.Sound) (token : TokenId) (was : Option String)
    (saves : Except String Unit) : (d.step F (.revoke token was saves)).Sound := by
  rcases hfree : freeSeat token was d.panel.seats with _ | ⟨member, seats⟩
  · have hrevoke : d.panel.revoke token was saves = (d.panel, none) := by
      rw [InvitesPanel.revoke, hfree]
    have hstep : d.step F (.revoke token was saves) = d := by
      rw [InviteDesk.step, hrevoke]
      simp
    rw [hstep]
    exact h
  obtain ⟨pre, s, post, i, hseats, hinvite, rfl, hr⟩ := freeSeat_eq_some hfree
  obtain ⟨rfl, rfl⟩ := Prod.mk.inj hr
  generalize hstate : ({ d.panel.state with
    invites := d.panel.state.invites.filter fun r => !recordHolds r s.member i.token } :
      SessionBook) = state
  generalize hemptied : pre ++ { s with invite := none, was } :: post = seats at hfree
  have hrevoke : d.panel.revoke i.token was saves =
      ((persist saves { d.panel with seats, state }).1.publishTokens,
        (persist saves { d.panel with seats, state }).2) := by
    rw [InvitesPanel.revoke, hfree]
    simp only
    rw [← hstate]
  obtain ⟨hkeptState, hkeptSeats, hbook⟩ := persist_spec saves { d.panel with seats, state }
  generalize persist saves { d.panel with seats, state } = r at hrevoke hkeptState hkeptSeats hbook
  have hlive : live seats = live pre ++ live post := by
    rw [← hemptied, live_append, live_cons_free rfl]
  have hcovers : Covers state seats := by
    rw [Covers, hlive, ← hstate]
    exact h.covers_freed hseats hinvite
  have hmembers : seats.map (·.member) = d.panel.seats.map (·.member) := by
    rw [hseats, ← hemptied, List.map_append, List.map_append, List.map_cons, List.map_cons]
  have hsub : (live seats).Sublist (live d.panel.seats) := by
    rw [hlive, hseats, live_append, live_cons_taken hinvite]
    exact (List.sublist_cons_self _ _).append_left _
  have hstep : d.step F (.revoke i.token was saves) = { d with
      panel := r.1.publishTokens
      written := d.written ++ (r.2.map fun book => (book, r.1.publishTokens.seats)).toList } := by
    rw [InviteDesk.step, hrevoke]
  have hseats' : r.1.publishTokens.seats = seats := hkeptSeats
  rw [hstep]
  constructor
  · show Covers r.1.state r.1.seats
    rw [hkeptState, hkeptSeats]
    exact hcovers
  · intro w hw
    rcases List.mem_append.mp hw with hold | hnew
    · exact h.files w hold
    · obtain ⟨book, hwritten, rfl⟩ := Option.map_eq_some_iff.mp (Option.mem_toList.mp hnew)
      rw [hbook book hwritten, hseats']
      exact hcovers
  · rw [hseats', hmembers]
    exact h.apart
  · rw [hseats']
    exact fun l hl => h.links l (hsub.subset hl)
  · rfl
  · intro role
    have hcaps := h.caps role
    rw [taken_eq] at hcaps ⊢
    rw [hseats']
    exact hsub.countP_le.trans hcaps
  · exact h.failures

theorem Sound.step (h : d.Sound) {m : InviteMove} (hwrites : Writes F d m) :
    (d.step F m).Sound := by
  cases m with
  | mint role jti saves =>
    show (d.keep (d.panel.mint F role jti saves)).Sound
    unfold InvitesPanel.mint
    split_ifs with hfull
    · exact h.refused _
    · have hroom : d.panel.taken role < cap role := Nat.not_le.mp hfull
      rcases hopen : d.panel.openSeat with _ | member
      · exact h.refused _
      · refine h.mintInto hroom (openSeat_free hopen) fun hok => hwrites ?_
        rw [reaches, hopen, decide_eq_true hroom]
        exact hok
  | refill member jti saves =>
    show (d.keep (d.panel.refill F member jti saves)).Sound
    unfold InvitesPanel.refill
    rcases hseat : d.panel.seats.find? (·.member = member) with _ | seat
    · rw [hseat]
      exact h.refused _
    · rw [hseat]
      simp only
      split_ifs with htaken hfull
      · exact h.refused _
      · exact h.refused _
      · have hfree : seat.isFree = true := by simpa using htaken
        have hroom : d.panel.taken seat.role < cap seat.role := Nat.not_le.mp hfull
        refine h.mintInto hroom (find?_free h.apart hseat hfree) fun hok => hwrites ?_
        rw [reaches, hseat, Option.any_some, hfree, decide_eq_true hroom]
        exact hok
  | revoke token was saves => exact h.revoke token was saves
  | typeName name =>
    exact ⟨h.record, h.files, h.apart, h.links, h.tokens, h.caps, h.failures⟩

theorem Writes.of_mintInto {member : MemberId} {role : Role} {jti : TokenId}
    {saves : Except String Unit} (h : (d.keep (d.panel.mintInto F member role jti saves)).Seated)
    (hminted : (d.panel.minted F member role jti).isOk = true) : saves.isOk = true := by
  rcases saves with err | _
  · rcases hseat : d.panel.minted F member role jti with _ | seat
    · rw [hseat] at hminted
      exact nomatch hminted
    · generalize hrecord : ({ role := seat.label, invite := (seat.invite.map (·.encoded)).getD "" } :
        InviteRecord) = record
      have hmint : d.panel.mintInto F member role jti (.error err) =
          { panel := { d.panel with
              state := { d.panel.state with invites := d.panel.state.invites ++ [record] } }
            written := none
            result := .error err } := by
        rw [InvitesPanel.mintInto, hseat]
        simp only
        rw [hrecord]
      rw [hmint] at h
      have hsame := congrArg (fun p : InvitesPanel => p.state.invites.length)
        (h.failures _ (List.mem_append_right _ List.mem_cons_self))
      have hlonger : d.panel.state.invites.length + 1 = d.panel.state.invites.length :=
        List.length_append.symm.trans hsame
      omega
  · rfl

theorem Writes.of_seated {m : InviteMove} (h : (d.step F m).Seated) : Writes F d m := by
  intro hreaches
  cases m with
  | mint role jti saves =>
    rw [reaches, Bool.and_eq_true] at hreaches
    obtain ⟨hroom, hopen⟩ := hreaches
    have hfull : ¬cap role ≤ d.panel.taken role := Nat.not_le.mpr (of_decide_eq_true hroom)
    rcases hmember : d.panel.openSeat with _ | member
    · rw [hmember] at hopen
      exact nomatch hopen
    · rw [hmember] at hopen
      have hmint : d.panel.mint F role jti saves = d.panel.mintInto F member role jti saves := by
        rw [InvitesPanel.mint, if_neg hfull, hmember]
      have hstep : d.step F (.mint role jti saves) =
          d.keep (d.panel.mintInto F member role jti saves) := congrArg d.keep hmint
      rw [hstep] at h
      exact Writes.of_mintInto h hopen
  | refill member jti saves =>
    rw [reaches] at hreaches
    rcases hseat : d.panel.seats.find? (·.member = member) with _ | seat
    · rw [hseat] at hreaches
      exact nomatch hreaches
    · rw [hseat, Option.any_some, Bool.and_eq_true, Bool.and_eq_true] at hreaches
      obtain ⟨⟨hfree, hroom⟩, hminted⟩ := hreaches
      have hfull : ¬cap seat.role ≤ d.panel.taken seat.role :=
        Nat.not_le.mpr (of_decide_eq_true hroom)
      have hmint : d.panel.refill F member jti saves =
          d.panel.mintInto F member seat.role jti saves := by
        rw [InvitesPanel.refill, hseat]
        simp only
        rw [hfree, if_neg (by simp), if_neg hfull]
      have hstep : d.step F (.refill member jti saves) =
          d.keep (d.panel.mintInto F member seat.role jti saves) := congrArg d.keep hmint
      rw [hstep] at h
      exact Writes.of_mintInto h hminted
  | revoke token was saves => exact nomatch hreaches
  | typeName name => rfl

theorem roleOf_of_decode {r : InviteRecord} {i : Invite} (h : Invite.decode r.invite = .ok i) :
    roleOf r = some i.token.role := by
  rw [roleOf, h]
  rfl

/-- The seats of a record before they are put in order. -/
def found (records : List InviteRecord) : List Seat :=
  (records.filterMap (seatOf)).map (·.1)

theorem found_spec (records : List InviteRecord)
    (hdecodes : ∀ r ∈ records, (Invite.decode r.invite).isOk = true) :
    (live (found records)).map (·.encoded) = records.map (·.invite) ∧
      (found records).map (fun s => some s.member) = records.map (memberOf) ∧
      (live (found records)).map (fun l => some l.role) = records.map (roleOf) ∧
      ∀ l ∈ live (found records), ∃ i, Invite.decode l.encoded = .ok i ∧
        i.token.memberId = l.member ∧ i.token.jti = l.token := by
  induction records with
  | nil => exact ⟨rfl, rfl, rfl, fun _ hl => absurd hl List.not_mem_nil⟩
  | cons r rest ih =>
    obtain ⟨hencoded, hmember, hrole, hlinks⟩ := ih fun r hr => hdecodes r (List.mem_cons_of_mem _ hr)
    have hok := hdecodes r List.mem_cons_self
    rcases hdecode : Invite.decode r.invite with _ | i
    · rw [hdecode] at hok
      exact nomatch hok
    have hseat := seatOf_of_decode hdecode
    have hfound : found (r :: rest) = {
        member := i.token.memberId
        role := i.token.role
        invite := some { token := i.token.jti, encoded := r.invite }
        hint := i.token.nameHint
        was := none } :: found rest := by
      rw [found, List.filterMap_cons_some hseat]
      rfl
    rw [hfound, live_cons_taken rfl]
    refine ⟨?_, ?_, ?_, ?_⟩
    · rw [List.map_cons, List.map_cons, hencoded]
    · rw [List.map_cons, List.map_cons, hmember, memberOf, hdecode]
      rfl
    · rw [List.map_cons, List.map_cons, hrole, roleOf_of_decode hdecode]
    · intro l hl
      rcases List.mem_cons.mp hl with rfl | hrest
      · exact ⟨i, hdecode, rfl, rfl⟩
      · exact hlinks l hrest

theorem live_init (state : SessionBook) (nowUnix : UInt64) :
    (live (init state nowUnix).panel.seats).Perm (live (found state.invites)) :=
  (List.perm_insertionSort _ _).filterMap Seat.live

theorem taken_init {state : SessionBook} (h : Legible state) (nowUnix : UInt64) (role : Role) :
    (init state nowUnix).panel.taken role = (state.invites.map (roleOf)).count (some role) := by
  obtain ⟨_, _, hrole, _⟩ := found_spec state.invites h.decodes
  rw [taken_eq, (live_init state nowUnix).countP_eq, ← hrole, List.count, List.countP_map]
  apply List.countP_congr
  intro l _
  simp

theorem sound_init {state : SessionBook} (h : Legible state) (hcaps : WithinCaps state)
    (nowUnix : UInt64) : (init state nowUnix).Sound := by
  obtain ⟨hencoded, hmember, _, hlinks⟩ := found_spec state.invites h.decodes
  have hlive := live_init state nowUnix
  constructor
  · show (state.invites.map (·.invite)).Perm _
    rw [← hencoded]
    exact (hlive.map _).symm
  · exact fun _ hw => absurd hw List.not_mem_nil
  · have hnodup : ((found state.invites).map (·.member)).Nodup := by
      have hsome := h.distinct
      rw [← hmember] at hsome
      exact List.Nodup.of_map some (by rw [List.map_map]; exact hsome)
    have hperm : (init state nowUnix).panel.seats.Perm (found state.invites) :=
      List.perm_insertionSort _ _
    exact (hperm.map _).nodup_iff.mpr hnodup
  · exact fun l hl => hlinks l (hlive.subset hl)
  · rfl
  · intro role
    rw [taken_init h nowUnix role]
    exact hcaps role
  · exact fun _ hf => absurd hf List.not_mem_nil

/-- The panel, its record and its files tell of the same invites in every state of a run exactly
when the record starts within the caps and every mint that reaches its file writes it. -/
theorem seated_iff (F : PanelFormats) (state : SessionBook) (h : Legible state)
    (nowUnix : UInt64) (moves : List InviteMove) :
    Throughout (step F) Seated (init state nowUnix) moves ↔
      WithinCaps state ∧ Meets (step F) (Writes F) (init state nowUnix) moves := by
  have hiff : WithinCaps state → (Throughout (step F) Seated (init state nowUnix) moves ↔
      Meets (step F) (Writes F) (init state nowUnix) moves) := fun hcaps =>
    throughout_iff_meets (I := Sound) (fun _ h => h.seated) (fun _ _ h hwrites => h.step hwrites)
      (fun _ _ _ hseated => .of_seated hseated) (sound_init h hcaps nowUnix)
  constructor
  · intro hrun
    -- the first state of a run already has the seats the session was saved with
    have hcaps : WithinCaps state := by
      intro role
      rw [← taken_init h nowUnix role]
      exact hrun.head.caps role
    exact ⟨hcaps, (hiff hcaps).mp hrun⟩
  · exact fun ⟨hcaps, hmeets⟩ => (hiff hcaps).mpr hmeets

instance (F : PanelFormats) (d : InviteDesk) (m : InviteMove) : Decidable (Writes F d m) :=
  inferInstanceAs (Decidable (reaches F d.panel m = true → (saves m).isOk = true))

theorem init_guest : init .guest 0 =
    { panel := InvitesPanel.publishTokens
        { state := .guest
          seats := [guestSeat]
          tokens := fun _ => none
          mintName := ""
          error := none
          expiresUnix := 4000000000 }
      written := [], failures := [] } := by
  rw [init, new_guest]

theorem guest_legible : Legible .guest where
  decodes := by
    intro r hr
    obtain rfl := List.mem_singleton.mp hr
    have hok : (Invite.decode Invite.betaLink).isOk = true := by
      rw [Invite.decode_betaLink]
      rfl
    exact hok
  distinct := List.nodup_singleton _

theorem guest_withinCaps : WithinCaps .guest := by
  intro role
  have hrole : roleOf { role := "musician 3", invite := Invite.betaLink } = some .musician :=
    roleOf_of_decode (r := { role := "musician 3", invite := Invite.betaLink })
      Invite.decode_betaLink
  have hroles : SessionBook.guest.invites.map roleOf = [some .musician] :=
    congrArg (fun r => [r]) hrole
  rw [hroles]
  cases role with
  | musician => decide
  | listener => decide

/-- A seat is made, its guest's is emptied, and that seat is filled again. -/
def refilled : List InviteMove :=
  [.mint .listener 21 (.ok ()), .revoke 0x09090909090909090909090909090909 (some "han") (.ok ()),
    .refill 3 22 (.ok ())]

theorem seated_iff_refilled :
    (run (step .beta) (init .guest 0) refilled).written.length = 3 ∧
      Throughout (step .beta) Seated (init .guest 0) refilled := by
  have hwrites : Meets (step .beta) (Writes .beta) (init .guest 0) refilled := by
    rw [init_guest]
    decide +kernel
  refine ⟨?_, (seated_iff .beta .guest guest_legible 0 refilled).mpr ⟨guest_withinCaps, hwrites⟩⟩
  rw [init_guest]
  decide +kernel

/-- An invite whose file was not written stays in the record, and no seat has it. -/
theorem seated_unwritten :
    ¬∀ (F : PanelFormats) (state : SessionBook), Legible state →
      ∀ (nowUnix : UInt64) (moves : List InviteMove),
        Throughout (step F) Seated (init state nowUnix) moves := by
  intro h
  have hlast := (h .beta .guest guest_legible 0 [.mint .listener 21 (.error "disk full")]).last
  have hlength := hlast.record.length_eq
  rw [List.length_map, List.length_map] at hlength
  have hmore : (run (step .beta) (init .guest 0)
      [.mint .listener 21 (.error "disk full")]).panel.state.invites.length ≠
        (live (run (step .beta) (init .guest 0)
          [.mint .listener 21 (.error "disk full")]).panel.seats).length := by
    rw [init_guest]
    decide +kernel
  exact hmore hlength

end InviteDesk
end JamStream.Client
