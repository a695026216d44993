import JamStream.Protocol.LinkTraffic

/-! When each message of a link goes out. Messages are told apart by the order they were accepted
in, since numbers on the wire come round again. -/

namespace JamStream.Protocol
open Foundations Runs ControlLink

/-- The least time between attempt `k` at a frame, counted from 0, and the next. -/
def gap (k : ℕ) : ℕ := min (100 * 2 ^ min k 6) 2000

/-- The least time from a frame's first attempt to attempt `k`. -/
def horizon : ℕ → ℕ
  | 0 => 0
  | k + 1 => horizon k + gap k

theorem backoff_toNat (sends : UInt32) : (backoff sends).toNat = gap sends.toNat := by
  have hmin : min sends 6 = UInt32.ofNat (min sends.toNat 6) := by
    have hif : min sends 6 = if sends ≤ 6 then sends else 6 := rfl
    have hsix : (6 : UInt32).toNat = 6 := rfl
    rw [hif]
    split_ifs with hle
    · rw [UInt32.le_iff_toNat_le, hsix] at hle
      rw [Nat.min_eq_left hle, UInt32.ofNat_toNat]
    · rw [UInt32.le_iff_toNat_le, hsix] at hle
      rw [Nat.min_eq_right (by omega)]
      rfl
  have hsmall : min sends.toNat 6 ≤ 6 := Nat.min_le_right _ _
  rw [backoff, hmin, gap]
  generalize min sends.toNat 6 = k at hsmall ⊢
  interval_cases k <;> rfl

def Spaced (times : List ℕ) : Prop :=
  ∀ k s t, times[k]? = some s → times[k + 1]? = some t → s + gap k ≤ t

theorem Spaced.concat {times : List ℕ} (h : Spaced times) {now : ℕ}
    (hlast : ∀ k s, k + 1 = times.length → times[k]? = some s → s + gap k ≤ now) :
    Spaced (times ++ [now]) := by
  intro k s t hs ht
  have hk : k + 1 < (times ++ [now]).length := (List.getElem?_eq_some_iff.mp ht).1
  rw [List.length_append, List.length_singleton] at hk
  rw [List.getElem?_append_left (by omega)] at hs
  rcases Nat.lt_or_ge (k + 1) times.length with hin | hend
  · rw [List.getElem?_append_left hin] at ht
    exact h k s t hs ht
  · have hlen : k + 1 = times.length := by omega
    rw [hlen, List.getElem?_concat_length] at ht
    cases ht
    exact hlast k s hlen hs

theorem Spaced.horizon_le {times : List ℕ} (h : Spaced times) {first : ℕ}
    (hfirst : times[0]? = some first) :
    ∀ k t, times[k]? = some t → first + horizon k ≤ t := by
  intro k
  induction k with
  | zero =>
    intro t ht
    rw [hfirst] at ht
    cases ht
    exact Nat.le_refl _
  | succ k ih =>
    intro t ht
    have hk : k < times.length := by
      have := (List.getElem?_eq_some_iff.mp ht).1
      omega
    have hbefore := ih times[k] (List.getElem?_eq_getElem hk)
    have hgap := h k times[k] t (List.getElem?_eq_getElem hk) ht
    rw [horizon]
    omega

/-- A link with the messages its queue holds and the times every message went out at. -/
structure Schedule where
  link : ControlLink
  ids : List ℕ
  accepted : ℕ
  times : ℕ → List ℕ

namespace Schedule
variable {C : Codec CtlPacket}

def new : Schedule := { link := .new, ids := [], accepted := 0, times := fun _ => [] }

def queue (s : Schedule) : List (ℕ × Pending) := s.ids.zip s.link.pending

def departing (limit nowMs : UInt64) : List (ℕ × Pending) → List ℕ
  | [] => []
  | (id, p) :: queue =>
    if limit ≤ p.seq then []
    else if nowMs < p.nextSendMs ∨ maxSends ≤ p.sends then departing limit nowMs queue
    else id :: departing limit nowMs queue

def step (C : Codec CtlPacket) (s : Schedule) : LinkCall → Schedule
  | .send msg =>
    match s.link.send msg with
    | .error _ => s
    | .ok link => { s with link, ids := s.ids ++ [s.accepted], accepted := s.accepted + 1 }
  | .poll nowMs => { s with
      link := (s.link.poll C nowMs).1
      times := fun id =>
        if id ∈ departing s.link.sendLimit nowMs s.queue then s.times id ++ [nowMs.toNat]
        else s.times id }
  | .receive buf => { s with
      link := (s.link.receive C buf).1
      ids := (opened C buf).elim s.ids fun pkt =>
        (s.queue.filter fun q => !pkt.covers q.2.seq).map Prod.fst }

theorem link_step (s : Schedule) (call : LinkCall) :
    (s.step C call).link = call.step C s.link := by
  cases call with
  | send msg =>
    rw [step, LinkCall.step]
    rcases s.link.send msg with e | link
    · rfl
    · rfl
  | poll nowMs => rfl
  | receive buf => rfl

theorem exists_of_mem_departing {limit nowMs : UInt64} {queue : List (ℕ × Pending)} {id : ℕ}
    (h : id ∈ departing limit nowMs queue) :
    ∃ p, (id, p) ∈ queue ∧ p.nextSendMs ≤ nowMs ∧ p.sends < maxSends := by
  induction queue with
  | nil => cases h
  | cons q queue ih =>
    obtain ⟨i, p⟩ := q
    rw [departing] at h
    split_ifs at h with hlim hkept
    · cases h
    · obtain ⟨p', hp', hdue⟩ := ih h
      exact ⟨p', List.mem_cons_of_mem _ hp', hdue⟩
    · rcases List.mem_cons.mp h with rfl | h
      · rw [not_or, UInt64.not_lt, UInt32.not_le] at hkept
        exact ⟨p, List.mem_cons_self, hkept⟩
      · obtain ⟨p', hp', hdue⟩ := ih h
        exact ⟨p', List.mem_cons_of_mem _ hp', hdue⟩

theorem mem_zip_pollScan {limit nowMs : UInt64} {datagram : Pending → Bytes} {ids : List ℕ}
    {ps : List Pending} (hnodup : ids.Nodup) {id : ℕ} {p' : Pending}
    (h : (id, p') ∈ ids.zip (pollScan limit nowMs datagram ps).1) :
    ∃ p, (id, p) ∈ ids.zip ps ∧
      (id ∉ departing limit nowMs (ids.zip ps) ∧ p' = p ∨
        id ∈ departing limit nowMs (ids.zip ps) ∧ p.nextSendMs ≤ nowMs ∧ p.sends < maxSends ∧
          p' = { p with nextSendMs := nowMs + backoff p.sends, sends := p.sends + 1 }) := by
  induction ps generalizing ids with
  | nil =>
    rw [pollScan, List.zip_nil_right] at h
    cases h
  | cons q ps ih =>
    rcases ids with _ | ⟨i, ids⟩
    · cases h
    obtain ⟨hfresh, hnodup⟩ := List.nodup_cons.mp hnodup
    have hother : ∀ {j : ℕ} {p : Pending}, (j, p) ∈ ids.zip ps → j ≠ i := by
      rintro j p hmem rfl
      exact hfresh (List.of_mem_zip hmem).1
    have hnotin : i ∉ departing limit nowMs (ids.zip ps) := by
      intro hdep
      obtain ⟨p, hp, -⟩ := exists_of_mem_departing hdep
      exact hother hp rfl
    rw [pollScan] at h
    rw [List.zip_cons_cons, departing]
    by_cases hlim : limit ≤ q.seq
    · rw [if_pos hlim] at h ⊢
      exact ⟨p', h, .inl ⟨List.not_mem_nil, rfl⟩⟩
    rw [if_neg hlim] at h ⊢
    simp only at h
    -- The frames behind the first one fare alike whether or not it goes out.
    have htail : (id, p') ∈ ids.zip (pollScan limit nowMs datagram ps).1 → ∃ p,
        (id, p) ∈ ids.zip ps ∧ id ≠ i ∧
          (id ∉ departing limit nowMs (ids.zip ps) ∧ p' = p ∨
            id ∈ departing limit nowMs (ids.zip ps) ∧ p.nextSendMs ≤ nowMs ∧
              p.sends < maxSends ∧
              p' = { p with nextSendMs := nowMs + backoff p.sends, sends := p.sends + 1 }) := by
      intro hmem
      obtain ⟨p, hp, hcases⟩ := ih hnodup hmem
      exact ⟨p, hp, hother hp, hcases⟩
    by_cases hearly : nowMs < q.nextSendMs
    · rw [if_pos hearly, List.zip_cons_cons, List.mem_cons] at h
      rw [if_pos (.inl hearly)]
      rcases h with heq | hmem
      · cases heq
        exact ⟨_, List.mem_cons_self, .inl ⟨hnotin, rfl⟩⟩
      · obtain ⟨p, hp, -, hcases⟩ := htail hmem
        exact ⟨p, List.mem_cons_of_mem _ hp, hcases⟩
    rw [if_neg hearly] at h
    by_cases hspent : maxSends ≤ q.sends
    · rw [if_pos hspent, List.zip_cons_cons, List.mem_cons] at h
      rw [if_pos (.inr hspent)]
      rcases h with heq | hmem
      · cases heq
        exact ⟨_, List.mem_cons_self, .inl ⟨hnotin, rfl⟩⟩
      · obtain ⟨p, hp, -, hcases⟩ := htail hmem
        exact ⟨p, List.mem_cons_of_mem _ hp, hcases⟩
    · rw [if_neg hspent, List.zip_cons_cons, List.mem_cons] at h
      rw [if_neg (not_or.mpr ⟨hearly, hspent⟩)]
      rcases h with heq | hmem
      · cases heq
        exact ⟨q, List.mem_cons_self, .inr ⟨List.mem_cons_self, UInt64.not_lt.mp hearly,
          UInt32.not_le.mp hspent, rfl⟩⟩
      · obtain ⟨p, hp, hne, hcases⟩ := htail hmem
        refine ⟨p, List.mem_cons_of_mem _ hp, ?_⟩
        rw [List.mem_cons, or_iff_right hne]
        exact hcases

theorem exists_of_pollScan_dead {limit nowMs : UInt64} {datagram : Pending → Bytes}
    {ps : List Pending} (h : (pollScan limit nowMs datagram ps).2.2 = true) :
    ∃ p ∈ ps, p.nextSendMs ≤ nowMs ∧ maxSends ≤ p.sends := by
  induction ps with
  | nil => cases h
  | cons q ps ih =>
    have htail : (pollScan limit nowMs datagram ps).2.2 = true →
        ∃ p ∈ q :: ps, p.nextSendMs ≤ nowMs ∧ maxSends ≤ p.sends := by
      intro h
      obtain ⟨p, hp, hdue⟩ := ih h
      exact ⟨p, List.mem_cons_of_mem _ hp, hdue⟩
    rw [pollScan] at h
    simp only at h
    split_ifs at h with hlim hearly hspent
    · exact htail h
    · exact ⟨q, List.mem_cons_self, UInt64.not_lt.mp hearly, hspent⟩
    · exact htail h

theorem frames_pollScan (hC : C.Lawful) (l : ControlLink) (limit nowMs : UInt64)
    {ids : List ℕ} {ps : List Pending} (h : ps.map Pending.seq = ids.map UInt64.ofNat) :
    (pollScan limit nowMs (fun p => encode C (l.framePacket p)) ps).2.1.filterMap (fun d =>
        ((opened C d).bind CtlPacket.frame).map Prod.fst) =
      (departing limit nowMs (ids.zip ps)).map UInt64.ofNat := by
  induction ps generalizing ids with
  | nil =>
    rw [List.zip_nil_right]
    rfl
  | cons q ps ih =>
    rcases ids with _ | ⟨i, ids⟩
    · cases h
    rw [List.map_cons, List.map_cons, List.cons.injEq] at h
    have hrest := ih h.2
    rw [pollScan, List.zip_cons_cons, departing]
    simp only
    by_cases hlim : limit ≤ q.seq
    · rw [if_pos hlim, if_pos hlim]
      rfl
    rw [if_neg hlim, if_neg hlim]
    by_cases hearly : nowMs < q.nextSendMs
    · rw [if_pos hearly, if_pos (.inl hearly)]
      exact hrest
    rw [if_neg hearly]
    by_cases hspent : maxSends ≤ q.sends
    · rw [if_pos hspent, if_pos (.inr hspent)]
      exact hrest
    · have hframe : ((opened C (encode C (l.framePacket q))).bind CtlPacket.frame).map Prod.fst =
          some q.seq := by
        rw [opened_encode hC]
        rfl
      rw [if_neg hspent, if_neg (not_or.mpr ⟨hearly, hspent⟩), List.map_cons, ← h.1, ← hrest,
        List.filterMap_cons, hframe]

/-- What holds of the queue whatever the clock says. -/
structure Inv (s : Schedule) : Prop where
  length : s.ids.length = s.link.pending.length
  numbered : ∀ q ∈ s.queue, q.2.seq = UInt64.ofNat q.1
  next : s.link.nextSeq = UInt64.ofNat s.accepted
  nodup : s.ids.Nodup
  below : ∀ id ∈ s.ids, id < s.accepted
  counted : ∀ q ∈ s.queue, q.2.sends.toNat = (s.times q.1).length
  bounded : ∀ id, (s.times id).length ≤ 36
  unsent : ∀ id, s.accepted ≤ id → s.times id = []

theorem new_inv : new.Inv where
  length := rfl
  numbered := fun _ h => absurd h List.not_mem_nil
  next := rfl
  nodup := .nil
  below := fun _ h => absurd h List.not_mem_nil
  counted := fun _ h => absurd h List.not_mem_nil
  bounded := fun _ => Nat.zero_le _
  unsent := fun _ _ => rfl

theorem Inv.map_fst_queue {s : Schedule} (h : s.Inv) : s.queue.map Prod.fst = s.ids :=
  List.map_fst_zip h.length.le

theorem Inv.map_snd_queue {s : Schedule} (h : s.Inv) : s.queue.map Prod.snd = s.link.pending :=
  List.map_snd_zip h.length.ge

theorem Inv.map_seq {s : Schedule} (h : s.Inv) :
    s.link.pending.map Pending.seq = s.ids.map UInt64.ofNat := by
  rw [← h.map_snd_queue, ← h.map_fst_queue, List.map_map, List.map_map]
  exact List.map_congr_left h.numbered

theorem queue_sent {s : Schedule} (h : s.Inv) (link : ControlLink) (p : Pending)
    (hlink : link.pending = s.link.pending ++ [p]) :
    ({ s with link, ids := s.ids ++ [s.accepted], accepted := s.accepted + 1 } : Schedule).queue =
      s.queue ++ [(s.accepted, p)] := by
  rw [queue, queue, hlink]
  exact List.zip_append h.length

theorem Inv.send {s : Schedule} (h : s.Inv) (msg : ControlMsg) : (s.step C (.send msg)).Inv := by
  rw [step]
  rcases hsend : s.link.send msg with e | link
  · exact h
  · obtain ⟨-, -, rfl⟩ := send_ok hsend
    have hfresh : s.times s.accepted = [] := h.unsent s.accepted (Nat.le_refl _)
    simp only
    refine ⟨?_, ?_, ?_, ?_, ?_, ?_, h.bounded,
      fun id hid => h.unsent id (Nat.le_of_succ_le hid)⟩
    · rw [List.length_append, List.length_append, h.length]
      rfl
    · intro q hq
      rw [queue_sent h _ _ rfl] at hq
      rcases List.mem_append.mp hq with hq | hq
      · exact h.numbered q hq
      · rw [List.mem_singleton.mp hq]
        exact h.next
    · rw [h.next, UInt64.ofNat_add]
      rfl
    · rw [List.nodup_append]
      refine ⟨h.nodup, List.nodup_singleton _, ?_⟩
      intro id hid j hj
      rw [List.mem_singleton.mp hj]
      exact (h.below id hid).ne
    · intro id hid
      rcases List.mem_append.mp hid with hid | hid
      · exact (h.below id hid).trans (Nat.lt_succ_self _)
      · rw [List.mem_singleton.mp hid]
        exact Nat.lt_succ_self _
    · intro q hq
      rw [queue_sent h _ _ rfl] at hq
      rcases List.mem_append.mp hq with hq | hq
      · exact h.counted q hq
      · rw [List.mem_singleton.mp hq, hfresh]
        rfl

theorem toNat_maxSends : maxSends.toNat = 36 := rfl

theorem mem_queue_poll {s : Schedule} (h : s.Inv) {nowMs : UInt64} {id : ℕ} {p' : Pending}
    (hq : (id, p') ∈ (s.step C (.poll nowMs)).queue) : ∃ p, (id, p) ∈ s.queue ∧
      ((s.step C (.poll nowMs)).times id = s.times id ∧ p' = p ∨
        (s.step C (.poll nowMs)).times id = s.times id ++ [nowMs.toNat] ∧
          p.nextSendMs ≤ nowMs ∧ p.sends < maxSends ∧
          p' = { p with nextSendMs := nowMs + backoff p.sends, sends := p.sends + 1 }) := by
  obtain ⟨p, hp, ⟨hstays, rfl⟩ | ⟨hgoes, hdue⟩⟩ := mem_zip_pollScan h.nodup hq
  · exact ⟨p', hp, .inl ⟨if_neg hstays, rfl⟩⟩
  · exact ⟨p, hp, .inr ⟨if_pos hgoes, hdue⟩⟩

theorem Inv.poll {s : Schedule} (h : s.Inv) (nowMs : UInt64) : (s.step C (.poll nowMs)).Inv := by
  have hlength : (s.link.poll C nowMs).1.pending.length = s.link.pending.length := by
    have hqueue := congrArg List.length (pollScan_queue s.link.sendLimit nowMs
      (fun p => encode C (s.link.framePacket p)) s.link.pending)
    rw [List.length_map, List.length_map] at hqueue
    exact hqueue
  refine ⟨h.length.trans hlength.symm, ?_, h.next, h.nodup, h.below, ?_, ?_, ?_⟩
  · rintro ⟨id, p'⟩ hq
    obtain ⟨p, hp, ⟨-, rfl⟩ | ⟨-, -, -, rfl⟩⟩ := mem_queue_poll h hq
    · exact h.numbered _ hp
    · exact h.numbered (id, p) hp
  · rintro ⟨id, p'⟩ hq
    obtain ⟨p, hp, ⟨htimes, rfl⟩ | ⟨htimes, -, hsends, rfl⟩⟩ := mem_queue_poll h hq
    · rw [htimes]
      exact h.counted _ hp
    · have hcounted : p.sends.toNat = (s.times id).length := h.counted _ hp
      have hone : (1 : UInt32).toNat = 1 := rfl
      rw [UInt32.lt_iff_toNat_lt, toNat_maxSends] at hsends
      rw [htimes, List.length_append, ← hcounted, UInt32.toNat_add, hone, List.length_singleton]
      omega
  · intro id
    simp only [step]
    split_ifs with hgoes
    · obtain ⟨p, hp, -, hsends⟩ := exists_of_mem_departing hgoes
      have hcounted := h.counted _ hp
      rw [UInt32.lt_iff_toNat_lt, toNat_maxSends] at hsends
      rw [List.length_append, List.length_singleton, ← hcounted]
      exact hsends
    · exact h.bounded id
  · intro id hid
    have hstays : id ∉ departing s.link.sendLimit nowMs s.queue := by
      intro hgoes
      obtain ⟨p, hp, -⟩ := exists_of_mem_departing hgoes
      exact absurd (h.below id (List.of_mem_zip hp).1) (Nat.not_lt.mpr hid)
    simp only [step]
    rw [if_neg hstays]
    exact h.unsent id hid

theorem exists_kept {s : Schedule} (h : s.Inv) (buf : Bytes) :
    ∃ kept : List (ℕ × Pending), kept.Sublist s.queue ∧
    (s.step C (.receive buf)).ids = kept.map Prod.fst ∧
    (s.step C (.receive buf)).link.pending = kept.map Prod.snd := by
  rcases ho : opened C buf with _ | pkt
  · obtain ⟨e, he⟩ := receive_of_not_opened s.link ho
    refine ⟨s.queue, List.Sublist.refl _, ?_, ?_⟩
    · rw [h.map_fst_queue, step, ho]
      rfl
    · rw [h.map_snd_queue, step, he]
  · refine ⟨s.queue.filter fun q => !pkt.covers q.2.seq, List.filter_sublist, ?_, ?_⟩
    · rw [step, ho]
      rfl
    · simp only [step]
      rw [receive_of_opened ho, (Pair.receivePacket_sender s.link pkt).2.1, takeAck,
        ← h.map_snd_queue, List.filter_map]
      rfl

theorem queue_receive_sublist {s : Schedule} (h : s.Inv) (buf : Bytes) :
    (s.step C (.receive buf)).queue.Sublist s.queue := by
  obtain ⟨kept, hsub, hids, hpending⟩ := exists_kept (C := C) h buf
  have hkept : (s.step C (.receive buf)).queue = kept := by
    rw [queue, hids, hpending]
    exact (List.zip_of_prod rfl rfl).symm
  rw [hkept]
  exact hsub

theorem ids_receive_sublist {s : Schedule} (h : s.Inv) (buf : Bytes) :
    (s.step C (.receive buf)).ids.Sublist s.ids := by
  obtain ⟨kept, hsub, hids, -⟩ := exists_kept (C := C) h buf
  rw [hids, ← h.map_fst_queue]
  exact hsub.map _

theorem nextSeq_receive (l : ControlLink) (buf : Bytes) :
    (l.receive C buf).1.nextSeq = l.nextSeq := by
  rcases ho : opened C buf with _ | pkt
  · obtain ⟨e, he⟩ := receive_of_not_opened l ho
    rw [he]
  · rw [receive_of_opened ho]
    exact (Pair.receivePacket_sender l pkt).1

theorem Inv.receive {s : Schedule} (h : s.Inv) (buf : Bytes) : (s.step C (.receive buf)).Inv := by
  have hsub := queue_receive_sublist (C := C) h buf
  have hids := ids_receive_sublist (C := C) h buf
  refine ⟨?_, fun q hq => h.numbered q (hsub.subset hq), ?_, hids.nodup h.nodup,
    fun id hid => h.below id (hids.subset hid), fun q hq => h.counted q (hsub.subset hq),
    h.bounded, h.unsent⟩
  · obtain ⟨kept, -, hids, hpending⟩ := exists_kept (C := C) h buf
    rw [hids, hpending, List.length_map, List.length_map]
  · exact (nextSeq_receive s.link buf).trans h.next

theorem Inv.step {s : Schedule} (h : s.Inv) (call : LinkCall) : (s.step C call).Inv := by
  cases call with
  | send msg => exact h.send msg
  | poll nowMs => exact h.poll nowMs
  | receive buf => exact h.receive buf

/-- What the deadlines say about the times, while no deadline runs past the end of the clock. -/
structure Timed (s : Schedule) : Prop where
  due : ∀ q ∈ s.queue, ∀ k t, k + 1 = (s.times q.1).length → (s.times q.1)[k]? = some t →
    q.2.nextSendMs.toNat = t + gap k
  spaced : ∀ id, Spaced (s.times id)

theorem gap_le (k : ℕ) : gap k ≤ 2000 := Nat.min_le_right _ _

theorem Timed.poll {s : Schedule} (h : s.Inv) (ht : s.Timed) {nowMs : UInt64}
    (hfit : nowMs.toNat + 2000 < 2 ^ 64) : (s.step C (.poll nowMs)).Timed := by
  constructor
  · rintro ⟨id, p'⟩ hq k t hk hlast
    obtain ⟨p, hp, ⟨htimes, rfl⟩ | ⟨htimes, -, -, rfl⟩⟩ := mem_queue_poll h hq
    · rw [htimes] at hk hlast
      exact ht.due _ hp k t hk hlast
    · have hcounted := h.counted _ hp
      rw [htimes, List.length_append, List.length_singleton, Nat.add_right_cancel_iff] at hk
      rw [htimes, hk, List.getElem?_concat_length] at hlast
      cases hlast
      have hle := gap_le p.sends.toNat
      simp only at hcounted ⊢
      rw [UInt64.toNat_add, backoff_toNat, hk, ← hcounted]
      exact Nat.mod_eq_of_lt (by omega)
  · intro id
    by_cases hgoes : id ∈ departing s.link.sendLimit nowMs s.queue
    · have htimes : (s.step C (.poll nowMs)).times id = s.times id ++ [nowMs.toNat] := if_pos hgoes
      obtain ⟨p, hp, hdue, -⟩ := exists_of_mem_departing hgoes
      rw [htimes]
      refine (ht.spaced id).concat ?_
      intro k t hk hlast
      rw [← ht.due _ hp k t hk hlast]
      exact UInt64.le_iff_toNat_le.mp hdue
    · have htimes : (s.step C (.poll nowMs)).times id = s.times id := if_neg hgoes
      rw [htimes]
      exact ht.spaced id

theorem Timed.send {s : Schedule} (h : s.Inv) (ht : s.Timed) (msg : ControlMsg) :
    (s.step C (.send msg)).Timed := by
  rw [step]
  rcases hsend : s.link.send msg with e | link
  · exact ht
  · obtain ⟨-, -, rfl⟩ := send_ok hsend
    have hfresh : s.times s.accepted = [] := h.unsent s.accepted (Nat.le_refl _)
    refine ⟨?_, ht.spaced⟩
    intro q hq k t hk hlast
    simp only at hq hk hlast
    rw [queue_sent h _ _ rfl] at hq
    rcases List.mem_append.mp hq with hq | hq
    · exact ht.due q hq k t hk hlast
    · rw [List.mem_singleton.mp hq, hfresh] at hlast
      cases hlast

theorem Timed.receive {s : Schedule} (h : s.Inv) (ht : s.Timed) (buf : Bytes) :
    (s.step C (.receive buf)).Timed :=
  ⟨fun q hq => ht.due q ((queue_receive_sublist h buf).subset hq), ht.spaced⟩

theorem Timed.step {s : Schedule} (h : s.Inv) (ht : s.Timed) {call : LinkCall}
    (hfit : ∀ nowMs, call = .poll nowMs → nowMs.toNat + 2000 < 2 ^ 64) :
    (s.step C call).Timed := by
  cases call with
  | send msg => exact ht.send h msg
  | poll nowMs => exact ht.poll h (hfit nowMs rfl)
  | receive buf => exact ht.receive h buf

theorem inv_run (calls : List LinkCall) : (run (step C) new calls).Inv :=
  run_invariant (P := Inv) (fun _ call h => h.step call) new_inv calls

theorem timed_run {s : Schedule} (h : s.Inv) (ht : s.Timed) {calls : List LinkCall}
    (hfit : ∀ nowMs, .poll nowMs ∈ calls → nowMs.toNat + 2000 < 2 ^ 64) :
    (run (step C) s calls).Timed := by
  induction calls generalizing s with
  | nil => exact ht
  | cons call calls ih =>
    refine ih (h.step call) (ht.step h ?_) fun nowMs hmem =>
      hfit nowMs (List.mem_cons_of_mem _ hmem)
    rintro nowMs rfl
    exact hfit nowMs List.mem_cons_self

theorem times_step_of_left {s : Schedule} (h : s.Inv) {id : ℕ} (haccepted : id < s.accepted)
    (hleft : id ∉ s.ids) (call : LinkCall) : (s.step C call).times id = s.times id ∧
      id < (s.step C call).accepted ∧ id ∉ (s.step C call).ids := by
  cases call with
  | send msg =>
    rw [step]
    rcases s.link.send msg with e | link
    · exact ⟨rfl, haccepted, hleft⟩
    · refine ⟨rfl, haccepted.trans (Nat.lt_succ_self _), ?_⟩
      rw [List.mem_append, List.mem_singleton, not_or]
      exact ⟨hleft, haccepted.ne⟩
  | poll nowMs =>
    refine ⟨if_neg ?_, haccepted, hleft⟩
    intro hgoes
    obtain ⟨p, hp, -⟩ := exists_of_mem_departing hgoes
    exact hleft (List.of_mem_zip hp).1
  | receive buf =>
    exact ⟨rfl, haccepted, fun hid => hleft ((ids_receive_sublist h buf).subset hid)⟩

theorem times_run_of_left {s : Schedule} (h : s.Inv) {id : ℕ} (haccepted : id < s.accepted)
    (hleft : id ∉ s.ids) (calls : List LinkCall) :
    id ∉ (run (step C) s calls).ids ∧ (run (step C) s calls).times id = s.times id := by
  induction calls generalizing s with
  | nil => exact ⟨hleft, rfl⟩
  | cons call calls ih =>
    obtain ⟨htimes, haccepted', hleft'⟩ := times_step_of_left (C := C) h haccepted hleft call
    obtain ⟨hend, hrun⟩ := ih (h.step call) haccepted' hleft'
    exact ⟨hend, hrun.trans htimes⟩

theorem left_of_covers {s : Schedule} (h : s.Inv) {buf : Bytes} {pkt : CtlPacket}
    (ho : opened C buf = some pkt) {id : ℕ} (hcovers : pkt.covers (UInt64.ofNat id) = true) :
    id ∉ (s.step C (.receive buf)).ids := by
  intro hid
  simp only [step, ho, Option.elim_some] at hid
  obtain ⟨q, hq, rfl⟩ := List.mem_map.mp hid
  obtain ⟨hq, hkept⟩ := List.mem_filter.mp hq
  rw [h.numbered q hq, hcovers] at hkept
  cases hkept

theorem link_run (s : Schedule) (calls : List LinkCall) :
    (run (step C) s calls).link = run (LinkCall.step C) s.link calls := by
  induction calls generalizing s with
  | nil => rfl
  | cons call calls ih =>
    rw [run_cons, run_cons, ih, link_step]

theorem frames_poll (hC : C.Lawful) {s : Schedule} (h : s.Inv) (nowMs : UInt64) :
    (s.link.poll C nowMs).2.filterMap (fun d =>
        ((opened C d).bind CtlPacket.frame).map Prod.fst) =
      (departing s.link.sendLimit nowMs s.queue).map UInt64.ofNat := by
  have hscan := frames_pollScan hC s.link s.link.sendLimit nowMs h.map_seq
  rw [← queue] at hscan
  rw [← hscan]
  simp only [ControlLink.poll]
  split_ifs with hbare
  · rw [Bool.and_eq_true, List.isEmpty_iff] at hbare
    rw [hbare.2, List.filterMap_cons, opened_encode hC]
    rfl
  · rfl

theorem dead_send (l : ControlLink) (msg : ControlMsg) :
    ((l.send msg).toOption.getD l).dead = l.dead := by
  rcases send_cases l msg with hs | hs
  · rw [hs]
  · rw [hs]

theorem dead_receive (l : ControlLink) (buf : Bytes) : (l.receive C buf).1.dead = l.dead := by
  rcases ho : opened C buf with _ | pkt
  · obtain ⟨e, he⟩ := receive_of_not_opened l ho
    rw [he]
  · rw [receive_of_opened ho]
    obtain ⟨needAck, ⟨hp, -⟩ | ⟨seq, msg, -, -, hp, -⟩⟩ := receivePacket_cases l pkt
    · rw [hp]
      rfl
    · rw [hp, takeFrame_fst]
      rfl

theorem exists_of_dead {s : Schedule} (h : s.Inv) (ht : s.Timed) {call : LinkCall}
    (hdead : s.link.isDead = false) (hafter : (call.step C s.link).isDead = true) :
    ∃ nowMs, call = .poll nowMs ∧ ∃ id ∈ s.ids, ∃ first,
      (s.times id)[0]? = some first ∧ first + 65100 ≤ nowMs.toNat := by
  cases call with
  | send msg =>
    rw [isDead, LinkCall.step, dead_send] at hafter
    rw [isDead, hafter] at hdead
    cases hdead
  | receive buf =>
    rw [isDead, LinkCall.step, dead_receive] at hafter
    rw [isDead, hafter] at hdead
    cases hdead
  | poll nowMs =>
    refine ⟨nowMs, rfl, ?_⟩
    have hscan : (pollScan s.link.sendLimit nowMs (fun p => encode C (s.link.framePacket p))
        s.link.pending).2.2 = true := by
      have hor : (s.link.dead || (pollScan s.link.sendLimit nowMs
          (fun p => encode C (s.link.framePacket p)) s.link.pending).2.2) = true := hafter
      rw [isDead] at hdead
      rwa [hdead, Bool.false_or] at hor
    obtain ⟨p, hp, hdue, hspent⟩ := exists_of_pollScan_dead hscan
    rw [← h.map_snd_queue, List.mem_map] at hp
    obtain ⟨⟨id, p'⟩, hq, rfl⟩ := hp
    have hcounted : p'.sends.toNat = (s.times id).length := h.counted _ hq
    have hbounded := h.bounded id
    have hlength : (s.times id).length = 36 := by
      rw [UInt32.le_iff_toNat_le, toNat_maxSends] at hspent
      simp only at hspent
      omega
    have hfirst : (s.times id)[0]? = some ((s.times id)[0]) := List.getElem?_eq_getElem _
    have hlast : (s.times id)[35]? = some ((s.times id)[35]) := List.getElem?_eq_getElem _
    have hspan := (ht.spaced id).horizon_le hfirst 35 _ hlast
    have hwait := ht.due _ hq 35 _ hlength.symm hlast
    have hsum : horizon 35 + gap 35 = 65100 := by decide
    rw [UInt64.le_iff_toNat_le] at hdue
    simp only at hdue hwait
    exact ⟨id, (List.of_mem_zip hq).1, _, hfirst, by omega⟩

end Schedule

/-- The retransmission schedule over any run. Attempts and their end need nothing of the clock;
the gaps and the give-up time hold while the deadlines fit in it. -/
theorem retransmission_schedule {C : Codec CtlPacket} (hC : C.Lawful) (calls : List LinkCall) :
    ∀ s, s = run (Schedule.step C) Schedule.new calls →
      s.link = run (LinkCall.step C) ControlLink.new calls ∧
      (∀ nowMs, (s.link.poll C nowMs).2.filterMap
          (fun d => ((opened C d).bind CtlPacket.frame).map Prod.fst) =
        (Schedule.departing s.link.sendLimit nowMs s.queue).map UInt64.ofNat) ∧
      (∀ id, (s.times id).length ≤ 36) ∧
      (∀ buf pkt, opened C buf = some pkt → ∀ id, pkt.covers (UInt64.ofNat id) = true →
        id ∉ (s.step C (.receive buf)).ids) ∧
      (∀ id < s.accepted, id ∉ s.ids → ∀ later : List LinkCall,
        id ∉ (run (Schedule.step C) s later).ids ∧
        (run (Schedule.step C) s later).times id = s.times id) ∧
      ((∀ nowMs, .poll nowMs ∈ calls → nowMs.toNat + 2000 < 2 ^ 64) →
        (∀ id k t t', (s.times id)[k]? = some t → (s.times id)[k + 1]? = some t' →
          t + min (100 * 2 ^ min k 6) 2000 ≤ t') ∧
        ∀ call : LinkCall, s.link.isDead = false → (call.step C s.link).isDead = true →
          ∃ nowMs, call = .poll nowMs ∧ ∃ id ∈ s.ids, ∃ first,
            (s.times id)[0]? = some first ∧ first + 65100 ≤ nowMs.toNat) := by
  rintro s rfl
  have hinv := Schedule.inv_run (C := C) calls
  refine ⟨Schedule.link_run _ calls, Schedule.frames_poll hC hinv, hinv.bounded, ?_, ?_, ?_⟩
  · intro buf pkt ho id hcovers
    exact Schedule.left_of_covers hinv ho hcovers
  · intro id haccepted hleft later
    exact Schedule.times_run_of_left hinv haccepted hleft later
  · -- a deadline is the sum of a time and a wait only where the sum is not past the clock's end
    intro hfit
    have htimed : (run (Schedule.step C) Schedule.new calls).Timed :=
      Schedule.timed_run Schedule.new_inv
        ⟨fun _ h => absurd h List.not_mem_nil, fun _ k s t h => (nomatch h)⟩ hfit
    exact ⟨htimed.spaced, fun call => Schedule.exists_of_dead hinv htimed⟩

theorem retransmission_schedule_twice :
    (run (Schedule.step Postcard.ctlPacket) Schedule.new
      [.send (.clickEnable true), .poll 5, .poll 104, .poll 105]).times 0 = [5, 105] ∧
    5 + min (100 * 2 ^ min 0 6) 2000 ≤ 105 := by
  have hfit : ∀ nowMs, LinkCall.poll nowMs ∈
      [.send (.clickEnable true), .poll 5, .poll 104, .poll 105] →
      nowMs.toNat + 2000 < 2 ^ 64 := by
    intro nowMs hmem
    simp only [List.mem_cons, reduceCtorEq, LinkCall.poll.injEq, List.not_mem_nil, or_false,
      false_or] at hmem
    rcases hmem with rfl | rfl | rfl <;> decide
  have hspaced := ((retransmission_schedule Postcard.ctlPacket_lawful _ _ rfl).2.2.2.2.2 hfit).1
  exact ⟨rfl, hspaced 0 0 5 105 rfl rfl⟩

def LinkCall.time : LinkCall → Option UInt64
  | .poll nowMs => some nowMs
  | _ => none

/-- Two polls at the end of the clock: the deadline set by the first wraps to its beginning, so the
second sends the frame again at once. -/
theorem retransmits_at_once :
    ¬∀ calls : List LinkCall,
      (calls.filterMap LinkCall.time).Pairwise (· ≤ ·) →
      ∀ id k t t', ((run (Schedule.step Postcard.ctlPacket) Schedule.new calls).times id)[k]? =
          some t →
        ((run (Schedule.step Postcard.ctlPacket) Schedule.new calls).times id)[k + 1]? = some t' →
        t + min (100 * 2 ^ min k 6) 2000 ≤ t' := by
  intro h
  have hbad := h [.send (.clickEnable true), .poll 0xFFFFFFFFFFFFFFFF, .poll 0xFFFFFFFFFFFFFFFF]
    (by decide) 0 0 0xFFFFFFFFFFFFFFFF 0xFFFFFFFFFFFFFFFF rfl rfl
  exact absurd hbad (by decide)

end JamStream.Protocol
