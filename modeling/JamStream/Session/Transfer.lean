import JamStream.Protocol.LinkPair
import JamStream.Session.ClientCore
import JamStream.Session.Plaintext
import JamStream.Session.Trains

/-! An upload over a real link: a client, the network, and the far end of its link in
whatever hands. What the far end is handed of a picture is whole trains and the start of
one, exactly while every chunk finds a slot when it is fed. -/

namespace JamStream.Session
open Protocol Engine Foundations Runs Relation
open Std (ExtTreeMap)
variable {X : Externals}

theorem Command.msg_isChunk (cmd : Command) (id : MemberId) : isChunk (cmd.msg id) = false := by
  cases cmd <;> rfl

namespace ClientCore

/-- The link takes these messages one after the other, and nothing else happens to it. -/
def Takes : ControlLink → List ControlMsg → ControlLink → Prop
  | l, [], l' => l' = l
  | l, msg :: rest, l' => ∃ mid, l.send msg = .ok mid ∧ Takes mid rest l'

theorem Takes.trans {l l' l'' : ControlLink} {msgs msgs' : List ControlMsg} (h : Takes l msgs l')
    (h' : Takes l' msgs' l'') : Takes l (msgs ++ msgs') l'' := by
  induction msgs generalizing l with
  | nil =>
    obtain rfl := h
    exact h'
  | cons msg rest ih =>
    obtain ⟨mid, hmid, hrest⟩ := h
    exact ⟨mid, hmid, ih hrest⟩

/-- The upload stands where it did: nothing but other messages was said, and the bytes of
the member's own picture are kept. -/
structure Beside (c c' : ClientCore) : Prop where
  own : c'.ownAvatar = c.ownAvatar
  trains : c'.avatarTx = c.avatarTx
  passed : c'.passed = c.passed
  cached : ∀ own bytes, c.ownAvatar = some own → c.avatarCache.get own.1 = some bytes →
    c'.avatarCache.get own.1 = some bytes
  said : ∃ msgs, (∀ msg ∈ msgs, isChunk msg = false) ∧ Takes c.link msgs c'.link ∧
    c'.taken = c.taken ++ msgs

variable {c c' c'' : ClientCore}

theorem Beside.trans (h : Beside c c') (h' : Beside c' c'') : Beside c c'' where
  own := h'.own.trans h.own
  trains := h'.trains.trans h.trains
  passed := h'.passed.trans h.passed
  cached own bytes hown hbytes :=
    h'.cached own bytes (h.own.trans hown) (h.cached own bytes hown hbytes)
  said := by
    obtain ⟨msgs, hmsgs, htakes, htaken⟩ := h.said
    obtain ⟨msgs', hmsgs', htakes', htaken'⟩ := h'.said
    refine ⟨msgs ++ msgs', List.forall_mem_append.mpr ⟨hmsgs, hmsgs'⟩, htakes.trans htakes', ?_⟩
    rw [htaken', htaken, List.append_assoc]

theorem Beside.silent (hown : c'.ownAvatar = c.ownAvatar) (htrains : c'.avatarTx = c.avatarTx)
    (hpassed : c'.passed = c.passed)
    (hcached : ∀ own bytes, c.ownAvatar = some own → c.avatarCache.get own.1 = some bytes →
      c'.avatarCache.get own.1 = some bytes)
    (hlink : c'.link = c.link) (htaken : c'.taken = c.taken) : Beside c c' := by
  refine ⟨hown, htrains, hpassed, hcached, [], fun _ h => absurd h List.not_mem_nil, hlink, ?_⟩
  rw [htaken, List.append_nil]

theorem Beside.of_eq (hown : c'.ownAvatar = c.ownAvatar) (htrains : c'.avatarTx = c.avatarTx)
    (hpassed : c'.passed = c.passed) (hcache : c'.avatarCache = c.avatarCache)
    (hlink : c'.link = c.link) (htaken : c'.taken = c.taken) : Beside c c' := by
  refine .silent hown htrains hpassed (fun own bytes _ hbytes => ?_) hlink htaken
  rwa [hcache]

theorem Beside.refl (c : ClientCore) : Beside c c := .of_eq rfl rfl rfl rfl rfl rfl

theorem Beside.offer (c : ClientCore) {msg : ControlMsg} (hmsg : isChunk msg = false) :
    Beside c (c.offer msg) := by
  unfold ClientCore.offer
  split
  · rename_i link hlink
    refine ⟨rfl, rfl, rfl, fun _ _ _ h => h, [msg], ?_, ⟨link, hlink, rfl⟩, rfl⟩
    exact List.forall_mem_singleton.mpr hmsg
  · exact .refl c

theorem Beside.announce (c : ClientCore) (member : MemberId) (hash : AvatarHash) :
    Beside c (c.announce member hash) := by
  unfold ClientCore.announce
  split_ifs <;> exact .of_eq rfl rfl rfl rfl rfl rfl

theorem own_mem_pins {own : AvatarHash × UInt32} (h : c.ownAvatar = some own) :
    own.1 ∈ c.avatarPins := by
  unfold avatarPins
  rw [h]
  exact List.mem_append_right _ (List.mem_singleton.mpr rfl)

theorem Beside.syncAvatar (c : ClientCore) (mi : MemberInfo) : Beside c (c.syncAvatar mi) := by
  unfold ClientCore.syncAvatar
  split
  · exact .of_eq rfl rfl rfl rfl rfl rfl
  · rename_i hash _
    split_ifs
    · have htouched : Beside c { c with avatarCache := c.avatarCache.touch hash } := by
        refine .silent rfl rfl rfl (fun own bytes _ hbytes => ?_) rfl rfl
        rwa [AvatarCache.get_touch]
      exact htouched.trans (.announce _ mi.id hash)
    · exact .refl c
    · have hnoted : Beside c { c with avatarRequested := insert hash c.avatarRequested } :=
        .of_eq rfl rfl rfl rfl rfl rfl
      exact hnoted.trans (.offer _ rfl)

theorem Beside.foldl {α : Type} {f : ClientCore → α → ClientCore} (hf : ∀ c a, Beside c (f c a))
    (as : List α) (c : ClientCore) : Beside c (as.foldl f c) := by
  induction as generalizing c with
  | nil => exact .refl c
  | cons a rest ih => exact (hf c a).trans (ih _)

theorem Beside.handleAvatarChunk (X : Externals) (c : ClientCore) (hash : AvatarHash)
    (index total : UInt16) (data : Bytes) :
    Beside c (c.handleAvatarChunk X hash index total data) := by
  simp only [ClientCore.handleAvatarChunk]
  split
  · exact .of_eq rfl rfl rfl rfl rfl rfl
  · split
    · exact .of_eq rfl rfl rfl rfl rfl rfl
    · exact .of_eq rfl rfl rfl rfl rfl rfl
    · rename_i bytes _
      have hkept : Beside c { c with
          avatarRx := none, avatarRequested := c.avatarRequested.erase hash
          avatarCache := c.avatarCache.insert hash bytes c.avatarPins } := by
        refine .silent rfl rfl rfl (fun own old hown hold => ?_) rfl rfl
        exact AvatarCache.get_insert_kept bytes (.inr (own_mem_pins hown)) hold
      exact hkept.trans (.foldl (fun c (m : MemberInfo) => .announce c m.id hash) _ _)

theorem Beside.handleControl (X : Externals) (c : ClientCore) (nowMs : UInt64) {msg : ControlMsg}
    (hmsg : ∀ hash, msg ≠ .avatarRequest hash) : Beside c (c.handleControl X nowMs msg) := by
  cases msg with
  | roster members =>
    have hpruned : Beside c { c with
        avatarAnnounced := c.avatarAnnounced.filter fun id _ => members.any fun m => m.id = id } :=
      .of_eq rfl rfl rfl rfl rfl rfl
    exact (hpruned.trans (.foldl .syncAvatar members _)).trans (.of_eq rfl rfl rfl rfl rfl rfl)
  | ping nonce sentMs => exact .offer c rfl
  | avatarRequest hash => exact absurd rfl (hmsg hash)
  | avatarChunk hash index total data => exact .handleAvatarChunk X c hash index total data
  | _ => exact .of_eq rfl rfl rfl rfl rfl rfl

theorem Beside.ping (c : ClientCore) (nowMs : UInt64) : Beside c (c.ping nowMs) := by
  unfold ClientCore.ping
  split_ifs
  · have hnumbered : Beside c { c with lastPingMs := nowMs, pingNonce := c.pingNonce + 1 } :=
      .of_eq rfl rfl rfl rfl rfl rfl
    exact hnumbered.trans (.offer _ rfl)
  · exact .refl c

theorem Beside.setName (c : ClientCore) (name : String) : Beside c (c.setName name).1 := by
  have hnamed : Beside c { c with ownName := some (trim name) } := .of_eq rfl rfl rfl rfl rfl rfl
  have hoffered : ∀ named : ClientCore, Beside c named →
      Beside c (named.offer (.setName (trim name))) := fun named h => h.trans (.offer named rfl)
  simp only [ClientCore.setName]
  split_ifs
  · exact .refl c
  · exact .refl c
  · dsimp only
    exact hoffered _ hnamed
  · exact hnamed

theorem Beside.command (c : ClientCore) (cmd : Command) : Beside c (c.command cmd).1 := by
  unfold ClientCore.command
  split
  · split
    · exact .refl c
    · exact .offer c (cmd.msg_isChunk _)
  · exact .refl c

theorem Beside.handshakeResp (c : ClientCore) (nowMs : UInt64) (id : MemberId) :
    Beside c (c.handshakeResp nowMs id) := by
  have hannounce : ∀ c : ClientCore,
      Beside c (c.ownName.elim c fun name => c.offer (.setName name)) ∧
      Beside c (c.ownAvatar.elim c fun own => c.offer (.setAvatar own.1 own.2)) := by
    intro c
    refine ⟨?_, ?_⟩
    · cases c.ownName with
      | none => exact .refl c
      | some name => exact .offer c rfl
    · cases c.ownAvatar with
      | none => exact .refl c
      | some own => exact .offer c rfl
  have hjoined : Beside c ({ c with
      memberId := some id, state := .joined, sessionFull := false
      lastServerMs := nowMs, lastPingMs := nowMs }.emit .joined) := .of_eq rfl rfl rfl rfl rfl rfl
  unfold ClientCore.handshakeResp
  split
  · exact (hjoined.trans (hannounce _).2).trans (hannounce _).1
  · exact (hjoined.trans (hannounce _).2).trans (hannounce _).1
  · exact .refl c

theorem Beside.versionReject (c : ClientCore) (ours theirs : UInt16) :
    Beside c (c.versionReject ours theirs) := by
  unfold ClientCore.versionReject
  split_ifs <;> exact .of_eq rfl rfl rfl rfl rfl rfl

theorem Beside.capacityReject (c : ClientCore) : Beside c c.capacityReject := by
  unfold ClientCore.capacityReject
  split_ifs <;> exact .of_eq rfl rfl rfl rfl rfl rfl

theorem Beside.handleMedia (c : ClientCore) (nowMs : UInt64) :
    Beside c (c.handleMedia nowMs) := by
  unfold ClientCore.handleMedia
  split_ifs <;> exact .of_eq rfl rfl rfl rfl rfl rfl

def Says (c c' : ClientCore) : Prop :=
  ∃ msgs, Takes c.link msgs c'.link ∧ c'.taken = c.taken ++ msgs

theorem Says.trans (h : Says c c') (h' : Says c' c'') : Says c c'' := by
  obtain ⟨msgs, htakes, htaken⟩ := h
  obtain ⟨msgs', htakes', htaken'⟩ := h'
  refine ⟨msgs ++ msgs', htakes.trans htakes', ?_⟩
  rw [htaken', htaken, List.append_assoc]

theorem Says.silent (hlink : c'.link = c.link) (htaken : c'.taken = c.taken) : Says c c' :=
  ⟨[], hlink, by rw [htaken, List.append_nil]⟩

theorem Beside.speaks (h : Beside c c') : Says c c' := by
  obtain ⟨msgs, -, htakes, htaken⟩ := h.said
  exact ⟨msgs, htakes, htaken⟩

theorem Says.offer (c : ClientCore) (msg : ControlMsg) : Says c (c.offer msg) := by
  unfold ClientCore.offer
  split
  · rename_i link hlink
    exact ⟨[msg], ⟨link, hlink, rfl⟩, rfl⟩
  · exact .silent rfl rfl

theorem Says.feedAvatar (n fed : ℕ) (c : ClientCore) : Says c (feedAvatar n fed c) := by
  induction n generalizing fed c with
  | zero => exact .silent rfl rfl
  | succ n ih =>
    unfold ClientCore.feedAvatar
    split
    · split
      · exact .silent rfl rfl
      · rename_i tx rest _
        split
        · rename_i tx' chunk _
          have hmoved : Says c { c with avatarTx := tx' :: rest, passed := c.passed ++ [chunk] } :=
            .silent rfl rfl
          exact (hmoved.trans (.offer _ chunk)).trans (ih _ _)
        · have hdropped : Says c { c with avatarTx := rest } := .silent rfl rfl
          exact hdropped.trans (ih _ _)
    · exact .silent rfl rfl

def cursor (c : ClientCore) : ℕ := (c.avatarTx.head?.map fun tx => tx.next.toNat).getD 0

/-- The member's picture is announced and kept, its train stands in the queue alone, its
cursor has passed whole trains and the start of one, and the link has taken all that. -/
structure Intact (hash : AvatarHash) (bytes : Bytes) (c : ClientCore) : Prop where
  own : ∃ len, c.ownAvatar = some (hash, len)
  cached : c.avatarCache.get hash = some bytes
  trains : c.avatarTx = [] ∨ ∃ next, c.avatarTx = [{ hash, next }] ∧
    next ≤ chunkTotal bytes.length
  passed : ∃ whole, c.passed =
    (List.replicate whole (train hash bytes)).flatten ++ (train hash bytes).take c.cursor
  chunks : c.taken.filter isChunk = c.passed

variable {hash : AvatarHash} {bytes : Bytes}

theorem filter_isChunk_append {taken msgs : List ControlMsg} (h : ∀ msg ∈ msgs, isChunk msg = false) :
    (taken ++ msgs).filter isChunk = taken.filter isChunk := by
  have hnone : msgs.filter isChunk = [] :=
    List.filter_eq_nil_iff.mpr fun msg hmsg => by rw [h msg hmsg]; exact Bool.false_ne_true
  rw [List.filter_append, hnone, List.append_nil]

theorem Beside.intact (h : Beside c c') (hc : c.Intact hash bytes) : c'.Intact hash bytes := by
  obtain ⟨len, hown⟩ := hc.own
  obtain ⟨msgs, hmsgs, -, htaken⟩ := h.said
  refine ⟨⟨len, h.own.trans hown⟩, h.cached _ bytes hown hc.cached, ?_, ?_, ?_⟩
  · rw [h.trains]
    exact hc.trains
  · have hcursor : c'.cursor = c.cursor := by
      unfold cursor
      rw [h.trains]
    rw [h.passed, hcursor]
    exact hc.passed
  · rw [htaken, filter_isChunk_append hmsgs, h.passed, hc.chunks]

/-- How many chunks are still to be fed, `fed` of this poll's already being gone. -/
def chunksDue (c : ClientCore) (fed : ℕ) : ℕ :=
  match c.avatarTx with
  | [] => 0
  | tx :: _ => (c.avatarCache.get tx.hash).elim 0 fun bytes =>
      min (avatarChunksPerPoll - fed) ((chunkTotal bytes.length).toNat - tx.next.toNat)

theorem chunksDue_eq {next : UInt16} (htx : c.avatarTx = [{ hash, next }])
    (hbytes : c.avatarCache.get hash = some bytes) (fed : ℕ) : c.chunksDue fed =
      min (avatarChunksPerPoll - fed) ((chunkTotal bytes.length).toNat - next.toNat) := by
  unfold chunksDue
  rw [htx]
  simp only [hbytes, Option.elim_some]

theorem toNat_succ {next total : UInt16} (h : next < total) : (next + 1).toNat = next.toNat + 1 := by
  rw [UInt16.toNat_add, UInt16.toNat_one]
  have hlt := UInt16.lt_iff_toNat_lt.mp h
  have hmax := total.toNat_lt
  exact Nat.mod_eq_of_lt (by omega)

theorem cursor_cons {tx : AvatarTx} {rest : List AvatarTx} (h : c.avatarTx = tx :: rest) :
    c.cursor = tx.next.toNat := by
  unfold cursor
  rw [h]
  rfl

theorem Intact.fed {next : UInt16} (hc : c.Intact hash bytes)
    (htx : c.avatarTx = [{ hash, next }]) (hnext : next < chunkTotal bytes.length)
    (hroom : c.link.pendingLen < maxPending) :
    let c' := { c with
      avatarTx := [{ hash, next := next + 1 }]
      passed := c.passed ++ [chunkAt hash bytes next.toNat] }.offer (chunkAt hash bytes next.toNat)
    c'.Intact hash bytes ∧ c'.avatarTx = [{ hash, next := next + 1 }] ∧
      c'.avatarCache = c.avatarCache ∧ c'.link.pendingLen = c.link.pendingLen + 1 := by
  have hsend : c.link.send (chunkAt hash bytes next.toNat) = .ok { c.link with
      nextSeq := c.link.nextSeq + 1
      pending := c.link.pending ++
        [{ seq := c.link.nextSeq, msg := chunkAt hash bytes next.toNat
           nextSendMs := 0, sends := 0 }] } := by
    have hroom' : ¬maxPending ≤ c.link.pending.length := not_le.mpr hroom
    simp only [ControlLink.send, checkLengths_chunkAt, if_neg hroom']
  have hone := toNat_succ hnext
  obtain ⟨whole, hpassed⟩ := hc.passed
  simp only [ClientCore.offer, hsend]
  refine ⟨⟨hc.own, hc.cached, .inr ⟨next + 1, rfl, ?_⟩, ⟨whole, ?_⟩, ?_⟩, trivial, trivial, ?_⟩
  · rw [UInt16.le_iff_toNat_le, hone]
    exact UInt16.lt_iff_toNat_lt.mp hnext
  · rw [hpassed, cursor_cons htx, cursor_cons rfl, hone,
      train_take_succ hash (UInt16.lt_iff_toNat_lt.mp hnext), List.append_assoc]
  · rw [List.filter_append, hc.chunks]
    rfl
  · show (c.link.pending ++ _).length = _
    rw [List.length_append]
    rfl

theorem Intact.feedAvatar (n fed : ℕ) (hc : c.Intact hash bytes)
    (hroom : 0 < c.chunksDue fed → c.link.pendingLen + c.chunksDue fed ≤ maxPending) :
    (feedAvatar n fed c).Intact hash bytes := by
  induction n generalizing fed c with
  | zero => exact hc
  | succ n ih =>
    unfold ClientCore.feedAvatar
    split
    · rename_i hfed
      rcases hc.trains with hnone | ⟨next, htx, hnext⟩
      · rw [hnone]
        exact hc
      · rw [chunksDue_eq htx hc.cached] at hroom
        simp only [htx, hc.cached, Option.map_some, AvatarTx.nextChunk_eq]
        by_cases hlt : next < chunkTotal bytes.length
        · -- one more chunk, for which there is a slot
          rw [if_pos hlt]
          have hlt' := UInt16.lt_iff_toNat_lt.mp hlt
          have hdue := lt_min (Nat.sub_pos_of_lt hfed) (Nat.sub_pos_of_lt hlt')
          have hslots := hroom hdue
          obtain ⟨hc', htx', hcache, hlen⟩ := hc.fed htx hlt (by omega)
          refine ih (fed + 1) hc' fun _ => ?_
          rw [chunksDue_eq htx' hc'.cached, hlen, toNat_succ hlt]
          omega
        · -- the train is through
          rw [if_neg hlt]
          refine ih fed ?_ fun hpos => absurd hpos (lt_irrefl 0)
          obtain ⟨whole, hpassed⟩ := hc.passed
          refine ⟨hc.own, hc.cached, .inl rfl, ⟨whole + 1, ?_⟩, hc.chunks⟩
          have hend : c.cursor = (train hash bytes).length := by
            rw [cursor_cons htx, train_length]
            exact le_antisymm (UInt16.le_iff_toNat_le.mp hnext)
              (UInt16.le_iff_toNat_le.mp (UInt16.not_lt.mp hlt))
          show c.passed = _ ++ (train hash bytes).take 0
          rw [hpassed, hend, List.take_length, List.replicate_succ', List.flatten_concat,
            List.take_zero, List.append_nil]
    · exact hc

/-- No picture is announced yet, and none is on its way. -/
structure Unannounced (c : ClientCore) : Prop where
  own : c.ownAvatar = none
  trains : c.avatarTx = []
  passed : c.passed = []
  chunks : c.taken.filter isChunk = []

def Uploading (hash : AvatarHash) (c : ClientCore) : Prop :=
  c.Unannounced ∨ ∃ bytes, c.Intact hash bytes

theorem Beside.uploading (h : Beside c c') (hc : c.Uploading hash) : c'.Uploading hash := by
  rcases hc with hnone | ⟨bytes, hc⟩
  · obtain ⟨msgs, hmsgs, -, htaken⟩ := h.said
    refine .inl ⟨h.own.trans hnone.own, h.trains.trans hnone.trains,
      h.passed.trans hnone.passed, ?_⟩
    rw [htaken, filter_isChunk_append hmsgs, hnone.chunks]
  · exact .inr ⟨bytes, h.intact hc⟩

theorem Uploading.handleControl (hc : c.Uploading hash) (X : Externals) (nowMs : UInt64)
    (msg : ControlMsg) : (c.handleControl X nowMs msg).Uploading hash := by
  by_cases hmsg : ∀ h, msg ≠ .avatarRequest h
  · exact (Beside.handleControl X c nowMs hmsg).uploading hc
  · obtain ⟨wanted, rfl⟩ := not_forall_not.mp hmsg
    show (c.avatarRequest wanted).Uploading hash
    unfold avatarRequest
    split_ifs with hanswer
    · obtain ⟨hown, hqueued⟩ := Bool.and_eq_true_iff.mp hanswer
      rcases hc with hnone | ⟨bytes, hc⟩
      · rw [hnone.own] at hown
        exact absurd hown Bool.false_ne_true
      · obtain ⟨len, hlen⟩ := hc.own
        rw [hlen] at hown
        obtain rfl : hash = wanted := of_decide_eq_true hown
        rcases hc.trains with hempty | ⟨next, htx, -⟩
        · obtain ⟨whole, hpassed⟩ := hc.passed
          refine .inr ⟨bytes, hc.own, hc.cached, .inr ⟨0, ?_, UInt16.zero_le⟩, ⟨whole, ?_⟩,
            hc.chunks⟩
          · rw [hempty]
            rfl
          · have hcursor : c.cursor = 0 := by
              unfold cursor
              rw [hempty]
              rfl
            rw [hpassed, hcursor, hempty]
            rfl
        · rw [htx] at hqueued
          simp at hqueued
    · exact hc

theorem Says.handleControl (X : Externals) (c : ClientCore) (nowMs : UInt64) (msg : ControlMsg) :
    Says c (c.handleControl X nowMs msg) := by
  by_cases hmsg : ∀ h, msg ≠ .avatarRequest h
  · exact (Beside.handleControl X c nowMs hmsg).speaks
  · obtain ⟨wanted, rfl⟩ := not_forall_not.mp hmsg
    show Says c (c.avatarRequest wanted)
    unfold avatarRequest
    split_ifs <;> exact .silent rfl rfl

theorem handleControl_foldl (hc : c.Uploading hash) (X : Externals) (nowMs : UInt64)
    (msgs : List ControlMsg) :
    (msgs.foldl (fun c msg => c.handleControl X nowMs msg) c).Uploading hash ∧
      Says c (msgs.foldl (fun c msg => c.handleControl X nowMs msg) c) := by
  induction msgs generalizing c with
  | nil => exact ⟨hc, .silent rfl rfl⟩
  | cons msg rest ih =>
    obtain ⟨hrest, hsays⟩ := ih (hc.handleControl X nowMs msg)
    exact ⟨hrest, (Says.handleControl X c nowMs msg).trans hsays⟩

theorem Uploading.setAvatar (X : Externals) {picture : Bytes} (hc : c.Uploading (X.blake2s picture)) :
    (c.setAvatar X picture).1.Uploading (X.blake2s picture) ∧
      Says c (c.setAvatar X picture).1 := by
  unfold ClientCore.setAvatar
  split
  · exact ⟨hc, .silent rfl rfl⟩
  · generalize hhash : X.blake2s picture = hash at hc ⊢
    simp only
    generalize hkept : ({ c with
      avatarCache := c.avatarCache.insert hash picture (hash :: c.avatarPins)
      ownAvatar := some (hash, UInt32.ofNat picture.length)
      avatarTx := c.avatarTx.filter fun tx => tx.hash = hash } : ClientCore) = k
    have hk : k.Uploading hash ∧ Says c k := by
      rw [← hkept]
      refine ⟨.inr ?_, .silent rfl rfl⟩
      rcases hc with hnone | ⟨bytes, hc⟩
      · refine ⟨(c.avatarCache.get hash).getD picture, ⟨_, rfl⟩, ?_, .inl ?_, ⟨0, ?_⟩, ?_⟩
        · show (c.avatarCache.insert hash picture _).get hash = _
          rw [AvatarCache.get_insert _ _ (.inl rfl), if_pos rfl]
        · show c.avatarTx.filter _ = []
          rw [hnone.trains]
          rfl
        · have hcursor : (c.avatarTx.filter fun tx => tx.hash = hash) = [] := by
            rw [hnone.trains]
            rfl
          show c.passed = _
          rw [hnone.passed]
          unfold cursor
          rw [hcursor]
          rfl
        · exact hnone.chunks.trans hnone.passed.symm
      · have htrains : (c.avatarTx.filter fun tx => tx.hash = hash) = c.avatarTx := by
          rcases hc.trains with hempty | ⟨next, htx, -⟩
          · rw [hempty]
            rfl
          · rw [htx]
            exact List.filter_eq_self.mpr (by simp)
        refine ⟨bytes, ⟨_, rfl⟩, ?_, ?_, ?_, hc.chunks⟩
        · exact AvatarCache.get_insert_kept picture (.inl rfl) hc.cached
        · simp only [htrains]
          exact hc.trains
        · unfold cursor
          simp only [htrains]
          exact hc.passed
    split_ifs
    · have hannounced : Beside k (k.offer (.setAvatar hash (UInt32.ofNat picture.length))) :=
        .offer k rfl
      exact ⟨hannounced.uploading hk.1, hk.2.trans hannounced.speaks⟩
    · exact hk

/-- What a poll needs of the link: a slot for every chunk it feeds, behind the ping that
goes in first. -/
def PollFits (c : ClientCore) (nowMs : UInt64) : Prop :=
  c.state = .joined → c.isLost nowMs = false → 0 < c.chunksDue 0 →
    c.link.pendingLen + (if c.pingDue nowMs then 1 else 0) + c.chunksDue 0 ≤ maxPending

instance (c : ClientCore) (nowMs : UInt64) : Decidable (c.PollFits nowMs) :=
  inferInstanceAs (Decidable (_ → _ → _ → _))

theorem ping_pendingLen (c : ClientCore) (nowMs : UInt64) :
    (c.ping nowMs).link.pendingLen ≤ c.link.pendingLen + if c.pingDue nowMs then 1 else 0 := by
  unfold ClientCore.ping
  split_ifs
  · unfold ClientCore.offer
    split
    · rename_i link hlink
      obtain rfl := (ControlLink.send_ok hlink).2.2
      show (c.link.pending ++ _).length ≤ _
      rw [List.length_append]
      exact le_rfl
    · exact Nat.le_succ _
  · exact le_rfl

theorem Uploading.fed (hc : c.Uploading hash) (nowMs : UInt64) (n : ℕ)
    (hfits : 0 < c.chunksDue 0 →
      c.link.pendingLen + (if c.pingDue nowMs then 1 else 0) + c.chunksDue 0 ≤ maxPending) :
    (ClientCore.feedAvatar n 0 (c.ping nowMs)).Uploading hash ∧
      Says c (ClientCore.feedAvatar n 0 (c.ping nowMs)) := by
  have hping := Beside.ping c nowMs
  refine ⟨?_, hping.speaks.trans (.feedAvatar n 0 _)⟩
  rcases hc with hnone | ⟨bytes, hc⟩
  · have hidle : ClientCore.feedAvatar n 0 (c.ping nowMs) = c.ping nowMs := by
      have hempty := hping.trains.trans hnone.trains
      cases n with
      | zero => rfl
      | succ n =>
        unfold ClientCore.feedAvatar
        rw [if_pos (by decide), hempty]
    rw [hidle]
    exact hping.uploading (.inl hnone)
  · have hpinged := hping.intact hc
    have hdue : (c.ping nowMs).chunksDue 0 = c.chunksDue 0 := by
      rcases hc.trains with hempty | ⟨next, htx, -⟩
      · unfold chunksDue
        rw [hping.trains, hempty]
      · rw [chunksDue_eq htx hc.cached, chunksDue_eq (hping.trains.trans htx) hpinged.cached]
    refine .inr ⟨bytes, hpinged.feedAvatar n 0 fun hpos => ?_⟩
    rw [hdue] at hpos ⊢
    exact (Nat.add_le_add_right (ping_pendingLen c nowMs) _).trans (hfits hpos)

theorem Uploading.reconnect (hc : c.Uploading hash) (nowMs : UInt64) :
    (c.reconnect nowMs).Uploading hash := by
  rcases hc with hnone | ⟨bytes, hc⟩
  · exact .inl ⟨hnone.own, rfl, rfl, rfl⟩
  · exact .inr ⟨bytes, hc.own, hc.cached, .inl rfl, ⟨0, rfl⟩, rfl⟩

end ClientCore

/-- A client, the far end of its link, every datagram either has put on the wire, and
what the far end was handed. A new connection starts all but the client anew. -/
structure Transfer where
  core : ClientCore
  far : ControlLink
  toFar : List Bytes
  toCore : List Bytes
  delivered : List ControlMsg

namespace Transfer

/-- The network hands over any datagram sent to an end at any time, any number of times
or never. The far end says what it likes. -/
inductive Event
  | handshakeResp (nowMs : UInt64) (id : MemberId)
  | versionReject (ours theirs : UInt16)
  | capacityReject
  | reconnect (nowMs : UInt64)
  | setAvatar
  | setName (name : String)
  | command (cmd : Command)
  | media (nowMs : UInt64)
  | receive (nowMs : UInt64) (i : ℕ)
  | poll (nowMs : UInt64)
  | farSend (msg : ControlMsg)
  | farPoll (nowMs : UInt64)
  | farReceive (i : ℕ)

def start (nowMs : UInt64) : Transfer :=
  { core := .connect nowMs, far := .new, toFar := [], toCore := [], delivered := [] }

def step (X : Externals) (picture : Bytes) (s : Transfer) : Event → Transfer
  | .handshakeResp nowMs id => { s with core := s.core.handshakeResp nowMs id }
  | .versionReject ours theirs => { s with core := s.core.versionReject ours theirs }
  | .capacityReject => { s with core := s.core.capacityReject }
  | .reconnect nowMs => { start nowMs with core := s.core.reconnect nowMs }
  | .setAvatar => { s with core := (s.core.setAvatar X picture).1 }
  | .setName name => { s with core := (s.core.setName name).1 }
  | .command cmd => { s with core := (s.core.command cmd).1 }
  | .media nowMs => { s with core := s.core.handleMedia nowMs }
  | .receive nowMs i =>
    match s.toCore[i]? with
    | none => s
    | some d =>
      { s with
        core := (s.core.handlePlain X nowMs d).1
        toFar := s.toFar ++ (s.core.handlePlain X nowMs d).2 }
  | .poll nowMs =>
    { s with core := (s.core.poll X nowMs).1, toFar := s.toFar ++ (s.core.poll X nowMs).2 }
  | .farSend msg => { s with far := (s.far.send msg).toOption.getD s.far }
  | .farPoll nowMs =>
    { s with
      far := (s.far.poll X.ctlPacket nowMs).1
      toCore := s.toCore ++ (s.far.poll X.ctlPacket nowMs).2 }
  | .farReceive i =>
    match s.toFar[i]? with
    | none => s
    | some d =>
      { s with
        far := (s.far.receive X.ctlPacket d).1
        delivered := s.delivered ++ (s.far.receive X.ctlPacket d).2.toOption.getD [] }

def Fits (s : Transfer) : Event → Prop
  | .poll nowMs => s.core.PollFits nowMs
  | _ => True

instance (s : Transfer) : (e : Event) → Decidable (s.Fits e)
  | .poll nowMs => inferInstanceAs (Decidable (s.core.PollFits nowMs))
  | .handshakeResp .. | .versionReject .. | .capacityReject | .reconnect _ | .setAvatar
  | .setName _ | .command _ | .media _ | .receive .. | .farSend _ | .farPoll _
  | .farReceive _ => isTrue trivial

/-- The link has taken every chunk the cursor has passed: whole trains of the picture with
this hash and the start of one. The far end has been handed the start of that. -/
def Gapless (hash : AvatarHash) (s : Transfer) : Prop :=
  ∃ bytes whole,
    (∀ own, s.core.ownAvatar = some own →
      own.1 = hash ∧ s.core.avatarCache.get hash = some bytes) ∧
    s.core.passed = (List.replicate whole (train hash bytes)).flatten ++
      (train hash bytes).take s.core.cursor ∧
    s.core.taken.filter isChunk = s.core.passed ∧
    (s.core.taken.length ≤ 2 ^ 64 → s.delivered.filter isChunk <+:
      (List.replicate (whole + 1) (train hash bytes)).flatten)

def pair (s : Transfer) : Pair :=
  { a := s.core.link, b := s.far, toB := s.toFar, toA := s.toCore
    accepted := s.core.taken, delivered := s.delivered }

variable {s : Transfer} {hash : AvatarHash}

theorem gapless_of_inv (hC : X.ctlPacket.Lawful) (hcore : s.core.Uploading hash)
    (hpair : Reachable (Pair.Step X.ctlPacket) Pair.init s.pair) : s.Gapless hash := by
  have hbegins : ∀ {chunks : List ControlMsg}, s.core.taken.filter isChunk <+: chunks →
      s.core.taken.length ≤ 2 ^ 64 → s.delivered.filter isChunk <+: chunks := by
    intro chunks htaken hfit
    exact ((Pair.reachable_inv hC hpair hfit).isPrefix.filter isChunk).trans htaken
  rcases hcore with hnone | ⟨bytes, hc⟩
  · have hempty : (train hash []).take s.core.cursor = [] := List.take_nil
    refine ⟨[], 0, fun own hown => ?_, ?_, hnone.chunks.trans hnone.passed.symm, hbegins ?_⟩
    · rw [hnone.own] at hown
      exact absurd hown.symm (Option.some_ne_none own)
    · rw [hnone.passed, hempty]
      rfl
    · rw [hnone.chunks]
      exact List.nil_prefix
  · obtain ⟨len, hlen⟩ := hc.own
    obtain ⟨whole, hpassed⟩ := hc.passed
    refine ⟨bytes, whole, fun own hown => ?_, hpassed, hc.chunks, hbegins ?_⟩
    · obtain rfl := Option.some.inj (hlen.symm.trans hown)
      exact ⟨rfl, hc.cached⟩
    · rw [hc.chunks, hpassed, List.replicate_succ', List.flatten_concat]
      exact (List.prefix_append_right_inj _).mpr (List.take_prefix _ _)

theorem says_reachable {core : ClientCore} (h : s.core.Says core)
    (hpair : Reachable (Pair.Step X.ctlPacket) Pair.init s.pair) :
    Reachable (Pair.Step X.ctlPacket) Pair.init { s with core }.pair := by
  obtain ⟨msgs, htakes, htaken⟩ := h
  unfold pair at hpair ⊢
  rw [htaken]
  clear htaken
  generalize s.core.link = l, s.core.taken = taken at hpair htakes
  induction msgs generalizing l taken with
  | nil =>
    have hlink : core.link = l := htakes
    rw [hlink, List.append_nil]
    exact hpair
  | cons msg rest ih =>
    obtain ⟨mid, hmid, hrest⟩ := htakes
    have hnext := ih mid (taken ++ [msg]) (hpair.tail (.sendA hmid)) hrest
    rwa [List.append_assoc] at hnext

theorem flush_reachable (hpair : Reachable (Pair.Step X.ctlPacket) Pair.init s.pair)
    (nowMs : UInt64) : Reachable (Pair.Step X.ctlPacket) Pair.init { s with
      core := (s.core.flushLink X nowMs).1
      toFar := s.toFar ++ (s.core.flushLink X nowMs).2 }.pair := by
  unfold ClientCore.flushLink
  split
  · rw [List.append_nil]
    exact hpair
  · exact hpair.tail (.pollA _ nowMs)

structure Inv (X : Externals) (hash : AvatarHash) (s : Transfer) : Prop where
  core : s.core.Uploading hash
  pair : Reachable (Pair.Step X.ctlPacket) Pair.init s.pair

theorem Inv.beside (h : Inv X hash s) {core : ClientCore} (hbeside : s.core.Beside core) :
    Inv X hash { s with core } :=
  ⟨hbeside.uploading h.core, says_reachable hbeside.speaks h.pair⟩

theorem Inv.flush (h : Inv X hash s) (nowMs : UInt64) : Inv X hash { s with
    core := (s.core.flushLink X nowMs).1
    toFar := s.toFar ++ (s.core.flushLink X nowMs).2 } := by
  refine ⟨?_, flush_reachable h.pair nowMs⟩
  have hcore := h.core
  unfold ClientCore.flushLink
  split
  · exact hcore
  · rcases hcore with hnone | ⟨bytes, hc⟩
    · exact .inl ⟨hnone.own, hnone.trains, hnone.passed, hnone.chunks⟩
    · exact .inr ⟨bytes, hc.own, hc.cached, hc.trains, hc.passed, hc.chunks⟩

theorem Inv.receive (h : Inv X hash s) (nowMs : UInt64) {d : Bytes} (hd : d ∈ s.toCore) :
    Inv X hash { s with
      core := (s.core.handlePlain X nowMs d).1
      toFar := s.toFar ++ (s.core.handlePlain X nowMs d).2 } := by
  unfold ClientCore.handlePlain
  split
  · rw [List.append_nil]
    exact h
  · simp only
    -- the link takes the packet, and each message it releases is handled
    have hopened : Inv X hash { s with core := { s.core with
        lastServerMs := nowMs, link := (s.core.link.receive X.ctlPacket d).1 } } := by
      refine ⟨?_, h.pair.tail (.receiveA hd)⟩
      rcases h.core with hnone | ⟨bytes, hc⟩
      · exact .inl ⟨hnone.own, hnone.trains, hnone.passed, hnone.chunks⟩
      · exact .inr ⟨bytes, hc.own, hc.cached, hc.trains, hc.passed, hc.chunks⟩
    obtain ⟨hcore, hsays⟩ := ClientCore.handleControl_foldl hopened.core X nowMs
      ((s.core.link.receive X.ctlPacket d).2.toOption.getD [])
    have hhandled := says_reachable hsays hopened.pair
    exact Inv.flush ⟨hcore, hhandled⟩ nowMs

theorem Inv.poll (h : Inv X hash s) {nowMs : UInt64} (hfits : s.core.PollFits nowMs) :
    Inv X hash { s with
      core := (s.core.poll X nowMs).1, toFar := s.toFar ++ (s.core.poll X nowMs).2 } := by
  unfold ClientCore.poll
  split
  · split_ifs
    · rw [List.append_nil]
      exact h.beside (.of_eq rfl rfl rfl rfl rfl rfl)
    · rw [List.append_nil]
      exact h
  · rename_i hjoined
    split_ifs with hlost
    · rw [List.append_nil]
      exact h.beside (.of_eq rfl rfl rfl rfl rfl rfl)
    · obtain ⟨hcore, hsays⟩ := h.core.fed nowMs
        (avatarChunksPerPoll + (s.core.ping nowMs).avatarTx.length)
        (hfits hjoined (Bool.eq_false_iff.mpr hlost))
      exact Inv.flush ⟨hcore, says_reachable hsays h.pair⟩ nowMs
  · rw [List.append_nil]
    exact h

theorem Inv.step {picture : Bytes} (h : Inv X (X.blake2s picture) s) {e : Event}
    (hfits : s.Fits e) : Inv X (X.blake2s picture) (s.step X picture e) := by
  cases e with
  | handshakeResp nowMs id => exact h.beside (.handshakeResp s.core nowMs id)
  | versionReject ours theirs => exact h.beside (.versionReject s.core ours theirs)
  | capacityReject => exact h.beside (.capacityReject s.core)
  | reconnect nowMs => exact ⟨h.core.reconnect nowMs, .refl⟩
  | setAvatar =>
    obtain ⟨hcore, hsays⟩ := h.core.setAvatar X
    exact ⟨hcore, says_reachable hsays h.pair⟩
  | setName name => exact h.beside (.setName s.core name)
  | command cmd => exact h.beside (.command s.core cmd)
  | media nowMs => exact h.beside (.handleMedia s.core nowMs)
  | receive nowMs i =>
    simp only [Transfer.step]
    split
    · exact h
    · rename_i d hd
      exact h.receive nowMs (List.mem_of_getElem? hd)
  | poll nowMs => exact h.poll hfits
  | farSend msg =>
    refine ⟨h.core, ?_⟩
    cases hsend : s.far.send msg with
    | error e =>
      have hsame : s.step X picture (.farSend msg) = s := by
        simp only [Transfer.step, hsend]
        rfl
      rw [hsame]
      exact h.pair
    | ok far =>
      have hmoved : s.step X picture (.farSend msg) = { s with far } := by
        simp only [Transfer.step, hsend]
        rfl
      rw [hmoved]
      exact h.pair.tail (.sendB hsend)
  | farPoll nowMs => exact ⟨h.core, h.pair.tail (.pollB _ nowMs)⟩
  | farReceive i =>
    simp only [Transfer.step]
    split
    · exact h
    · rename_i d hd
      exact ⟨h.core, h.pair.tail (.receiveB (List.mem_of_getElem? hd))⟩

/-- No chunk is lost while every poll finds a slot for what it feeds. -/
theorem no_chunk_lost (X : Externals) (hC : X.ctlPacket.Lawful) (picture : Bytes)
    (nowMs : UInt64) {events : List Event}
    (h : Meets (step X picture) Fits (start nowMs) events) :
    Throughout (step X picture) (Gapless (X.blake2s picture)) (start nowMs) events := by
  have hstart : Inv X (X.blake2s picture) (start nowMs) :=
    ⟨.inl ⟨rfl, rfl, rfl, rfl⟩, .refl⟩
  have hinv : Throughout (step X picture) (Inv X (X.blake2s picture)) (start nowMs) events :=
    throughout_of_meets (fun _ _ hs hfits => hs.step hfits) hstart h
  exact hinv.imp fun _ hs => gapless_of_inv hC hs.core hs.pair

/-- A picture of one byte is announced, asked for and sent. -/
def sent : List Event :=
  [.setAvatar, .handshakeResp 0 1, .poll 1, .farReceive 0,
    .farSend (.avatarRequest (plaintext.blake2s [7])), .farPoll 1, .receive 2 0, .poll 2]

theorem no_chunk_lost_sent : Throughout (step plaintext [7]) (Gapless (plaintext.blake2s [7]))
    (start 0) sent :=
  no_chunk_lost plaintext Postcard.ctlPacket_lawful [7] 0 (by decide +kernel)

/-- The same, with every slot of the link taken by the member's own commands in between. -/
def crowded : List Event :=
  [.setAvatar, .handshakeResp 0 1, .poll 1, .farReceive 0,
    .farSend (.avatarRequest (plaintext.blake2s [7])), .farPoll 1, .receive 2 0] ++
    List.replicate maxPending (.command (.setClick true)) ++ [.poll 2]

/-- The chunk finds no slot, and the cursor has moved past it. -/
theorem no_chunk_lost_crowded :
    ¬∀ (X : Externals), X.ctlPacket.Lawful → ∀ (picture : Bytes) (nowMs : UInt64)
      (events : List Event),
      Throughout (step X picture) (Gapless (X.blake2s picture)) (start nowMs) events := by
  intro h
  have hgapless := (h plaintext Postcard.ctlPacket_lawful [7] 0 crowded).last
  have hrun : (run (step plaintext [7]) (start 0) crowded).core.taken.filter isChunk ≠
      (run (step plaintext [7]) (start 0) crowded).core.passed := by decide +kernel
  obtain ⟨bytes, whole, -, -, hchunks, -⟩ := hgapless
  exact hrun hchunks

end Transfer
end JamStream.Session
