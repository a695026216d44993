import JamStream.Session.Aside

/-! What goes out beside admission is a transport packet, whatever it carries. -/

namespace JamStream.Session
open Protocol Engine Foundations
variable {X : Externals}

def Sealed (out : Outgoing) : Prop := ∀ p ∈ out, p.2.head? = some Wire.typeTransport

variable {out out' : Outgoing}

theorem Sealed.nil : Sealed [] := fun _ hp => absurd hp List.not_mem_nil

theorem Sealed.append (h : Sealed out) (h' : Sealed out') : Sealed (out ++ out') :=
  List.forall_mem_append.mpr ⟨h, h'⟩

theorem Sealed.flatMap {α : Type*} {f : α → Outgoing} (hf : ∀ a, Sealed (f a)) (xs : List α) :
    Sealed (xs.flatMap f) := by
  intro p hp
  obtain ⟨a, -, ha⟩ := List.mem_flatMap.mp hp
  exact hf a p ha

namespace Member

theorem post_sealed (m : Member X) (id : MemberId) (plain : Bytes) : Sealed (m.post id plain).2 := by
  unfold post
  split
  · intro p hp
    obtain ⟨packet, hpacket, rfl⟩ := List.mem_map.mp hp
    obtain ⟨ciphertext, -, rfl⟩ := Option.map_eq_some_iff.mp (Option.mem_toList.mp hpacket)
    rfl
  · exact .nil

theorem postAll_sealed (id : MemberId) (plains : List Bytes) (m : Member X) :
    Sealed (postAll id plains m).2 := by
  induction plains generalizing m with
  | nil => exact .nil
  | cons plain rest ih => exact (post_sealed m id plain).append (ih _)

theorem flush_sealed (m : Member X) (id : MemberId) (nowMs : UInt64) :
    Sealed (m.flush id nowMs).2 := postAll_sealed id _ _

theorem sendFrame_sealed (m : Member X) (id : MemberId) (timestamp : UInt64)
    (duration : FrameDuration) (payload : Bytes) :
    Sealed (m.sendFrame id timestamp duration payload).2 := post_sealed _ id _

theorem sendMix_sealed (m : Member X) (id : MemberId) (clock : UInt64)
    (pcm : Stereo X.toAudio) : Sealed (m.sendMix id clock pcm).2 := by
  unfold sendMix
  split
  · exact .nil
  · split
    · exact .nil
    · exact sendFrame_sealed _ id _ _ _

end Member

namespace ServerCore

theorem each_sealed (s : ServerCore X)
    {f : MemberId → Member X → Member X × Outgoing × List Refusal}
    (hf : ∀ id m, Sealed (f id m).2.1) : Sealed (s.each f).2 := by
  have hall : ∀ e : MemberId × Member X, Sealed (f e.1 e.2).2.1 := fun e => hf e.1 e.2
  exact .flatMap hall _

theorem flushMemberLink_sealed (s : ServerCore X) (nowMs : UInt64) (id : MemberId) :
    Sealed (s.flushMemberLink nowMs id).2 := by
  unfold flushMemberLink
  split
  · exact .nil
  · split_ifs
    · exact Member.flush_sealed _ id nowMs
    · exact .nil

theorem farewell_sealed (s : ServerCore X) (nowMs : UInt64) (id : MemberId) (reason : String) :
    Sealed (s.farewell nowMs id reason).2 := by
  unfold farewell
  split_ifs
  · exact flushMemberLink_sealed _ nowMs id
  · exact .nil

theorem revoke_sealed (s : ServerCore X) (nowMs : UInt64) (jti : TokenId) :
    Sealed (s.revoke nowMs jti).2 := by
  simp only [revoke]
  split
  · exact .nil
  · exact farewell_sealed _ nowMs _ _

theorem handleControl_sealed (s : ServerCore X) (nowMs : UInt64) (sender : MemberId)
    (msg : ControlMsg) : Sealed (s.handleControl nowMs sender msg).2 := by
  cases msg with
  | revoke jti =>
    show Sealed (if sender ≠ hostMemberId then _ else _ : ServerCore X × Outgoing).2
    split_ifs
    · exact .nil
    · exact revoke_sealed s nowMs jti
  | _ => exact .nil

theorem handleBatch_sealed (nowMs : UInt64) (sender : MemberId) (msgs : List ControlMsg)
    (s : ServerCore X) : Sealed (handleBatch nowMs sender msgs s).2 := by
  induction msgs generalizing s with
  | nil => exact .nil
  | cons msg rest ih => exact (handleControl_sealed s nowMs sender msg).append (ih _)

theorem handleTransport_sealed (s : ServerCore X) (nowMs : UInt64) (src : SocketAddr)
    (id : MemberId) (counter : UInt64) (ciphertext : Bytes) :
    Sealed (s.handleTransport nowMs src id counter ciphertext).2 := by
  unfold handleTransport
  generalize s.openTransport nowMs src id counter ciphertext = r
  match r with
  | (t, none) => exact .nil
  | (t, some (.error what)) => exact .nil
  | (t, some (.ok none)) => exact .nil
  | (t, some (.ok (some msgs))) =>
    exact (handleBatch_sealed nowMs id msgs t).append (flushMemberLink_sealed _ nowMs id)

theorem sendMixes_sealed (s : ServerCore X) (clock : UInt64) : Sealed (s.sendMixes clock).2 := by
  refine each_sealed s fun id m => ?_
  split_ifs
  · exact Member.sendMix_sealed m id clock _
  · exact .nil

theorem sendBroadcast_sealed (s : ServerCore X) : Sealed s.sendBroadcast.2 := by
  unfold sendBroadcast
  split
  · split
    · exact .nil
    · split
      · exact .nil
      · refine each_sealed _ fun id m => ?_
        split_ifs
        · exact Member.sendFrame_sealed m id _ _ _
        · exact .nil
  · exact .nil

theorem pollLinks_sealed (s : ServerCore X) (nowMs : UInt64) : Sealed (s.pollLinks nowMs).2 := by
  refine each_sealed s fun id m => ?_
  split_ifs
  · exact Member.flush_sealed _ id nowMs
  · exact .nil

theorem tick_sealed (s : ServerCore X) (nowMs : UInt64) : Sealed (s.tick nowMs).2 := by
  simp only [tick, tickAudio, tickControl]
  exact ((sendMixes_sealed _ _).append (sendBroadcast_sealed _)).append (pollLinks_sealed _ nowMs)

theorem shutdown_sealed (s : ServerCore X) (nowMs : UInt64) (reason : String) :
    Sealed (s.shutdown nowMs reason).2 := by
  have hdepartures : ∀ (ids : List MemberId) (r : ServerCore X × Outgoing), Sealed r.2 →
      Sealed (ids.foldl (fun (r : ServerCore X × Outgoing) id =>
        let f := r.1.farewell nowMs id reason
        ((f.1.disconnectMember id).emit (.memberDisconnected id), r.2 ++ f.2)) r).2 := by
    intro ids
    induction ids with
    | nil => exact fun r hr => hr
    | cons id rest ih => exact fun r hr => ih _ (hr.append (farewell_sealed r.1 nowMs id reason))
  exact hdepartures _ (_, []) .nil

theorem call_sealed {c : Call} (s : ServerCore X)
    (hc : ∀ nowMs nowUnix src data ephemeral,
      c ≠ .handleDatagram nowMs nowUnix src data ephemeral) : Sealed (s.call c).2 := by
  cases c with
  | handleDatagram nowMs nowUnix src data ephemeral => exact absurd rfl (hc _ _ _ _ _)
  | tick nowMs => exact tick_sealed s nowMs
  | shutdown nowMs reason => exact shutdown_sealed s nowMs reason
  | _ => exact .nil

end ServerCore
end JamStream.Session
