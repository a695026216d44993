import JamStream.Session.ServerCore

/-! What the operations of the core do to the member table, entry by entry. A
relation between an entry before and after is carried through each of them, and
through any number of them when it is reflexive and transitive. -/

namespace JamStream.Session
open Protocol Engine Foundations
variable {X : Externals}

namespace ServerCore

/-- The same members before and after, each entry related to what became of it. -/
def Entries (R : MemberId → Member X → Member X → Prop) (s s' : ServerCore X) : Prop :=
  ∀ id, Option.Rel (R id) s.members[id]? s'.members[id]?

variable {R : MemberId → Member X → Member X → Prop} {s s' s'' : ServerCore X}

theorem Entries.of_eq (hR : ∀ id m, R id m m) (h : s'.members = s.members) : Entries R s s' := by
  intro id
  rw [h]
  cases s.members[id]? with
  | none => exact .none
  | some m => exact .some (hR id m)

theorem Entries.trans (hR : ∀ id a b c, R id a b → R id b c → R id a c)
    (h : Entries R s s') (h' : Entries R s' s'') : Entries R s s'' := by
  intro id
  have h₁ := h id
  have h₂ := h' id
  revert h₁ h₂
  generalize s.members[id]? = a, s'.members[id]? = b, s''.members[id]? = c
  rintro (h₁ | _) (h₂ | _)
  · exact .some (hR id _ _ _ h₁ h₂)
  · exact .none

theorem Entries.some {id : MemberId} {m : Member X} (h : Entries R s s')
    (hm : s.members[id]? = some m) : ∃ m', s'.members[id]? = Option.some m' ∧ R id m m' := by
  have hrel := h id
  rw [hm] at hrel
  generalize s'.members[id]? = e at hrel
  cases hrel with
  | some hr => exact ⟨_, rfl, hr⟩

theorem Entries.some_after {id : MemberId} {m' : Member X} (h : Entries R s s')
    (hm : s'.members[id]? = Option.some m') : ∃ m, s.members[id]? = Option.some m ∧ R id m m' := by
  have hrel := h id
  rw [hm] at hrel
  generalize s.members[id]? = e at hrel
  cases hrel with
  | some hr => exact ⟨_, rfl, hr⟩

theorem Entries.mono {R' : MemberId → Member X → Member X → Prop}
    (himp : ∀ id m m', R id m m' → R' id m m') (h : Entries R s s') : Entries R' s s' :=
  fun id => by
    have hrel := h id
    revert hrel
    generalize s.members[id]? = a, s'.members[id]? = b
    rintro (hr | _)
    · exact .some (himp _ _ _ hr)
    · exact .none

theorem members_update (s : ServerCore X) (id id' : MemberId) (f : Member X → Member X) :
    (s.update id f).members[id']? =
      if id = id' then s.members[id']?.map f else s.members[id']? :=
  OrderedMap.getElem?_modify _ _ _ _

theorem members_each (s : ServerCore X)
    (f : MemberId → Member X → Member X × Outgoing × List Refusal) (id : MemberId) :
    (s.each f).1.members[id]? = s.members[id]?.map fun m => (f id m).1 :=
  Std.ExtTreeMap.getElem?_map

theorem entries_map {g : MemberId → Member X → Member X} (hg : ∀ id m, R id m (g id m))
    (h : ∀ id, s'.members[id]? = s.members[id]?.map (g id)) : Entries R s s' := by
  intro id
  rw [h]
  cases s.members[id]? with
  | none => exact .none
  | some m => exact .some (hg id m)

theorem entries_update {id : MemberId} {f : Member X → Member X} (hR : ∀ id m, R id m m)
    (hf : ∀ m, s.members[id]? = some m → R id m (f m)) : Entries R s (s.update id f) := by
  intro id'
  rw [members_update]
  split_ifs with h
  · subst h
    cases hm : s.members[id]? with
    | none => exact .none
    | some m => exact .some (hf m hm)
  · cases s.members[id']? with
    | none => exact .none
    | some m => exact .some (hR id' m)

theorem entries_queue {id : MemberId} {msg : ControlMsg} (hR : ∀ id m, R id m m)
    (hf : ∀ m, R id m (m.send msg)) : Entries R s (s.queue id msg) :=
  entries_update (s := s) (f := fun m => m.send msg) hR fun m _ => hf m

theorem entries_each {f : MemberId → Member X → Member X × Outgoing × List Refusal}
    (hf : ∀ id m, R id m (f id m).1) : Entries R s (s.each f).1 :=
  entries_map hf (members_each s f)

theorem entries_relay {msg : ControlMsg} (hR : ∀ id m, R id m m)
    (hf : ∀ id m, R id m (m.send msg)) : Entries R s (s.relay msg) := by
  refine entries_each fun id m => ?_
  split_ifs
  · exact hf id m
  · exact hR id m

theorem entries_disconnectMember {id : MemberId} (hR : ∀ id m, R id m m)
    (hf : ∀ m, R id m m.disconnect) : Entries R s (s.disconnectMember id) := by
  unfold disconnectMember
  by_cases h : s.isConnected id
  · rw [if_pos h]
    exact entries_update (s := s) hR fun m _ => hf m
  · rw [if_neg h]
    exact .of_eq hR rfl

end ServerCore
end JamStream.Session
