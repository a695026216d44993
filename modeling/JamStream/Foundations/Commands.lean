import Mathlib

/-! Commands that may stop with an error, and the state they leave either way. -/

namespace JamStream.Foundations

abbrev Command (σ ε α : Type) := ExceptT ε (StateM σ) α

namespace Command
variable {σ ε α β γ : Type}

def ends (m : Command σ ε α) (s : σ) : Except ε α × σ := m.run.run s

/-- A step that stops with the answer it is given, if that is an error. -/
def answer (r : Except ε α) : Command σ ε α := ExceptT.mk (pure r)

theorem ends_answer (r : Except ε α) (s : σ) : (answer r).ends s = (r, s) := rfl

def attempt (m : Command σ ε α) : Command σ ε (Except ε α) := ExceptT.mk fun s =>
  (.ok (m.ends s).1, (m.ends s).2)

section bind
variable {m : Command σ ε α} {f : α → Command σ ε β} {s t : σ}

theorem ends_bind_ok {a : α} (h : m.ends s = (.ok a, t)) :
    (m >>= f).ends s = (f a).ends t := by
  have hrun : m s = (.ok a, t) := h
  show (ExceptT.bind m f) s = _
  simp only [ExceptT.bind, ExceptT.mk, bind, StateT.bind, hrun, ExceptT.bindCont]
  rfl

theorem ends_bind_error {e : ε} (h : m.ends s = (.error e, t)) :
    (m >>= f).ends s = (.error e, t) := by
  have hrun : m s = (.error e, t) := h
  show (ExceptT.bind m f) s = _
  simp only [ExceptT.bind, ExceptT.mk, bind, StateT.bind, hrun, ExceptT.bindCont]
  rfl

theorem ends_bind_iff {b : β} {u : σ} :
    (m >>= f).ends s = (.ok b, u) ↔
      ∃ a t, m.ends s = (.ok a, t) ∧ (f a).ends t = (.ok b, u) := by
  rcases hends : m.ends s with ⟨e | a, t⟩
  · rw [ends_bind_error hends]
    apply iff_of_false
    · exact fun h => nomatch congrArg Prod.fst h
    · rintro ⟨a, t', h, -⟩
      exact nomatch congrArg Prod.fst h
  · rw [ends_bind_ok hends]
    constructor
    · exact fun h => ⟨a, t, rfl, h⟩
    · rintro ⟨a', t', h, hf⟩
      obtain ⟨ha, rfl⟩ := Prod.mk.inj h
      obtain rfl := Except.ok.inj ha
      exact hf

theorem ends_answer_bind_ok {r : Except ε α} {a : α} (h : r = .ok a) :
    (answer r >>= f).ends s = (f a).ends s :=
  ends_bind_ok (congrArg (·, s) h)

theorem ends_answer_bind_iff {r : Except ε α} {b : β} {u : σ} :
    (answer r >>= f).ends s = (.ok b, u) ↔ ∃ a, r = .ok a ∧ (f a).ends s = (.ok b, u) := by
  rcases r with e | a
  · have hstop : (answer (.error e) >>= f).ends s = (.error e, s) := ends_bind_error rfl
    rw [hstop]
    exact iff_of_false nofun nofun
  · rw [ends_answer_bind_ok rfl]
    exact ⟨fun h => ⟨a, rfl, h⟩, fun ⟨a', ha, h⟩ => Except.ok.inj ha ▸ h⟩

end bind

def Keeps (view : σ → γ) (m : Command σ ε α) : Prop := ∀ s, view (m.ends s).2 = view s

variable {view : σ → γ}

theorem keeps_pure (a : α) : Keeps view (pure a : Command σ ε α) := fun _ => rfl

theorem keeps_throw (e : ε) : Keeps view (throw e : Command σ ε α) := fun _ => rfl

theorem keeps_answer (r : Except ε α) : Keeps view (answer r : Command σ ε α) := fun _ => rfl

theorem keeps_bind {m : Command σ ε α} {f : α → Command σ ε β} (hm : Keeps view m)
    (hf : ∀ a, Keeps view (f a)) : Keeps view (m >>= f) := by
  intro s
  have hstate := hm s
  rcases hends : m.ends s with ⟨_ | _, t⟩
  · rw [ends_bind_error hends]
    rw [hends] at hstate
    exact hstate
  · rw [ends_bind_ok hends, hf]
    rw [hends] at hstate
    exact hstate

theorem keeps_attempt {m : Command σ ε α} (hm : Keeps view m) : Keeps view (attempt m) := hm

theorem keeps_adapt {m : Command σ ε α} (f : ε → ε) (hm : Keeps view m) :
    Keeps view (ExceptT.adapt f m : Command σ ε α) := hm

theorem keeps_forM {f : β → Command σ ε Unit} (hf : ∀ b, Keeps view (f b)) (l : List β) :
    Keeps view (l.forM f) := by
  induction l with
  | nil => exact keeps_pure ()
  | cons b l ih => exact keeps_bind (hf b) fun _ => ih

def Yields (P : α → Prop) (m : Command σ ε α) : Prop := ∀ s a t, m.ends s = (.ok a, t) → P a

theorem yields_pure {P : α → Prop} {a : α} (ha : P a) : Yields P (pure a : Command σ ε α) := by
  intro s b t h
  obtain ⟨hab, -⟩ := Prod.mk.inj h
  exact Except.ok.inj hab ▸ ha

theorem yields_bind {P : β → Prop} {m : Command σ ε α} {f : α → Command σ ε β}
    (hf : ∀ a, Yields P (f a)) : Yields P (m >>= f) := by
  intro s b t h
  obtain ⟨a, u, -, ha⟩ := ends_bind_iff.mp h
  exact hf a u b t ha

theorem state_bind_answer (m : Command σ ε α) (f : α → Except ε β) (s : σ) :
    ((m >>= fun a => answer (f a)).ends s).2 = (m.ends s).2 := by
  rcases hends : m.ends s with ⟨_ | a, t⟩
  · rw [ends_bind_error hends]
  · rw [ends_bind_ok hends]
    rfl

end Command
end JamStream.Foundations
