import Mathlib

/-! A bounded queue between one producer and one consumer, who put in and take out as much as
there is room for or as much as there is. -/

namespace JamStream.Foundations

structure Ring (α : Type*) (capacity : ℕ) where
  items : List α
  bounded : items.length ≤ capacity

namespace Ring
variable {α : Type*} {capacity : ℕ} (r : Ring α capacity) (xs : List α) (n : ℕ)

def empty : Ring α capacity := ⟨[], Nat.zero_le capacity⟩

def free : ℕ := capacity - r.items.length

def push : Ring α capacity where
  items := r.items ++ xs.take r.free
  bounded := by
    have hbounded := r.bounded
    rw [List.length_append, List.length_take, free]
    omega

def pop : Ring α capacity where
  items := r.items.drop n
  bounded := by
    have hbounded := r.bounded
    rw [List.length_drop]
    omega

@[simp] theorem items_empty : (empty : Ring α capacity).items = [] := rfl

@[simp] theorem items_push : (r.push xs).items = r.items ++ xs.take r.free := rfl

@[simp] theorem items_pop : (r.pop n).items = r.items.drop n := rfl

theorem take_append_pop : r.items.take n ++ (r.pop n).items = r.items := List.take_append_drop n _

theorem length_push_ge : r.items.length ≤ (r.push xs).items.length := by
  rw [items_push, List.length_append]
  exact Nat.le_add_right _ _

/-- What a queue took in, in order, is what was taken out of it and then what is in it. -/
def Accounts (r : Ring α capacity) (taken given : List α) : Prop := taken = given ++ r.items

variable {r xs n} {taken given : List α}

theorem Accounts.push (h : r.Accounts taken given) :
    (r.push xs).Accounts (taken ++ xs.take r.free) given := by
  rw [Accounts, h, items_push, List.append_assoc]

theorem Accounts.pop (h : r.Accounts taken given) :
    (r.pop n).Accounts taken (given ++ r.items.take n) := by
  rw [Accounts, List.append_assoc, take_append_pop]
  exact h

end Ring
end JamStream.Foundations
