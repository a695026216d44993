import Mathlib

/-! Byte formats as a writer and a reader. The reader takes what it understands
off the front of its input and hands back the rest. -/

namespace JamStream.Foundations

structure Codec (α : Type) where
  ser : α → List UInt8
  de : List UInt8 → Option (α × List UInt8)

namespace Codec
variable {α : Type}

def Lawful (C : Codec α) : Prop := ∀ a rest, C.de (C.ser a ++ rest) = some (a, rest)

theorem Lawful.de_ser {C : Codec α} (h : C.Lawful) (a : α) : C.de (C.ser a) = some (a, []) := by
  simpa only [List.append_nil] using h a []

end Codec
end JamStream.Foundations
