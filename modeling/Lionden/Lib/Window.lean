import Mathlib.Data.List.DropRight

/-!
# The last elements of a stream

A buffer to which pieces are appended and of which only the last `n` elements are kept.

`keep_rtake`: with every piece, the buffer still holds the last elements of everything.
-/

namespace Lionden.Window

variable {α : Type}

/-- A piece is appended, and what is too much is dropped at the front. -/
def keep (n : Nat) (buffer piece : List α) : List α := (buffer ++ piece).rtake n

theorem rtake_suffix (n : Nat) (l : List α) : l.rtake n <:+ l := List.drop_suffix ..

theorem keep_rtake (n : Nat) (l piece : List α) :
    keep n (l.rtake n) piece = (l ++ piece).rtake n := by
  unfold keep List.rtake
  rw [← List.drop_append_of_le_length (Nat.sub_le ..), List.drop_drop]
  congr 1
  simp only [List.length_append, List.length_drop]
  omega

end Lionden.Window
