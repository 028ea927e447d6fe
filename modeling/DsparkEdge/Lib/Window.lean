import Mathlib.Data.List.Basic
import Mathlib.Tactic.Common

/-! The last `n` entries of a list that grows at its end, kept in a window that is cut after every entry.

        … x x x x x x x y      xs ++ [y]
              └─ n ─┘          the window before
                └─ n ─┘        the window after: cutting early loses nothing

    And the last value of some kind in such a list. -/

namespace DsparkEdge.Window

variable {α : Type*}

/-- The last `n` entries. -/
def lastN (n : ℕ) (xs : List α) : List α := xs.drop (xs.length - n)

@[simp] theorem length_lastN (n : ℕ) (xs : List α) : (lastN n xs).length = min n xs.length := by
  rw [lastN, List.length_drop]
  omega

theorem lastN_sublist (n : ℕ) (xs : List α) : (lastN n xs).Sublist xs := List.drop_sublist _ _

/-- A window that was cut before more entries came shows the same as one that was not. -/
theorem lastN_lastN_append (n : ℕ) (xs ys : List α) :
    lastN n (lastN n xs ++ ys) = lastN n (xs ++ ys) := by
  have hsplit : xs ++ ys = xs.take (xs.length - n) ++ (lastN n xs ++ ys) := by
    rw [lastN, ← List.append_assoc, List.take_append_drop]
  have hcut : lastN n xs ++ ys = (xs ++ ys).drop (xs.length - n) := by
    rw [hsplit, List.drop_left' (by simp)]
  rw [hcut, lastN, lastN, List.drop_drop, List.length_drop, List.length_append]
  congr 1
  omega

theorem lastN_lastN (n : ℕ) (xs : List α) : lastN n (lastN n xs) = lastN n xs := by
  simpa using lastN_lastN_append n xs []

/-! ### The last value -/

section Latest

variable {β : Type*} (f : α → Option β)

/-- The last value that `f` finds in a log. -/
def latest (log : List α) : Option β := log.reverse.findSome? f

@[simp] theorem latest_nil : latest f [] = none := rfl

theorem latest_append (xs ys : List α) : latest f (xs ++ ys) = (latest f ys).or (latest f xs) := by
  simp [latest]

@[simp] theorem latest_singleton (x : α) : latest f [x] = f x := by
  cases h : f x <;> simp [latest, h]

theorem latest_concat (xs : List α) (x : α) : latest f (xs ++ [x]) = (f x).or (latest f xs) := by
  rw [latest_append, latest_singleton]

theorem latest_cons (x : α) (xs : List α) : latest f (x :: xs) = (latest f xs).or (f x) := by
  rw [← List.singleton_append, latest_append, latest_singleton]

end Latest

end DsparkEdge.Window
