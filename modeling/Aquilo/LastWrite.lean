/-
A keyed store in which a write replaces what its key holds, as a broker keeps the
last retained message of a topic.
-/
import Mathlib.Data.List.Basic
import Mathlib.Logic.Function.Basic

namespace LastWrite

universe u v

/-- A write gives its key a value, or leaves it without one. -/
structure Write (κ : Type u) (ν : Type v) where
  key : κ
  value : Option ν

abbrev Store (κ : Type u) (ν : Type v) := κ → Option ν

variable {κ : Type u} {ν : Type v} [DecidableEq κ]

namespace Store

def write (s : Store κ ν) (w : Write κ ν) : Store κ ν :=
  Function.update s w.key w.value

def writeAll (s : Store κ ν) (ws : List (Write κ ν)) : Store κ ν :=
  ws.foldl write s

@[simp] theorem writeAll_nil (s : Store κ ν) : s.writeAll [] = s := rfl

theorem writeAll_cons (s : Store κ ν) (w : Write κ ν) (ws : List (Write κ ν)) :
    s.writeAll (w :: ws) = (s.write w).writeAll ws := rfl

theorem writeAll_append (s : Store κ ν) (xs ys : List (Write κ ν)) :
    s.writeAll (xs ++ ys) = (s.writeAll xs).writeAll ys := List.foldl_append

@[simp] theorem write_self (s : Store κ ν) (w : Write κ ν) :
    s.write w w.key = w.value := Function.update_self ..

theorem write_of_ne {k : κ} {w : Write κ ν} (h : k ≠ w.key) (s : Store κ ν) :
    s.write w k = s k := Function.update_of_ne h ..

end Store

end LastWrite
