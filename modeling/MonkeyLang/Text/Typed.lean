import MonkeyLang.Text.Cluster

/-!
# Typed text

A text as it was typed, and what stays of it: a backspace takes back the cluster before it.  The
sizes of clusters are kept in one byte each, so a cluster of 256 bytes or more gives up its last
bytes only, which may be no whole characters.  A text without a backspace stays as it is
(`typed_of_notMem`).
-/

namespace MonkeyLang.Text

/-! ## Algorithm -/

def backspace : Char := '\x08'

/-- The number of bytes in UTF-8, modulo 256. -/
def sizeByte (cluster : List Char) : Nat :=
  cluster.foldl (fun n c => n + c.utf8Size) 0 % 256

/-- Takes `n` bytes off the end of a text, whose last character comes first; none if that cuts a
character in two. -/
def dropBytes : (n : Nat) → List Char → Option (List Char)
  | 0, cs => some cs
  | _ + 1, [] => none
  | n + 1, c :: cs => if c.utf8Size ≤ n + 1 then dropBytes (n + 1 - c.utf8Size) cs else none

/-- What stays of the clusters behind `done`, whose last character comes first; `sizes` are those
of the clusters in it, the last one first. -/
def typedBehind (done : List Char) (sizes : List Nat) : List (List Char) → Option (List Char)
  | [] => some done.reverse
  | g :: gs =>
    if g = [backspace] then
      match sizes with
      | [] => typedBehind done [] gs
      | n :: sizes =>
        match dropBytes n done with
        | some done => typedBehind done sizes gs
        | none => none
    else typedBehind (g.reverse ++ done) (sizeByte g :: sizes) gs

/-- What stays of a text; none if a character is cut in two. -/
def typed (cs : List Char) : Option (List Char) := typedBehind [] [] (clusters cs)

/-! ## Lemmas -/

theorem typedBehind_of_notMem {gs : List (List Char)} (h : [backspace] ∉ gs) (done : List Char)
    (sizes : List Nat) : typedBehind done sizes gs = some (done.reverse ++ gs.flatten) := by
  induction gs generalizing done sizes with
  | nil => simp [typedBehind]
  | cons g gs ih =>
    rw [List.mem_cons, not_or] at h
    rw [typedBehind.eq_def]
    simp only [if_neg (Ne.symm h.1)]
    rw [ih h.2]
    simp

/-- What was typed without a backspace stays as it is. -/
theorem typed_of_notMem {cs : List Char} (h : backspace ∉ cs) : typed cs = some cs := by
  have hgs : [backspace] ∉ clusters cs := fun hg => h <| by
    rw [← flatten_clusters cs]
    exact List.mem_flatten_of_mem hg List.mem_cons_self
  rw [typed, typedBehind_of_notMem hgs, flatten_clusters]
  rfl

end MonkeyLang.Text
