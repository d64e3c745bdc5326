import MonkeyLang.Proofs.Running.Agreement
import MonkeyLang.Proofs.Running.Traces

/-!
# Consoles that answer alike for a while

Two consoles may give the same lines only until the first one is past some point, as when so much
of its input has been read that the two inputs are not the same any more.  No program comes back
from there.  So if a program has not come past the point when it ends, it has done the same on both
consoles (`Machine.Alike.runSource_until`), also in what can be noted of it on the way
(`Machine.eventsOf`).
-/

namespace MonkeyLang

open Recorded (erase_bind)
open Run (final)

variable {κ κ' α β : Type}

/-- The consoles stay in the relation, and give the same lines, until the first one is past some
point, which it then stays. -/
structure Console.SimulatesUntil [Console κ] [Console κ'] (Past : κ → Prop) (R : κ → κ' → Prop) :
    Prop where
  past_writeLine {c : κ} (h : Past c) (line : String) : Past (Console.writeLine c line)
  past_readLine {c : κ} (h : Past c) (prompt : Option String) : Past (Console.readLine c prompt).2
  writeLine {c : κ} {c' : κ'} (hR : R c c') (line : String) :
    R (Console.writeLine c line) (Console.writeLine c' line)
  readLine {c : κ} {c' : κ'} (hR : R c c') (prompt : Option String) :
    Past (Console.readLine c prompt).2 ∨
      ((Console.readLine c prompt).1 = (Console.readLine c' prompt).1 ∧
        R (Console.readLine c prompt).2 (Console.readLine c' prompt).2)

/-! ## Runs -/

namespace Run

variable {Past : κ → Prop} {R : κ → κ' → Prop}

/-- The runs end alike, or the first one ends past the point; from past it, it ends past it. -/
structure AgreeUntil (Past : κ → Prop) (R : κ → κ' → Prop) (x : Run κ α) (x' : Run κ' α) :
    Prop where
  past (m : Machine κ) (h : Past m.console) : Past (final (x m)).console
  alike (m : Machine κ) (m' : Machine κ') (h : m.Alike R m') :
    Past (final (x m)).console ∨ EndsAlike R (x m) (x' m')

/-- A run that leaves the console as it is comes past nothing. -/
theorem Agree.until {x : Run κ α} {x' : Run κ' α} (h : Agree R x x')
    (hx : ∀ m, (final (x m)).console = m.console) : AgreeUntil Past R x x' where
  past m hm := by
    rw [hx]
    exact hm
  alike m m' hm := .inr (h m m' hm)

theorem Looks.agreeUntil [Nonempty κ'] {x : Run κ α} {x' : Run κ' α} (h : Looks x x') :
    AgreeUntil Past R x x' := by
  refine h.agree.until fun m => ?_
  obtain ⟨c'⟩ := ‹Nonempty κ'›
  rcases h m ⟨m.heap, m.scopes, c'⟩ rfl rfl with ⟨a, hx, -⟩ | ⟨e, hx, -⟩
  · rw [hx]
    rfl
  · rw [hx]
    rfl

/-- Once past the point, the first run stays there. -/
theorem AgreeUntil.bind {x : Run κ α} {x' : Run κ' α} {f : α → Run κ β} {f' : α → Run κ' β}
    (hx : AgreeUntil Past R x x') (hf : ∀ a, AgreeUntil Past R (f a) (f' a)) :
    AgreeUntil Past R (x >>= f) (x' >>= f') where
  past m hm := by
    have h := hx.past m hm
    show Past (final (EStateM.bind x f m)).console
    unfold EStateM.bind
    cases hr : x m with
    | ok a m₁ =>
      rw [hr] at h
      exact (hf a).past m₁ h
    | error e m₁ =>
      rw [hr] at h
      exact h
  alike m m' hm := by
    have h := hx.alike m m' hm
    show Past (final (EStateM.bind x f m)).console ∨
      EndsAlike R (EStateM.bind x f m) (EStateM.bind x' f' m')
    unfold EStateM.bind
    cases hr : x m with
    | error e m₁ =>
      rw [hr] at h
      refine h.imp_right fun hends => ?_
      generalize x' m' = r' at hends
      cases hends with
      | error hends => exact .error hends
    | ok a m₁ =>
      rw [hr] at h
      rcases h with hpast | hends
      · exact .inl ((hf a).past m₁ hpast)
      · generalize x' m' = r' at hends
        cases hends with
        | ok hends => exact (hf a).alike _ _ hends

/-- The relation is kept by whatever reads and writes alike. -/
theorem parametric_agreeUntil [Nonempty κ'] :
    Parametric fun (α : Type) (x : Run κ α) (x' : Run κ' α) => AgreeUntil Past R x x' where
  look := Looks.agreeUntil
  bind := AgreeUntil.bind

variable [Console κ] [Console κ'] (hR : Console.SimulatesUntil Past R)

include hR

theorem agreeUntil_writeLine (line : String) :
    AgreeUntil Past R (writeLine line) (writeLine line) where
  past _ hm := hR.past_writeLine hm line
  alike _ _ hm := .inr (.ok ⟨hm.heap, hm.scopes, hR.writeLine hm.console line⟩)

theorem agreeUntil_readLine (prompt : Option String) :
    AgreeUntil Past R (readLine prompt) (readLine prompt) where
  past _ hm := hR.past_readLine hm prompt
  alike m m' hm := by
    rcases hR.readLine hm.console prompt with hpast | ⟨hline, hconsole⟩
    · exact .inl hpast
    · simp only [readLine, hline]
      exact .inr (.ok ⟨hm.heap, hm.scopes, hconsole⟩)

end Run

open Run

variable [Console κ] [Console κ'] {Past : κ → Prop} {R : κ → κ' → Prop}

/-- All functions agree until then. -/
theorem Builtin.agreeUntil_call [Nonempty κ'] (hR : Console.SimulatesUntil Past R) (b : Builtin)
    (args : List Value) : AgreeUntil Past R (b.call args) (b.call args) := by
  refine related_call parametric_agreeUntil b args ?_ ?_ ?_
  · exact fun _ line => agreeUntil_writeLine hR line
  · exact fun _ prompt => agreeUntil_readLine hR prompt
  · exact fun _ id k v => (agree_setEntry id k v).until fun _ => rfl

/-- What is noted of a recorded run does not matter. -/
theorem Recorded.parametric_agreeUntil [Nonempty κ'] (hR : Console.SimulatesUntil Past R) :
    Parametric fun (α : Type) (x : Recorded κ α) (x' : Recorded κ' α) =>
      AgreeUntil Past R x.erase x'.erase where
  look h := h.agreeUntil
  bind hx hf := by
    rw [erase_bind, erase_bind]
    exact hx.bind hf
  enter scope := (agree_enter scope).until fun _ => rfl
  define scope name v := (agree_define scope name v).until fun _ => rfl
  newTable t := (agree_newTable t).until fun _ => rfl
  visit hx _ _ _ := hx
  call b args _ := Builtin.agreeUntil_call hR b args

/-! ## Sources -/

/-- What is noted on the consoles is the same then, too. -/
theorem Console.SimulatesUntil.logged (hR : Console.SimulatesUntil Past R) :
    Console.SimulatesUntil (fun c : Logged κ => Past c.console)
      fun (c : Logged κ) (c' : Logged κ') => R c.console c'.console ∧ c.events = c'.events where
  past_writeLine h line := hR.past_writeLine h line
  past_readLine h prompt := hR.past_readLine h prompt
  writeLine h line := ⟨hR.writeLine h.1 line, congrArg (· ++ [Console.Event.wrote line]) h.2⟩
  readLine {c c'} h prompt := by
    obtain ⟨hconsole, hevents⟩ := h
    refine (hR.readLine hconsole prompt).imp_right ?_
    rintro ⟨hline, hafter⟩
    refine ⟨hline, hafter, ?_⟩
    show c.events ++ [.read prompt (Console.readLine c.console prompt).1] =
      c'.events ++ [.read prompt (Console.readLine c'.console prompt).1]
    rw [hevents, hline]

namespace Machine

/-- The same machine, with a console that also notes what happens. -/
def noting (m : Machine κ) : Machine (Logged κ) := ⟨m.heap, m.scopes, { console := m.console }⟩

/-- What happens on the console when a source is run. -/
def eventsOf (m : Machine κ) (source : String) : List Console.Event :=
  (m.noting.runSource source).2.console.events

/-- To note the events makes no difference to the result. -/
theorem runSource_noting (m : Machine κ) (source : String) :
    (m.noting.runSource source).1 = (m.runSource source).1 ∧
      (m.noting.runSource source).2.Alike (fun c c' => c.console = c') (m.runSource source).2 :=
  Alike.runSource (Logged.simulates fun _ => True) ⟨rfl, rfl, rfl⟩ fun _ _ _ _ _ => trivial

/-- A source has the same result on both machines, unless the first comes past the point. -/
theorem Alike.runSource_or_past {m : Machine κ} {m' : Machine κ'}
    (hR : Console.SimulatesUntil Past R) (hm : m.Alike R m') (source : String) :
    Past (m.runSource source).2.console ∨
      ((m.runSource source).1 = (m'.runSource source).1 ∧
        (m.runSource source).2.Alike R (m'.runSource source).2) := by
  unfold Machine.runSource
  cases hp : compile source with
  | error e => exact .inr ⟨rfl, hm⟩
  | ok p =>
    have : Nonempty κ' := ⟨m'.console⟩
    have h : AgreeUntil Past R p.eval p.eval := by
      rw [← p.erase_record, ← p.erase_record]
      exact (Recorded.parametric_agreeUntil hR).program p
    refine (h.alike m m' hm).imp (fun hpast => ?_) fun hends => ?_
    · show Past (p.eval.outcome m).2.console
      rw [outcome_eq_final]
      exact hpast
    · obtain ⟨hresult, hafter⟩ := hends.outcome
      exact ⟨congrArg Except.ok hresult, hafter⟩

/-- Unless the first machine comes past the point, a source has the same result on both, the same
happens on their consoles, and they are alike again. -/
theorem Alike.runSource_until {m : Machine κ} {m' : Machine κ'}
    (hR : Console.SimulatesUntil Past R) (hm : m.Alike R m') {source : String}
    (hpast : ¬ Past (m.runSource source).2.console) :
    (m.runSource source).1 = (m'.runSource source).1 ∧
      m.eventsOf source = m'.eventsOf source ∧
      (m.runSource source).2.Alike R (m'.runSource source).2 := by
  obtain ⟨hresult, hplain⟩ := m.runSource_noting source
  obtain ⟨hresult', hplain'⟩ := m'.runSource_noting source
  have hnoting : m.noting.Alike
      (fun (c : Logged κ) (c' : Logged κ') => R c.console c'.console ∧ c.events = c'.events)
      m'.noting := ⟨hm.heap, hm.scopes, hm.console, rfl⟩
  rcases hnoting.runSource_or_past hR.logged source with hpast' | ⟨hsame, hafter⟩
  · rw [hplain.console] at hpast'
    exact absurd hpast' hpast
  · have hconsole := hafter.console.1
    rw [hplain.console, hplain'.console] at hconsole
    refine ⟨hresult.symm.trans (hsame.trans hresult'), hafter.console.2, ?_, ?_, hconsole⟩
    · exact hplain.heap.symm.trans (hafter.heap.trans hplain'.heap)
    · exact hplain.scopes.symm.trans (hafter.scopes.trans hplain'.scopes)

end Machine

end MonkeyLang
