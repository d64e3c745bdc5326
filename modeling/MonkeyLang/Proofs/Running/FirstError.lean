import MonkeyLang.Proofs.Running.ErrorFree
import MonkeyLang.Proofs.Running.Parametric

/-!
# The first error ends the run

Where a visit ends in a fault, the visits around it end in the same fault and on the same machine,
and so does the run; no other visit begins any more (`Stops`).  This is kept by all that a recorded
run is put together from, and so holds of the evaluator.

The other way round, a program ends in a fault only if one of its statements does
(`Stmt.exists_of_recordAll`).
-/

namespace MonkeyLang

open Visit (Occurs EndsWith)
open Recorded (lift visit)

variable {κ α β : Type}

/-! ## Runs that stop -/

/-- The visits of a run that ends like this are over with the first fault. -/
def Stops (vs : List (Visit κ)) (r : EStateM.Result Fault (Machine κ) α) : Prop :=
  ∀ w e m, Occurs vs w → w.result = .error e m →
    r = .error e m ∧ EndsWith vs w ∧
      ∀ u, Occurs vs u → Occurs u.nested w → u.result = .error e m

namespace Recorded

/-- The visits of the run are over with its first fault. -/
def Stops (x : Recorded κ α) : Prop := ∀ m, MonkeyLang.Stops (x m).1 (x m).2

theorem stops_lift (x : Run κ α) : (lift x).Stops :=
  fun _ _ _ _ hw => absurd hw Visit.not_occurs_nil

/-- What is done after a fault is nothing, so nothing is visited after it. -/
theorem Stops.bind {x : Recorded κ α} {f : α → Recorded κ β} (hx : x.Stops)
    (hf : ∀ a, (f a).Stops) : Stops (x >>= f) := by
  intro m
  have hx := hx m
  rcases hr : x m with ⟨vs, ⟨a, m'⟩ | ⟨e, m'⟩⟩
  · rw [hr] at hx
    rw [bind_of_ok hr]
    -- the first part has ended in a value, so no visit of it has ended in a fault
    have hvs : ∀ w e m, Occurs vs w → w.result ≠ .error e m := by
      intro w e m hw he
      obtain ⟨h, -, -⟩ := hx w e m hw he
      cases h
    intro w e m hw he
    rcases Visit.occurs_append.1 hw with hw | hw
    · exact absurd he (hvs w e m hw)
    · obtain ⟨hresult, hend, hall⟩ := hf a m' w e m hw he
      refine ⟨hresult, hend.append_left vs, fun u hu huw => ?_⟩
      rcases Visit.occurs_append.1 hu with hu | hu
      · exact absurd he (hvs w e m (hu.trans huw))
      · exact hall u hu huw
  · rw [hr] at hx
    rw [bind_of_error hr]
    intro w e m hw he
    obtain ⟨h, hend, hall⟩ := hx w e m hw he
    cases h
    exact ⟨rfl, hend, hall⟩

/-- A visit around such a run ends when the fault does. -/
theorem Stops.visit {x : Recorded κ Value} (hx : x.Stops) (node : Node) (scope : Nat) :
    (visit node scope x).Stops := by
  intro m w e m' hw he
  have hx := hx m
  rcases Visit.occurs_singleton.1 hw with rfl | hw
  · refine ⟨he, Visit.endsWith_singleton, fun u hu huw => ?_⟩
    rcases Visit.occurs_singleton.1 hu with rfl | hu
    · exact he
    · obtain ⟨-, -, hall⟩ := hx _ e m' (hu.trans huw) he
      exact hall u hu huw
  · obtain ⟨hresult, hend, hall⟩ := hx w e m' hw he
    refine ⟨hresult, hend.singleton, fun u hu huw => ?_⟩
    rcases Visit.occurs_singleton.1 hu with rfl | hu
    · exact hresult
    · exact hall u hu huw

end Recorded

/-- On a clean machine only faults come out as errors. -/
theorem Visit.Clean.result_eq {w : Visit κ} (hw : w.Clean) (he : w.yielded.isError) :
    ∃ f, w.result = .error f w.after := by
  obtain ⟨-, hends⟩ := hw
  unfold yielded at he
  unfold after
  cases hr : w.result with
  | ok a m =>
    rw [hr] at hends he
    exact absurd he (by rw [hends.2.isError_eq]; exact Bool.false_ne_true)
  | error f m => exact ⟨f, rfl⟩

/-! ## The evaluator -/

open Recorded (stops_lift)

variable [Console κ]

theorem Recorded.parametric_stops :
    Parametric fun (α : Type) (x _ : Recorded κ α) => x.Stops where
  look _ := stops_lift _
  bind := Stops.bind
  enter _ := stops_lift _
  define _ _ _ := stops_lift _
  newTable _ := stops_lift _
  visit hx node _ := hx.visit node
  call _ _ _ := (stops_lift _).visit _ _

/-- A program stops at its first fault. -/
theorem Program.stops_record (p : Program) : (p.record : Recorded κ Value).Stops :=
  Recorded.parametric_stops.program p

/-- Statements end in a fault only where one of them does. -/
theorem Stmt.exists_of_recordAll {scope : Nat} {last : Value} {ss : List Stmt} {m m' : Machine κ}
    {e : Fault} (h : (Stmt.recordAll scope last ss m).2 = .error e m') :
    ∃ w ∈ (Stmt.recordAll scope last ss m).1, w.result = .error e m' := by
  induction ss generalizing last m with
  | nil => cases h
  | cons s ss ih =>
    -- the visit of the first statement, and what the others do behind it
    obtain ⟨v, hv, hresult⟩ : ∃ v : Visit κ, (s.record scope m).1 = [v] ∧
        v.result = (s.record scope m).2 := by
      rw [Stmt.record.eq_def]
      exact ⟨_, rfl, rfl⟩
    rw [Stmt.recordAll] at h ⊢
    rcases hr : s.record scope m with ⟨vs, ⟨a, m₁⟩ | ⟨f, m₁⟩⟩
    · rw [Recorded.bind_of_ok hr] at h ⊢
      obtain ⟨w, hw, hwe⟩ := ih h
      exact ⟨w, List.mem_append_right vs hw, hwe⟩
    · rw [hr] at hv hresult
      rw [Recorded.bind_of_error hr] at h ⊢
      cases h
      exact ⟨v, by rw [hv]; exact List.mem_singleton_self v, hresult⟩

/-! ## Programs -/

namespace Program

/-- An error that comes out of anything is what comes out of all around it, and of the program, and
the machine is left as it was then.  If none comes out of anything, none does of the program. -/
theorem first_error_ends_run (p : Program) (m : Machine κ) (hm : m.Clean) :
    (∀ w e, Occurs (p.visits m) w → w.yielded = .error e →
        Value.ofOutcome (p.eval.outcome m).1 = .error e ∧ (p.eval.outcome m).2 = w.after ∧
        EndsWith (p.visits m) w ∧
        ∀ u, Occurs (p.visits m) u → Occurs u.nested w → u.yielded = .error e ∧ u.after = w.after) ∧
      ((∀ w, Occurs (p.visits m) w → w.yielded.isError = false) →
        (Value.ofOutcome (p.eval.outcome m).1).isError = false) := by
  obtain ⟨hclean, hends⟩ := p.clean_visits hm
  have heval : p.eval m = (p.record m).2 := congrFun p.erase_record.symm m
  rw [heval] at hends
  constructor
  · intro w e hw he
    obtain ⟨f, hf⟩ := (hclean w hw).result_eq (by rw [he]; rfl)
    obtain ⟨hresult, hend, hall⟩ := p.stops_record m w f w.after hw hf
    have hvalue : f.toValue = .error e := by
      rw [← he, Visit.yielded, hf]
    have houtcome : p.eval.outcome m = (.error f, w.after) := by
      rw [Run.outcome, heval, hresult]
    refine ⟨by rw [houtcome]; exact hvalue, by rw [houtcome], hend, fun u hu huw => ?_⟩
    have hu := hall u hu huw
    refine ⟨?_, ?_⟩
    · rw [Visit.yielded, hu]
      exact hvalue
    · rw [Visit.after, hu]
  · intro hnone
    cases hr : (p.record m).2 with
    | ok a m' =>
      rw [hr] at hends
      have houtcome : p.eval.outcome m = (.ok a, m') := by
        rw [Run.outcome, heval, hr]
      rw [houtcome]
      exact hends.2.isError_eq
    | error f m' =>
      obtain ⟨w, hw, hresult⟩ := Stmt.exists_of_recordAll hr
      have herror : w.yielded.isError = true := by
        rw [Visit.yielded, hresult]
        rfl
      rw [hnone w (.here hw)] at herror
      cases herror

/-- The sign of a boolean is an error, and no statement behind it is evaluated. -/
theorem first_error_ends_run_of_sign :
    let s : Span := ⟨0, 5⟩
    let p : Program := ⟨[.expr (.unary .neg (.bool true s) s) s, .expr (.int 1 s) s]⟩
    let m : Machine Transcript := .start {}
    m.Clean ∧ ∃ w, Occurs (p.visits m) w ∧ w.yielded = .error "unknown operator: -BOOLEAN" ∧
      Value.ofOutcome (p.eval.outcome m).1 = .error "unknown operator: -BOOLEAN" := by
  intro s p m
  have hm : m.Clean := Machine.clean_start _
  obtain ⟨w, hw, he⟩ : ∃ w, Occurs (p.visits m) w ∧
      w.yielded = .error "unknown operator: -BOOLEAN" :=
    ⟨_, .here (List.mem_cons_self ..), congrArg Value.error (by decide)⟩
  exact ⟨hm, w, hw, he, ((first_error_ends_run p m hm).1 w _ hw he).1⟩

end Program

end MonkeyLang
