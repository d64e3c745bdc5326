import MonkeyLang.Proofs.Parsing.Joined
import MonkeyLang.Machine.Eval

/-!
# Runs one after the other

A source that another follows in a line of its own, with a semicolon between them, runs as if the
two came one after the other, and so a file runs as its lines would (`runSource_joined`).

What a tree does has nothing to do with where it stands (`Expr.eval_mapSpans`), and statements run
one by one on the machine that those before them left (`Stmt.evalAll_append`).  The run of the
first source goes on into the second only with a value, and never with a stored error
(`Stmt.sound_evalAll`).
-/

namespace MonkeyLang

variable {κ : Type}

/-! ## Values of runs -/

namespace Run

variable {α β : Type} {Q : α → Prop} {R : β → Prop}

/-- What comes out of the run is a `Q`, if anything does. -/
def Yields (x : Run κ α) (Q : α → Prop) : Prop := ∀ m a m', x m = .ok a m' → Q a

theorem yields_pure {a : α} (ha : Q a) : (pure a : Run κ α).Yields Q := by
  rintro m _ _ ⟨⟩
  exact ha

theorem yields_throw (e : Fault) : (throw e : Run κ α).Yields Q := by
  rintro m a m' ⟨⟩

/-- After a value the second run goes on with it. -/
theorem bind_of_ok {x : Run κ α} {f : α → Run κ β} {m m' : Machine κ} {a : α}
    (h : x m = .ok a m') : (x >>= f) m = f a m' := by
  show EStateM.bind x f m = _
  rw [EStateM.bind, h]

theorem bind_of_error {x : Run κ α} {f : α → Run κ β} {m m' : Machine κ} {e : Fault}
    (h : x m = .error e m') : (x >>= f) m = .error e m' := by
  show EStateM.bind x f m = _
  rw [EStateM.bind, h]

theorem Yields.bind {x : Run κ α} {f : α → Run κ β} (hx : x.Yields Q)
    (hf : ∀ a, Q a → (f a).Yields R) : Yields (x >>= f) R := by
  intro m b m' h
  cases hr : x m with
  | ok a m₁ =>
    rw [bind_of_ok hr] at h
    exact hf a (hx m a m₁ hr) m₁ b m' h
  | error e m₁ =>
    rw [bind_of_error hr] at h
    cases h

theorem yields_bind {x : Run κ α} {f : α → Run κ β} (hf : ∀ a, (f a).Yields R) :
    Yields (x >>= f) R := by
  have hx : x.Yields fun _ => True := fun _ _ _ _ => trivial
  exact hx.bind fun a _ => hf a

/-- No value that comes out is a stored error. -/
def Sound (x : Run κ Value) : Prop := x.Yields (·.isError = false)

/-- A stored error is not given back but thrown. -/
theorem sound_value (v : Value) : (value v : Run κ Value).Sound := by
  unfold value
  split
  · exact yields_throw _
  · next hv => exact yields_pure (by cases v <;> first | rfl | exact absurd rfl (hv _))

theorem sound_valueOrNull (found : Option Value) : (valueOrNull found : Run κ Value).Sound :=
  sound_value _

theorem sound_newTable (t : Table) : (newTable t : Run κ Value).Sound := by
  rintro m _ _ ⟨⟩
  rfl

end Run

open Run

/-! ## Operations -/

theorem sound_unaryApply (op : UnaryOp) (v : Value) : (op.apply v : Run κ Value).Sound := by
  unfold UnaryOp.apply
  split
  · exact yields_pure rfl
  · exact yields_pure rfl
  · exact yields_throw _

theorem sound_applyInt (op : BinaryOp) (a b : Int64) : (op.applyInt a b : Run κ Value).Sound := by
  cases op with
  | div =>
    show (if b = 0 then throw .divisionByZero else pure (.int (a / b)) : Run κ Value).Sound
    split
    · exact yields_throw _
    · exact yields_pure rfl
  | _ => exact yields_pure rfl

theorem sound_binaryApply (op : BinaryOp) (v w : Value) : (op.apply v w : Run κ Value).Sound := by
  unfold BinaryOp.apply
  split
  · exact sound_applyInt op _ _
  · exact yields_pure rfl
  · exact yields_pure rfl
  · exact yields_pure rfl
  · split
    · exact yields_throw _
    · exact yields_throw _

theorem sound_at (v w : Value) : (v.at w : Run κ Value).Sound := by
  unfold Value.at
  split
  · exact sound_valueOrNull _
  · split
    · exact yields_bind fun m => sound_valueOrNull _
    · exact yields_throw _
  · exact yields_throw _

/-- What a name stands for is no error when it comes out. -/
theorem sound_resolve (scope : Nat) (name : String) :
    (resolve scope name : Run κ Value).Sound := by
  refine yields_bind fun m => ?_
  cases m.scopes.get? scope name with
  | some v => exact sound_value v
  | none =>
    cases Builtin.ofName? name with
    | some b => exact yields_pure rfl
    | none => exact yields_throw _

namespace Builtin

theorem sound_callLen (v : Value) : (callLen v : Run κ Value).Sound := by
  unfold callLen
  split
  · exact yields_pure rfl
  · exact yields_pure rfl
  · exact yields_throw _

theorem sound_callFirst (v : Value) : (callFirst v : Run κ Value).Sound := by
  unfold callFirst
  split
  · exact sound_valueOrNull _
  · exact yields_throw _

theorem sound_callLast (v : Value) : (callLast v : Run κ Value).Sound := by
  unfold callLast
  split
  · exact sound_valueOrNull _
  · exact yields_throw _

theorem sound_callRest (v : Value) : (callRest v : Run κ Value).Sound := by
  unfold callRest
  split
  · refine yields_pure ?_
    split <;> rfl
  · exact yields_throw _

theorem sound_callPush (v w : Value) : (callPush v w : Run κ Value).Sound := by
  unfold callPush
  split
  · exact yields_pure rfl
  · exact yields_throw _

theorem sound_callObjectSet (v k w : Value) : (callObjectSet v k w : Run κ Value).Sound := by
  unfold callObjectSet
  split
  · refine (sound_value w).bind fun u hu => ?_
    split
    · exact yields_bind fun _ => yields_pure hu
    · exact yields_throw _
  · exact yields_throw _

theorem sound_callCharAt (v w : Value) : (callCharAt v w : Run κ Value).Sound := by
  unfold callCharAt
  split
  · split
    · exact yields_pure rfl
    · exact yields_throw _
  · exact yields_throw _
  · exact yields_throw _

variable [Console κ]

theorem sound_callPuts (vs : List Value) : (callPuts vs : Run κ Value).Sound := by
  induction vs with
  | nil => exact yields_pure rfl
  | cons v vs ih => exact yields_bind fun _ => yields_bind fun _ => ih

theorem sound_readValue (prompt : Option String) : (readValue prompt : Run κ Value).Sound := by
  refine yields_bind fun line => ?_
  cases line with
  | some line => exact yields_pure rfl
  | none => exact yields_throw _

theorem sound_callStdinRead (vs : List Value) : (callStdinRead vs : Run κ Value).Sound := by
  unfold callStdinRead
  split
  · exact sound_readValue _
  · exact sound_readValue _
  · exact yields_throw _

/-- No function gives an error for a value. -/
theorem sound_call (b : Builtin) (args : List Value) : (b.call args : Run κ Value).Sound := by
  unfold call
  split
  · split
    · exact sound_callLen _
    · exact sound_callFirst _
    · exact sound_callLast _
    · exact sound_callRest _
    · exact sound_callPush _ _
    · exact sound_callPuts _
    · exact yields_pure rfl
    · exact sound_callStdinRead _
    · exact sound_callObjectSet _ _ _
    · exact sound_callCharAt _ _
    · exact yields_throw _
  · exact yields_throw _

end Builtin

variable [Console κ]

/-! ## What the evaluator yields -/

theorem sound_apply (callee : Value) (args : List Value) :
    (callee.apply args : Run κ Value).Sound := by
  unfold Value.apply
  split
  · exact Builtin.sound_call _ args
  · exact yields_throw _

mutual

/-- No expression gives an error for a value, and no other part of a program does. -/
theorem Expr.sound_eval (scope : Nat) : (e : Expr) → (e.eval scope : Run κ Value).Sound
  | .int _ _ => yields_pure rfl
  | .str _ _ => yields_pure rfl
  | .bool _ _ => yields_pure rfl
  | .null _ => yields_pure rfl
  | .ident x _ => sound_resolve scope x
  | .unary op e _ => yields_bind fun v => sound_unaryApply op v
  | .binary l op r _ => yields_bind fun v => yields_bind fun w => sound_binaryApply op v w
  | .cond test yes no _ => by
    rw [Expr.eval]
    refine yields_bind fun v => ?_
    split
    · exact yields_bind fun inner => Stmt.sound_evalAll inner rfl yes
    · exact Stmt.sound_evalElse scope no
  | .array es _ => yields_bind fun vs => yields_pure rfl
  | .hash ps _ => yields_bind fun t => sound_newTable t
  | .index target subscript _ => yields_bind fun v => yields_bind fun w => sound_at v w
  | .call callee args _ => yields_bind fun f => yields_bind fun vs => sound_apply f vs

theorem Stmt.sound_eval (scope : Nat) : (s : Stmt) → (s.eval scope : Run κ Value).Sound
  | .define _ _ _ _ => yields_bind fun _ => yields_bind fun _ => yields_pure rfl
  | .expr e _ => Expr.sound_eval scope e

theorem Stmt.sound_evalAll (scope : Nat) {last : Value} (hlast : last.isError = false) :
    (ss : List Stmt) → (Stmt.evalAll scope last ss : Run κ Value).Sound
  | [] => yields_pure hlast
  | s :: ss => (Stmt.sound_eval scope s).bind fun _ hv => Stmt.sound_evalAll scope hv ss

theorem Stmt.sound_evalElse (scope : Nat) :
    (no : Option (List Stmt)) → (Stmt.evalElse scope no : Run κ Value).Sound
  | none => yields_pure rfl
  | some ss => yields_bind fun inner => Stmt.sound_evalAll inner rfl ss

end

/-! ## Spans -/

mutual

/-- Where an expression stands makes no difference to what it comes to. -/
theorem Expr.eval_mapSpans (f : Span → Span) (scope : Nat) :
    (e : Expr) → ((e.mapSpans f).eval scope : Run κ Value) = e.eval scope
  | .int _ _ => rfl
  | .str _ _ => rfl
  | .bool _ _ => rfl
  | .null _ => rfl
  | .ident _ _ => rfl
  | .unary op e _ => by
    rw [Expr.mapSpans, Expr.eval, Expr.eval_mapSpans f scope e, Expr.eval]
  | .binary l op r _ => by
    rw [Expr.mapSpans, Expr.eval, Expr.eval_mapSpans f scope l, Expr.eval_mapSpans f scope r,
      Expr.eval]
  | .cond test yes no _ => by
    rw [Expr.mapSpans, Expr.eval, Expr.eval_mapSpans f scope test,
      Stmt.evalElse_mapSpansElse f scope no, Expr.eval]
    simp only [Stmt.evalAll_mapSpansAll f _ _ yes]
  | .array es _ => by
    rw [Expr.mapSpans, Expr.eval, Expr.evalItems_mapSpansAll f scope _ es, Expr.eval]
  | .hash ps _ => by
    rw [Expr.mapSpans, Expr.eval, Expr.evalPairs_mapSpansPairs f scope _ ps, Expr.eval]
  | .index t i _ => by
    rw [Expr.mapSpans, Expr.eval, Expr.eval_mapSpans f scope t, Expr.eval_mapSpans f scope i,
      Expr.eval]
  | .call g es _ => by
    rw [Expr.mapSpans, Expr.eval, Expr.eval_mapSpans f scope g,
      Expr.evalItems_mapSpansAll f scope _ es, Expr.eval]

theorem Expr.evalItems_mapSpansAll (f : Span → Span) (scope : Nat) (done : List Value) :
    (es : List Expr) →
      (Expr.evalItems scope done (Expr.mapSpansAll f es) : Run κ (List Value)) =
        Expr.evalItems scope done es
  | [] => rfl
  | e :: es => by
    rw [Expr.mapSpansAll, Expr.evalItems, Expr.eval_mapSpans f scope e, Expr.evalItems]
    simp only [Expr.evalItems_mapSpansAll f scope _ es]

theorem Expr.evalPairs_mapSpansPairs (f : Span → Span) (scope : Nat) (t : Table) :
    (ps : List (Expr × Expr)) →
      (Expr.evalPairs scope t (Expr.mapSpansPairs f ps) : Run κ Table) = Expr.evalPairs scope t ps
  | [] => rfl
  | (k, e) :: ps => by
    rw [Expr.mapSpansPairs, Expr.evalPairs, Expr.eval_mapSpans f scope k,
      Expr.eval_mapSpans f scope e, Expr.evalPairs]
    simp only [Expr.evalPairs_mapSpansPairs f scope _ ps]

theorem Stmt.eval_mapSpans (f : Span → Span) (scope : Nat) :
    (s : Stmt) → ((s.mapSpans f).eval scope : Run κ Value) = s.eval scope
  | .define _ _ e _ => by rw [Stmt.mapSpans, Stmt.eval, Expr.eval_mapSpans f scope e, Stmt.eval]
  | .expr e _ => by rw [Stmt.mapSpans, Stmt.eval, Expr.eval_mapSpans f scope e, Stmt.eval]

theorem Stmt.evalAll_mapSpansAll (f : Span → Span) (scope : Nat) (last : Value) :
    (ss : List Stmt) →
      (Stmt.evalAll scope last (Stmt.mapSpansAll f ss) : Run κ Value) = Stmt.evalAll scope last ss
  | [] => rfl
  | s :: ss => by
    rw [Stmt.mapSpansAll, Stmt.evalAll, Stmt.eval_mapSpans f scope s, Stmt.evalAll]
    simp only [Stmt.evalAll_mapSpansAll f scope _ ss]

theorem Stmt.evalElse_mapSpansElse (f : Span → Span) (scope : Nat) :
    (no : Option (List Stmt)) →
      (Stmt.evalElse scope (Stmt.mapSpansElse f no) : Run κ Value) = Stmt.evalElse scope no
  | none => rfl
  | some ss => by
    rw [Stmt.mapSpansElse, Stmt.evalElse, Stmt.evalElse]
    simp only [Stmt.evalAll_mapSpansAll f _ _ ss]

end

/-! ## Statements one after the other -/

/-- Statements behind others go on with the last value of these. -/
theorem Stmt.evalAll_append (scope : Nat) (last : Value) (ss ts : List Stmt) :
    (Stmt.evalAll scope last (ss ++ ts) : Run κ Value) =
      Stmt.evalAll scope last ss >>= fun v => Stmt.evalAll scope v ts := by
  induction ss generalizing last with
  | nil =>
    rw [List.nil_append, Stmt.evalAll, pure_bind]
  | cons s ss ih =>
    rw [List.cons_append, Stmt.evalAll, Stmt.evalAll, bind_assoc]
    simp only [ih]

/-- What was the last value before matters only if there are no statements. -/
theorem Stmt.evalAll_of_ne_nil (scope : Nat) (v w : Value) {ss : List Stmt} (h : ss ≠ []) :
    (Stmt.evalAll scope v ss : Run κ Value) = Stmt.evalAll scope w ss := by
  obtain ⟨s, ss, rfl⟩ := List.exists_cons_of_ne_nil h
  rw [Stmt.evalAll, Stmt.evalAll]

/-- A program behind another runs on the machine that the other leaves, if that ends in a value. -/
theorem Program.eval_append {p q : Program} (f : Span → Span) (hne : q.statements ≠ []) :
    (Program.eval ⟨p.statements ++ (q.mapSpans f).statements⟩ : Run κ Value) =
      p.eval >>= fun _ => q.eval := by
  unfold Program.eval
  rw [Stmt.evalAll_append]
  congr 1
  funext v
  rw [Program.mapSpans, Stmt.evalAll_mapSpansAll]
  exact Stmt.evalAll_of_ne_nil globalScope v .null hne

/-! ## Top theorem -/

namespace Machine

variable {source a b : String} {p q : Program} {m m' : Machine κ} {v : Value} {f : Fault}

/-- A source that does not compile changes nothing. -/
theorem runSource_of_compile_error {e : CompileError} (h : compile source = .error e) :
    m.runSource source = (.error e, m) := by
  rw [runSource, h]

theorem runSource_of_ok (h : compile source = .ok p) (hr : p.eval m = .ok v m') :
    m.runSource source = (.ok (.ok v), m') := by
  rw [runSource, h]
  simp only [Run.outcome, hr]

theorem runSource_of_error (h : compile source = .ok p) (hr : p.eval m = .error f m') :
    m.runSource source = (.ok (.error f), m') := by
  rw [runSource, h]
  simp only [Run.outcome, hr]

/-- A source and the next one in a line of its own run as the two do one after the other; but a
fault of the first is the end. -/
theorem runSource_joined (m : Machine κ) {ls : List Lexeme} (hls : tokenize a = .ok ls)
    (hend : ∀ l ∈ ls.getLast?, l.token = .semi) (hp : Program.parse ls = .ok p)
    (hb : compile b = .ok q) (hne : q.statements ≠ []) :
    match m.runSource a with
    | (.error _, _) => False
    | (.ok (.error f), m') => m.runSource (a ++ "\n" ++ b) = (.ok (.error f), m')
    | (.ok (.ok v), m') => v.isError = false ∧
        m.runSource (a ++ "\n" ++ b) = m'.runSource b ∧ ∃ r, (m'.runSource b).1 = .ok r := by
  have ha : compile a = .ok p := compile_eq_ok_iff.2 ⟨ls, tokenize_eq_ok_iff.1 hls, hp⟩
  have hjoined := Grammar.compile_joined hls hend hp hb
  have heval := Program.eval_append (κ := κ) (p := p) (.shift (a.utf8ByteSize + 1)) hne
  cases hr : p.eval m with
  | error f m' =>
    rw [runSource_of_error ha hr]
    refine runSource_of_error hjoined ?_
    rw [heval]
    exact bind_of_error hr
  | ok v m' =>
    rw [runSource_of_ok ha hr]
    refine ⟨Stmt.sound_evalAll globalScope rfl p.statements m v m' hr, ?_⟩
    have hrun : Program.eval _ m = q.eval m' := (congrFun heval m).trans (bind_of_ok hr)
    cases hr' : q.eval m' with
    | error f n =>
      rw [runSource_of_error hb hr', runSource_of_error hjoined (hrun.trans hr')]
      exact ⟨rfl, _, rfl⟩
    | ok w n =>
      rw [runSource_of_ok hb hr', runSource_of_ok hjoined (hrun.trans hr')]
      exact ⟨rfl, _, rfl⟩

/-- A name that one source defines, and the next uses. -/
theorem runSource_joined_of_define :
    let a := "let x = 1;"
    let b := "x + 1"
    let m : Machine Transcript := .start {}
    let ls : List Lexeme := [⟨.letWord, ⟨0, 3⟩⟩, ⟨.ident "x", ⟨4, 5⟩⟩, ⟨.assign, ⟨6, 7⟩⟩,
      ⟨.int 1, ⟨8, 9⟩⟩, ⟨.semi, ⟨9, 10⟩⟩]
    let p : Program := ⟨[.define "x" ⟨4, 5⟩ (.int 1 ⟨8, 9⟩) ⟨0, 10⟩]⟩
    let q : Program :=
      ⟨[.expr (.binary (.ident "x" ⟨0, 1⟩) .add (.int 1 ⟨4, 5⟩) ⟨0, 5⟩) ⟨0, 5⟩]⟩
    tokenize a = .ok ls ∧ (∀ l ∈ ls.getLast?, l.token = .semi) ∧ Program.parse ls = .ok p ∧
      compile b = .ok q ∧ q.statements ≠ [] ∧
      ∃ m', m.runSource a = (.ok (.ok .null), m') ∧
        m.runSource (a ++ "\n" ++ b) = m'.runSource b := by
  intro a b m ls p q
  have hls : tokenize a = .ok ls := by decide +kernel
  have hp : Program.parse ls = .ok p := by rfl
  have ha : compile a = .ok p := compile_eq_ok_iff.2 ⟨ls, tokenize_eq_ok_iff.1 hls, hp⟩
  have hms : Token.scan b =
      .ok [⟨.ident "x", ⟨0, 1⟩⟩, ⟨.plus, ⟨2, 3⟩⟩, ⟨.int 1, ⟨4, 5⟩⟩] := by decide +kernel
  have hb : compile b = .ok q := compile_eq_ok_iff.2 ⟨_, hms, by rfl⟩
  have hend : ∀ l ∈ ls.getLast?, l.token = .semi := by
    rintro l ⟨⟩
    rfl
  have hne : q.statements ≠ [] := List.cons_ne_nil _ _
  obtain ⟨m', hr⟩ : ∃ m', p.eval m = .ok .null m' := ⟨_, rfl⟩
  have hfirst := runSource_of_ok ha hr
  have hjoined := runSource_joined m hls hend hp hb hne
  rw [hfirst] at hjoined
  exact ⟨hls, hend, hp, hb, hne, m', hfirst, hjoined.2.1⟩

end Machine

end MonkeyLang
