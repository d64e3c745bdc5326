import MonkeyLang.Proofs.Parsing.Lifted

/-!
# The parser with a counter of levels

The program parser recurses on the levels that are left.  Here it counts the levels that are taken:
every expression and every operator adds one, past the limit it fails, and what an expression took
is given back behind it, whether it was read or not.  The limit may be missing, and the recursion is
on fuel that has nothing to do with levels.  How many expressions are being read at once, and how
many at most, is measured on the side.

An expression that was read took a lexeme (`taking_expr`) and gave back its levels (`level_expr`).
Without a limit the lexemes are as much fuel as it takes (`forward_expr`).
-/

namespace MonkeyLang.Parser

variable {α β : Type}

/-! ## Algorithm -/

/-- The levels taken, and how many expressions are being read, now and at most until now. -/
structure Gauge where
  cursor : Cursor
  depth : Nat
  active : Nat
  peak : Nat

/-- How a parser with a counter can fail: as the parser does, or for want of fuel. -/
inductive Failure where
  | parse (e : ParseError)
  | outOfFuel

/-- Parsers that keep a gauge, which stays as it is where they fail. -/
abbrev Counted := EStateM Failure Gauge

namespace Counted

instance : MonadLift Parser Counted where
  monadLift x := fun s =>
    match x s.cursor with
    | .ok (a, c) => .ok a { s with cursor := c }
    | .error e => .error (.parse e) s

/-- One level more, which the limit may not allow. -/
def descend (limit : Option Nat) : Counted Unit := fun s =>
  if limit.any (· < s.depth + 1) then
    .error (.parse ⟨.tooDeep, s.cursor.rest⟩) { s with depth := s.depth + 1 }
  else .ok () { s with depth := s.depth + 1 }

/-- One expression more is being read. -/
def enter : Counted Unit := fun s =>
  .ok () { s with active := s.active + 1, peak := max s.peak (s.active + 1) }

/-- Gives back the levels that `x` took, also where it fails. -/
def restoring (x : Counted α) : Counted α := fun s =>
  match x s with
  | .ok a s' => .ok a { s' with depth := s.depth, active := s.active }
  | .error e s' => .error e { s' with depth := s.depth, active := s.active }

/-- The operator behind `left` if it binds tighter than `rank`, and then what follows. -/
def operator (limit : Option Nat) (expr : Rank → Counted Expr) (rank : Rank) (left : Expr)
    (next : Expr → Counted Expr) : Counted Expr := do
  match ← (peek? : Parser (Option Token)) with
  | none => return left
  | some t =>
    if (rankOf t).toNat ≤ rank.toNat then return left
    else
      descend limit
      let whole ← Lifted.extend expr left t
      next whole

/-- The operators behind `left` that bind tighter than `rank`, no more than lexemes in `bound`. -/
def operators (limit : Option Nat) (expr : Rank → Counted Expr) (rank : Rank) :
    (bound : List Lexeme) → (left : Expr) → Counted Expr
  | [], left => operator limit expr rank left fun _ => throw .outOfFuel
  | _ :: bound, left => operator limit expr rank left (operators limit expr rank bound)

/-- An expression.  Each one takes a level, and gives back all that it took. -/
def expr (limit : Option Nat) : (fuel : Nat) → (rank : Rank) → Counted Expr
  | 0, _ => throw .outOfFuel
  | fuel + 1, rank => restoring do
    descend limit
    enter
    let left ← Lifted.operand (expr limit fuel)
    let bound ← (unread : Parser (List Lexeme))
    operators limit (expr limit fuel) rank bound left

def statement (limit : Option Nat) (fuel : Nat) : Counted Stmt :=
  Lifted.statement (expr limit fuel .lowest)

/-! ## Doing one thing after another -/

variable {x : Counted α} {f : α → Counted β} {s s' : Gauge} {t : Token}

theorem bind_of_ok {a : α} (h : x s = .ok a s') : (x >>= f) s = f a s' := by
  show EStateM.bind x f s = _
  rw [EStateM.bind, h]

theorem bind_of_error {e : Failure} (h : x s = .error e s') : (x >>= f) s = .error e s' := by
  show EStateM.bind x f s = _
  rw [EStateM.bind, h]

theorem bind_eq_ok {b : β} :
    (x >>= f) s = .ok b s' ↔ ∃ a s₁, x s = .ok a s₁ ∧ f a s₁ = .ok b s' := by
  constructor
  · intro h
    cases hx : x s with
    | ok a s₁ => exact ⟨a, s₁, rfl, bind_of_ok (f := f) hx ▸ h⟩
    | error e s₁ => cases (bind_of_error hx).symm.trans h
  · rintro ⟨a, s₁, hx, hf⟩
    exact (bind_of_ok hx).trans hf

theorem lift_of_ok {p : Parser α} {a : α} {c : Cursor} (h : p s.cursor = .ok (a, c)) :
    (monadLift p : Counted α) s = .ok a { s with cursor := c } := by
  simp only [monadLift, MonadLift.monadLift, h]

theorem lift_of_error {p : Parser α} {e : ParseError} (h : p s.cursor = .error e) :
    (monadLift p : Counted α) s = .error (.parse e) s := by
  simp only [monadLift, MonadLift.monadLift, h]

theorem restoring_of_ok {a : α} (h : x s = .ok a s') :
    restoring x s = .ok a { s' with depth := s.depth, active := s.active } := by
  rw [restoring, h]

theorem restoring_of_error {e : Failure} (h : x s = .error e s') :
    restoring x s = .error e { s' with depth := s.depth, active := s.active } := by
  rw [restoring, h]

theorem descend_of_le {limit : Option Nat} (h : ∀ n ∈ limit, s.depth + 1 ≤ n) :
    descend limit s = .ok () { s with depth := s.depth + 1 } := by
  rw [descend, if_neg]
  cases limit with
  | none => exact Bool.false_ne_true
  | some n => simpa using h n rfl

theorem descend_of_lt {n : Nat} (h : n < s.depth + 1) :
    descend (some n) s =
      .error (.parse ⟨.tooDeep, s.cursor.rest⟩) { s with depth := s.depth + 1 } := by
  rw [descend, if_pos]
  simpa using h

section

variable {limit : Option Nat} {expr : Rank → Counted Expr} {rank : Rank} {left : Expr}
  {next : Expr → Counted Expr}

theorem operator_of_le (h : ∀ t ∈ s.cursor.next?, (rankOf t).toNat ≤ rank.toNat) :
    operator limit expr rank left next s = .ok left s := by
  have hlook := lift_of_ok (s := s) (peek?_eq (c := s.cursor))
  unfold operator
  refine (bind_of_ok hlook).trans ?_
  cases hnext : s.cursor.next? with
  | none => rfl
  | some t => exact congrFun (if_pos (h t hnext)) s

theorem operator_of_lt (hnext : s.cursor.next? = some t) (h : rank.toNat < (rankOf t).toNat) :
    operator limit expr rank left next s =
      (descend limit >>= fun _ => Lifted.extend expr left t >>= next) s := by
  have hlook := lift_of_ok (s := s) (peek?_eq (c := s.cursor))
  unfold operator
  refine (bind_of_ok hlook).trans ?_
  rw [hnext]
  exact congrFun (if_neg (Nat.not_le.2 h)) s

end

/-! ## Going forward -/

/-- Where the parser ends it is not before where it began.  With fewer than `k` lexemes left there
it does not run out of fuel or levels. -/
def Ends (k : Nat) (s : Gauge) : EStateM.Result Failure Gauge α → Prop
  | .ok _ s' => s'.cursor.rest <:+ s.cursor.rest
  | .error e s' => s'.cursor.rest <:+ s.cursor.rest ∧
      (s.cursor.rest.length < k → ∃ e', e = .parse e' ∧ e'.cause ≠ .tooDeep)

/-- Wherever it is begun. -/
def Forward (k : Nat) (x : Counted α) : Prop := ∀ s, Ends k s (x s)

/-- Where it succeeds, the parser took a lexeme. -/
def Taking (x : Counted α) : Prop :=
  ∀ ⦃s a s'⦄, x s = .ok a s' → ∃ ls, ls ≠ [] ∧ s.cursor.rest = ls ++ s'.cursor.rest

section

variable {k k' : Nat}

theorem Ends.behind {r : EStateM.Result Failure Gauge α} (hs : s'.cursor.rest <:+ s.cursor.rest)
    (hk : s.cursor.rest.length < k → s'.cursor.rest.length < k') (h : Ends k' s' r) :
    Ends k s r := by
  cases r with
  | ok a s'' => exact List.IsSuffix.trans h hs
  | error e s'' => exact ⟨h.1.trans hs, fun hlt => h.2 (hk hlt)⟩

/-- One thing behind another: the second begins where the first ended. -/
theorem Ends.bind (hx : Ends k s (x s)) (hf : ∀ a s', x s = .ok a s' → Ends k s' (f a s')) :
    Ends k s ((x >>= f) s) := by
  cases h : x s with
  | error e s' =>
    rw [bind_of_error h]
    rwa [h] at hx
  | ok a s' =>
    rw [h] at hx
    rw [bind_of_ok h]
    exact (hf a s' h).behind hx fun hlt => Nat.lt_of_le_of_lt hx.length_le hlt

theorem Forward.bind (hx : Forward k x) (hf : ∀ a, Forward k (f a)) : Forward k (x >>= f) :=
  fun s => (hx s).bind fun a s' _ => hf a s'

theorem Forward.suffix (hx : Forward k x) {a : α} (h : x s = .ok a s') :
    s'.cursor.rest <:+ s.cursor.rest := by
  have hs := hx s
  rwa [h] at hs

theorem forward_pure (a : α) : Forward k (pure a) := fun _ => List.suffix_rfl

theorem forward_single {p : Parser α} (hp : Single p) : Forward k (monadLift p : Counted α) := by
  intro s
  cases h : p s.cursor with
  | error e =>
    rw [lift_of_error h]
    exact ⟨List.suffix_rfl, fun _ => ⟨e, rfl, hp.refused h⟩⟩
  | ok r =>
    rw [lift_of_ok h]
    exact hp.forward h

/-- Going forward is kept by whatever is put together from parsers that do. -/
theorem kept_forward : Kept fun α (x y : Counted α) => y = x ∧ Forward k x :=
  .of_property forward_pure forward_single .bind

theorem forward_descend {limit : Option Nat} (hlimit : 0 < k → limit = none) :
    Forward k (descend limit) := by
  intro s
  cases limit with
  | none => exact List.suffix_rfl
  | some n =>
    have hk : ¬ 0 < k := fun h => nomatch hlimit h
    unfold descend
    split
    · exact ⟨List.suffix_rfl, fun h => absurd (Nat.zero_lt_of_lt h) hk⟩
    · exact List.suffix_rfl

theorem forward_enter : Forward k enter := fun _ => List.suffix_rfl

theorem Forward.restoring (hx : Forward k x) : Forward k (restoring x) := by
  intro s
  have hs := hx s
  cases h : x s with
  | ok a s' =>
    rw [restoring_of_ok h]
    rwa [h] at hs
  | error e s' =>
    rw [restoring_of_error h]
    rwa [h] at hs

/-- It is enough that the first of two takes a lexeme. -/
theorem Taking.bind_left (hx : Taking x) (hf : ∀ a, Forward k (f a)) : Taking (x >>= f) := by
  intro s b s' h
  obtain ⟨a, s₁, ha, hb⟩ := bind_eq_ok.1 h
  obtain ⟨ls, hne, hls⟩ := hx ha
  obtain ⟨rs, hrs⟩ := (hf a).suffix hb
  exact ⟨ls ++ rs, by simp [hne], by rw [hls, ← hrs, List.append_assoc]⟩

theorem Taking.bind_right (hx : Forward k x) (hf : ∀ a, Taking (f a)) : Taking (x >>= f) := by
  intro s b s' h
  obtain ⟨a, s₁, ha, hb⟩ := bind_eq_ok.1 h
  obtain ⟨ls, hls⟩ := hx.suffix ha
  obtain ⟨rs, hne, hrs⟩ := hf a hb
  exact ⟨ls ++ rs, by simp [hne], by rw [← hls, hrs, List.append_assoc]⟩

theorem Taking.restoring (hx : Taking x) : Taking (restoring x) := by
  intro s a s' h
  cases hs : x s with
  | error e s₁ => cases (restoring_of_error hs).symm.trans h
  | ok b s₁ =>
    cases (restoring_of_ok hs).symm.trans h
    obtain ⟨ls, hne, hls⟩ := hx hs
    exact ⟨ls, hne, hls⟩

theorem Taking.length_lt (hx : Taking x) {a : α} (h : x s = .ok a s') :
    s'.cursor.rest.length < s.cursor.rest.length := by
  obtain ⟨ls, hne, hls⟩ := hx h
  have hpos := List.length_pos_iff.2 hne
  rw [hls, List.length_append]
  omega

section

variable {p : Parser α} (hp : ∀ ⦃c a c'⦄, p c = .ok (a, c') → ∃ l, c.Took [l] c')
include hp

theorem taking_first (hf : ∀ a, Forward k (f a)) : Taking ((monadLift p : Counted α) >>= f) := by
  refine Taking.bind_left (fun s a s' h => ?_) hf
  cases hc : p s.cursor with
  | error e => cases (lift_of_error hc).symm.trans h
  | ok r =>
    cases (lift_of_ok hc).symm.trans h
    obtain ⟨l, hl⟩ := hp hc
    exact ⟨[l], nofun, hl.rest_eq⟩

/-- Behind a lexeme there is one less. -/
theorem forward_first (hp' : Single p) (hf : ∀ a, Forward (k - 1) (f a)) :
    Forward k ((monadLift p : Counted α) >>= f) := by
  intro s
  cases hc : p s.cursor with
  | error e =>
    rw [bind_of_error (lift_of_error hc)]
    exact ⟨List.suffix_rfl, fun _ => ⟨e, rfl, hp'.refused hc⟩⟩
  | ok r =>
    obtain ⟨l, hl⟩ := hp hc
    have hlength := hl.length_rest
    rw [bind_of_ok (lift_of_ok hc)]
    refine (hf r.1 _).behind ⟨[l], hl.rest_eq.symm⟩ fun hlt => ?_
    rw [List.length_singleton] at hlength
    show r.2.rest.length < k - 1
    omega

end

/-- An operand begins with a lexeme. -/
theorem took_operandFirst {c c' : Cursor} {first : OperandStart × Span}
    (h : Lifted.operandFirst c = .ok (first, c')) : ∃ l, c.Took [l] c' := by
  obtain ⟨l, hl, -⟩ := take_eq_ok.1 h
  exact ⟨l, hl⟩

theorem took_expect {c c' : Cursor} {u : Unit} (h : expect t c = .ok (u, c')) :
    ∃ l, c.Took [l] c' := by
  obtain ⟨l, hl, -⟩ := expect_eq_ok.1 h
  exact ⟨l, hl⟩

section

variable {limit : Option Nat} {expr : Rank → Counted Expr} {rank : Rank} {left : Expr}
  (hexpr : ∀ rank, Forward (k - 1) (expr rank))
include hexpr

theorem forward_operandFrom (first : OperandStart) (span : Span) :
    Forward (k - 1) (Lifted.operandFrom expr first span) :=
  (kept_forward.operandFrom (fun rank => ⟨rfl, hexpr rank⟩) first span).2

theorem forward_extendFrom (left : Expr) (t : Token) :
    Forward (k - 1) (Lifted.extendFrom expr left t) :=
  (kept_forward.extendFrom (fun rank => ⟨rfl, hexpr rank⟩) left t).2

theorem forward_operand : Forward k (Lifted.operand expr) :=
  forward_first (fun _ _ _ => took_operandFirst) single_operandFirst fun first =>
    forward_operandFrom hexpr first.1 first.2

theorem taking_operand : Taking (Lifted.operand expr) :=
  taking_first (fun _ _ _ => took_operandFirst) fun first =>
    forward_operandFrom hexpr first.1 first.2

theorem forward_extend (left : Expr) (t : Token) : Forward k (Lifted.extend expr left t) :=
  forward_first (fun _ _ _ => took_expect) (single_expect t) fun _ =>
    forward_extendFrom hexpr left t

theorem taking_extend (left : Expr) (t : Token) : Taking (Lifted.extend expr left t) :=
  taking_first (fun _ _ _ => took_expect) fun _ =>
    forward_extendFrom hexpr left t

variable (hlimit : 0 < k → limit = none)
include hlimit

/-- Each operator takes a lexeme, so that the next one has fewer left. -/
theorem ends_operator {next : Expr → Counted Expr}
    (hnext : ∀ whole s', s'.cursor.rest.length < s.cursor.rest.length → Ends k s' (next whole s')) :
    Ends k s (operator limit expr rank left next s) := by
  by_cases h : ∀ t ∈ s.cursor.next?, (rankOf t).toNat ≤ rank.toNat
  · rw [operator_of_le h]
    exact List.suffix_rfl
  · obtain ⟨t, ht, hlt⟩ : ∃ t, s.cursor.next? = some t ∧ rank.toNat < (rankOf t).toNat := by
      simpa using h
    rw [operator_of_lt ht hlt]
    refine (forward_descend hlimit s).bind fun _ s₁ h₁ => ?_
    refine (forward_extend hexpr left t s₁).bind fun whole s₂ h₂ => hnext whole s₂ ?_
    have hle := ((forward_descend hlimit).suffix h₁).length_le
    have hless := (taking_extend hexpr left t).length_lt h₂
    omega

/-- The loop over operators never comes to the end of its bound. -/
theorem ends_operators {bound : List Lexeme} (hbound : s.cursor.rest.length ≤ bound.length) :
    Ends k s (operators limit expr rank bound left s) := by
  induction bound generalizing s left with
  | nil =>
    refine ends_operator hexpr hlimit fun whole s' h => ?_
    exact absurd (Nat.lt_of_lt_of_le h hbound) (Nat.not_lt_zero _)
  | cons l bound ih =>
    refine ends_operator hexpr hlimit fun whole s' h => ih ?_
    rw [List.length_cons] at hbound
    omega

/-- All operators behind `left`, with the lexemes that are left as their bound. -/
theorem forward_operators : Forward k ((unread : Parser (List Lexeme)) >>= fun bound =>
    operators limit expr rank bound left : Counted Expr) := by
  intro s
  refine (forward_single single_unread s).bind fun bound s' hs => ?_
  cases hs
  exact ends_operators hexpr hlimit (Nat.le_refl _)

end

/-- Without a limit, more fuel than lexemes is enough. -/
theorem forward_expr {limit : Option Nat} {fuel : Nat} (h : 0 < k → limit = none ∧ k ≤ fuel)
    (rank : Rank) : Forward k (expr limit fuel rank) := by
  induction fuel generalizing k rank with
  | zero =>
    intro s
    refine ⟨List.suffix_rfl, fun hlt => ?_⟩
    have hk := (h (by omega)).2
    omega
  | succ fuel ih =>
    have hexpr : ∀ rank, Forward (k - 1) (expr limit fuel rank) := by
      refine fun rank => ih (fun hk => ?_) rank
      obtain ⟨hlimit, hle⟩ := h (by omega)
      exact ⟨hlimit, by omega⟩
    have hlimit : 0 < k → limit = none := fun hk => (h hk).1
    refine ((forward_descend hlimit).bind fun _ => forward_enter.bind fun _ => ?_).restoring
    exact (forward_operand hexpr).bind fun left => forward_operators hexpr hlimit

theorem forward_expr_zero (limit : Option Nat) (fuel : Nat) (rank : Rank) :
    Forward 0 (expr limit fuel rank) :=
  forward_expr (k := 0) nofun rank

/-- Every expression takes a lexeme. -/
theorem taking_expr (limit : Option Nat) (fuel : Nat) (rank : Rank) :
    Taking (expr limit fuel rank) := by
  cases fuel with
  | zero =>
    intro s a s' h
    cases h
  | succ fuel =>
    have hexpr : ∀ rank, Forward (0 - 1) (expr limit fuel rank) := forward_expr_zero limit fuel
    refine Taking.restoring (Taking.bind_right (forward_descend (k := 0) nofun) fun _ => ?_)
    refine Taking.bind_right (forward_enter (k := 0)) fun _ => ?_
    exact (taking_operand hexpr).bind_left fun left => forward_operators hexpr nofun

theorem taking_statement (limit : Option Nat) (fuel : Nat) : Taking (statement limit fuel) := by
  have hexpr := taking_expr limit fuel .lowest
  have hend : ∀ g : Nat → Stmt, Forward 0 ((eat .semi : Parser Bool) >>= fun _ =>
      (prevEnd : Parser Nat) >>= fun i => pure (g i) : Counted Stmt) := fun g =>
    (forward_single (single_eat .semi)).bind fun _ => (kept_forward.ending g).2
  refine Taking.bind_right (forward_single (k := 0) single_nextStart) fun start => ?_
  refine Taking.bind_right (forward_single (k := 0) (single_eat .letWord)) fun b => ?_
  cases b with
  | true =>
    refine Taking.bind_right (forward_single (k := 0) single_name) fun x => ?_
    refine Taking.bind_right (forward_single (k := 0) (single_expect .assign)) fun _ => ?_
    exact hexpr.bind_left fun e => hend _
  | false => exact hexpr.bind_left fun e => hend _

end

/-! ## Giving back -/

/-- Where it succeeds, the levels taken and the expressions being read are as before. -/
def Level (x : Counted α) : Prop :=
  ∀ ⦃s a s'⦄, x s = .ok a s' → s'.depth = s.depth ∧ s'.active = s.active

/-- What does nothing leaves the levels as they are. -/
theorem level_pure (a : α) : Level (pure a) := by
  intro s b s' h
  cases h
  exact ⟨rfl, rfl⟩

theorem level_lift (p : Parser α) : Level (monadLift p) := by
  intro s a s' h
  cases hc : p s.cursor with
  | error e => cases (lift_of_error hc).symm.trans h
  | ok r =>
    cases (lift_of_ok hc).symm.trans h
    exact ⟨rfl, rfl⟩

theorem Level.bind (hx : Level x) (hf : ∀ a, Level (f a)) : Level (x >>= f) := by
  intro s b s' h
  obtain ⟨a, s₁, ha, hb⟩ := bind_eq_ok.1 h
  obtain ⟨hdepth, hactive⟩ := hx ha
  obtain ⟨hdepth', hactive'⟩ := hf a hb
  exact ⟨hdepth'.trans hdepth, hactive'.trans hactive⟩

theorem kept_level : Kept fun α (x y : Counted α) => y = x ∧ Level x :=
  .of_property level_pure (fun _ => level_lift _) .bind

/-- What is given back makes up for all that was taken. -/
theorem level_restoring (x : Counted α) : Level (restoring x) := by
  intro s a s' h
  cases hs : x s with
  | error e s₁ => cases (restoring_of_error hs).symm.trans h
  | ok b s₁ =>
    cases (restoring_of_ok hs).symm.trans h
    exact ⟨rfl, rfl⟩

/-- However it is read, an expression leaves the levels as it found them. -/
theorem level_expr (limit : Option Nat) (fuel : Nat) (rank : Rank) :
    Level (expr limit fuel rank) := by
  cases fuel with
  | zero =>
    intro s a s' h
    cases h
  | succ fuel => exact level_restoring _

theorem level_statement (limit : Option Nat) (fuel : Nat) : Level (statement limit fuel) :=
  (kept_level.statement ⟨rfl, level_expr limit fuel .lowest⟩).2

end Counted

end MonkeyLang.Parser
