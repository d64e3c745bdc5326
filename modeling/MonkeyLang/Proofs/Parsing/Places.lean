import MonkeyLang.Program.Spans
import MonkeyLang.Proofs.Parsing.Nesting
import MonkeyLang.Proofs.Scanning.Scans

/-!
# Where phrases stand

The grammar looks at the tokens and takes the spans as they come, so phrases can be moved: where
`φ` keeps the order of places, the lexemes put through it are the tree put through it
(`Phrase.moved`).  On lexemes that stand one behind the other, the span of every phrase goes from
the first of its lexemes to the last (`Phrase.span_eq_hull`).
-/

namespace MonkeyLang

namespace Span

/-- The span with both ends put through `φ`. -/
def map (φ : Nat → Nat) (a : Span) : Span := ⟨φ a.start, φ a.stop⟩

/-- The hull of two spans moves with them, if their ends stay in order. -/
theorem map_merge {φ : Nat → Nat} (hφ : Monotone φ) (a b : Span) :
    (a.merge b).map φ = (a.map φ).merge (b.map φ) := by
  simp only [map, merge, hφ.map_min, hφ.map_max]

theorem map_sub_shift (n : Nat) (a : Span) : (a.shift n).map (· - n) = a := by
  simp [map, shift]

theorem shift_inj {n : Nat} {a b : Span} (h : a.shift n = b.shift n) : a = b := by
  rw [← map_sub_shift n a, h, map_sub_shift]

end Span

/-- The lexemes with all ends put through `φ`. -/
def moved (φ : Nat → Nat) (ls : List Lexeme) : List Lexeme := ls.map (·.mapSpan (.map φ))

theorem Expr.mapSpans_withSpan (f : Span → Span) (s : Span) (e : Expr) :
    (e.withSpan s).mapSpans f = (e.mapSpans f).withSpan (f s) := by
  cases e <;> rfl

section

variable (φ : Nat → Nat) (l : Lexeme) (ls rs : List Lexeme)

@[simp] theorem moved_nil : moved φ [] = [] := rfl

@[simp] theorem moved_cons : moved φ (l :: ls) = l.mapSpan (.map φ) :: moved φ ls := rfl

@[simp] theorem moved_append : moved φ (ls ++ rs) = moved φ ls ++ moved φ rs := List.map_append

/-- What was shifted can be shifted back. -/
theorem moved_sub_shift (n : Nat) :
    moved (· - n) (ls.map (·.mapSpan (.shift n))) = ls := by
  have hid : ∀ l : Lexeme, (l.mapSpan (.shift n)).mapSpan (.map (· - n)) = l := by
    intro l
    simp only [Lexeme.mapSpan, Span.map_sub_shift]
  rw [moved, List.map_map]
  exact (List.map_congr_left fun l _ => hid l).trans (List.map_id ls)

end

namespace Grammar

/-! ## Moving -/

theorem endFrom_moved (φ : Nat → Nat) (n : Nat) (ls : List Lexeme) :
    endFrom (φ n) (moved φ ls) = φ (endFrom n ls) := by
  induction ls generalizing n with
  | nil => rfl
  | cons l ls ih => exact ih l.span.stop

/-- The hull of moved lexemes is the moved hull. -/
theorem hull_moved (φ : Nat → Nat) {ls : List Lexeme} (hne : ls ≠ []) :
    hull (moved φ ls) = (hull ls).map φ := by
  obtain ⟨l, ls, rfl⟩ := List.exists_cons_of_ne_nil hne
  exact congrArg (Span.mk (φ l.span.start)) (endFrom_moved φ l.span.stop ls)

theorem leaf?_moved (φ : Nat → Nat) {l : Lexeme} {e : Expr} (h : leaf? l = some e) :
    leaf? (l.mapSpan (.map φ)) = some (e.mapSpans (.map φ)) := by
  obtain ⟨t, a⟩ := l
  cases t <;> cases h <;> rfl

theorem continues_moved (φ : Nat → Nat) (ls : List Lexeme) :
    Continues (moved φ ls) ↔ Continues ls := by
  cases ls with
  | nil => exact Iff.rfl
  | cons l ls =>
    constructor
    · rintro ⟨_, ⟨⟩, h⟩
      exact ⟨l, rfl, h⟩
    · rintro ⟨_, ⟨⟩, h⟩
      exact ⟨_, rfl, h⟩

theorem Semicolon.moved {ended : Bool} {ls : List Lexeme} (φ : Nat → Nat) :
    Semicolon ended ls → Semicolon ended (moved φ ls)
  | .absent => .absent
  | .present hl => .present hl

variable {limit : Nat} {φ : Nat → Nat}

mutual

/-- If ends stay in order, a phrase of moved lexemes is the phrase with its spans moved. -/
theorem Phrase.moved (hφ : Monotone φ) {layer : Layer} {d k : Nat} {ls : List Lexeme} {e : Expr} :
    Phrase limit layer d ls k e →
      Phrase limit layer d (moved φ ls) k (e.mapSpans (.map φ))
  | .leaf hd hl => .leaf hd (leaf?_moved φ hl)
  | .paren hd ho he hc => by
    rw [Expr.mapSpans_withSpan, ← hull_moved φ (by simp), moved_append]
    exact .paren hd ho (he.moved hφ) hc
  | .array hd ho hes hc => by
    rw [Expr.mapSpans, ← hull_moved φ (by simp), moved_append]
    exact .array hd ho (hes.moved hφ) hc
  | .hash hd ho hps hc => by
    rw [Expr.mapSpans, ← hull_moved φ (by simp), moved_append]
    exact .hash hd ho (hps.moved hφ) hc
  | .cond hd hi ho he hc hy hn => by
    rw [Expr.mapSpans, ← hull_moved φ (by simp)]
    simp only [moved_append, moved_cons]
    exact .cond hd hi ho (he.moved hφ) hc (hy.moved hφ) (hn.moved hφ)
  | .unary hd ho he => by
    rw [Expr.mapSpans, ← hull_moved φ (by simp)]
    exact .unary hd ho (he.moved hφ)
  | .binary (l := l) (r := r) hl ho hd hr => by
    rw [Expr.mapSpans, Span.map_merge hφ, ← l.span_mapSpans (.map φ), ← r.span_mapSpans (.map φ),
      moved_append]
    exact .binary (hl.moved hφ) ho hd (hr.moved hφ)
  | .call hf ho hd hargs hc => by
    rw [Expr.mapSpans, ← hull_moved φ (by simp), moved_append, moved_append]
    exact .call (hf.moved hφ) ho hd (hargs.moved hφ) hc
  | .index ht ho hd hi hc => by
    rw [Expr.mapSpans, ← hull_moved φ (by simp), moved_append, moved_append]
    exact .index (ht.moved hφ) ho hd (hi.moved hφ) hc
  | .tighter h => .tighter (h.moved hφ)

theorem Items.moved (hφ : Monotone φ) {d : Nat} {ls : List Lexeme} {es : List Expr} :
    Items limit d ls es → Items limit d (moved φ ls) (Expr.mapSpansAll (.map φ) es)
  | .nil => .nil
  | .one he => .one (he.moved hφ)
  | .cons he hc hes => by
    rw [moved_append]
    exact .cons (he.moved hφ) hc (hes.moved hφ)

theorem Pairs.moved (hφ : Monotone φ) {d : Nat} {ls : List Lexeme} {ps : List (Expr × Expr)} :
    Pairs limit d ls ps → Pairs limit d (moved φ ls) (Expr.mapSpansPairs (.map φ) ps)
  | .nil => .nil
  | .one hk hm hv => by
    rw [moved_append]
    exact .one (hk.moved hφ) hm (hv.moved hφ)
  | .cons hk hm hv hc hps => by
    rw [moved_append, moved_append]
    exact .cons (hk.moved hφ) hm (hv.moved hφ) hc (hps.moved hφ)

theorem Statement.moved (hφ : Monotone φ) {d : Nat} {ended : Bool} {ls : List Lexeme} {s : Stmt} :
    Statement limit d ended ls s → Statement limit d ended (moved φ ls) (s.mapSpans (.map φ))
  | .define hl hx ha he hs => by
    rw [Stmt.mapSpans, ← hull_moved φ (by simp), moved_append]
    exact .define hl hx ha (he.moved hφ) (hs.moved φ)
  | .expr he hs => by
    rw [Stmt.mapSpans, ← hull_moved φ (by simp [he.ne_nil]), moved_append]
    exact .expr (he.moved hφ) (hs.moved φ)

/-- Statements of moved lexemes are the statements with their spans moved. -/
theorem Statements.moved (hφ : Monotone φ) {d : Nat} {ls : List Lexeme} {ss : List Stmt} :
    Statements limit d ls ss → Statements limit d (moved φ ls) (Stmt.mapSpansAll (.map φ) ss)
  | .nil => .nil
  | .cons hs hnext hss => by
    rw [moved_append]
    exact .cons (hs.moved hφ) (hnext.imp_right (mt (continues_moved φ _).1)) (hss.moved hφ)

theorem Block.moved (hφ : Monotone φ) {d : Nat} {ls : List Lexeme} {ss : List Stmt} :
    Block limit d ls ss → Block limit d (moved φ ls) (Stmt.mapSpansAll (.map φ) ss)
  | .braces ho hss hc => by
    rw [moved_append]
    exact .braces ho (hss.moved hφ) hc

theorem Otherwise.moved (hφ : Monotone φ) {d : Nat} {ls : List Lexeme} {no : Option (List Stmt)} :
    Otherwise limit d ls no → Otherwise limit d (moved φ ls) (Stmt.mapSpansElse (.map φ) no)
  | .none => .none
  | .block hw hb => .block hw (hb.moved hφ)

end

/-! ## Lexemes in order -/

/-- The lexemes stand one behind the other. -/
structure Ordered (ls : List Lexeme) : Prop where
  forward : ∀ l ∈ ls, l.span.start ≤ l.span.stop
  apart : ls.Pairwise fun l m => l.span.stop ≤ m.span.start

theorem Ordered.mono {ls ls' : List Lexeme} (h : Ordered ls) (hls : ls' <:+: ls) :
    Ordered ls' where
  forward l hl := h.forward l (hls.subset hl)
  apart := h.apart.sublist hls.sublist

theorem endFrom_append_cons (n : Nat) (ls : List Lexeme) (m : Lexeme) (rs : List Lexeme) :
    endFrom n (ls ++ m :: rs) = endFrom m.span.stop rs := by
  rw [endFrom, List.foldl_append]
  rfl

theorem endFrom_le {n b : Nat} {ls : List Lexeme} (hn : n ≤ b) (h : ∀ l ∈ ls, l.span.stop ≤ b) :
    endFrom n ls ≤ b := by
  induction ls generalizing n with
  | nil => exact hn
  | cons l ls ih =>
    obtain ⟨hl, hls⟩ := List.forall_mem_cons.1 h
    exact ih hl hls

/-- The first lexeme ends before the last, or is the last. -/
theorem Ordered.stop_le_endFrom {l : Lexeme} {ls : List Lexeme} (h : Ordered (l :: ls)) :
    l.span.stop ≤ endFrom l.span.stop ls := by
  induction ls generalizing l with
  | nil => exact Nat.le_refl _
  | cons m ls ih =>
    have hrest := ih (h.mono (List.suffix_cons l _).isInfix)
    have hlm := List.rel_of_pairwise_cons h.apart (List.mem_cons_self ..)
    have hm := h.forward m (by simp)
    exact Nat.le_trans (Nat.le_trans hlm hm) hrest

/-- The hull of the first and the last of some lexemes in order is that of all. -/
theorem merge_hull {ls ms rs : List Lexeme} (h : Ordered (ls ++ ms ++ rs)) (hls : ls ≠ [])
    (hrs : rs ≠ []) : (hull ls).merge (hull rs) = hull (ls ++ ms ++ rs) := by
  obtain ⟨l, ls, rfl⟩ := List.exists_cons_of_ne_nil hls
  obtain ⟨r, rs, rfl⟩ := List.exists_cons_of_ne_nil hrs
  have hapart := (List.pairwise_append.1 h.apart).2.2
  have hbefore : ∀ m ∈ l :: ls, m.span.stop ≤ r.span.start := fun m hm =>
    hapart m (List.mem_append_left _ hm) r (List.mem_cons_self ..)
  obtain ⟨hl, hlast⟩ := List.forall_mem_cons.1 hbefore
  have hend := endFrom_le hl hlast
  have hforward := h.forward l (by simp)
  have hr := h.forward r (by simp)
  have hstop := (h.mono (List.suffix_append _ (r :: rs)).isInfix).stop_le_endFrom
  have hwhole : hull (l :: ls ++ ms ++ r :: rs) = ⟨l.span.start, endFrom r.span.stop rs⟩ :=
    congrArg (Span.mk l.span.start) (endFrom_append_cons _ (ls ++ ms) r rs)
  rw [hwhole]
  simp only [hull, Span.merge, Span.mk.injEq]
  omega

/-- A phrase is all that stands from its first lexeme to its last. -/
theorem Phrase.span_eq_hull {layer : Layer} {d k : Nat} {ls : List Lexeme} {e : Expr} :
    Phrase limit layer d ls k e → Ordered ls → e.span = hull ls
  | .leaf _ hl, _ => by
    unfold leaf? at hl
    cases ht : Lexeme.token _ <;> rw [ht] at hl <;> cases hl <;> rfl
  | .paren _ _ _ _, _ => Expr.span_withSpan _ _
  | .array _ _ _ _, _ => rfl
  | .hash _ _ _ _, _ => rfl
  | .cond _ _ _ _ _ _ _, _ => rfl
  | .unary _ _ _, _ => rfl
  | .binary (o := o) hl _ _ hr, hord => by
    rw [← List.singleton_append, ← List.append_assoc] at hord ⊢
    have hleft := hl.span_eq_hull (hord.mono ((infix_append _ _).trans (infix_append _ _)))
    have hright := hr.span_eq_hull (hord.mono (List.suffix_append _ _).isInfix)
    rw [← merge_hull hord hl.ne_nil hr.ne_nil, ← hleft, ← hright]
    rfl
  | .call _ _ _ _ _, _ => rfl
  | .index _ _ _ _ _, _ => rfl
  | .tighter h, hord => h.span_eq_hull hord

/-- A statement is all that stands from its first lexeme to its last. -/
theorem Statement.span_eq_hull {d : Nat} {ended : Bool} {ls : List Lexeme} {s : Stmt} :
    Statement limit d ended ls s → s.span = hull ls
  | .define _ _ _ _ _ => rfl
  | .expr _ _ => rfl

end Grammar

end MonkeyLang
