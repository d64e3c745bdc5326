import MonkeyLang.CompileError
import MonkeyLang.Proofs.Parsing.Nesting
import MonkeyLang.Proofs.Scanning.Scans

/-!
# Which chains come out

Every chain that fits the levels is one of an accepted source.  `chainText n k w` writes it down:
a `1` at its end, `[ .. ]` around it for a step inside, `()` behind it for a step to the left, and
parentheses where the spine is used up.

    (∃ source p, compile source = .ok p ∧ p.HasChain w) ↔ fits 1023 1023 w       (hasChain_iff_fits)

So the limit bounds the chains of a shape only where a spine on a deep operand does not fit, or is
short enough (`chain_le_nestingLimit_iff`).  What bounds all chains is the sum of the spines at all
levels, and one chain is as long as that (`exists_longest_chain`).
-/

namespace MonkeyLang

namespace Token

/-! ## Scanning -/

def bracket? : Char → Option Token
  | '(' => some lparen
  | ')' => some rparen
  | '[' => some lbracket
  | ']' => some rbracket
  | _ => none

/-- The text is these tokens: brackets, and the number one, never twice in a row. -/
inductive Spells : List Char → List Token → Prop
  | nil : Spells [] []
  | bracket {c : Char} {t : Token} {cs : List Char} {ts : List Token} (ht : bracket? c = some t)
      (h : Spells cs ts) : Spells (c :: cs) (t :: ts)
  | one {cs : List Char} {ts : List Token} (hcs : ∀ c ∈ cs.head?, (bracket? c).isSome)
      (h : Spells cs ts) : Spells ('1' :: cs) (int 1 :: ts)

theorem Spells.append {cs ds : List Char} {ts us : List Token} (hcs : Spells cs ts)
    (hds : Spells ds us) (hhead : ∀ c ∈ ds.head?, (bracket? c).isSome) :
    Spells (cs ++ ds) (ts ++ us) := by
  induction hcs with
  | nil => exact hds
  | bracket ht _ ih => exact .bracket ht ih
  | @one cs ts hcs _ ih =>
    refine .one ?_ ih
    cases cs with
    | nil => exact hhead
    | cons c cs => exact hcs

theorem sign?_of_bracket? {c : Char} {t : Token} (h : bracket? c = some t) :
    sign? c = some t ∧ c ∉ ['/', '=', '!'] := by
  unfold bracket? at h
  split at h <;> cases h <;> exact ⟨rfl, by decide⟩

theorem not_isDigit_of_bracket? {c : Char} (h : (bracket? c).isSome) : c.isDigit = false := by
  unfold bracket? at h
  split at h <;> first | rfl | cases h

/-- A spelled text scans as its tokens. -/
theorem Spells.scans {cs : List Char} {ts : List Token} (h : Spells cs ts) (n : Nat) :
    ∃ ls, Scans [] n cs ls ∧ ls.map Lexeme.token = ts := by
  induction h generalizing n with
  | nil => exact ⟨[], .nil, rfl⟩
  | @bracket c t cs ts ht _ ih =>
    obtain ⟨ls, hls, rfl⟩ := ih (n + width [c])
    obtain ⟨hsign, hc⟩ := sign?_of_bracket? ht
    exact ⟨_, .word (.sign hsign fun d _ => not_joins hc d) hls, rfl⟩
  | @one cs ts hcs _ ih =>
    obtain ⟨ls, hls, rfl⟩ := ih (n + width ['1'])
    have hnext : Ends Char.isDigit (cs ++ []) := by
      rw [List.append_nil]
      exact fun c hc => not_isDigit_of_bracket? (hcs c hc)
    have hone : ∀ c ∈ ['1'], c.isDigit := List.forall_mem_singleton.2 rfl
    exact ⟨_, .word (.int (List.cons_ne_nil _ _) hone rfl hnext) hls, rfl⟩

theorem Spells.scan_eq {cs : List Char} {ts : List Token} (h : Spells cs ts) :
    ∃ ls, scan (String.ofList cs) = .ok ls ∧ ls.map Lexeme.token = ts := by
  obtain ⟨ls, hls, hts⟩ := h.scans 0
  exact ⟨ls, hls.scan_eq, hts⟩

end Token

namespace Grammar

open MonkeyLang.Expr MonkeyLang.Token

/-! ## Algorithm -/

/-- A source with a chain of shape `w`, if `n` and `k` pay for it. -/
def chainText : Nat → Nat → List Descent → List Char
  | _, _, [] => ['1']
  | n, k + 1, .left :: w => chainText n k w ++ ['(', ')']
  | n + 2, 0, .left :: w => '(' :: (chainText (n + 1) n w ++ ['(', ')']) ++ [')']
  | n + 1, _, .inner :: w => '[' :: chainText n n w ++ [']']
  | _, _, _ => []

/-! ## Lemmas -/

/-- The text is an expression that has the chain, entered at depth `d` and with no more than `k`
operators on its left spine. -/
def Writes (limit d k : Nat) (w : List Descent) (cs : List Char) : Prop :=
  ∃ ts, Spells cs ts ∧ ∀ ls : List Lexeme, ls.map Lexeme.token = ts →
    ∃ j e f, j ≤ k ∧ Phrase limit .suffix d ls j e ∧ Path e w f

theorem exists_bracketed {ls : List Lexeme} {ts : List Token} {t u : Token}
    (h : ls.map Lexeme.token = t :: ts ++ [u]) : ∃ o ls' c, ls = o :: ls' ++ [c] ∧
      o.token = t ∧ ls'.map Lexeme.token = ts ∧ c.token = u := by
  obtain ⟨hd, cl, rfl, hhd, hcl⟩ := List.map_eq_append_iff.1 h
  obtain ⟨o, ls', rfl, ho, hls⟩ := List.map_eq_cons_iff.1 hhd
  obtain ⟨c, rest, rfl, hc, hrest⟩ := List.map_eq_cons_iff.1 hcl
  obtain rfl := List.map_eq_nil_iff.1 hrest
  exact ⟨o, ls', c, rfl, ho, hls, hc⟩

section

variable {limit d k : Nat} {w : List Descent} {cs : List Char}

theorem writes_one (hd : d + 1 ≤ limit) : Writes limit d k [] ['1'] := by
  refine ⟨[.int 1], .one nofun .nil, fun ls hls => ?_⟩
  obtain ⟨l, rest, rfl, hl, hrest⟩ := List.map_eq_cons_iff.1 hls
  obtain rfl := List.map_eq_nil_iff.1 hrest
  have hleaf : leaf? l = some (.int 1 l.span) := by rw [leaf?, hl]
  exact ⟨0, _, _, Nat.zero_le k, .tighter (.leaf hd hleaf), .nil⟩

/-- A call takes one level of the spine, and the chain goes down its callee. -/
theorem Writes.call (h : Writes limit d k w cs) (hd : d + 1 + (k + 1) ≤ limit) :
    Writes limit d (k + 1) (.left :: w) (cs ++ ['(', ')']) := by
  obtain ⟨ts, hcs, hphrase⟩ := h
  have hcall : Spells ['(', ')'] [.lparen, .rparen] := .bracket rfl (.bracket rfl .nil)
  have hnext : ∀ c ∈ ['(', ')'].head?, (bracket? c).isSome := by
    rintro c ⟨⟩
    rfl
  refine ⟨_, hcs.append hcall hnext, fun ls hls => ?_⟩
  obtain ⟨fs, bs, rfl, hfs, hbs⟩ := List.map_eq_append_iff.1 hls
  have hbs : bs.map Lexeme.token = .lparen :: [] ++ [.rparen] := hbs
  obtain ⟨o, rs, c, rfl, ho, hrs, hc⟩ := exists_bracketed hbs
  obtain rfl := List.map_eq_nil_iff.1 hrs
  obtain ⟨j, e, f, hj, he, hp⟩ := hphrase fs hfs
  have hcall := Phrase.call he ho (by omega) .nil hc
  rw [List.append_assoc] at hcall
  exact ⟨j + 1, _, f, Nat.succ_le_succ hj, hcall, .cons .callee hp⟩

/-- Any brackets that make a node of one expression take one level of depth; inside, the spine may
be as long as there is room. -/
theorem Writes.bracketed (h : Writes limit (d + 1) k w cs) {a b : Char} {t u : Token}
    (ha : bracket? a = some t) (hb : bracket? b = some u) {v : List Descent} {j : Nat}
    (hphrase : ∀ {o c : Lexeme} {ls : List Lexeme} {i : Nat} {e f : Expr}, o.token = t →
      Phrase limit .suffix (d + 1) ls i e → c.token = u → Path e w f →
      ∃ e' f', Phrase limit .atom d (o :: ls ++ [c]) 0 e' ∧ Path e' v f') :
    Writes limit d j v (a :: cs ++ [b]) := by
  obtain ⟨ts, hcs, hinner⟩ := h
  have hend : ∀ c ∈ [b].head?, (bracket? c).isSome := by
    rintro c ⟨⟩
    rw [hb]
    rfl
  refine ⟨t :: ts ++ [u], .append (.bracket ha hcs) (.bracket hb .nil) hend, fun ls hls => ?_⟩
  obtain ⟨o, ls, c, rfl, ho, hls, hc⟩ := exists_bracketed hls
  obtain ⟨i, e, f, -, he, hp⟩ := hinner ls hls
  obtain ⟨e', f', he', hp'⟩ := hphrase ho he hc hp
  exact ⟨0, e', f', Nat.zero_le j, .tighter he', hp'⟩

theorem Writes.paren (h : Writes limit (d + 1) k w cs) (hd : d + 1 ≤ limit) (j : Nat) :
    Writes limit d j w ('(' :: cs ++ [')']) := by
  refine h.bracketed rfl rfl fun ho he hc hp => ?_
  have hparen := Phrase.paren hd ho (he.loosen (by decide)) hc
  cases w with
  | nil => exact ⟨_, _, hparen, .nil⟩
  | cons s w => exact ⟨_, _, hparen, hp.withSpan _⟩

theorem Writes.array (h : Writes limit (d + 1) k w cs) (hd : d + 1 ≤ limit) (j : Nat) :
    Writes limit d j (.inner :: w) ('[' :: cs ++ [']']) := by
  refine h.bracketed rfl rfl fun ho he hc hp => ?_
  have harray := Phrase.array hd ho (.one (he.loosen (by decide))) hc
  exact ⟨_, _, harray, .cons (.item (List.mem_singleton_self _)) hp⟩

/-- A chain that fits is written; each step is paid for by the spine, or by a new level of depth. -/
theorem writes_chainText {n : Nat} (hk : k ≤ n) (hn : d + 1 + n = limit) (h : fits n k w) :
    Writes limit d k w (chainText n k w) := by
  induction w generalizing d n k with
  | nil =>
    have htext : chainText n k [] = ['1'] := by cases n <;> cases k <;> rfl
    rw [htext]
    exact writes_one (by omega)
  | cons s w ih =>
    cases s with
    | inner =>
      obtain ⟨m, rfl, h⟩ := fits_inner h
      have htext : chainText (m + 1) k (.inner :: w) = '[' :: chainText m m w ++ [']'] := by
        cases k <;> rfl
      rw [htext]
      exact (ih (Nat.le_refl m) (by omega) h).array (by omega) k
    | left =>
      cases k with
      | succ k => exact (ih (by omega) hn h).call (by omega)
      | zero =>
        obtain ⟨m, rfl, h⟩ := fits_left_zero h
        have hinner := ih (d := d + 1) (Nat.le_succ m) (by omega) h
        exact (hinner.call (by omega)).paren (by omega) 0

/-- A text that is an expression is a program, too. -/
theorem Writes.exists_program (h : Writes limit 0 k w cs) : ∃ ls p,
    Token.scan (String.ofList cs) = .ok ls ∧ Derives limit ls p ∧ p.HasChain w := by
  obtain ⟨ts, hcs, hphrase⟩ := h
  obtain ⟨ls, hls, hts⟩ := hcs.scan_eq
  obtain ⟨j, e, f, -, he, hp⟩ := hphrase ls hts
  have heq : Phrase limit .equality 0 ls j e := he.loosen (by decide)
  have hstmts := (Statement.expr heq .absent).derives
  rw [List.append_nil] at hstmts
  exact ⟨ls, ⟨_⟩, hls, hstmts, _, List.mem_singleton_self _, [], e, f, .nil, hp⟩

end

/-! ## Shapes -/

/-- Chains that only go inside fit as long as there are levels. -/
theorem fits_replicate_inner {n k m : Nat} (hm : m ≤ n) : fits n k (List.replicate m .inner) := by
  induction m generalizing n k with
  | zero => cases n <;> cases k <;> rfl
  | succ m ih =>
    obtain ⟨n, rfl⟩ : ∃ n', n = n' + 1 := ⟨n - 1, by omega⟩
    rw [List.replicate_succ, fits_inner_eq]
    exact ih (by omega)

theorem chainText_replicate_inner {n k m : Nat} (hm : m ≤ n) :
    chainText n k (List.replicate m .inner) =
      List.replicate m '[' ++ '1' :: List.replicate m ']' := by
  induction m generalizing n k with
  | zero => cases n <;> cases k <;> rfl
  | succ m ih =>
    obtain ⟨n, rfl⟩ : ∃ n', n = n' + 1 := ⟨n - 1, by omega⟩
    have htext : chainText (n + 1) k (List.replicate (m + 1) .inner) =
        '[' :: chainText n n (List.replicate m .inner) ++ [']'] := by
      cases k <;> rfl
    rw [htext, ih (by omega), List.replicate_succ, List.replicate_succ']
    simp

/-- A call of as many brackets as there is room for. -/
theorem writes_call_of_brackets {limit m : Nat} (hm : m + 2 = limit) :
    Writes limit 0 (m + 1) (.left :: List.replicate (m + 1) .inner)
      (List.replicate (m + 1) '[' ++ '1' :: List.replicate (m + 1) ']' ++ ['(', ')']) := by
  have hfits : fits (m + 1) m (List.replicate (m + 1) .inner) :=
    fits_replicate_inner (Nat.le_refl _)
  have hwrites : Writes limit 0 m _ _ := writes_chainText (Nat.le_succ m) (by omega) hfits
  rw [chainText_replicate_inner (Nat.le_refl _)] at hwrites
  exact hwrites.call (by omega)

/-- Some chain takes all that there is: down each spine, then inside. -/
theorem exists_fits_length {n k : Nat} (hk : k ≤ n) :
    ∃ w, fits n k w ∧ w.length = k + n * (n + 1) / 2 := by
  induction n generalizing k with
  | zero =>
    obtain rfl := Nat.le_zero.1 hk
    exact ⟨[], rfl, rfl⟩
  | succ n ihn =>
    clear hk
    induction k with
    | zero =>
      obtain ⟨w, hw, hlength⟩ := ihn (Nat.le_refl n)
      refine ⟨.inner :: w, hw, ?_⟩
      rw [List.length_cons, hlength, triangle_succ]
      omega
    | succ k ihk =>
      obtain ⟨w, hw, hlength⟩ := ihk
      refine ⟨.left :: w, hw, ?_⟩
      rw [List.length_cons, hlength]
      omega

/-! ## Top theorems -/

/-- The chains of the programs that come out have the shapes that fit. -/
theorem hasChain_iff_fits (w : List Descent) :
    (∃ source p, compile source = .ok p ∧ p.HasChain w) ↔
      fits (nestingLimit - 1) (nestingLimit - 1) w := by
  constructor
  · rintro ⟨source, p, hcompile, hw⟩
    obtain ⟨ls, -, hparse⟩ := compile_eq_ok_iff.1 hcompile
    exact (parseWithin_eq_ok_iff.1 hparse).fits hw
  · intro h
    have hwrites : Writes nestingLimit 0 (nestingLimit - 1) w _ :=
      writes_chainText (Nat.le_refl _) (by decide) h
    obtain ⟨ls, p, hls, hp, hw⟩ := hwrites.exists_program
    exact ⟨_, p, compile_eq_ok_iff.2 ⟨ls, hls, parseWithin_eq_ok_iff.2 hp⟩, hw⟩

/-- What fits takes no more than the sum of all spines. -/
theorem length_lt_of_fits {w : List Descent} (h : fits (nestingLimit - 1) (nestingLimit - 1) w) :
    w.length + 1 ≤ nestingLimit * (nestingLimit + 1) / 2 := by
  have hlength := length_le_of_fits h
  have htriangle := triangle_succ (nestingLimit - 1)
  simp only [nestingLimit] at *
  omega

/-- The limit bounds the chains of a shape where it bounds those that fit; of all chains, it bounds
the sum of the spines. -/
theorem chain_le_nestingLimit_iff (w : List Descent) :
    ((∀ source p, compile source = .ok p → p.HasChain w → w.length + 1 ≤ nestingLimit) ↔
        (fits (nestingLimit - 1) (nestingLimit - 1) w → w.length + 1 ≤ nestingLimit)) ∧
      ∀ source p, compile source = .ok p → p.HasChain w →
        w.length + 1 ≤ nestingLimit * (nestingLimit + 1) / 2 := by
  refine ⟨⟨fun h hfits => ?_, fun h source p hp hw => ?_⟩, fun source p hp hw => ?_⟩
  · obtain ⟨source, p, hp, hw⟩ := (hasChain_iff_fits w).2 hfits
    exact h source p hp hw
  · exact h ((hasChain_iff_fits w).1 ⟨source, p, hp, hw⟩)
  · exact length_lt_of_fits ((hasChain_iff_fits w).1 ⟨source, p, hp, hw⟩)

/-- A call of what is as deep as the limit allows, though the call is another level. -/
theorem call_of_deep_callee :
    ∃ p, compile (.ofList
        (List.replicate 1023 '[' ++ '1' :: List.replicate 1023 ']' ++ ['(', ')'])) = .ok p ∧
      p.HasChain (.left :: List.replicate 1023 .inner) ∧
      ¬ (Descent.left :: List.replicate 1023 .inner).length + 1 ≤ nestingLimit := by
  have hlimit : 1022 + 2 = nestingLimit := by decide
  obtain ⟨ls, p, hls, hp, hw⟩ := (writes_call_of_brackets hlimit).exists_program
  refine ⟨p, compile_eq_ok_iff.2 ⟨ls, hls, parseWithin_eq_ok_iff.2 hp⟩, hw, ?_⟩
  rw [List.length_cons, List.length_replicate]
  decide

/-- The bound on all chains is reached. -/
theorem exists_longest_chain :
    ∃ source p w, compile source = .ok p ∧ p.HasChain w ∧
      w.length + 1 = nestingLimit * (nestingLimit + 1) / 2 := by
  obtain ⟨w, hfits, hlength⟩ := exists_fits_length (Nat.le_refl (nestingLimit - 1))
  obtain ⟨source, p, hp, hw⟩ := (hasChain_iff_fits w).2 hfits
  refine ⟨source, p, w, hp, hw, ?_⟩
  rw [hlength]
  decide

end Grammar

end MonkeyLang
