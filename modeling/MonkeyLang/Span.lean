/-!
# Spans

The byte range `start..stop` that a piece of source text takes up.  `merge` is the hull of two
spans: it lies over both (`le_merge_left`, `le_merge_right`) and under every span that does
(`merge_le`).
-/

namespace MonkeyLang

/-- Bytes of a source, from `start` up to `stop`, which is not among them. -/
structure Span where
  start : Nat
  stop : Nat
deriving DecidableEq, Inhabited

namespace Span

/-! ## Algorithm -/

/-- The smallest span over both. -/
def merge (a b : Span) : Span := ⟨min a.start b.start, max a.stop b.stop⟩

/-- The span `n` bytes further on. -/
def shift (n : Nat) (a : Span) : Span := ⟨n + a.start, n + a.stop⟩

def display (a : Span) : String := toString a.start ++ ".." ++ toString a.stop

/-- `a` lies within `b`. -/
def Within (a b : Span) : Prop := b.start ≤ a.start ∧ a.stop ≤ b.stop

instance (a b : Span) : Decidable (a.Within b) := inferInstanceAs (Decidable (_ ∧ _))

/-! ## Lemmas -/

theorem le_merge_left (a b : Span) : a.Within (a.merge b) :=
  ⟨Nat.min_le_left .., Nat.le_max_left ..⟩

theorem le_merge_right (a b : Span) : b.Within (a.merge b) :=
  ⟨Nat.min_le_right .., Nat.le_max_right ..⟩

/-- No span that lies over both is smaller. -/
theorem merge_le {a b c : Span} (ha : a.Within c) (hb : b.Within c) : (a.merge b).Within c :=
  ⟨Nat.le_min.2 ⟨ha.1, hb.1⟩, Nat.max_le.2 ⟨ha.2, hb.2⟩⟩

end Span

end MonkeyLang
