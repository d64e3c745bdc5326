import MonkeyLang.Command.Run
import MonkeyLang.Proofs.Json.Reads
import MonkeyLang.Proofs.Json.Writes
import MonkeyLang.Proofs.Parsing.Places
import MonkeyLang.Proofs.Running.Consoles

/-!
# Programs come back from their JSON

A program whose places fit into 64 bits is what its JSON value is read as
(`Program.ofJson?_toJson`).  Each form is read back if its parts are (`formOfJson?_unary` and those
beside it), a list if its items are (`Json.listOf?_map`), and the number of levels that the reader
starts with, the height of the value, goes down by one at each expression, while the height of what
is left goes down by more.

The value of a program has no numbers but whole ones, so what is known of texts holds of both its
forms (`Program.proper_toJson`), and they lead back to the program (`Program.json_lossless`).  The
places in a program that comes from a source lie in the source, so they fit if its size does.
-/

namespace MonkeyLang

open Json.Grammar (IsText Proper)

/-! ## Places -/

/-- The span with its places cut down to 64 bits. -/
def Span.cut : Span → Span := Span.map (min 0xffffffffffffffff)

/-- A span that is not changed by cutting it down fits into 64 bits. -/
theorem Span.lt_of_cut {s : Span} (hs : s.cut = s) :
    s.start < 0x10000000000000000 ∧ s.stop < 0x10000000000000000 := by
  have hstart : min 0xffffffffffffffff s.start = s.start := congrArg Span.start hs
  have hstop : min 0xffffffffffffffff s.stop = s.stop := congrArg Span.stop hs
  constructor <;> omega

theorem Span.cut_of_lt {s : Span} (hstart : s.start < 0x10000000000000000)
    (hstop : s.stop < 0x10000000000000000) : s.cut = s := by
  have h : min 0xffffffffffffffff s.start = s.start ∧ min 0xffffffffffffffff s.stop = s.stop := by
    omega
  rw [cut, map, h.1, h.2]

/-- Every place in the program fits into 64 bits. -/
def Program.Sized (p : Program) : Prop := p.mapSpans Span.cut = p

/-! ## Parts of records -/

theorem Json.size?_int {n : Int} (h : 0 ≤ n ∧ n < 0x10000000000000000) :
    (Json.int n).size? = some n.toNat := if_pos h

theorem Json.size?_natCast {n : Nat} (h : n < 0x10000000000000000) :
    (Json.int n).size? = some n := by
  have hsize := size?_int (n := n) ⟨Int.natCast_nonneg n, by omega⟩
  rwa [Int.toNat_natCast] at hsize

/-- Every integer of the language is read as it is written. -/
theorem Json.int64?_toInt (n : Int64) : (Json.int n.toInt).int64? = some n := by
  have hle := n.le_toInt
  have hlt := n.toInt_lt
  have h : (Json.int n.toInt).int64? = some (Int64.ofInt n.toInt) := if_pos (by omega)
  rwa [Int64.ofInt_toInt] at h

namespace Span

theorem ofJson?_of_fields {j a b : Json} {m n : Nat}
    (h : j.fields₂? "start" "end" = some (a, b)) (ha : a.size? = some m) (hb : b.size? = some n) :
    Span.ofJson? j = some ⟨m, n⟩ := by
  simp [Span.ofJson?, h, ha, hb]

theorem apart?_of_fields {j node a : Json} {s : Span}
    (h : j.fields₂? "node" "span" = some (node, a)) (ha : Span.ofJson? a = some s) :
    Span.apart? j = some (node, s) := by
  simp [Span.apart?, h, ha]

/-- A span that fits into 64 bits comes back. -/
theorem ofJson?_toJson {s : Span} (hs : s.cut = s) : Span.ofJson? s.toJson = some s := by
  obtain ⟨hstart, hstop⟩ := lt_of_cut hs
  exact ofJson?_of_fields rfl (Json.size?_natCast hstart) (Json.size?_natCast hstop)

theorem apart?_around {s : Span} (hs : s.cut = s) (node : Json) :
    Span.apart? (s.around node) = some (node, s) :=
  apart?_of_fields rfl (ofJson?_toJson hs)

end Span

theorem UnaryOp.ofJson?_name (op : UnaryOp) : UnaryOp.ofJson? (.str op.name) = some op :=
  ofName?_name op

theorem BinaryOp.ofJson?_name (op : BinaryOp) : BinaryOp.ofJson? (.str op.name) = some op :=
  ofName?_name op

/-! ## Lists -/

/-- Items that come back one by one come back together. -/
theorem Json.readAll_map {α : Type} {item : Json → Option α} {f : α → Json} {as : List α}
    (h : ∀ a ∈ as, item (f a) = some a) (done : List α) :
    Json.readAll item done (as.map f) = some (done.reverse ++ as) := by
  induction as generalizing done with
  | nil => simp [readAll]
  | cons a as ih =>
    obtain ⟨ha, has⟩ := List.forall_mem_cons.1 h
    rw [List.map_cons, readAll, ha]
    exact (ih has (a :: done)).trans (by simp)

theorem Json.listOf?_map {α : Type} {item : Json → Option α} {f : α → Json} {as : List α}
    (h : ∀ a ∈ as, item (f a) = some a) : (Json.arr (as.map f)).listOf? item = some as :=
  readAll_map h []

/-- The loop that collects in reverse order is a map. -/
theorem Expr.toJsons_eq (done : List Json) (es : List Expr) :
    Expr.toJsons done es = done.reverse ++ es.map Expr.toJson := by
  induction es generalizing done with
  | nil => simp [Expr.toJsons]
  | cons e es ih => simp [Expr.toJsons, ih]

/-- A key and its value as a list of two. -/
def Expr.pairToJson (p : Expr × Expr) : Json := .arr [p.1.toJson, p.2.toJson]

theorem Expr.pairsToJson_eq (done : List Json) (ps : List (Expr × Expr)) :
    Expr.pairsToJson done ps = done.reverse ++ ps.map Expr.pairToJson := by
  induction ps generalizing done with
  | nil => simp [Expr.pairsToJson]
  | cons p ps ih => simp [Expr.pairsToJson, Expr.pairToJson, ih]

theorem Stmt.toJsons_eq (done : List Json) (ss : List Stmt) :
    Stmt.toJsons done ss = done.reverse ++ ss.map Stmt.toJson := by
  induction ss generalizing done with
  | nil => simp [Stmt.toJsons]
  | cons s ss ih => simp [Stmt.toJsons, ih]

/-! ## Heights -/

namespace Json

theorem le_heightItems (most : Nat) (js : List Json) :
    most ≤ heightItems most js ∧ ∀ j ∈ js, j.height ≤ heightItems most js := by
  induction js generalizing most with
  | nil => exact ⟨Nat.le_refl most, List.forall_mem_nil _⟩
  | cons j js ih =>
    rw [heightItems]
    obtain ⟨hmost, hjs⟩ := ih (max most j.height)
    exact ⟨by omega, List.forall_mem_cons.2 ⟨by omega, hjs⟩⟩

theorem le_heightMembers (most : Nat) (ms : List (String × Json)) :
    most ≤ heightMembers most ms ∧ ∀ m ∈ ms, m.2.height ≤ heightMembers most ms := by
  induction ms generalizing most with
  | nil => exact ⟨Nat.le_refl most, List.forall_mem_nil _⟩
  | cons m ms ih =>
    obtain ⟨name, j⟩ := m
    rw [heightMembers]
    obtain ⟨hmost, hms⟩ := ih (max most j.height)
    exact ⟨by omega, List.forall_mem_cons.2 ⟨by dsimp only; omega, hms⟩⟩

variable {h : Nat}

theorem height_lt_of_item {js : List Json} (hh : (Json.arr js).height ≤ h) {j : Json}
    (hj : j ∈ js) : j.height < h :=
  Nat.lt_of_lt_of_le (Nat.lt_succ_of_le ((le_heightItems 0 js).2 j hj)) hh

theorem height_lt_of_member {ms : List (String × Json)} (hh : (Json.obj ms).height ≤ h) {j : Json}
    (hj : j ∈ ms.map Prod.snd) : j.height < h := by
  obtain ⟨m, hm, rfl⟩ := List.mem_map.1 hj
  exact Nat.lt_of_lt_of_le (Nat.lt_succ_of_le ((le_heightMembers 0 ms).2 m hm)) hh

theorem height_le_of_item {js : List Json} (hh : (Json.arr js).height ≤ h) {j : Json}
    (hj : j ∈ js) : j.height ≤ h :=
  Nat.le_of_lt (height_lt_of_item hh hj)

theorem height_le_of_member {ms : List (String × Json)} (hh : (Json.obj ms).height ≤ h) {j : Json}
    (hj : j ∈ ms.map Prod.snd) : j.height ≤ h :=
  Nat.le_of_lt (height_lt_of_member hh hj)

/-- What a form holds is two levels down from its node. -/
theorem height_content_lt {s : Span} {name : String} {content : Json}
    (hh : (s.around (.form name content)).height ≤ h) : content.height + 1 < h := by
  have hform := height_lt_of_member hh (List.mem_cons_self ..)
  have hcontent : content.height < (form name content).height :=
    height_lt_of_member (Nat.le_refl _) (List.mem_singleton_self content)
  exact Nat.lt_of_le_of_lt hcontent hform

end Json

/-! ## Forms -/

namespace Expr

/-- A form over a span is read by its name. -/
theorem ofJsonWithin?_form {s : Span} (hs : s.cut = s) (h : Nat) {name : String} (content : Json) :
    Expr.ofJsonWithin? (h + 1) (s.around (.form name content)) =
      Expr.formOfJson? (Expr.ofJsonWithin? h) s name content := by
  rw [Expr.ofJsonWithin?, Span.apart?_around hs]
  simp only [Option.bind_eq_bind, Option.bind_some, Json.form, Json.form?]

section

variable {expr : Json → Option Expr} {s : Span} {j k : Json} {e f : Expr}

theorem formOfJson?_unary (op : UnaryOp) (h : expr j = some e) :
    formOfJson? expr s "Prefix" (.obj [("op", .str op.name), ("expr", j)]) =
      some (.unary op e s) := by
  show ((UnaryOp.ofJson? (.str op.name)).bind fun op => (expr j).bind fun e =>
    some (Expr.unary op e s)) = _
  rw [UnaryOp.ofJson?_name, h]
  rfl

theorem formOfJson?_binary (op : BinaryOp) (hj : expr j = some e) (hk : expr k = some f) :
    formOfJson? expr s "Infix" (.obj [("left", j), ("op", .str op.name), ("right", k)]) =
      some (.binary e op f s) := by
  show ((expr j).bind fun l => (BinaryOp.ofJson? (.str op.name)).bind fun op =>
    (expr k).bind fun r => some (Expr.binary l op r s)) = _
  rw [BinaryOp.ofJson?_name, hj, hk]
  rfl

theorem formOfJson?_cond {yes : List Stmt} (hj : expr j = some e)
    (hyes : k.listOf? (Stmt.ofJsonWith? expr) = some yes) :
    formOfJson? expr s "If" (.obj [("cond", j), ("consequence", k), ("alternative", .null)]) =
      some (.cond e yes none s) := by
  show ((expr j).bind fun c => (k.listOf? (Stmt.ofJsonWith? expr)).bind fun yes =>
    some (Expr.cond c yes none s)) = _
  rw [hj, hyes]
  rfl

theorem formOfJson?_cond_else {yes no : List Stmt} {js : List Json} (hj : expr j = some e)
    (hyes : k.listOf? (Stmt.ofJsonWith? expr) = some yes)
    (hno : (Json.arr js).listOf? (Stmt.ofJsonWith? expr) = some no) :
    formOfJson? expr s "If" (.obj [("cond", j), ("consequence", k), ("alternative", .arr js)]) =
      some (.cond e yes (some no) s) := by
  show ((expr j).bind fun c => (k.listOf? (Stmt.ofJsonWith? expr)).bind fun yes =>
    ((Json.arr js).listOf? (Stmt.ofJsonWith? expr)).bind fun no =>
      some (Expr.cond c yes (some no) s)) = _
  rw [hj, hyes, hno]
  rfl

theorem formOfJson?_array {es : List Expr} (hj : j.listOf? expr = some es) :
    formOfJson? expr s "Array" j = some (.array es s) := by
  show ((j.listOf? expr).bind fun es => some (Expr.array es s)) = _
  rw [hj]
  rfl

theorem formOfJson?_hash {ps : List (Expr × Expr)}
    (hj : j.listOf? (Json.pairOf? expr) = some ps) :
    formOfJson? expr s "Hash" j = some (.hash ps s) := by
  show ((j.listOf? (Json.pairOf? expr)).bind fun ps => some (Expr.hash ps s)) = _
  rw [hj]
  rfl

theorem formOfJson?_index (hj : expr j = some e) (hk : expr k = some f) :
    formOfJson? expr s "Index" (.obj [("target", j), ("index", k)]) = some (.index e f s) := by
  show ((expr j).bind fun t => (expr k).bind fun i => some (Expr.index t i s)) = _
  rw [hj, hk]
  rfl

theorem formOfJson?_call {es : List Expr} (hj : expr j = some e) (hk : k.listOf? expr = some es) :
    formOfJson? expr s "Call" (.obj [("callee", j), ("args", k)]) = some (.call e es s) := by
  show ((expr j).bind fun f => (k.listOf? expr).bind fun es => some (Expr.call f es s)) = _
  rw [hj, hk]
  rfl

end

end Expr

section

variable {expr : Json → Option Expr} {s : Span} {j : Json} {e : Expr}

theorem Json.pairOf?_pairToJson {p : Expr × Expr} (hk : expr p.1.toJson = some p.1)
    (hv : expr p.2.toJson = some p.2) : Json.pairOf? expr (Expr.pairToJson p) = some p := by
  show ((expr p.1.toJson).bind fun a => (expr p.2.toJson).bind fun b => some (a, b)) = _
  rw [hk, hv]
  rfl

theorem Stmt.ofJsonWith?_define {x : String} {xs : Span} {node record : Json}
    (hrecord : Span.apart? record = some (.form "Let" (.obj [("name", node), ("value", j)]), s))
    (hnode : Span.apart? node = some (.str x, xs)) (hj : expr j = some e) :
    Stmt.ofJsonWith? expr record = some (.define x xs e s) := by
  rw [Stmt.ofJsonWith?, hrecord]
  show ((Span.apart? node).bind fun r =>
    r.1.str?.bind fun x => (expr j).bind fun e => some (Stmt.define x r.2 e s)) = _
  rw [hnode, hj]
  rfl

theorem Stmt.ofJsonWith?_expr {record : Json}
    (hrecord : Span.apart? record = some (.form "Expr" j, s)) (hj : expr j = some e) :
    Stmt.ofJsonWith? expr record = some (.expr e s) := by
  rw [Stmt.ofJsonWith?, hrecord]
  show ((expr j).bind fun e => some (Stmt.expr e s)) = _
  rw [hj]
  rfl

end

theorem Expr.ofJsonWithin?_null {s : Span} (hs : s.cut = s) {h : Nat}
    (hh : (s.around (.str "Null")).height ≤ h) :
    Expr.ofJsonWithin? h (s.around (.str "Null")) = some (.null s) := by
  have hnode := Json.height_lt_of_member hh (List.mem_cons_self ..)
  obtain ⟨n, rfl⟩ : ∃ n, h = n + 1 := Nat.exists_eq_add_one_of_ne_zero (by omega)
  rw [Expr.ofJsonWithin?, Span.apart?_around hs]
  rfl

/-- One expression is one level, and what its form holds is read with those that are left. -/
theorem Expr.ofJsonWithin?_node {s : Span} (hs : s.cut = s) {h : Nat} {name : String}
    {content : Json} {e : Expr} (hh : (s.around (.form name content)).height ≤ h)
    (hread : ∀ n, content.height ≤ n →
      Expr.formOfJson? (Expr.ofJsonWithin? n) s name content = some e) :
    Expr.ofJsonWithin? h (s.around (.form name content)) = some e := by
  have hcontent := Json.height_content_lt hh
  obtain ⟨n, rfl⟩ : ∃ n, h = n + 1 := Nat.exists_eq_add_one_of_ne_zero (by omega)
  rw [Expr.ofJsonWithin?_form hs]
  exact hread n (by omega)

/-! ## Reading a program back -/

mutual

/-- One case for each kind of node; the height that is left is that of what is left to read. -/
theorem Expr.ofJsonWithin?_toJson {h : Nat} : (e : Expr) → e.mapSpans Span.cut = e →
    e.toJson.height ≤ h → Expr.ofJsonWithin? h e.toJson = some e
  | .int n s, hcut, hh => by
    obtain ⟨-, hs⟩ := Expr.int.inj hcut
    refine Expr.ofJsonWithin?_node hs hh fun _ _ => ?_
    show ((Json.int n.toInt).int64?.bind fun n => some (Expr.int n s)) = _
    rw [Json.int64?_toInt]
    rfl
  | .str t s, hcut, hh =>
    Expr.ofJsonWithin?_node (Expr.str.inj hcut).2 hh fun _ _ => rfl
  | .bool b s, hcut, hh =>
    Expr.ofJsonWithin?_node (Expr.bool.inj hcut).2 hh fun _ _ => rfl
  | .null s, hcut, hh => Expr.ofJsonWithin?_null (Expr.null.inj hcut) hh
  | .ident x s, hcut, hh =>
    Expr.ofJsonWithin?_node (Expr.ident.inj hcut).2 hh fun _ _ => rfl
  | .unary op e s, hcut, hh => by
    obtain ⟨-, he, hs⟩ := Expr.unary.inj hcut
    refine Expr.ofJsonWithin?_node hs hh fun n hn => ?_
    exact Expr.formOfJson?_unary op
      (e.ofJsonWithin?_toJson he (Json.height_le_of_member hn (by simp)))
  | .binary l op r s, hcut, hh => by
    obtain ⟨hl, -, hr, hs⟩ := Expr.binary.inj hcut
    refine Expr.ofJsonWithin?_node hs hh fun n hn => ?_
    exact Expr.formOfJson?_binary op
      (l.ofJsonWithin?_toJson hl (Json.height_le_of_member hn (by simp)))
      (r.ofJsonWithin?_toJson hr (Json.height_le_of_member hn (by simp)))
  | .index t i s, hcut, hh => by
    obtain ⟨ht, hi, hs⟩ := Expr.index.inj hcut
    refine Expr.ofJsonWithin?_node hs hh fun n hn => ?_
    exact Expr.formOfJson?_index
      (t.ofJsonWithin?_toJson ht (Json.height_le_of_member hn (by simp)))
      (i.ofJsonWithin?_toJson hi (Json.height_le_of_member hn (by simp)))
  | .array es s, hcut, hh => by
    obtain ⟨hes, hs⟩ := Expr.array.inj hcut
    rw [Expr.toJson, Expr.toJsons_eq] at hh ⊢
    refine Expr.ofJsonWithin?_node hs hh fun n hn => ?_
    refine Expr.formOfJson?_array (Json.listOf?_map (Expr.ofJsonWithin?_items es hes ?_))
    exact fun e he => Json.height_le_of_item hn (List.mem_map_of_mem he)
  | .hash ps s, hcut, hh => by
    obtain ⟨hps, hs⟩ := Expr.hash.inj hcut
    rw [Expr.toJson, Expr.pairsToJson_eq] at hh ⊢
    refine Expr.ofJsonWithin?_node hs hh fun n hn => ?_
    refine Expr.formOfJson?_hash (Json.listOf?_map (Expr.ofJsonWithin?_pairs ps hps ?_))
    exact fun p hp => Json.height_le_of_item hn (List.mem_map_of_mem hp)
  | .call f es s, hcut, hh => by
    obtain ⟨hf, hes, hs⟩ := Expr.call.inj hcut
    rw [Expr.toJson, Expr.toJsons_eq] at hh ⊢
    refine Expr.ofJsonWithin?_node hs hh fun n hn => ?_
    have hargs : (Json.arr (es.map Expr.toJson)).height ≤ n :=
      Json.height_le_of_member hn (by simp)
    refine Expr.formOfJson?_call
      (f.ofJsonWithin?_toJson hf (Json.height_le_of_member hn (by simp)))
      (Json.listOf?_map (Expr.ofJsonWithin?_items es hes ?_))
    exact fun e he => Json.height_le_of_item hargs (List.mem_map_of_mem he)
  | .cond c yes none s, hcut, hh => by
    obtain ⟨hc, hyes, -, hs⟩ := Expr.cond.inj hcut
    rw [Expr.toJson, Stmt.toJsons_eq] at hh ⊢
    refine Expr.ofJsonWithin?_node hs hh fun n hn => ?_
    have hblock : (Json.arr (yes.map Stmt.toJson)).height ≤ n :=
      Json.height_le_of_member hn (by simp)
    refine Expr.formOfJson?_cond
      (c.ofJsonWithin?_toJson hc (Json.height_le_of_member hn (by simp)))
      (Json.listOf?_map (Stmt.ofJsonWith?_all yes hyes ?_))
    exact fun s hs => Json.height_le_of_item hblock (List.mem_map_of_mem hs)
  | .cond c yes (some no) s, hcut, hh => by
    obtain ⟨hc, hyes, hno, hs⟩ := Expr.cond.inj hcut
    rw [Expr.toJson, Stmt.elseToJson, Stmt.toJsons_eq, Stmt.toJsons_eq] at hh ⊢
    refine Expr.ofJsonWithin?_node hs hh fun n hn => ?_
    have hblock : (Json.arr (yes.map Stmt.toJson)).height ≤ n :=
      Json.height_le_of_member hn (by simp)
    have helse : (Json.arr (no.map Stmt.toJson)).height ≤ n :=
      Json.height_le_of_member hn (by simp)
    refine Expr.formOfJson?_cond_else
      (c.ofJsonWithin?_toJson hc (Json.height_le_of_member hn (by simp)))
      (Json.listOf?_map (Stmt.ofJsonWith?_all yes hyes ?_))
      (Json.listOf?_map (Stmt.ofJsonWith?_all no (Option.some.inj hno) ?_))
    · exact fun s hs => Json.height_le_of_item hblock (List.mem_map_of_mem hs)
    · exact fun s hs => Json.height_le_of_item helse (List.mem_map_of_mem hs)

theorem Expr.ofJsonWithin?_items {h : Nat} : (es : List Expr) → Expr.mapSpansAll Span.cut es = es →
    (∀ e ∈ es, e.toJson.height ≤ h) → ∀ e ∈ es, Expr.ofJsonWithin? h e.toJson = some e
  | [], _, _ => List.forall_mem_nil _
  | e :: es, hcut, hh => by
    obtain ⟨he, hes⟩ := List.cons.inj hcut
    obtain ⟨hhe, hhes⟩ := List.forall_mem_cons.1 hh
    exact List.forall_mem_cons.2
      ⟨e.ofJsonWithin?_toJson he hhe, Expr.ofJsonWithin?_items es hes hhes⟩

theorem Expr.ofJsonWithin?_pairs {h : Nat} : (ps : List (Expr × Expr)) →
    Expr.mapSpansPairs Span.cut ps = ps → (∀ p ∈ ps, (Expr.pairToJson p).height ≤ h) →
      ∀ p ∈ ps, Json.pairOf? (Expr.ofJsonWithin? h) (Expr.pairToJson p) = some p
  | [], _, _ => List.forall_mem_nil _
  | (k, v) :: ps, hcut, hh => by
    obtain ⟨hp, hps⟩ := List.cons.inj hcut
    obtain ⟨hk, hv⟩ := Prod.mk.inj hp
    obtain ⟨hhp, hhps⟩ := List.forall_mem_cons.1 hh
    refine List.forall_mem_cons.2 ⟨?_, Expr.ofJsonWithin?_pairs ps hps hhps⟩
    exact Json.pairOf?_pairToJson
      (k.ofJsonWithin?_toJson hk (Json.height_le_of_item hhp (by simp)))
      (v.ofJsonWithin?_toJson hv (Json.height_le_of_item hhp (by simp)))

theorem Stmt.ofJsonWith?_toJson {h : Nat} : (s : Stmt) → s.mapSpans Span.cut = s →
    s.toJson.height ≤ h → Stmt.ofJsonWith? (Expr.ofJsonWithin? h) s.toJson = some s
  | .define x xs e s, hcut, hh => by
    obtain ⟨-, hxs, he, hs⟩ := Stmt.define.inj hcut
    have hcontent := Json.height_content_lt hh
    refine Stmt.ofJsonWith?_define (Span.apart?_around hs _) (Span.apart?_around hxs (.str x))
      (e.ofJsonWithin?_toJson he ?_)
    exact Json.height_le_of_member (Nat.le_of_lt (Nat.lt_of_succ_lt hcontent)) (by simp)
  | .expr e s, hcut, hh => by
    obtain ⟨he, hs⟩ := Stmt.expr.inj hcut
    have hcontent := Json.height_content_lt hh
    exact Stmt.ofJsonWith?_expr (Span.apart?_around hs _)
      (e.ofJsonWithin?_toJson he (Nat.le_of_lt (Nat.lt_of_succ_lt hcontent)))

theorem Stmt.ofJsonWith?_all {h : Nat} : (ss : List Stmt) → Stmt.mapSpansAll Span.cut ss = ss →
    (∀ s ∈ ss, s.toJson.height ≤ h) →
      ∀ s ∈ ss, Stmt.ofJsonWith? (Expr.ofJsonWithin? h) s.toJson = some s
  | [], _, _ => List.forall_mem_nil _
  | s :: ss, hcut, hh => by
    obtain ⟨hs, hss⟩ := List.cons.inj hcut
    obtain ⟨hhs, hhss⟩ := List.forall_mem_cons.1 hh
    exact List.forall_mem_cons.2 ⟨s.ofJsonWith?_toJson hs hhs, Stmt.ofJsonWith?_all ss hss hhss⟩

end

/-- An object with nothing but the statements is a program. -/
theorem Program.ofJson?_statements {j : Json} {ss : List Stmt}
    (h : j.listOf? (Stmt.ofJsonWith?
      (Expr.ofJsonWithin? (Json.obj [("statements", j)]).height)) = some ss) :
    Program.ofJson? (.obj [("statements", j)]) = some ⟨ss⟩ := by
  show ((j.listOf? _).bind fun ss => some (Program.mk ss)) = _
  rw [h]
  rfl

/-- A program that fits into 64 bits is what its value is read as. -/
theorem Program.ofJson?_toJson {p : Program} (hp : p.Sized) :
    Program.ofJson? p.toJson = some p := by
  obtain ⟨ss⟩ := p
  have hcut : Stmt.mapSpansAll Span.cut ss = ss := Program.mk.inj hp
  rw [toJson, Stmt.toJsons_eq]
  refine ofJson?_statements (Json.listOf?_map (Stmt.ofJsonWith?_all ss hcut fun s hs => ?_))
  refine Json.height_le_of_item ?_ (List.mem_map_of_mem hs)
  exact Json.height_le_of_member (Nat.le_refl _) (List.mem_singleton_self _)

/-! ## Texts of a program -/

section

variable {j k : Json}

theorem Json.proper_single (name : String) (hj : Proper j) : Proper (.obj [(name, j)]) :=
  .obj (List.forall_mem_singleton.2 hj)

theorem Json.proper_double (x y : String) (hj : Proper j) (hk : Proper k) :
    Proper (.obj [(x, j), (y, k)]) :=
  .obj (List.forall_mem_cons.2 ⟨hj, List.forall_mem_singleton.2 hk⟩)

theorem Json.proper_triple {l : Json} (x y z : String) (hj : Proper j) (hk : Proper k)
    (hl : Proper l) : Proper (.obj [(x, j), (y, k), (z, l)]) :=
  .obj (List.forall_mem_cons.2 ⟨hj, List.forall_mem_cons.2 ⟨hk, List.forall_mem_singleton.2 hl⟩⟩)

theorem Json.proper_map {α : Type} {f : α → Json} {as : List α} (h : ∀ a ∈ as, Proper (f a)) :
    Proper (.arr (as.map f)) :=
  .arr (List.forall_mem_map.2 h)

theorem Span.proper_around (s : Span) (hj : Proper j) : Proper (s.around j) :=
  Json.proper_double _ _ hj (Json.proper_double _ _ .int .int)

theorem Span.proper_form (s : Span) (name : String) (hj : Proper j) :
    Proper (s.around (.form name j)) :=
  s.proper_around (Json.proper_single name hj)

end

mutual

/-- A tree holds no numbers but whole ones. -/
theorem Expr.proper_toJson : (e : Expr) → Proper e.toJson
  | .int _ s => s.proper_form _ .int
  | .str _ s => s.proper_form _ .str
  | .bool _ s => s.proper_form _ .bool
  | .null s => s.proper_around .str
  | .ident _ s => s.proper_form _ .str
  | .unary _ e s => s.proper_form _ (Json.proper_double _ _ .str e.proper_toJson)
  | .binary l _ r s =>
    s.proper_form _ (Json.proper_triple _ _ _ l.proper_toJson .str r.proper_toJson)
  | .index t i s => s.proper_form _ (Json.proper_double _ _ t.proper_toJson i.proper_toJson)
  | .array es s => by
    rw [Expr.toJson, Expr.toJsons_eq]
    exact s.proper_form _ (Json.proper_map (Expr.proper_items es))
  | .hash ps s => by
    rw [Expr.toJson, Expr.pairsToJson_eq]
    exact s.proper_form _ (Json.proper_map (Expr.proper_pairs ps))
  | .call f es s => by
    rw [Expr.toJson, Expr.toJsons_eq]
    exact s.proper_form _
      (Json.proper_double _ _ f.proper_toJson (Json.proper_map (Expr.proper_items es)))
  | .cond c yes none s => by
    rw [Expr.toJson, Stmt.toJsons_eq]
    exact s.proper_form _
      (Json.proper_triple _ _ _ c.proper_toJson (Json.proper_map (Stmt.proper_all yes)) .null)
  | .cond c yes (some no) s => by
    rw [Expr.toJson, Stmt.elseToJson, Stmt.toJsons_eq, Stmt.toJsons_eq]
    exact s.proper_form _
      (Json.proper_triple _ _ _ c.proper_toJson (Json.proper_map (Stmt.proper_all yes))
        (Json.proper_map (Stmt.proper_all no)))

theorem Expr.proper_items : (es : List Expr) → ∀ e ∈ es, Proper e.toJson
  | [] => List.forall_mem_nil _
  | e :: es => List.forall_mem_cons.2 ⟨e.proper_toJson, Expr.proper_items es⟩

theorem Expr.proper_pairs : (ps : List (Expr × Expr)) → ∀ p ∈ ps, Proper (Expr.pairToJson p)
  | [] => List.forall_mem_nil _
  | (k, v) :: ps =>
    have hpair : Proper (Expr.pairToJson (k, v)) :=
      .arr (List.forall_mem_cons.2 ⟨k.proper_toJson, List.forall_mem_singleton.2 v.proper_toJson⟩)
    List.forall_mem_cons.2 ⟨hpair, Expr.proper_pairs ps⟩

theorem Stmt.proper_toJson : (s : Stmt) → Proper s.toJson
  | .define _ xs e s =>
    s.proper_form _ (Json.proper_double _ _ (xs.proper_around .str) e.proper_toJson)
  | .expr e s => s.proper_form _ e.proper_toJson

theorem Stmt.proper_all : (ss : List Stmt) → ∀ s ∈ ss, Proper s.toJson
  | [] => List.forall_mem_nil _
  | s :: ss => List.forall_mem_cons.2 ⟨s.proper_toJson, Stmt.proper_all ss⟩

end

/-- A program holds no numbers but whole ones. -/
theorem Program.proper_toJson (p : Program) : Proper p.toJson := by
  rw [toJson, Stmt.toJsons_eq]
  exact Json.proper_single _ (Json.proper_map (Stmt.proper_all p.statements))

/-- By the grammar of JSON the text is one of the program's value and of no other, and the reader
comes from it to the program. -/
structure Program.WrittenAs (p : Program) (text : String) : Prop where
  grammar (j : Json) : IsText text j ↔ j = p.toJson
  read : (Json.read text).bind Program.ofJson? = some p

/-- A text of the program's value is read back as the program. -/
theorem Program.writtenAs_of_isText {p : Program} (hp : p.Sized) {text : String}
    (h : IsText text p.toJson) : p.WrittenAs text where
  grammar j := by
    constructor
    · exact fun hj => hj.unique h
    · rintro rfl
      exact h
  read := by
    rw [h.read, Option.bind_some]
    exact ofJson?_toJson hp

/-! ## Programs of a source -/

open Grammar in
/-- The places in a program are among those of its source. -/
theorem Program.sized_of_compile {source : String} {p : Program} (h : compile source = .ok p)
    (hsize : source.utf8ByteSize < 0x10000000000000000) : p.Sized := by
  obtain ⟨ls, hscan, hparse⟩ := compile_eq_ok_iff.1 h
  have hspans := (Token.scan_eq_ok_iff.1 hscan).spans.1
  have hderives := parseWithin_eq_ok_iff.1 hparse
  have hcut : ∀ l ∈ ls, l.mapSpan Span.cut = l := by
    intro l hl
    have hstop := (hspans l hl).2
    rw [Nat.zero_add, Token.width_eq_utf8ByteSize, String.ofList_toList] at hstop
    rw [Lexeme.mapSpan, Span.cut_of_lt (by omega) (by omega)]
  have hmoved : moved (min 0xffffffffffffffff) ls = ls :=
    (List.map_congr_left hcut).trans (List.map_id ls)
  -- The lexemes that are cut are the same, and lexemes have one tree.
  have hmono : Monotone (min 0xffffffffffffffff : Nat → Nat) := fun _ _ h => min_le_min_left _ h
  have hp : Derives nestingLimit (moved (min 0xffffffffffffffff) ls) (p.mapSpans Span.cut) :=
    Statements.moved hmono hderives
  rw [hmoved] at hp
  exact hp.unique hderives

section

variable {κ : Type} [Console κ]

/-- A program whose places fit into 64 bits comes back from its value and from both texts of it.
The one that a source compiles to is such a program; it is written on standard output, and what is
read from any text of it does on a new machine what the source does. -/
theorem Program.json_lossless :
    (∀ p : Program, p.Sized → Program.ofJson? p.toJson = some p ∧
      p.WrittenAs p.toJson.compact ∧ p.WrittenAs p.toJson.pretty) ∧
    ∀ (file : SourceFile) (source : String) (p : Program), file.text = .ok source →
      compile source = .ok p → source.utf8ByteSize < 0x10000000000000000 →
        p.Sized ∧
        (∀ stdin, Command.execute (.parse file) stdin = .ok (p.toJson.pretty ++ "\n")) ∧
        p.WrittenAs (p.toJson.pretty ++ "\n") ∧
        ∀ text, IsText text p.toJson → ∃ q, (Json.read text).bind Program.ofJson? = some q ∧
          ∀ console : κ, (Machine.start console).runSource source =
            (.ok (q.eval.outcome (Machine.start console)).1,
              (q.eval.outcome (Machine.start console)).2) := by
  constructor
  · intro p hp
    exact ⟨ofJson?_toJson hp, writtenAs_of_isText hp p.proper_toJson.isText_compact,
      writtenAs_of_isText hp p.proper_toJson.isText_pretty⟩
  · intro file source p hfile hcompile hsize
    have hp := sized_of_compile hcompile hsize
    refine ⟨hp, fun stdin => ?_, writtenAs_of_isText hp p.proper_toJson.isText_pretty.newline,
      fun text htext => ⟨p, (writtenAs_of_isText hp htext).read, fun console => ?_⟩⟩
    · have htext : file.text.bind compile = .ok p := by
        rw [hfile]
        exact hcompile
      rw [Command.execute, Command.fromText, htext]
    · rw [Machine.runSource, hcompile]

/-- Bounds of the integers, a control character, quotes and a character beyond 16 bits, both kinds
of empty list, a block that is absent and one that is empty. -/
theorem Program.json_lossless_of_blocks :
    let p : Program := ⟨[.define "q\"\\" ⟨7, 3⟩ (.int .minValue ⟨0, 0xffffffffffffffff⟩) ⟨0, 9⟩,
      .expr (.cond (.array [] ⟨1, 2⟩) [.expr (.str "\x07\n\u2028😀/" ⟨3, 4⟩) ⟨3, 5⟩] (some [])
        ⟨1, 6⟩) ⟨1, 7⟩,
      .expr (.cond (.unary .not (.hash [(.null ⟨0, 0⟩, .int .maxValue ⟨2, 2⟩)] ⟨0, 0⟩) ⟨0, 1⟩) []
        none ⟨0, 2⟩) ⟨0, 2⟩]⟩
    let file : SourceFile := ⟨"sum.monkey", .ok "-1+x".toUTF8⟩
    let sum : Program :=
      ⟨[.expr (.binary (.unary .neg (.int 1 ⟨1, 2⟩) ⟨0, 2⟩) .add (.ident "x" ⟨3, 4⟩) ⟨0, 4⟩)
        ⟨0, 4⟩]⟩
    (Program.ofJson? p.toJson = some p ∧ p.WrittenAs p.toJson.compact ∧
      p.WrittenAs p.toJson.pretty) ∧
    sum.Sized ∧
    (∀ stdin, Command.execute (.parse file) stdin = .ok (sum.toJson.pretty ++ "\n")) ∧
    sum.WrittenAs (sum.toJson.pretty ++ "\n") ∧
    ∀ text, IsText text sum.toJson → ∃ q, (Json.read text).bind Program.ofJson? = some q ∧
      ∀ console : Terminal, (Machine.start console).runSource "-1+x" =
        (.ok (q.eval.outcome (Machine.start console)).1,
          (q.eval.outcome (Machine.start console)).2) := by
  intro p file sum
  have hp : p.Sized := by rfl
  have hfile : file.text = .ok "-1+x" := SourceFile.text_of_toUTF8 "sum.monkey" "-1+x"
  let ls : List Lexeme :=
    [⟨.minus, ⟨0, 1⟩⟩, ⟨.int 1, ⟨1, 2⟩⟩, ⟨.plus, ⟨2, 3⟩⟩, ⟨.ident "x", ⟨3, 4⟩⟩]
  have hscan : Token.scan "-1+x" = .ok ls := by decide +kernel
  have hcompile : compile "-1+x" = .ok sum := compile_eq_ok_iff.2 ⟨ls, hscan, by rfl⟩
  have hlossless := json_lossless (κ := Terminal)
  exact ⟨hlossless.1 p hp, hlossless.2 file _ sum hfile hcompile (by decide)⟩

end

end MonkeyLang
