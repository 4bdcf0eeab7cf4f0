/-
  What an equation of an accepted formula is evaluated with.

  A name that means nothing in the equation of a formula in ASCII is none that the formula may use:
  had it been one, it would have been found in the text and would be a name of the equation
  (`over_of_compile`).  Whatever is given when a formula is evaluated are names that it may use, so
  an equation sees what is given for the names that it reports and nothing else.  For an equation of
  a system these are the time and the components that it names (`Coupled.valueOf_congr`).
-/
import InitialValue.Proofs.Formula.Characters
import InitialValue.Proofs.Formula.Components
import InitialValue.Proofs.Formula.Rereading
import InitialValue.Proofs.Formula.Strangers

namespace InitialValue.Formula

open InitialValue.Text

/-! ## The names that mean nothing in an equation -/

/-- What a normal text goes through to become an equation. -/
theorem compile_eq_ok {n : List Char} {e : Equation} : Equation.compile n = .ok e ↔
    ∃ ts x m t c, tokens? n = some ts ∧ Expr.ofTokens? ts = some x ∧
      x.meaning? (fun name => placeOf? name (namesIn n)) = some m ∧ m.toTerm = .ok t ∧
      Calculation.ofTerm? t = some c ∧ e = ⟨namesIn n, c⟩ := by
  have horMalformed : ∀ {β : Type} {r : Option β} {b : β},
      Equation.orMalformed r = .ok b ↔ r = some b := by
    intro β r b
    cases r with
    | none => exact ⟨fun h => (by cases h), fun h => (by cases h)⟩
    | some b' => exact ⟨fun h => congrArg some (Except.ok.inj h), fun h => (by cases h; rfl)⟩
  constructor
  · intro h
    obtain ⟨ts, hts, -⟩ := tokens_of_compile h
    obtain ⟨x, hx, h⟩ := bind_eq_ok.mp h
    obtain ⟨m, hm, h⟩ := bind_eq_ok.mp h
    obtain ⟨t, ht, h⟩ := bind_eq_ok.mp h
    obtain ⟨c, hc, h⟩ := bind_eq_ok.mp h
    have hx := horMalformed.mp hx
    unfold Expr.ofText? at hx
    rw [hts] at hx
    exact ⟨ts, x, m, t, c, hts, hx, horMalformed.mp hm, ht, horMalformed.mp hc,
      (pure_eq_ok.mp h).symm⟩
  · rintro ⟨ts, x, m, t, c, hts, hx, hm, ht, hc, rfl⟩
    have htext : Expr.ofText? n = some x := by
      unfold Expr.ofText?
      rw [hts]
      exact hx
    unfold Equation.compile
    rw [horMalformed.mpr htext]
    show (Equation.orMalformed (x.meaning? _) >>= _) = _
    rw [horMalformed.mpr hm]
    show (m.toTerm >>= _) = _
    rw [ht]
    show (Equation.orMalformed (Calculation.ofTerm? t) >>= _) = _
    rw [horMalformed.mpr hc]
    rfl

theorem mem_of_placeOf?_none {s : String} {names : List String} (h : placeOf? s names = none) :
    s ∉ names := by
  induction names with
  | nil => simp
  | cons x xs ih =>
    rw [placeOf?] at h
    split at h
    · cases h
    · rename_i hx
      rw [List.mem_cons, not_or]
      refine ⟨fun heq => hx (beq_iff_eq.mpr heq.symm), ih ?_⟩
      exact Option.map_eq_none_iff.mp h

/-- A name among the tokens of a text in ASCII is in ASCII. -/
theorem ascii_of_token {n : List Char} {ts : List Token} (h : Token.Scanned n ts)
    (hn : Ascii n) {s : String} (hs : Token.name s ∈ ts) : Ascii s.toList := by
  obtain ⟨pre, post, hts⟩ := List.append_of_mem hs
  obtain ⟨before, after, hsplit, -⟩ := h.name_at hts none none (fun _ hword => by cases hword)
  intro c hc
  refine hn c ?_
  rw [hsplit]
  simp [hc]

theorem names_of_compile {n : List Char} {e : Equation} (h : Equation.compile n = .ok e) :
    e.names = namesIn n := by
  obtain ⟨ts, x, m, t, c, -, -, -, -, -, rfl⟩ := compile_eq_ok.mp h
  rfl

section

variable {further : String → Bool} {n : List Char} {e : Equation}
  (hplain : ∀ s, further s = true → Token.isPlainName s = true ∧ beginsWithWord s = false)
  (hreserved : ∀ s ∈ Expr.reserved, further s = false)

include hplain hreserved

/-- **The names that mean nothing in an equation** are none that its formula may use, nor do they
    amount to one: such a name would have been found in the text. -/
theorem over_of_compile {S : String → Prop} (hS : ∀ s, further (plainName s) = false → S s)
    (hn : Ascii n) (h : Equation.compile n = .ok e) : e.calculation.Over S := by
  obtain ⟨us, hus, hscanned⟩ := tokens_of_compile h
  obtain ⟨ts, x, m, t, c, hts, hx, hm, ht, hc, rfl⟩ := compile_eq_ok.mp h
  obtain rfl : ts = us := Option.some.inj (hts.symm.trans hus)
  have hstranger : ∀ s, .name s ∈ ts ∨ s ∈ Expr.reserved → placeOf? s (namesIn n) = none →
      isKnown s = false → S s := by
    rintro s (hs | hs) hplace hknown
    · refine hS s ?_
      rw [plainName_eq (ascii_of_token hscanned hn hs), Bool.eq_false_iff]
      intro hfurther
      obtain ⟨pre, post, hts⟩ := List.append_of_mem hs
      rcases found_or_glued hscanned hts (hplain s hfurther).1 with hfound | ⟨hword, -⟩
      · exact mem_of_placeOf?_none hplace (mem_namesIn.mpr ⟨hfound, hknown⟩)
      · rw [(hplain s hfurther).2] at hword
        cases hword
    · have hall : ∀ s ∈ Expr.reserved, plainName s = s := by decide +kernel
      exact hS s (by rw [hall s hs, hreserved s hs])
  have hmeaning := Expr.over_meaning? hstranger x (Expr.over_of_ofTokens? hx) m hm
  exact Calculation.over_ofTerm? (Meaning.toTerm_over hmeaning ht) hc

/-- The equation of a formula in ASCII does not see what is given beyond its names. -/
theorem deaf_of_compile (hn : Ascii n) (h : Equation.compile n = .ok e)
    {given : List Equation.Given} (hgiven : ∀ g ∈ given, further g.name = true) :
    e.Deaf given := by
  refine over_of_compile hplain hreserved (fun s hs g hg heq => ?_) hn h
  rw [← heq, hgiven g hg] at hs
  cases hs

end

/-! ## Accepted formulas -/

/-- A value that is read as numbers, of whatever shape. -/
def IsNumeric (v : Value Float) : Prop := ∃ V, v.flatten = .ok V

/-- The normal text of a text in ASCII is in ASCII. -/
theorem ascii_of_normalTextOf {s : String} {n : List Char} (hs : Ascii s.toList)
    (h : Equation.normalTextOf (.text s : Value Float) = .ok n) : Ascii n := by
  obtain ⟨s', heq, -, hn, -⟩ := normalTextOf_eq_ok h
  cases heq
  exact normalize_ascii hs hn

namespace Single

/-- What is given to a single equation. -/
def givenAt (t y : List Nat × List Float) : List Equation.Given :=
  [⟨"t", t.1, t.2⟩, ⟨"y", y.1, y.2⟩]

theorem evaluateAt_eq (e : Equation) {t y : Value Float} {T Y : List Nat × List Float}
    (ht : t.flatten = .ok T) (hy : y.flatten = .ok Y) :
    evaluateAt e t y = (e.valueOf (givenAt T Y)).mapError .inEvaluation := by
  unfold evaluateAt
  rw [ht, hy]
  rfl

theorem isAllowed_of_given {T Y : List Nat × List Float} {g : Equation.Given}
    (h : g ∈ givenAt T Y) : allowed.contains g.name = true := by
  simp only [givenAt, List.mem_cons, List.not_mem_nil, or_false] at h
  rcases h with rfl | rfl <;> rfl

theorem deaf {n : List Char} {e : Equation} (hn : Ascii n) (h : Equation.compile n = .ok e)
    (T Y : List Nat × List Float) : e.Deaf (givenAt T Y) :=
  deaf_of_compile (fun _ => plain_of_single) (by decide) hn h
    fun _ => isAllowed_of_given

end Single

namespace Coupled

theorem isAllowed_reserved : ∀ s ∈ Expr.reserved, isAllowed s = false := by decide

theorem deaf {n : List Char} {e : Equation} (hn : Ascii n) (h : Equation.compile n = .ok e)
    (shape : List Nat) (time state : List Float) : e.Deaf (givenAt shape time state) :=
  deaf_of_compile (fun _ => plain_of_coupled) isAllowed_reserved hn h fun _ => isAllowed_of_given

/-- **An equation of a system depends on the time and the components that it names.** -/
theorem valueOf_congr {n : List Char} {e : Equation} (hn : Ascii n)
    (h : Equation.compile n = .ok e) {T T' : List Nat × List Float} {xs ys : List Float}
    (htime : "t" ∈ e.names → T = T')
    (hstate : ∀ k, componentName (k + 1) ∈ e.names → xs[k]? = ys[k]?) :
    e.valueOf (givenAt T.1 T.2 xs) = e.valueOf (givenAt T'.1 T'.2 ys) := by
  have hfrom : (givenFrom 0 xs).filter (fun g => e.names.contains g.name) =
      (givenFrom 0 ys).filter fun g => e.names.contains g.name :=
    filter_givenFrom (p := e.names.contains) fun k _ hk => hstate k (List.contains_iff_mem.mp hk)
  rw [← Equation.valueOf_filter (deaf hn h T.1 T.2 xs),
    ← Equation.valueOf_filter (deaf hn h T'.1 T'.2 ys), givenAt_eq, givenAt_eq]
  rw [List.filter_cons, List.filter_cons, hfrom]
  dsimp only
  split
  · rename_i ht
    rw [htime (List.contains_iff_mem.mp ht)]
  · rfl

/-- The normal texts of an accepted list of texts in ASCII. -/
theorem ascii_normal {ss : List String} (hss : ∀ s ∈ ss, Ascii s.toList) {ns : List (List Char)}
    (h : (ss.map fun s => (.text s : Value Float)).mapM Equation.normalTextOf = .ok ns) :
    ∀ n ∈ ns, Ascii n := by
  rw [mapM_eq_ok, List.forall₂_map_left_iff] at h
  induction h with
  | nil => simp
  | cons hn _ ih =>
    rw [List.forall_mem_cons] at hss ⊢
    exact ⟨ascii_of_normalTextOf hss.1 hn, ih hss.2⟩

/-- An accepted system reports the names of its normal texts. -/
theorem names_of_accepted {items : List (Value Float)} {es : List Equation}
    (h : (ofItems items).outcome = .ok es) :
    (ofItems items).names = unionOfNames (ofItems items).normal := by
  obtain ⟨hitems, hallowed, hcompile⟩ := ofItems_accepted h
  have hne : items ≠ [] := by
    rintro rfl
    cases h
  have hallowed' : ∀ s ∈ (ofItems items).normal.flatMap namesIn, isAllowed s = true := by
    intro s hs
    obtain ⟨n, hn, hs⟩ := List.mem_flatMap.mp hs
    exact hallowed n hn s hs
  rw [congrArg names (ofItems_eq hne hitems hallowed' hcompile)]

/-- What an accepted system computes from numbers, if there are enough of them. -/
theorem evaluate_eq {c : Coupled} {es : List Equation} (hc : c.outcome = .ok es)
    {t y : Value Float} {T Y : List Nat × List Float} (ht : t.flatten = .ok T)
    (hy : y.flatten = .ok Y) (hlength : c.components ≤ Y.2.length) :
    c.evaluate t y = es.zipIdx.mapM fun p =>
      equationValue (givenAt T.1 T.2 (Y.2.take c.components)) p.1 (p.2 + 1) := by
  unfold evaluate
  rw [hc, hy, ht]
  show (if Y.2.length < c.components then _ else _ : Except Fault (List Float)) = _
  rw [if_neg (Nat.not_lt.mpr hlength)]
  rfl

/-- **A system that answers** was given numbers, and enough of them. -/
theorem evaluate_eq_ok {c : Coupled} {es : List Equation} (hc : c.outcome = .ok es)
    {t y : Value Float} {vs : List Float} (h : c.evaluate t y = .ok vs) :
    ∃ T Y, t.flatten = .ok T ∧ y.flatten = .ok Y ∧ c.components ≤ Y.2.length ∧
      es.zipIdx.mapM (fun p =>
        equationValue (givenAt T.1 T.2 (Y.2.take c.components)) p.1 (p.2 + 1)) = .ok vs := by
  have hanswer := h
  unfold evaluate at h
  rw [hc] at h
  cases hy : y.flatten with
  | error e =>
    rw [hy] at h
    cases h
  | ok Y =>
    rw [hy] at h
    have hstate : (if Y.2.length < c.components then
        throw (.undefinedComponent c.components Y.2.length) else _ :
          Except Fault (List Float)) = .ok vs := h
    split at hstate
    · cases hstate
    · rename_i hlength
      cases ht : t.flatten with
      | error e =>
        rw [ht] at hstate
        cases hstate
      | ok T =>
        have hlength := Nat.not_lt.mp hlength
        exact ⟨T, Y, rfl, rfl, hlength, (evaluate_eq hc ht hy hlength).symm.trans hanswer⟩

end Coupled

/-- Every equation of a list of texts is that of one of them. -/
theorem exists_of_mapM {ns : List (List Char)} {es : List Equation}
    (h : ns.mapM Equation.compile = .ok es) {e : Equation} (he : e ∈ es) :
    ∃ n ∈ ns, Equation.compile n = .ok e := by
  rw [mapM_eq_ok] at h
  induction h with
  | nil => cases he
  | @cons n e' ns es hn _ ih =>
    rcases List.mem_cons.mp he with rfl | he
    · exact ⟨n, List.mem_cons_self, hn⟩
    · obtain ⟨m, hm, hcompile⟩ := ih he
      exact ⟨m, List.mem_cons_of_mem n hm, hcompile⟩

end InitialValue.Formula
