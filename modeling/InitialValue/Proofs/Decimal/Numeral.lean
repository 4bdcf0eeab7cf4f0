/-
  Numerals at the front of a text.

  Whatever is read as a number is taken off the front (`takeNumeral?_suffix`).  The other way round,
  a text of the shape `digits`, `.digits`, `e±digits` — each part with single underscores between
  its digits, and some parts left out — is taken off whole, unless the text goes on with something
  that a number could run on with (`takeNumeral?_shape`).
-/
import InitialValue.Decimal.Numeral
import InitialValue.Proofs.Text.Classes
import InitialValue.Proofs.Text.Runs

namespace InitialValue

open InitialValue.Text

/-! ## Runs of digits -/

/-- Digits with single underscores between them. -/
inductive DigitRun : List Char → Prop
  | single {d : Char} : d.isDigit = true → DigitRun [d]
  | digit {d : Char} {cs : List Char} : d.isDigit = true → DigitRun cs → DigitRun (d :: cs)
  | grouped {d : Char} {cs : List Char} : d.isDigit = true → DigitRun cs → DigitRun (d :: '_' :: cs)

namespace DigitRun

theorem head {cs : List Char} (h : DigitRun cs) : ∃ d rest, cs = d :: rest ∧ d.isDigit = true := by
  cases h with
  | single hd => exact ⟨_, _, rfl, hd⟩
  | digit hd _ => exact ⟨_, _, rfl, hd⟩
  | grouped hd _ => exact ⟨_, _, rfl, hd⟩

theorem ne_nil {cs : List Char} (h : DigitRun cs) : cs ≠ [] := by
  obtain ⟨d, rest, rfl, -⟩ := h.head
  exact List.cons_ne_nil _ _

/-- There are digits in a run. -/
theorem filter_ne_nil {cs : List Char} (h : DigitRun cs) : cs.filter (· != '_') ≠ [] := by
  obtain ⟨d, rest, rfl, hd⟩ := h.head
  have hne : d ≠ '_' := by rintro rfl; exact absurd hd (by decide)
  rw [List.filter_cons_of_pos (by simpa using hne)]
  exact List.cons_ne_nil _ _

theorem last {cs : List Char} (h : DigitRun cs) :
    ∃ front d, cs = front ++ [d] ∧ d.isDigit = true := by
  induction h with
  | single hd => exact ⟨[], _, rfl, hd⟩
  | digit _ _ ih =>
    obtain ⟨front, d, rfl, hd⟩ := ih
    exact ⟨_ :: front, d, rfl, hd⟩
  | grouped _ _ ih =>
    obtain ⟨front, d, rfl, hd⟩ := ih
    exact ⟨_ :: '_' :: front, d, rfl, hd⟩

theorem mem {cs : List Char} (h : DigitRun cs) {c : Char} (hc : c ∈ cs) :
    c.isDigit = true ∨ c = '_' := by
  induction h with
  | single hd =>
    rw [List.mem_singleton.mp hc]
    exact Or.inl hd
  | digit hd _ ih =>
    rcases List.mem_cons.mp hc with rfl | hc
    · exact Or.inl hd
    · exact ih hc
  | grouped hd _ ih =>
    rcases List.mem_cons.mp hc with rfl | hc
    · exact Or.inl hd
    · rcases List.mem_cons.mp hc with rfl | hc
      · exact Or.inr rfl
      · exact ih hc

/-- Up to its first underscore a run is made of digits. -/
theorem plain_front {cs : List Char} (h : DigitRun cs) :
    ∃ ds rest, cs = ds ++ rest ∧ ds ≠ [] ∧ (∀ d ∈ ds, d.isDigit = true) ∧
      (rest = [] ∨ ∃ more, rest = '_' :: more) := by
  induction h with
  | @single d hd =>
    refine ⟨[d], [], rfl, by simp, ?_, Or.inl rfl⟩
    intro x hx
    rw [List.mem_singleton.mp hx]
    exact hd
  | @digit d cs hd _ ih =>
    obtain ⟨ds, rest, rfl, -, hds, hrest⟩ := ih
    refine ⟨d :: ds, rest, rfl, by simp, ?_, hrest⟩
    intro x hx
    rcases List.mem_cons.mp hx with rfl | hx
    · exact hd
    · exact hds x hx
  | @grouped d cs hd _ _ =>
    refine ⟨[d], '_' :: cs, rfl, by simp, ?_, Or.inr ⟨cs, rfl⟩⟩
    intro x hx
    rw [List.mem_singleton.mp hx]
    exact hd

end DigitRun

namespace Decimal

/-! ## Numbers are taken off the front -/

theorem takeDigits_go_suffix (cs : List Char) : (takeDigits.go cs).2 <:+ cs := by
  fun_induction takeDigits.go cs with
  | case1 c d cs h ds rest heq ih =>
    rw [heq] at ih
    exact (ih.trans (List.suffix_cons _ _)).trans (List.suffix_cons _ _)
  | case2 c d cs _ _ => exact List.suffix_cons _ _
  | case3 c d cs _ _ => exact List.suffix_rfl
  | case4 c cs _ _ ds rest heq ih =>
    rw [heq] at ih
    exact ih.trans (List.suffix_cons _ _)
  | case5 c cs _ _ => exact List.suffix_rfl
  | case6 => exact List.suffix_rfl

theorem takeDigits_suffix (cs : List Char) : (takeDigits cs).2 <:+ cs := by
  unfold takeDigits
  split
  · exact List.suffix_rfl
  · exact takeDigits_go_suffix cs

/-- The sign in front of the digits of an exponent, and the digits with what follows. -/
def exponentSign : List Char → Bool × List Char
  | '-' :: r => (true, r)
  | '+' :: r => (false, r)
  | r => (false, r)

theorem exponentSign_suffix (cs : List Char) : (exponentSign cs).2 <:+ cs := by
  unfold exponentSign
  split
  · exact List.suffix_cons _ _
  · exact List.suffix_cons _ _
  · exact List.suffix_rfl

theorem takeExponent_cons (e : Char) (rest : List Char) :
    takeExponent (e :: rest) =
      if e == 'e' || e == 'E' then
        match takeDigits (exponentSign rest).2 with
        | ([], _) => (0, e :: rest)
        | (ds, r) =>
          (if (exponentSign rest).1 then -(digitsValue ds : Int) else digitsValue ds, r)
      else (0, e :: rest) := rfl

theorem takeExponent_suffix (cs : List Char) : (takeExponent cs).2 <:+ cs := by
  cases cs with
  | nil => exact List.suffix_rfl
  | cons e rest =>
    rw [takeExponent_cons]
    have hdigits := (takeDigits_suffix (exponentSign rest).2).trans (exponentSign_suffix rest)
    split
    · split
      · exact List.suffix_rfl
      · rename_i heq
        rw [heq] at hdigits
        exact hdigits.trans (List.suffix_cons _ _)
    · exact List.suffix_rfl

/-- The point behind the digits of a numeral, the digits behind the point, and the rest. -/
def takeFraction : List Char → Bool × List Char × List Char
  | '.' :: r => (true, takeDigits r)
  | r => (false, [], r)

theorem takeFraction_suffix (cs : List Char) : (takeFraction cs).2.2 <:+ cs := by
  unfold takeFraction
  split
  · exact (takeDigits_suffix _).trans (List.suffix_cons _ _)
  · exact List.suffix_rfl

theorem takeNumeral?_eq (cs : List Char) :
    takeNumeral? cs =
      let whole := takeDigits cs
      let fraction := takeFraction whole.2
      if whole.1.isEmpty && fraction.2.1.isEmpty then none
      else
        let power := takeExponent fraction.2.2
        let ds := whole.1 ++ fraction.2.1
        some (⟨digitsValue ds, power.1 - fraction.2.1.length,
          max 1 (ds.dropWhile (· == '0')).length, fraction.1⟩, power.2) := by
  unfold takeNumeral? takeFraction
  rcases takeDigits cs with ⟨whole, _ | ⟨c, r⟩⟩
  · rfl
  · by_cases hc : c = '.'
    · subst hc; rfl
    · simp [hc]

theorem takeNumeral?_suffix {cs rest : List Char} {n : Numeral}
    (h : takeNumeral? cs = some (n, rest)) : rest <:+ cs := by
  rw [takeNumeral?_eq] at h
  dsimp only at h
  split at h
  · cases h
  · cases h
    exact (takeExponent_suffix _).trans ((takeFraction_suffix _).trans (takeDigits_suffix cs))

/-! ## Digits -/

theorem takeDigits_go_stop {rest : List Char} (hrest : StopsAt Char.isDigit rest) :
    takeDigits.go rest = ([], rest) := by
  rcases rest with _ | ⟨c, rest⟩
  · rfl
  · have hc : c.isDigit = false := hrest c rfl
    unfold takeDigits.go
    split
    · rename_i heq
      rw [heq, ← (List.cons.inj heq).1, hc]
      rfl
    · rename_i heq
      rw [heq, ← (List.cons.inj heq).1, hc]
      rfl
    · rename_i heq
      cases heq

theorem takeDigits_stop {rest : List Char} (hrest : StopsAt Char.isDigit rest) :
    takeDigits rest = ([], rest) := by
  unfold takeDigits
  split
  · rfl
  · exact takeDigits_go_stop hrest

/-- The digits of a run, and what stops it. -/
theorem takeDigits_go_run {run rest : List Char} (h : DigitRun run)
    (hrest : StopsAt (fun c => c.isDigit || c == '_') rest) :
    takeDigits.go (run ++ rest) = (run.filter (· != '_'), rest) := by
  have hstop : ∀ c, rest.head? = some c → c.isDigit = false ∧ c ≠ '_' := by
    intro c hc
    have hc := hrest c hc
    simpa using hc
  induction h with
  | @single d hd =>
    have hne : d ≠ '_' := by rintro rfl; exact absurd hd (by decide)
    have hgo : takeDigits.go rest = ([], rest) :=
      takeDigits_go_stop fun c hc => (hstop c hc).1
    rw [List.filter_cons_of_pos (by simpa using hne)]
    show takeDigits.go (d :: rest) = _
    rw [takeDigits.go]
    · rw [hgo, if_pos hd]
      rfl
    · intro c cs heq
      exact (hstop '_' (by rw [heq]; rfl)).2 rfl
  | @digit d cs hd hcs ih =>
    have hne : d ≠ '_' := by rintro rfl; exact absurd hd (by decide)
    obtain ⟨c, more, rfl, hc⟩ := hcs.head
    have hcu : c ≠ '_' := by rintro rfl; exact absurd hc (by decide)
    rw [List.filter_cons_of_pos (by simpa using hne)]
    show takeDigits.go (d :: (c :: more ++ rest)) = _
    rw [takeDigits.go]
    · rw [ih, if_pos hd]
    · intro c' cs' h
      exact hcu (List.cons.inj h).1
  | @grouped d cs hd hcs ih =>
    have hne : d ≠ '_' := by rintro rfl; exact absurd hd (by decide)
    obtain ⟨c, more, rfl, hc⟩ := hcs.head
    rw [List.filter_cons_of_pos (by simpa using hne), List.filter_cons_of_neg (by simp)]
    show takeDigits.go (d :: '_' :: c :: (more ++ rest)) = _
    rw [takeDigits.go, if_pos (by rw [hd, hc]; rfl)]
    rw [← List.cons_append, ih]

theorem takeDigits_run {run rest : List Char} (h : DigitRun run)
    (hrest : StopsAt (fun c => c.isDigit || c == '_') rest) :
    takeDigits (run ++ rest) = (run.filter (· != '_'), rest) := by
  obtain ⟨d, more, rfl, hd⟩ := h.head
  have hne : d ≠ '_' := by rintro rfl; exact absurd hd (by decide)
  rw [← takeDigits_go_run h hrest]
  rw [List.cons_append, takeDigits]
  intro cs heq
  exact hne (List.cons.inj heq).1

/-- What was taken off as digits is a run, unless there was nothing. -/
theorem takeDigits_go_cases (cs : List Char) :
    (takeDigits.go cs = ([], cs) ∧ StopsAt Char.isDigit cs) ∨
      ∃ run, DigitRun run ∧ cs = run ++ (takeDigits.go cs).2 := by
  fun_induction takeDigits.go cs with
  | case1 c d cs h ds rest heq ih =>
    rw [Bool.and_eq_true] at h
    right
    rcases ih with ⟨-, hstop⟩ | ⟨run, hrun, hcs⟩
    · have hd := hstop d rfl
      rw [h.2] at hd
      cases hd
    · rw [heq] at hcs
      exact ⟨c :: '_' :: run, .grouped h.1 hrun, by rw [hcs]; rfl⟩
  | case2 c d cs _ hc => exact Or.inr ⟨[c], .single hc, rfl⟩
  | case3 c d cs _ hc => exact Or.inl ⟨rfl, stopsAt_cons (Bool.eq_false_iff.mpr hc)⟩
  | case4 c cs _ hc ds rest heq ih =>
    right
    rcases ih with ⟨hgo, -⟩ | ⟨run, hrun, hcs⟩
    · rw [heq] at hgo
      cases hgo
      exact ⟨[c], .single hc, rfl⟩
    · rw [heq] at hcs
      exact ⟨c :: run, .digit hc hrun, by rw [hcs]; rfl⟩
  | case5 c cs _ hc => exact Or.inl ⟨rfl, stopsAt_cons (Bool.eq_false_iff.mpr hc)⟩
  | case6 => exact Or.inl ⟨rfl, stopsAt_nil⟩

theorem takeDigits_cases (cs : List Char) :
    (takeDigits cs = ([], cs) ∧ StopsAt Char.isDigit cs) ∨
      ∃ run, DigitRun run ∧ cs = run ++ (takeDigits cs).2 := by
  unfold takeDigits
  split
  · exact Or.inl ⟨rfl, stopsAt_cons (by decide)⟩
  · exact takeDigits_go_cases cs

/-! ## Exponents -/

/-- The exponent part of a numeral, or nothing. -/
def IsExponent (x : List Char) : Prop :=
  x = [] ∨ ∃ mark sign run, (mark = 'e' ∨ mark = 'E') ∧ (sign = [] ∨ sign = ['+'] ∨ sign = ['-']) ∧
    DigitRun run ∧ x = mark :: (sign ++ run)

theorem exponentSign_cases (cs : List Char) :
    ∃ sign, (sign = [] ∨ sign = ['+'] ∨ sign = ['-']) ∧ cs = sign ++ (exponentSign cs).2 := by
  unfold exponentSign
  split
  · exact ⟨['-'], by simp, rfl⟩
  · exact ⟨['+'], by simp, rfl⟩
  · exact ⟨[], by simp, rfl⟩

theorem exponentSign_digit {d : Char} (hd : d.isDigit = true) (cs : List Char) :
    exponentSign (d :: cs) = (false, d :: cs) := by
  unfold exponentSign
  split
  · rename_i heq
    rw [(List.cons.inj heq).1] at hd
    exact absurd hd (by decide)
  · rename_i heq
    rw [(List.cons.inj heq).1] at hd
    exact absurd hd (by decide)
  · rfl

theorem isExponent_of_takeExponent {cs : List Char} (h : (takeExponent cs).2 = []) :
    IsExponent cs := by
  rcases cs with _ | ⟨e, rest⟩
  · exact Or.inl rfl
  rw [takeExponent_cons] at h
  split at h
  · rename_i hmark
    right
    obtain ⟨sign, hsign, hrest⟩ := exponentSign_cases rest
    rcases takeDigits_cases (exponentSign rest).2 with ⟨hnone, -⟩ | ⟨run, hrun, hbody⟩
    · rw [hnone] at h
      cases h
    · have hend : (takeDigits (exponentSign rest).2).2 = [] := by
        split at h
        · cases h
        · rename_i heq
          rw [heq]
          exact h
      rw [hend, List.append_nil] at hbody
      refine ⟨e, sign, run, by simpa using hmark, hsign, hrun, ?_⟩
      rw [← hbody, ← hrest]
  · cases h

theorem stopsAt_digits_of_plainWord {rest : List Char} (h : StopsAt isPlainWord rest) :
    StopsAt (fun c => c.isDigit || c == '_') rest := by
  intro c hc
  have hword := h c hc
  unfold isPlainWord Char.isAlphanum at hword
  simp only [Bool.or_eq_false_iff] at hword ⊢
  exact ⟨hword.1.2, hword.2⟩

/-- An exponent part is taken off whole in front of what stops its digits. -/
theorem takeExponent_isExponent {x rest : List Char} (h : IsExponent x)
    (hrest : StopsAt isPlainWord rest) :
    (takeExponent (x ++ rest)).2 = rest ∧ (takeExponent (x ++ rest)).1 = (takeExponent x).1 := by
  have hstop := stopsAt_digits_of_plainWord hrest
  rcases h with rfl | ⟨mark, sign, run, hmark, hsign, hrun, rfl⟩
  · rcases rest with _ | ⟨c, rest⟩
    · exact ⟨rfl, rfl⟩
    · have hc := hrest c rfl
      have hne : (c == 'e' || c == 'E') = false := by
        rw [Bool.eq_false_iff]
        intro he
        rcases Bool.or_eq_true _ _ ▸ he with he | he <;> rw [beq_iff_eq.mp he] at hc <;>
          exact absurd hc (by decide)
      rw [List.nil_append, takeExponent_cons, hne]
      exact ⟨rfl, rfl⟩
  · obtain ⟨d, more, hdrun, hd⟩ := hrun.head
    have hm : (mark == 'e' || mark == 'E') = true := by
      rcases hmark with rfl | rfl <;> rfl
    have hdigits : ∀ tail, exponentSign (sign ++ (run ++ tail)) =
        ((exponentSign (sign ++ run)).1, run ++ tail) := by
      intro tail
      rcases hsign with rfl | rfl | rfl
      · rw [hdrun]
        exact (exponentSign_digit hd _).trans (by rw [List.nil_append, exponentSign_digit hd]; rfl)
      · rfl
      · rfl
    -- the value does not depend on what follows, so it is that of the exponent alone
    have htake : ∀ tail, StopsAt (fun c => c.isDigit || c == '_') tail →
        takeExponent (mark :: (sign ++ (run ++ tail))) =
          (if (exponentSign (sign ++ run)).1 then -(digitsValue (run.filter (· != '_')) : Int)
            else digitsValue (run.filter (· != '_')), tail) := by
      intro tail htail
      rw [takeExponent_cons, hm, if_pos rfl, hdigits tail, takeDigits_run hrun htail]
      dsimp only
      split
      · rename_i heq
        exact absurd (Prod.mk.inj heq).1 hrun.filter_ne_nil
      · rename_i heq
        obtain ⟨rfl, rfl⟩ := Prod.mk.inj heq
        rfl
    have hnil := htake [] stopsAt_nil
    rw [List.append_nil] at hnil
    rw [List.cons_append, List.append_assoc, htake rest hstop, hnil]
    exact ⟨rfl, rfl⟩

/-- The fraction of a numeral, or nothing. -/
def IsFraction (f : List Char) : Prop := f = [] ∨ ∃ run, DigitRun run ∧ f = '.' :: run

/-- Nothing follows that a number could run on with. -/
def Clear (rest : List Char) : Prop := StopsAt (fun c => isWord c || c == '.') rest

theorem Clear.plainWord {rest : List Char} (h : Clear rest) : StopsAt isPlainWord rest := by
  intro c hc
  have hword := h c hc
  simp only [Bool.or_eq_false_iff] at hword
  rw [Bool.eq_false_iff]
  intro hplain
  rw [isWord_of_isPlainWord hplain] at hword
  cases hword.1

theorem stopsAt_exponent {x rest : List Char} (h : IsExponent x) (hrest : Clear rest) :
    StopsAt (fun c => c.isDigit || c == '_' || c == '.') (x ++ rest) := by
  rcases h with rfl | ⟨mark, sign, run, hmark, -, -, rfl⟩
  · intro c hc
    have hdigits := stopsAt_digits_of_plainWord hrest.plainWord c hc
    have hpoint := hrest c hc
    simp only [Bool.or_eq_false_iff] at hdigits hpoint ⊢
    exact ⟨hdigits, hpoint.2⟩
  · refine stopsAt_cons ?_
    rcases hmark with rfl | rfl <;> decide

theorem stopsAt_fraction {f x rest : List Char} (hf : IsFraction f) (hx : IsExponent x)
    (hrest : Clear rest) : StopsAt (fun c => c.isDigit || c == '_') (f ++ (x ++ rest)) := by
  rcases hf with rfl | ⟨run, -, rfl⟩
  · rw [List.nil_append]
    exact StopsAt.imp (stopsAt_exponent hx hrest) fun c hc => by rw [hc, Bool.true_or]
  · exact stopsAt_cons (by decide)

/-- What a numeral of a given shape is. -/
def numeralOf (w f x : List Char) : Numeral :=
  let whole := w.filter (· != '_')
  let fraction := (f.drop 1).filter (· != '_')
  ⟨digitsValue (whole ++ fraction), (takeExponent x).1 - fraction.length,
    max 1 ((whole ++ fraction).dropWhile (· == '0')).length, !f.isEmpty⟩

/-- **A numeral of a given shape is taken off whole.** -/
theorem takeNumeral?_shape {w f x rest : List Char} (hw : w = [] ∨ DigitRun w)
    (hf : IsFraction f) (hx : IsExponent x) (hne : w = [] → f ≠ []) (hrest : Clear rest) :
    takeDigits (w ++ (f ++ (x ++ rest))) = (w.filter (· != '_'), f ++ (x ++ rest)) ∧
      takeNumeral? (w ++ (f ++ (x ++ rest))) = some (numeralOf w f x, rest) := by
  have hwhole : takeDigits (w ++ (f ++ (x ++ rest))) =
      (w.filter (· != '_'), f ++ (x ++ rest)) := by
    rcases hw with rfl | hw
    · rw [List.nil_append]
      exact takeDigits_stop
        (StopsAt.imp (stopsAt_fraction hf hx hrest) fun c hc => by rw [hc, Bool.true_or])
    · exact takeDigits_run hw (stopsAt_fraction hf hx hrest)
  have hfraction : takeFraction (f ++ (x ++ rest)) =
      (!f.isEmpty, (f.drop 1).filter (· != '_'), x ++ rest) := by
    rcases hf with rfl | ⟨run, hrun, rfl⟩
    · rw [List.nil_append]
      unfold takeFraction
      split
      · rename_i heq
        have hstop := stopsAt_exponent hx hrest '.' (by rw [heq]; rfl)
        cases hstop
      · rfl
    · show (true, takeDigits (run ++ (x ++ rest))) = _
      have hstop : StopsAt (fun c => c.isDigit || c == '_') (x ++ rest) :=
        StopsAt.imp (stopsAt_exponent hx hrest) fun c hc => by rw [hc, Bool.true_or]
      rw [takeDigits_run hrun hstop]
      rfl
  obtain ⟨hafter, hvalue⟩ := takeExponent_isExponent hx hrest.plainWord
  refine ⟨hwhole, ?_⟩
  rw [takeNumeral?_eq, hwhole]
  dsimp only
  rw [hfraction]
  dsimp only
  rw [hafter, hvalue, if_neg]
  · rfl
  · -- digits in front of the point or behind it: underscores alone make no run
    rw [Bool.and_eq_true]
    rintro ⟨hwe, hfe⟩
    rcases hw with rfl | hw
    · rcases hf with rfl | ⟨run, hrun, rfl⟩
      · exact hne rfl rfl
      · have hrunempty : (run.filter (· != '_')).isEmpty = true := hfe
        exact hrun.filter_ne_nil (List.isEmpty_iff.mp hrunempty)
    · exact hw.filter_ne_nil (List.isEmpty_iff.mp hwe)

end Decimal

end InitialValue
