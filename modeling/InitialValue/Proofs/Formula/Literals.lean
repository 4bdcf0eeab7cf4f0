/-
  Numbers survive the passes.

  A number that stands as an operand between explicit operators stands in the normal text as it was
  written, operators around it again, and is read there as the number that it is by itself
  (`literals_survive`).

  The exception is a number with a point in front of a signed exponent (`Dotted`).  The pattern for
  numbers takes it, but the passes that look out for exponents ask for a digit in the place of the
  point (`dotted_torn`).
-/
import InitialValue.Proofs.Formula.Lookahead
import InitialValue.Proofs.Formula.NumberPowers

namespace InitialValue.Formula

open InitialValue.Text

variable {x a b cs n : List Char}

/-! ## The ends of a text -/

/-- Blanks may be left out. -/
theorem Kept.gap {p : Char → Bool} {g : List Char} (hg : ∀ c ∈ g, isBlank c = true) :
    Kept p g [] where
  blank _ := hg
  fixed := Eq.symm (List.filter_eq_nil_iff.mpr fun c hc => by
    simp [Rule.not_isFixed_of_isBlank (hg c hc)])
  meets _ := fun _ hc => nomatch hc

/-- Blanks at the far end of a side may be left out. -/
theorem kept_skipBlanks (p : Char → Bool) (cs : List Char) :
    Kept p cs.reverse (skipBlanks cs).reverse := by
  have hgap : Kept p (cs.takeWhile isBlank).reverse [] :=
    Kept.gap fun c hc => mem_takeWhile (List.mem_reverse.mp hc)
  have happend := (Kept.refl (skipBlanks cs).reverse).append hgap
  rwa [← List.reverse_append, skipBlanks, List.takeWhile_append_dropWhile,
    List.append_nil] at happend

theorem trim_spares (hx : IsNumber x) : Spares x trim := by
  have hinky : ∀ c ∈ x, isBlank c = false := fun c hc => (hx.inky c hc).1
  have hstop : ∀ {y : List Char}, y ≠ [] → (∀ c ∈ y, isBlank c = false) → ∀ more,
      StopsAt isBlank (y ++ more) := by
    intro y hy hall more
    obtain ⟨c, y, rfl⟩ := List.exists_cons_of_ne_nil hy
    exact stopsAt_cons (hall c List.mem_cons_self)
  intro a b _ _
  refine ⟨skipBlanks a, (skipBlanks b.reverse).reverse, ?_, kept_skipBlanks _ a, ?_⟩
  · have hback : StopsAt isBlank (x.reverse ++ (a.dropWhile isBlank).reverse) :=
      hstop (by simpa using hx.ne_nil) (fun c hc => hinky c (List.mem_reverse.mp hc)) _
    rw [trim, dropWhile_append_of_stop a (hstop hx.ne_nil hinky b), List.reverse_append,
      List.reverse_append, List.append_assoc, dropWhile_append_of_stop b.reverse hback]
    simp [skipBlanks]
  · have hkept := kept_skipBlanks closesOperand b.reverse
    rwa [List.reverse_reverse] at hkept

/-! ## Whole texts -/

/-- Rules that take neither letters nor signs. -/
theorem Rule.Remarks.spares {r : Rule} (h : r.Remarks) (hx : IsNumber x)
    (hignores : ∀ c ∈ ['e', 'E', '+', '-'], r.Ignores c) : Formula.Spares x r.apply :=
  Rule.Spares.apply (h.bare.spares_of_ignores h.mild hx hignores) hx.ne_nil

theorem spellPowersUpTo_spares (hx : IsNumber x) (fuel : Nat) :
    Spares x (spellPowersUpTo fuel) := by
  induction fuel with
  | zero => exact fun a b _ _ => Stands.refl x a b
  | succ fuel ih =>
    intro a b ha hb
    rw [spellPowersUpTo]
    split
    · exact ih.comp ((powerRule_spares hx).apply hx.ne_nil) a b ha hb
    · exact Stands.refl x a b

theorem powerSignRule_ignores {c : Char} (hblank : isBlank c = false) (hc : c ≠ '^') :
    powerSignRule.Ignores c := by
  intro before rest
  refine powerSignRule_none ?_ before
  rw [skipBlanks_cons hblank]
  exact stopsAt_cons (beq_eq_false_iff_ne.mpr hc)

theorem finish_spares (hx : IsNumber x) (hdotted : ¬ Dotted x) : Spares x finish := by
  have hnames := (nameBracketRule_spares hx).apply hx.ne_nil
  have hnumbers := (numberBracketRule_spares hx).apply hx.ne_nil
  have hbrackets := bracketTermRule_remarks.spares hx fun c hc => bracketTermRule_ignores (by
    rintro rfl
    exact absurd hc (by decide))
  have hpi := (piRule_spares hx).apply hx.ne_nil
  have heuler := (eulerRule_spares hx hdotted).apply hx.ne_nil
  have hspaced := (spacingRule_spares hx hdotted).apply hx.ne_nil
  have hinky : ∀ c ∈ ['e', 'E', '+', '-'], isBlank c = false ∧ c ≠ '^' :=
    forall_mem_of_all (by decide)
  have hsigns := powerSignRule_remarks.spares hx fun c hc =>
    powerSignRule_ignores (hinky c hc).1 (hinky c hc).2
  have hblanks := blanksRule_remarks.spares hx fun c hc => blanksRule_ignores (hinky c hc).1
  exact (trim_spares hx).comp <| hblanks.comp <| hsigns.comp <| hspaced.comp <| heuler.comp <|
    hpi.comp <| hbrackets.comp <| hnumbers.comp hnames

/-- **A number between marks stands in the normal text**, between marks again. -/
theorem normalize_spares (hx : IsNumber x) (hdotted : ¬ Dotted x) (ha : AwaitsOperand a)
    (hb : EndsOperand b) (h : normalize (a ++ (x ++ b)) = .ok n) : Stands x a b n := by
  have hstars := starsRule_remarks.spares hx fun c hc => starsRule_ignores (by
    rintro rfl
    exact absurd hc (by decide))
  have hpowers : Spares x spellPowers := fun a b =>
    spellPowersUpTo_spares hx (powerMarks (a ++ (x ++ b))) a b
  unfold normalize at h
  obtain ⟨-, -, hfinish⟩ := bind_eq_ok.mp h
  rw [← pure_eq_ok.mp hfinish]
  exact (finish_spares hx hdotted).comp (hstars.comp (hpowers.comp (trim_spares hx))) a b ha hb

/-! ## Reading -/

theorem Token.takeNumeral?_none (h : startsNumber cs = false) : Decimal.takeNumeral? cs = none := by
  rw [Decimal.takeNumeral?_eq]
  rcases cs with _ | ⟨c, cs⟩
  · rfl
  · have hc := isDigit_of_startsNumber h
    rw [Decimal.takeDigits_stop (stopsAt_cons hc)]
    by_cases hpoint : c = '.'
    · subst hpoint
      have hrest : StopsAt Char.isDigit cs := by
        rintro d hd
        obtain ⟨more, rfl⟩ := List.head?_eq_some_iff.mp hd
        exact h
      have htake : Decimal.takeFraction ('.' :: cs) = (true, Decimal.takeDigits cs) := rfl
      dsimp only
      rw [htake, Decimal.takeDigits_stop hrest]
      rfl
    · dsimp only
      rw [Decimal.takeFraction.eq_2 _ fun r heq => hpoint (List.cons.inj heq).1]
      rfl

/-- What is taken as a number starts like one. -/
theorem Token.startsNumber_of_takeNumber? {l : Literal} {r : List Char}
    (h : takeNumber? cs = some (l, r)) : startsNumber cs = true := by
  by_contra hstarts
  rw [Bool.not_eq_true] at hstarts
  rw [takeNumber?_eq, takeLiteral?_decimal, takeDecimal?_eq, takeNumeral?_none hstarts] at h
  · cases h
  · rintro d more rfl
    exact absurd hstarts (by simp [startsNumber])

/-- **A number in front of a mark** is read as the number that it is. -/
theorem scanAll_literal {l : Literal} (hx : IsNumber x) (hb : EndsOperand b)
    (h : Token.takeNumber? x = some (l, [])) :
    Token.scanAll (x ++ b) = (Token.scanAll b).map (.number l :: ·) := by
  have hfinished : Decimal.Finished x b := by
    obtain ⟨front, c, rfl, hc⟩ := hx.last
    rw [Decimal.Finished, List.getLast?_concat]
    rintro (h | h) <;>
      · rw [Option.some.inj h] at hc
        exact absurd hc (by decide)
  have htake : Token.takeNumber? (x ++ b) = some (l, b) := by
    rw [Token.takeNumber?_append hb.stops hfinished, h]
    rfl
  have hstarts := Token.startsNumber_of_takeNumber? htake
  obtain ⟨c, rest, rfl, hc⟩ := hx.head
  have hmark : c ≠ '#' ∧ c ≠ ' ' := by
    constructor <;>
      · rintro rfl
        exact absurd hc (by decide)
  rw [List.cons_append] at hstarts htake ⊢
  rw [Token.scanAll_number hmark hstarts, htake, Option.bind_some]

/-- **Numbers survive the passes.**  A number that stands between marks stands as it was written in
    the normal text, if there is one, between marks again and with the same digits and points on
    either side.  If what is in front of it can be cut into tokens, so that the number is not the
    exponent of another one, then it is read there as the number that it is by itself. -/
theorem literals_survive {lit : List Char} (hlit : numberLength? lit = some lit.length)
    (hdotted : ¬ Dotted lit) (ha : AwaitsOperand a) (hb : EndsOperand b)
    (h : normalize (a ++ (lit ++ b)) = .ok n) :
    ∃ a' b', n = a' ++ (lit ++ b') ∧ AwaitsOperand a' ∧ EndsOperand b' ∧
      a'.filter isFixed = a.filter isFixed ∧ b'.filter isFixed = b.filter isFixed ∧
      ('#' ∉ a → ∀ ts l, Token.scanAll a' = some ts → Token.takeNumber? lit = some (l, []) →
        Token.scanAll n = (Token.scanAll b').map fun us => ts ++ .number l :: us) := by
  have hx : IsNumber lit := hlit
  obtain ⟨a', b', rfl, hbefore, hbehind⟩ := normalize_spares hx hdotted ha hb h
  have ha' : AwaitsOperand a' := hbefore.meets ha
  have hb' : EndsOperand b' := hbehind.meets hb
  have hfixed : a'.filter isFixed = a.filter isFixed := by
    simpa using fixed_reverse hbefore.fixed
  refine ⟨a', b', rfl, ha', hb', hfixed, hbehind.fixed, fun hhash ts l hts hl => ?_⟩
  have hhash' : '#' ∉ a' := by
    intro hmem
    have hfilter : '#' ∈ a'.filter isFixed := List.mem_filter.mpr ⟨hmem, by decide⟩
    rw [hfixed] at hfilter
    exact hhash (List.mem_of_mem_filter hfilter)
  have hstart : Token.StartsNumber (lit ++ b') := by
    obtain ⟨c, rest, rfl, hc⟩ := hx.head
    exact ⟨c, rest ++ b', rfl, hc⟩
  rw [Token.scanAll_front hts ha' hhash' hstart, scanAll_literal hx hb' hl, Option.map_map]
  rfl

/-- The base of a power, with a sign in its exponent, stands in the call that is written for it. -/
theorem literals_survive_power :
    normalize "t^2*1.5e-3^y".toList = .ok "pow(t, 2) * pow(1.5e-3, y)".toList ∧
      ∃ a' b', "pow(t, 2) * pow(1.5e-3, y)".toList = a' ++ ("1.5e-3".toList ++ b') ∧
        AwaitsOperand a' ∧ EndsOperand b' ∧ a'.filter isFixed = ['2'] ∧ b'.filter isFixed = [] ∧
        ∀ ts, Token.scanAll a' = some ts →
          Token.scanAll "pow(t, 2) * pow(1.5e-3, y)".toList =
            (Token.scanAll b').map fun us => ts ++ .number (.decimal ⟨15, -4, 2, true⟩) :: us := by
  have hlit : numberLength? "1.5e-3".toList = some "1.5e-3".toList.length := by decide +kernel
  have hdotted : ¬ Dotted "1.5e-3".toList := by
    rintro ⟨front, e, s, back, hsplit, hmark, -⟩
    have hpoint : front ++ '.' :: (e :: s :: back) = ['1'] ++ '.' :: "5e-3".toList := hsplit.symm
    -- the one point stands in front of a digit
    obtain ⟨-, -, htail⟩ := parted_once (p := (· != '.')) hpoint
      (forall_mem_of_all (by decide)) (forall_mem_of_all (by decide)) (by decide)
    rw [(List.cons.inj htail).1] at hmark
    exact absurd hmark (by decide)
  have hread : Token.takeNumber? "1.5e-3".toList = some (.decimal ⟨15, -4, 2, true⟩, []) := by
    decide +kernel
  have hnormal : normalize ("t^2*".toList ++ ("1.5e-3".toList ++ "^y".toList)) =
      .ok "pow(t, 2) * pow(1.5e-3, y)".toList := by decide +kernel
  obtain ⟨a', b', hsplit, ha, hb, hfront, hback, hscan⟩ :=
    literals_survive hlit hdotted (by decide +kernel) (by decide +kernel) hnormal
  exact ⟨hnormal, a', b', hsplit, ha, hb, hfront.trans (by decide +kernel),
    hback.trans (by decide +kernel), fun ts hts => hscan (by decide) ts _ hts hread⟩

/-- Two numbers that the pattern takes whole and the passes take apart.  Behind a point, the mark of
    the exponent is taken for the constant and the sign for an operator. -/
theorem dotted_torn :
    numberLength? "1.e-5".toList = some "1.e-5".toList.length ∧
      normalize "1.e-5".toList = .ok "1.e - 5".toList ∧
      ¬ "1.e-5".toList <:+: "1.e - 5".toList ∧ ¬ "1.E-5".toList <:+: "1.e - 5".toList ∧
    numberLength? "1.E+05".toList = some "1.E+05".toList.length ∧
      normalize "1.E+05*y".toList = .ok "1.e + 05 * y".toList := by
  decide +kernel

end InitialValue.Formula
