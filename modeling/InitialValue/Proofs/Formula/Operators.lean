/-
  Operators of a normal text.

  The check for doubled operators stands in the middle of the passes.  What comes behind it writes
  stars, moves blanks and spells power signs, and none of that brings two multiplicative operators
  together that the check has not seen: the pieces of a normal text, its power signs still single, pass
  the check again (`normal_calm`).

  1. Two slashes never touch in a normal text: a doubled power sign is two stars (`raise_split`).
  2. Without a power sign in the formula there is none in the normal text, and nothing is doubled
     there, whatever blanks stand between (`powerless_normal`).

  Tokens stand in the text they are cut from (`Token.infix_of_scanned`), so the two operators that are
  written with two marks, whole division and power, are no tokens of such a text
  (`normal_operators`).
-/
import InitialValue.Proofs.Formula.Respacing
import InitialValue.Proofs.Formula.Scan

namespace InitialValue.Formula

open InitialValue.Text

/-! ## Tokens stand in the text -/

/-- **A mark stands in the text** that it is cut from. -/
theorem Token.infix_of_scanned {cs : List Char} {ts : List Token} (h : Token.Scanned cs ts)
    {m : String} (hm : Token.mark m ∈ ts) : m.toList <:+: cs := by
  induction h with
  | done => cases hm
  | hash => cases hm
  | blank _ ih => exact (ih hm).trans (List.suffix_cons _ _).isInfix
  | number _ _ _ hnumber _ ih =>
    have hrest := ih ((List.mem_cons.mp hm).resolve_left (by rintro ⟨⟩))
    exact hrest.trans (takeNumber?_rest hnumber).1.isInfix
  | name _ _ _ ih =>
    have hrest := ih ((List.mem_cons.mp hm).resolve_left (by rintro ⟨⟩))
    exact hrest.trans ((List.dropWhile_suffix _).trans (List.suffix_cons _ _)).isInfix
  | mark _ _ _ _ hmark _ ih =>
    obtain ⟨htext, -⟩ := takeMark?_spec hmark
    rw [htext]
    rcases List.mem_cons.mp hm with heq | hm
    · cases heq
      exact (List.prefix_append _ _).isInfix
    · exact (ih hm).trans (List.suffix_append _ _).isInfix

theorem infix_of_tokens {cs : List Char} {ts : List Token} (h : tokens? cs = some ts) {m : String}
    (hm : Token.mark m ∈ ts) : m.toList <:+: cs := by
  obtain ⟨ts', hscan, h⟩ := Option.bind_eq_some_iff.mp h
  obtain ⟨-, hts⟩ := Option.ite_none_right_eq_some.mp h
  cases hts
  exact Token.infix_of_scanned (Token.scanned_of_scan hscan) hm

/-! ## Doubled operators -/

/-- Two multiplicative operators with nothing but blanks between them, somewhere in a text. -/
def Doubled (cs : List Char) : Prop :=
  ∃ (front g back : List Char) (a b : Char), cs = front ++ a :: (g ++ b :: back) ∧
    isMultiplicative a = true ∧ isMultiplicative b = true ∧ ∀ c ∈ g, isBlank c = true

/-- Where nothing is doubled, no two multiplicative operators touch. -/
theorem not_infix_of_not_doubled {cs : List Char} (h : ¬ Doubled cs) {a b : Char}
    (ha : isMultiplicative a = true) (hb : isMultiplicative b = true) : ¬ [a, b] <:+: cs := by
  rintro ⟨front, back, rfl⟩
  exact h ⟨front, [], back, a, b, by simp, ha, hb, fun _ hc => nomatch hc⟩

variable {cs n : List Char}

/-- Behind anything, calm pieces are calm. -/
theorem calm_cut_append {p : Link} (front : List Char) {a : Char} (hmark : isSolid a = false)
    (h : Calm p (cut (front ++ a :: cs))) : Calm p (cut (a :: cs)) := by
  induction front using runs_induction isSolid with
  | nil => exact h
  | other c front hc ih =>
    rw [List.cons_append] at h
    by_cases hcblank : isBlank c = true
    · exact ih (by rwa [cut_blank hcblank] at h)
    · rw [cut_mark (Bool.eq_false_iff.mpr hcblank) hc] at h
      exact ih h.2
  | run w front hne hw hfront ih =>
    have hstop : StopsAt isSolid (front ++ a :: cs) := by
      cases front with
      | nil => exact stopsAt_cons hmark
      | cons c front => exact stopsAt_cons (hfront c rfl)
    rw [List.append_assoc, cut_run hne hw hstop] at h
    exact ih h.2

/-- **A text that passes the check** has no doubled operator. -/
theorem not_doubled_of_calm (h : Calm doubles (cut cs)) : ¬ Doubled cs := by
  rintro ⟨front, g, back, a, b, rfl, ha, hb, hg⟩
  have hmark : ∀ {c}, isMultiplicative c = true → isBlank c = false ∧ isSolid c = false := by
    intro c hc
    refine ⟨?_, isSolid_of_isMultiplicative hc⟩
    rw [Bool.eq_false_iff]
    intro hblank
    rw [isMultiplicative_of_isBlank hblank] at hc
    cases hc
  obtain ⟨hablank, hasolid⟩ := hmark ha
  obtain ⟨hbblank, hbsolid⟩ := hmark hb
  have hcalm := calm_cut_append front hasolid h
  rw [cut_mark hablank hasolid, cut_gap hg, cut_mark hbblank hbsolid] at hcalm
  have hasks : doubles [a] b = false := hcalm.1
  rw [doubles_mark, ha, hb] at hasks
  cases hasks

/-! ## Normal texts -/

theorem raise_eq_nil {cs : List Char} (h : raise cs = []) : cs = [] := by
  rcases cs with _ | ⟨c, cs⟩
  · rfl
  · by_cases hcaret : c = '^'
    · subst hcaret
      cases h
    · rw [raise_cons hcaret] at h
      cases h

/-- A slash in a text with its power signs doubled stands in the text without the doubling. -/
theorem raise_split {front back : List Char} (h : raise cs = front ++ '/' :: back) :
    ∃ front' back', cs = front' ++ '/' :: back' ∧ front = raise front' ∧ back = raise back' := by
  induction cs generalizing front with
  | nil => exact absurd h.symm (by simp [raise])
  | cons c cs ih =>
    by_cases hcaret : c = '^'
    · subst hcaret
      rw [raise_caret] at h
      -- both stars are in front of the slash
      rcases front with _ | ⟨x, _ | ⟨y, front⟩⟩
      · exact absurd (List.cons.inj h).1 (by decide)
      · exact absurd (List.cons.inj (List.cons.inj h).2).1 (by decide)
      · obtain ⟨hx, htail⟩ := List.cons.inj h
        obtain ⟨hy, hrest⟩ := List.cons.inj htail
        obtain ⟨front', back', rfl, rfl, hback⟩ := ih hrest
        exact ⟨'^' :: front', back', rfl, by rw [raise_caret, ← hx, ← hy], hback⟩
    · rw [raise_cons hcaret] at h
      rcases front with _ | ⟨x, front⟩
      · obtain ⟨rfl, hrest⟩ := List.cons.inj h
        exact ⟨[], cs, rfl, rfl, hrest.symm⟩
      · obtain ⟨rfl, hrest⟩ := List.cons.inj h
        obtain ⟨front', back', rfl, rfl, hback⟩ := ih hrest
        exact ⟨c :: front', back', rfl, (raise_cons hcaret _).symm, hback⟩

/-- **Slashes that touch** have touched before the power signs were doubled. -/
theorem slashes_of_raise (h : ['/', '/'] <:+: raise cs) : ['/', '/'] <:+: cs := by
  obtain ⟨front, back, hsplit⟩ := h
  rw [List.append_assoc] at hsplit
  obtain ⟨front', rest, rfl, -, hrest⟩ := raise_split hsplit.symm
  have hnext : raise rest = [] ++ '/' :: back := hrest.symm
  obtain ⟨between, back', rfl, hnone, -⟩ := raise_split hnext
  rw [raise_eq_nil hnone.symm]
  exact ⟨front', back', by simp⟩

theorem raise_eq_self {cs : List Char} (h : '^' ∉ cs) : raise cs = cs := by
  induction cs with
  | nil => rfl
  | cons c cs ih =>
    rw [List.mem_cons, not_or] at h
    rw [raise_cons (Ne.symm h.1), ih h.2]

/-- **The check holds of a normal text** as long as its power signs are single. -/
theorem normal_calm (h : normalize cs = .ok n) :
    ∃ text, n = raise text ∧ Calm doubles (cut text) ∧ text.count '^' = (powered cs).count '^' := by
  obtain ⟨hcalm, rfl⟩ := normalize_iff.mp h
  have hcaret : isBlank '^' = false := isBlank_mark (by decide)
  refine ⟨_, rfl, ?_, ?_⟩
  · rw [cut_spaced]
    exact (settled_passes hcalm).operators
  · rw [← count_cut hcaret (by decide), cut_spaced, count_cut hcaret (by decide), sewn,
      count_passes hcaret (by decide) (by decide)]

/-- No power sign in either spelling, told by what stands in the text. -/
theorem powerless_iff : Powerless cs ↔ '^' ∉ cs ∧ ¬ ['*', '*'] <:+: cs := by
  refine and_congr_right fun _ => ?_
  rw [List.isChain_iff_forall_rel_of_append_cons_cons]
  constructor
  · rintro h ⟨front, back, hsplit⟩
    have hstars : cs = front ++ '*' :: '*' :: back := by simp [← hsplit]
    exact h hstars ⟨rfl, rfl⟩
  · rintro h a b front back rfl ⟨rfl, rfl⟩
    exact h ⟨front, back, by simp⟩

/-- **Without a power sign in the formula**, nothing is doubled in it nor in the normal text. -/
theorem powerless_normal (hcs : Powerless cs) (h : normalize cs = .ok n) :
    ¬ Doubled cs ∧ ¬ Doubled n := by
  have hpowered : powered cs = trim cs := by
    have hinside := trim_infix cs
    have htrim : Powerless (trim cs) := hcs.within hinside
    rw [powered, htrim.spellPowers, htrim.stars]
  obtain ⟨text, rfl, hcalm, hcount⟩ := normal_calm h
  have hcaret : '^' ∉ text := by
    rw [hpowered] at hcount
    rw [← List.count_eq_zero, hcount, List.count_eq_zero]
    exact fun hmem => hcs.1 (mem_of_mem_trim hmem)
  refine ⟨not_doubled_of_calm ?_, ?_⟩
  · rw [← cut_powered hcs]
    exact (normalize_iff.mp h).1
  · rw [raise_eq_self hcaret]
    exact not_doubled_of_calm hcalm

/-- **No operator is formed by rewriting.**  Slashes never touch in a normal text.  Where the formula
    has no power sign, neither a caret nor two stars, no two multiplicative operators stand next to
    each other in it nor in the normal text, whatever blanks are between them.  So no formula is read
    as a whole division, and none without a power sign as a power. -/
theorem normal_operators (h : normalize cs = .ok n) :
    ¬ ['/', '/'] <:+: n ∧ (∀ ts, tokens? n = some ts → .mark "//" ∉ ts) ∧
    ('^' ∉ cs → ¬ ['*', '*'] <:+: cs → ¬ Doubled cs ∧ ¬ Doubled n ∧ ¬ ['*', '*'] <:+: n ∧
      ∀ ts, tokens? n = some ts → .mark "**" ∉ ts) := by
  have hslashes : ¬ ['/', '/'] <:+: n := by
    obtain ⟨text, rfl, hcalm, -⟩ := normal_calm h
    exact fun hmem => not_infix_of_not_doubled (not_doubled_of_calm hcalm) (by decide) (by decide)
      (slashes_of_raise hmem)
  refine ⟨hslashes, fun ts hts hmem => hslashes (infix_of_tokens hts hmem), fun hcaret hstars => ?_⟩
  obtain ⟨hcs, hn⟩ := powerless_normal (powerless_iff.mpr ⟨hcaret, hstars⟩) h
  have hnone := not_infix_of_not_doubled hn (a := '*') (b := '*') (by decide) (by decide)
  exact ⟨hcs, hn, hnone, fun ts hts hmem => hnone (infix_of_tokens hts hmem)⟩

/-- Stars are written into a formula with a slash in it, and no operator comes of them. -/
theorem normal_operators_product :
    normalize "2(t)(y)/3 t".toList = .ok "2 * (t) * (y) / 3 t".toList ∧
      '^' ∉ "2(t)(y)/3 t".toList ∧ ¬ ['*', '*'] <:+: "2(t)(y)/3 t".toList ∧
      ¬ ['/', '/'] <:+: "2 * (t) * (y) / 3 t".toList ∧
      ¬ Doubled "2 * (t) * (y) / 3 t".toList ∧
      ∀ ts, tokens? "2 * (t) * (y) / 3 t".toList = some ts →
        .mark "//" ∉ ts ∧ .mark "**" ∉ ts := by
  have hnormal : normalize "2(t)(y)/3 t".toList = .ok "2 * (t) * (y) / 3 t".toList := by
    decide +kernel
  have hcaret : '^' ∉ "2(t)(y)/3 t".toList := by decide +kernel
  have hstars : ¬ ['*', '*'] <:+: "2(t)(y)/3 t".toList := by decide +kernel
  obtain ⟨hslashes, hwhole, hpower⟩ := normal_operators hnormal
  obtain ⟨-, hdoubled, -, hpower⟩ := hpower hcaret hstars
  exact ⟨hnormal, hcaret, hstars, hslashes, hdoubled, fun ts hts => ⟨hwhole ts hts, hpower ts hts⟩⟩

end InitialValue.Formula
