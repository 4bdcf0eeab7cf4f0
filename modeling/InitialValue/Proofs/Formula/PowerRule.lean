/-
  Where the power rule applies.

  The rule looks for an operand, a power sign and an exponent.  `exponent?` is its second half: what
  it makes of the text behind an operand.  At the front of a phrase that is a power, the rule either
  takes exactly the phrase or nothing (`powerRule_power`); at the front of any other phrase it takes
  nothing.
-/
import InitialValue.Proofs.Formula.Operands
import InitialValue.Proofs.Formula.Substitution
import Mathlib.Tactic.ByContra

namespace InitialValue.Formula

open InitialValue.Text

/-! ## The two halves of the rule -/

/-- The length of a minus sign at the front of a text. -/
def minusLength : List Char → Nat
  | '-' :: _ => 1
  | _ => 0

/-- The exponent behind an operand, and what comes after it. -/
def exponent? (cs : List Char) : Option (List Char × List Char) := do
  let sign ← powerSignLength? (skipBlanks cs)
  let rest := skipBlanks ((skipBlanks cs).drop sign)
  (operandLengths (rest.drop (minusLength rest))).findSome? fun m =>
    if endsPower (rest.drop (minusLength rest + m)) then
      some (rest.take (minusLength rest + m), rest.drop (minusLength rest + m))
    else none

/-- Nothing can start behind a word character, a point or a closing bracket. -/
def startBlocked (before : List Char) : Bool :=
  before.head?.elim false fun c => isWord c || c == '.' || c == ')'

/-- A power spelled as a call. -/
def spelled (base exponent : List Char) : List Char :=
  "pow(".toList ++ base ++ [',', ' '] ++ exponent ++ [')']

theorem spelled_eq (base exponent : List Char) : spelled base exponent =
    "pow(".toList ++ (base ++ ([',', ' '] ++ (exponent ++ [')']))) := by
  show "pow(".toList ++ base ++ [',', ' '] ++ exponent ++ [')'] = _
  simp only [List.append_assoc]

theorem powerRule_eq (before cs : List Char) :
    powerRule before cs =
      if startBlocked before then none
      else (operandLengths cs).findSome? fun n => (exponent? (cs.drop n)).map fun p =>
        ⟨cs.length - p.2.length - 1, spelled (cs.take n) p.1⟩ := by
  unfold powerRule startBlocked
  split
  · rfl
  · congr 1
    funext n
    unfold exponent?
    show (powerSignLength? (skipBlanks (cs.drop n))).bind _ =
      Option.map _ ((powerSignLength? (skipBlanks (cs.drop n))).bind _)
    cases powerSignLength? (skipBlanks (cs.drop n)) with
    | none => rfl
    | some sign =>
      rw [Option.bind_some, Option.bind_some]
      generalize skipBlanks ((skipBlanks (cs.drop n)).drop sign) = rest
      show (operandLengths (rest.drop (minusLength rest))).findSome? _ = _
      rw [List.map_findSome?]
      congr 1
      funext m
      show (if endsPower (rest.drop (minusLength rest + m)) = true then _ else _) = _
      rw [Function.comp]
      split <;> rfl

theorem powerRule_blocked {before : List Char} (h : startBlocked before = true) (cs : List Char) :
    powerRule before cs = none := by
  rw [powerRule_eq, if_pos h]

/-- What has a power sign at its front. -/
theorem powerSignLength?_split {cs : List Char} {n : Nat} (h : powerSignLength? cs = some n) :
    ∃ doubled rest, cs = powerSign doubled ++ rest ∧ n = (powerSign doubled).length := by
  unfold powerSignLength? at h
  split at h <;> cases h
  · exact ⟨false, _, rfl, rfl⟩
  · exact ⟨true, _, rfl, rfl⟩

/-- The blanks at the front of a text. -/
def gapOf (cs : List Char) : Gap := ⟨cs.takeWhile isBlank, fun _ hc => mem_takeWhile hc⟩

theorem gapOf_append (cs : List Char) : (gapOf cs).text ++ skipBlanks cs = cs :=
  List.takeWhile_append_dropWhile

/-- The exponent stands behind a power sign, with blanks on either side of the sign. -/
theorem exponent?_sign {cs e tail : List Char} (h : exponent? cs = some (e, tail)) :
    ∃ (g g' : Gap) (doubled : Bool),
      cs = g.text ++ (powerSign doubled ++ (g'.text ++ (e ++ tail))) := by
  obtain ⟨n, hsign, h⟩ := Option.bind_eq_some_iff.mp h
  obtain ⟨m, -, h⟩ := List.exists_of_findSome?_eq_some h
  obtain ⟨doubled, rest, hrest, rfl⟩ := powerSignLength?_split hsign
  obtain ⟨-, hparts⟩ := Option.ite_none_right_eq_some.mp h
  obtain ⟨rfl, rfl⟩ := Prod.mk.inj (Option.some.inj hparts)
  refine ⟨gapOf cs, gapOf rest, doubled, ?_⟩
  rw [hrest, List.drop_left, List.take_append_drop, gapOf_append, ← hrest, gapOf_append]

/-- **What the rule takes and writes**: a base, a power sign with the blanks around it and an
    exponent become a call. -/
theorem powerRule_call {before cs : List Char} {hit : Hit} (h : powerRule before cs = some hit) :
    ∃ (base e : List Char) (g g' : Gap) (doubled : Bool),
      cs.take (hit.extra + 1) = base ++ (g.text ++ (powerSign doubled ++ (g'.text ++ e))) ∧
        hit.text = spelled base e := by
  rw [powerRule_eq] at h
  obtain ⟨-, h⟩ := Option.ite_none_left_eq_some.mp h
  obtain ⟨n, -, h⟩ := List.exists_of_findSome?_eq_some h
  obtain ⟨⟨e, tail⟩, hexponent, rfl⟩ := Option.map_eq_some_iff.mp h
  obtain ⟨g, g', doubled, hrest⟩ := exponent?_sign hexponent
  refine ⟨cs.take n, e, g, g', doubled, ?_, rfl⟩
  generalize hfront : cs.take n ++ (g.text ++ (powerSign doubled ++ (g'.text ++ e))) = front
  have hcs : cs = front ++ tail := by
    rw [← hfront]
    conv_lhs => rw [← List.take_append_drop n cs, hrest]
    simp only [List.append_assoc]
  have hpos : 0 < front.length := by
    have hsign : 0 < (powerSign doubled).length := by cases doubled <;> decide
    rw [← hfront]
    simp only [List.length_append]
    omega
  have hlength := congrArg List.length hcs
  rw [List.length_append] at hlength
  have htake : cs.length - tail.length - 1 + 1 = front.length := by omega
  show cs.take (cs.length - tail.length - 1 + 1) = front
  rw [htake, hcs, List.take_left]

theorem exponent?_noPower {cs : List Char} (h : NoPower cs) : exponent? cs = none := by
  unfold exponent?
  rw [h]
  rfl

theorem powerRule_none {before cs : List Char}
    (h : ∀ n ∈ operandLengths cs, exponent? (cs.drop n) = none) : powerRule before cs = none := by
  rw [powerRule_eq]
  split
  · rfl
  · rw [List.findSome?_eq_none_iff]
    intro n hn
    rw [h n hn]
    rfl

/-- Blanks, operators, commas and closing brackets start no power. -/
theorem powerRule_ignores {c : Char} (hstart : isPlainStart c = false) (hd : isDigit c = false)
    (hpoint : c ≠ '.') (hopen : c ≠ '(') : Rule.Ignores powerRule c := by
  intro before rest
  refine powerRule_none fun n hn => ?_
  rw [operandLengths_other hstart hd hpoint hopen] at hn
  cases hn

theorem operandLengths_gap {g : Gap} {c : Char} (hc : c ∈ g.text) {cs : List Char} :
    operandLengths (c :: cs) = [] := by
  have hword := isWord_of_isBlank (g.blank c hc)
  refine operandLengths_other ?_ ?_ (g.ne hc (isBlank_mark (by decide)))
    (g.ne hc (isBlank_mark (by decide))) cs
  · exact isPlainStart_of_isWord hword
  · exact isDigit_of_isWord hword

theorem powerRule_ignores_gap (g : Gap) : ∀ c ∈ g.text, Rule.Ignores powerRule c := by
  intro c hc before rest
  refine powerRule_none fun n hn => ?_
  rw [operandLengths_gap hc] at hn
  cases hn

theorem powerRule_ignores_mark {c : Char}
    (h : c ∈ ['+', '-', '*', '/', ',', ')', '^']) : Rule.Ignores powerRule c := by
  have hall : ∀ c ∈ ['+', '-', '*', '/', ',', ')', '^'],
      isPlainStart c = false ∧ isDigit c = false ∧ c ≠ '.' ∧ c ≠ '(' :=
    forall_mem_of_all (by decide)
  obtain ⟨hstart, hd, hpoint, hopen⟩ := hall c h
  exact powerRule_ignores hstart hd hpoint hopen

/-! ## What follows a phrase -/

/-- The text behind a phrase neither continues its last word nor is a flat group that a name at
    the end of an exponent would take as its arguments. -/
structure Behind (e : Ending) (rest : List Char) : Prop where
  stops : Stops e rest
  bound : e = .bound → groupLength? (skipBlanks rest) = none

/-- Nothing that follows can be taken as part of the phrase in front, or as its exponent. -/
structure Closed (rest : List Char) : Prop where
  clear : Decimal.Clear rest
  power : NoPower rest
  group : groupLength? (skipBlanks rest) = none

theorem Closed.behind {rest : List Char} (h : Closed rest) (e : Ending) : Behind e rest :=
  ⟨fun _ => h.clear, fun _ => h.group⟩

theorem closed_nil : Closed [] := ⟨stopsAt_nil, rfl, rfl⟩

theorem skipBlanks_gap (g : Gap) {c : Char} (hc : isBlank c = false) (rest : List Char) :
    skipBlanks (g.text ++ c :: rest) = c :: rest :=
  dropWhile_append_stop g.blank (stopsAt_cons hc)

theorem clear_gap (g : Gap) {c : Char} (hc : (isWord c || c == '.') = false) (rest : List Char) :
    Decimal.Clear (g.text ++ c :: rest) := by
  intro x hx
  rcases hg : g.text with _ | ⟨b, more⟩
  · rw [hg] at hx
    cases hx
    exact hc
  · rw [hg] at hx
    cases hx
    have hb : x ∈ g.text := by rw [hg]; exact List.mem_cons_self
    have hword := isWord_of_isBlank (g.blank x hb)
    have hpoint := g.ne hb (d := '.') (isBlank_mark (by decide))
    simp [hword, hpoint]

theorem closed_gap (g : Gap) {c : Char} {rest : List Char} (hc : c ∈ ['+', '-', '/', ',', ')']) :
    Closed (g.text ++ c :: rest) := by
  have hall : ∀ c ∈ ['+', '-', '/', ',', ')'], isBlank c = false ∧
      (isWord c || c == '.') = false ∧ c ≠ '^' ∧ c ≠ '*' ∧ c ≠ '(' :=
    forall_mem_of_all (by decide)
  obtain ⟨hblank, hclear, hcaret, hstar, hopen⟩ := hall c hc
  refine ⟨clear_gap g hclear rest, ?_, ?_⟩
  · unfold NoPower
    rw [skipBlanks_gap g hblank, powerSignLength?_other hcaret hstar]
  · rw [skipBlanks_gap g hblank, groupLength?_other hopen]

theorem closed_star (g : Gap) {rest : List Char} (hrest : StopsAt (· == '*') rest) :
    Closed (g.text ++ '*' :: rest) := by
  have hblank : isBlank '*' = false := isBlank_mark (by decide)
  refine ⟨clear_gap g (by decide) rest, ?_, ?_⟩
  · unfold NoPower
    rw [skipBlanks_gap g hblank]
    unfold powerSignLength?
    split
    · rename_i heq
      cases (List.cons.inj heq).1
    · rename_i heq
      have hstar := hrest '*' (by rw [(List.cons.inj heq).2]; rfl)
      cases hstar
    · rfl
  · rw [skipBlanks_gap g hblank, groupLength?_other (by decide)]

/-! ## Phrases that are no powers -/

theorem drop_length_add (xs ys : List Char) (k : Nat) :
    (xs ++ ys).drop (xs.length + k) = ys.drop k := by
  rw [← List.drop_drop, List.drop_left]

/-- **An operand without a power sign behind it** starts no power.  A name may have a group behind
    it, if there is no power sign behind the group. -/
theorem powerRule_operand {a : Phrase} (ha : a.strength = 6) {before rest : List Char}
    (hstops : Stops a.ending rest) (hpower : NoPower rest)
    (hname : a.ending = .free → ∀ k, groupLength? (skipBlanks rest) = some k →
      NoPower ((skipBlanks rest).drop k)) : powerRule before (a.text ++ rest) = none := by
  refine powerRule_none fun m hm => exponent?_noPower ?_
  by_cases hfree : a.ending = .free ∧ groupLength? (skipBlanks rest) ≠ none
  · obtain ⟨k, hk⟩ := Option.ne_none_iff_exists'.mp hfree.2
    rcases Phrase.atom_cases ha with ⟨n, rfl⟩ | ⟨w, rfl⟩ | ⟨f, g, args, g', rfl⟩ | ⟨f, g, rfl⟩ |
      ⟨g, q, g', rfl⟩
    · exact absurd hfree.1 Phrase.number_ending_free
    · have hclear : Decimal.Clear rest := hstops (by simp [Phrase.ending])
      rw [Phrase.text, operandLengths_word w.plain (stopsAt_isWord hclear), hk] at hm
      rw [Phrase.text]
      rcases List.mem_cons.mp hm with rfl | hm
      · rw [Nat.add_assoc, drop_length_add, ← List.drop_drop, drop_length_takeWhile]
        exact hname rfl k hk
      · rw [List.mem_singleton.mp hm, List.drop_left]
        exact hpower
    · cases hfree.1
    · cases hfree.1
    · cases hfree.1
  · have hnone : a.ending = .free → groupLength? (skipBlanks rest) = none := by
      intro h
      by_contra hne
      exact hfree ⟨h, hne⟩
    rcases operandLengths_phrase ha hstops hnone m hm with rfl | hruns
    · rw [List.drop_left]
      exact hpower
    · exact hruns.noPower

/-! ## Powers -/

theorem skipBlanks_head {c : Char} {cs : List Char} (g : Gap) (hc : isBlank c = false) :
    skipBlanks (g.text ++ (c :: cs)) = c :: cs := skipBlanks_gap g hc cs

theorem Phrase.IsHead.not_blank {p : Phrase} {c : Char} (h : p.IsHead c) : isBlank c = false := by
  unfold Phrase.IsHead at h
  split at h
  · rw [h]
    exact isBlank_mark (by decide)
  · rcases h with h | rfl | ⟨-, rfl⟩
    · exact isBlank_of_isWord (isWord_of_isPlainWord h)
    · exact isBlank_mark (by decide)
    · exact isBlank_mark (by decide)

theorem Phrase.IsHead.ne {p : Phrase} {c d : Char} (h : p.IsHead c)
    (hd : isPlainWord d = false ∧ d ≠ '.' ∧ d ≠ '(' ∧ d ≠ '-') : c ≠ d := by
  rintro rfl
  unfold Phrase.IsHead at h
  split at h
  · exact hd.2.2.1 h
  · rcases h with h | h | ⟨-, h⟩
    · rw [hd.1] at h
      cases h
    · exact hd.2.1 h
    · exact hd.2.2.2 h

/-- Blanks behind a phrase, and a power sign. -/
theorem powerSignLength?_sign (doubled : Bool) (rest : List Char) :
    powerSignLength? (powerSign doubled ++ rest) = some (powerSign doubled).length := by
  cases doubled <;> rfl

theorem skipBlanks_sign (g : Gap) (doubled : Bool) (rest : List Char) :
    skipBlanks (g.text ++ (powerSign doubled ++ rest)) = powerSign doubled ++ rest := by
  cases doubled
  · exact skipBlanks_gap g (isBlank_mark (by decide)) _
  · exact skipBlanks_gap g (isBlank_mark (by decide)) _

theorem not_endsPower_sign (g : Gap) (doubled : Bool) (rest : List Char) :
    endsPower (g.text ++ (powerSign doubled ++ rest)) = false := by
  unfold endsPower
  rw [skipBlanks_sign, powerSignLength?_sign]
  exact Bool.and_false _

theorem behind_sign (g : Gap) (doubled : Bool) (rest : List Char) (e : Ending) :
    Behind e (g.text ++ (powerSign doubled ++ rest)) ∧
      groupLength? (skipBlanks (g.text ++ (powerSign doubled ++ rest))) = none := by
  have hgroup : groupLength? (skipBlanks (g.text ++ (powerSign doubled ++ rest))) = none := by
    rw [skipBlanks_sign]
    cases doubled
    · exact groupLength?_other (by decide) _
    · exact groupLength?_other (by decide) _
  refine ⟨⟨fun _ => ?_, fun _ => hgroup⟩, hgroup⟩
  cases doubled
  · exact clear_gap g (by decide) _
  · exact clear_gap g (by decide) _

/-- Operands at the front of an operand or power: no power can end behind any of them unless the
    phrase is an operand and ends there. -/
theorem operandLengths_power {p : Phrase} (hp : p.proper = true) (hstrength : 5 ≤ p.strength)
    {rest : List Char} (hstops : Stops p.ending rest)
    (hgroup : p.ending = .free ∨ p.ending = .bound → groupLength? (skipBlanks rest) = none) :
    ∀ m ∈ operandLengths (p.text ++ rest),
      m = p.text.length ∨ endsPower ((p.text ++ rest).drop m) = false := by
  intro m hm
  by_cases hatom : p.strength = 6
  · rcases operandLengths_phrase hatom hstops (fun h => hgroup (Or.inl h)) m hm with h | h
    · exact Or.inl h
    · exact Or.inr h.not_endsPower
  · cases p with
    | power b g doubled g' e =>
      right
      simp only [Phrase.proper, Bool.and_eq_true, beq_iff_eq] at hp
      have htext : (Phrase.power b g doubled g' e).text ++ rest =
          b.text ++ (g.text ++ (powerSign doubled ++ (g'.text ++ (e.text ++ rest)))) := by
        simp [Phrase.text]
      rw [htext] at hm ⊢
      obtain ⟨hbehind, hnone⟩ :=
        behind_sign g doubled (g'.text ++ (e.text ++ rest)) b.ending
      rcases operandLengths_phrase hp.1.1.1 hbehind.stops (fun _ => hnone) m hm with rfl | h
      · rw [List.drop_left]
        exact not_endsPower_sign _ _ _
      · exact h.not_endsPower
    | minus => simp [Phrase.strength] at hstrength
    | binary op => cases op <;> simp [Phrase.strength, Arith.strength] at hstrength
    | joint => simp [Phrase.strength] at hstrength
    | comma => simp [Phrase.strength] at hstrength
    | _ => exact absurd rfl hatom

/-- No operand starts with a minus sign, and no power. -/
theorem minusLength_operand {e : Phrase} (he : e.proper = true) (hstrength : 5 ≤ e.strength)
    (rest : List Char) : minusLength (e.text ++ rest) = 0 := by
  obtain ⟨c, cs, htext, hc⟩ := e.head he
  rw [htext, List.cons_append, minusLength]
  intro tail heq
  have hcm : c = '-' := (List.cons.inj heq).1
  subst hcm
  unfold Phrase.IsHead at hc
  split at hc
  · cases hc
  · rcases hc with h | h | ⟨h, -⟩
    · cases h
    · cases h
    · omega

/-- Behind a minus sign, an operand or power may be an exponent; blanks and a second minus sign
    start none. -/
theorem operandLengths_minus {gm : Gap} {q : Phrase} (hq : q.proper = true)
    (hstrength : 4 ≤ q.strength) {rest : List Char} (hstops : Stops q.ending rest)
    (hgroup : q.ending = .free ∨ q.ending = .bound → groupLength? (skipBlanks rest) = none) :
    ∀ m ∈ operandLengths (gm.text ++ (q.text ++ rest)), m = (gm.text ++ q.text).length ∨
      endsPower ((gm.text ++ (q.text ++ rest)).drop m) = false := by
  intro m hm
  rcases hgm : gm.text with _ | ⟨b, more⟩
  · rw [hgm, List.nil_append] at hm
    rw [List.nil_append, List.nil_append]
    by_cases hoperand : 5 ≤ q.strength
    · exact operandLengths_power hq hoperand hstops hgroup m hm
    · cases q with
      | minus gq r =>
        rw [Phrase.text, List.cons_append, operandLengths_other (by decide)
          (by decide) (by decide) (by decide)] at hm
        cases hm
      | binary op => cases op <;> simp [Phrase.strength, Arith.strength] at hstrength
      | joint => simp [Phrase.strength] at hstrength
      | comma => simp [Phrase.strength] at hstrength
      | _ => simp [Phrase.strength] at hoperand
  · have hb : b ∈ gm.text := by rw [hgm]; exact List.mem_cons_self
    rw [hgm, List.cons_append, operandLengths_gap hb] at hm
    cases hm

/-- What may be an exponent at the front of a phrase either ends where the phrase does, or no power
    can end there. -/
theorem operandLengths_exponent {e : Phrase} (he : e.proper = true) (hstrength : 4 ≤ e.strength)
    {rest : List Char} (hstops : Stops e.ending rest)
    (hgroup : e.ending = .free ∨ e.ending = .bound → groupLength? (skipBlanks rest) = none) :
    ∀ m ∈ operandLengths ((e.text ++ rest).drop (minusLength (e.text ++ rest))),
      minusLength (e.text ++ rest) + m = e.text.length ∨
        endsPower ((e.text ++ rest).drop (minusLength (e.text ++ rest) + m)) = false := by
  intro m hm
  by_cases hoperand : 5 ≤ e.strength
  · have hminus := minusLength_operand he hoperand rest
    rw [hminus, List.drop_zero] at hm
    rw [hminus, Nat.zero_add]
    exact operandLengths_power he hoperand hstops hgroup m hm
  · cases e with
    | minus gm q =>
      simp only [Phrase.proper, Bool.and_eq_true, decide_eq_true_eq] at he
      have hminus : minusLength ((Phrase.minus gm q).text ++ rest) = 1 := rfl
      have hdrop : ((Phrase.minus gm q).text ++ rest).drop 1 = gm.text ++ (q.text ++ rest) := by
        simp [Phrase.text]
      rw [hminus, hdrop] at hm
      rw [hminus, ← List.drop_drop, hdrop]
      refine (operandLengths_minus he.2 he.1 hstops hgroup m hm).imp_left fun h => ?_
      rw [h, Phrase.text, List.length_cons, Nat.add_comm]
    | binary op => cases op <;> simp [Phrase.strength, Arith.strength] at hstrength
    | joint => simp [Phrase.strength] at hstrength
    | comma => simp [Phrase.strength] at hstrength
    | _ => simp [Phrase.strength] at hoperand

/-- **Exponents.**  Behind a power sign, an exponent is a phrase as a whole or nothing. -/
theorem exponent?_phrase {e : Phrase} (he : e.proper = true) (hstrength : 4 ≤ e.strength)
    {rest : List Char} (hstops : Stops e.ending rest)
    (hgroup : e.ending = .free ∨ e.ending = .bound → groupLength? (skipBlanks rest) = none)
    (g : Gap) (doubled : Bool) (g' : Gap) :
    exponent? (g.text ++ (powerSign doubled ++ (g'.text ++ (e.text ++ rest)))) = none ∨
      endsPower rest = true ∧
        exponent? (g.text ++ (powerSign doubled ++ (g'.text ++ (e.text ++ rest)))) =
          some (e.text, rest) := by
  obtain ⟨c, cs, htext, hc⟩ := e.head he
  have hskip : skipBlanks (g'.text ++ (e.text ++ rest)) = e.text ++ rest := by
    rw [htext, List.cons_append]
    exact skipBlanks_head g' hc.not_blank
  have hends := operandLengths_exponent he hstrength hstops hgroup
  unfold exponent?
  rw [skipBlanks_sign, powerSignLength?_sign]
  show (operandLengths _).findSome? _ = none ∨ _ ∧ (operandLengths _).findSome? _ = _
  rw [List.drop_left, hskip]
  rcases hfind : (operandLengths ((e.text ++ rest).drop (minusLength (e.text ++ rest)))).findSome?
      (fun m => if endsPower ((e.text ++ rest).drop (minusLength (e.text ++ rest) + m)) then
        some ((e.text ++ rest).take (minusLength (e.text ++ rest) + m),
          (e.text ++ rest).drop (minusLength (e.text ++ rest) + m))
      else none) with _ | found
  · exact Or.inl rfl
  · right
    obtain ⟨m, hm, hsome⟩ := List.exists_of_findSome?_eq_some hfind
    split at hsome
    · rename_i hend
      rcases hends m hm with hlen | hnot
      · rw [hlen, List.drop_left] at hend hsome
        rw [List.take_left] at hsome
        exact ⟨hend, hsome.symm⟩
      · rw [hend] at hnot
        cases hnot
    · cases hsome

/-- **At the front of a power** the rule takes the whole power or nothing. -/
theorem powerRule_power {b e : Phrase} {g g' : Gap} {doubled : Bool}
    (hp : (Phrase.power b g doubled g' e).proper = true) {rest : List Char}
    (hbehind : Behind (Phrase.power b g doubled g' e).ending rest) (before : List Char) :
    powerRule before ((Phrase.power b g doubled g' e).text ++ rest) = none ∨
      startBlocked before = false ∧ endsPower rest = true ∧
        powerRule before ((Phrase.power b g doubled g' e).text ++ rest) =
          some ⟨(Phrase.power b g doubled g' e).text.length - 1, spelled b.text e.text⟩ := by
  simp only [Phrase.proper, Bool.and_eq_true, beq_iff_eq, decide_eq_true_eq] at hp
  obtain ⟨⟨⟨hb, hstrength⟩, -⟩, he⟩ := hp
  have hstops : Stops e.ending rest := by
    intro hne
    refine hbehind.stops ?_
    rw [Phrase.ending]
    split
    · decide
    · exact hne
  have hgroup : e.ending = .free ∨ e.ending = .bound → groupLength? (skipBlanks rest) = none := by
    intro h
    refine hbehind.bound ?_
    rw [Phrase.ending]
    split
    · rfl
    · rename_i hfree
      exact h.resolve_left hfree
  have htext : (Phrase.power b g doubled g' e).text ++ rest =
      b.text ++ (g.text ++ (powerSign doubled ++ (g'.text ++ (e.text ++ rest)))) := by
    simp [Phrase.text]
  have hexponent := exponent?_phrase he hstrength hstops hgroup g doubled g'
  obtain ⟨hbase, hnone⟩ := behind_sign g doubled (g'.text ++ (e.text ++ rest)) b.ending
  have hoperands := operandLengths_phrase hb hbase.stops (fun _ => hnone)
  -- the rule counts what it takes by what it leaves behind
  have hlen : (Phrase.power b g doubled g' e).text.length - 1 =
      ((Phrase.power b g doubled g' e).text ++ rest).length - rest.length - 1 := by
    rw [List.length_append, Nat.add_sub_cancel]
  rw [hlen, htext, powerRule_eq]
  by_cases hblocked : startBlocked before = true
  · exact Or.inl (if_pos hblocked)
  rw [if_neg hblocked]
  rcases hfind : (operandLengths (b.text ++ (g.text ++ (powerSign doubled ++
      (g'.text ++ (e.text ++ rest)))))).findSome? _ with _ | hit
  · exact Or.inl rfl
  · right
    obtain ⟨n, hn, hsome⟩ := List.exists_of_findSome?_eq_some hfind
    obtain ⟨⟨exponent, tail⟩, hexp, hhit⟩ := Option.map_eq_some_iff.mp hsome
    -- only behind the whole base stands a power sign
    rcases hoperands n hn with rfl | hruns
    · rw [List.drop_left] at hexp
      rcases hexponent with hno | ⟨hend, hyes⟩
      · rw [hno] at hexp
        cases hexp
      · rw [hyes] at hexp
        obtain ⟨rfl, rfl⟩ := Prod.mk.inj (Option.some.inj hexp)
        refine ⟨Bool.eq_false_iff.mpr hblocked, hend, ?_⟩
        rw [← hhit, List.take_left]
    · rw [exponent?_noPower hruns.noPower] at hexp
      cases hexp

end InitialValue.Formula
