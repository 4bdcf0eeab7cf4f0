/-
  The layout of a normal text.

  The last passes only move blanks and double power signs.  Seen as ink, spacing sets signs off from
  their neighbours (`setOff`), which done twice is as good as done once (`setOff_setOff`) and which
  cuts no piece (`pieces_setOff`).  So the layout of a text has the pieces of the text, and what has
  been laid out before is laid out as it is (`layout_settled`), once its power signs are made single
  again (`starsRule_layout`).
-/
import InitialValue.Proofs.Formula.Ink

namespace InitialValue.Formula

open InitialValue.Text

/-! ## Signs in exponents -/

/-- What stands directly in front of a place: a digit, a digit and an exponent mark, or neither. -/
inductive Prior
  | free
  | digit
  | exponent
  deriving DecidableEq

/-- What stands in front behind a further character. -/
def Prior.next (p : Prior) (c : Char) : Prior :=
  if isDigit c then .digit
  else if (c == 'e' || c == 'E') && p == .digit then .exponent
  else .free

/-- What the characters in front of a place, nearest first, come to. -/
def prior : List Char → Prior
  | [] => .free
  | c :: before => (prior before).next c

/-- Is this an operator that gets blanks around it? -/
def isApart (p : Prior) (c : Char) : Bool := isSpaced c && p != .exponent

/-- Is this a sign that gets blanks around it? -/
def isSetOff (p : Prior) (c : Char) : Bool := c == '^' || isApart p c

theorem Prior.next_mark {c : Char} (hc : isSolid c = false) (p : Prior) : p.next c = .free := by
  have hdigit : isDigit c = false := by
    rw [Bool.eq_false_iff]
    intro hd
    rw [isSolid, isWord_of_isDigit hd] at hc
    cases hc
  have hmark : (c == 'e' || c == 'E') = false := by
    rw [Bool.eq_false_iff]
    intro he
    rw [Bool.or_eq_true, beq_iff_eq, beq_iff_eq] at he
    rcases he with rfl | rfl
    · exact absurd hc (by decide)
    · exact absurd hc (by decide)
  unfold next
  rw [hdigit, hmark]
  rfl

theorem isSolid_of_isApart {p : Prior} {c : Char} (h : isApart p c = true) :
    isSolid c = false := by
  unfold isApart isSpaced at h
  simp only [Bool.or_eq_true, Bool.and_eq_true, beq_iff_eq] at h
  rcases h.1 with ((rfl | rfl) | rfl) | rfl <;> decide

theorem isSolid_of_isSetOff {p : Prior} {c : Char} (h : isSetOff p c = true) :
    isSolid c = false := by
  unfold isSetOff at h
  rw [Bool.or_eq_true, beq_iff_eq] at h
  rcases h with rfl | h
  · decide
  · exact isSolid_of_isApart h

/-- A sign behind a blank is set off if it is anywhere. -/
theorem isSetOff_free {p : Prior} {c : Char} (h : isSetOff p c = true) :
    isSetOff .free c = true := by
  unfold isSetOff isApart at h ⊢
  simp only [Bool.or_eq_true, Bool.and_eq_true] at h ⊢
  exact h.imp_right fun h => ⟨h.1, rfl⟩

theorem Prior.next_digit (p : Prior) (d : Char) : (p.next d == .digit) = isDigit d := by
  unfold next
  split
  · rename_i hd
    rw [hd]
    rfl
  · rename_i hd
    rw [Bool.eq_false_iff.mpr hd]
    split <;> rfl

theorem Prior.next_exponent (p : Prior) (e : Char) :
    (p.next e == .exponent) = ((e == 'e' || e == 'E') && p == .digit) := by
  by_cases he : (e == 'e' || e == 'E') = true
  · have hdigit : isDigit e = false := by
      rw [Bool.or_eq_true, beq_iff_eq, beq_iff_eq] at he
      rcases he with rfl | rfl <;> decide
    unfold next
    rw [hdigit, he, Bool.true_and]
    cases p <;> rfl
  · unfold next
    rw [Bool.eq_false_iff.mpr he, Bool.false_and]
    split <;> rfl

theorem prior_exponent (before : List Char) : (prior before == .exponent) =
    (match before with
      | e :: d :: _ => (e == 'e' || e == 'E') && isDigit d
      | _ => false) := by
  rcases before with _ | ⟨e, _ | ⟨d, before⟩⟩
  · rfl
  · exact (Prior.next_exponent .free e).trans (Bool.and_false _)
  · exact (Prior.next_exponent _ e).trans (congrArg _ (Prior.next_digit _ d))

theorem spacingRule_cons (before : List Char) (c : Char) (cs : List Char) :
    spacingRule before (c :: cs) =
      if isApart (prior before) c then some ⟨0, [' ', c, ' ']⟩ else none := by
  unfold isApart bne
  rw [prior_exponent]
  rfl

/-! ## Setting signs off -/

/-- Sets the chosen signs off from their neighbours.  `after` tells whether the sign in front has
    been set off, and `p` what stands in front of the first ink unless that stands apart. -/
def setOff (chosen : Prior → Char → Bool) : Bool → Prior → List Ink → List Ink
  | _, _, [] => []
  | after, p, a :: is =>
    let p := if a.apart then .free else p
    if chosen p a.char then ⟨true, a.char⟩ :: setOff chosen true .free is
    else ⟨a.apart || after, a.char⟩ :: setOff chosen false (p.next a.char) is

/-- Doubles power signs. -/
def doubled : List Ink → List Ink
  | [] => []
  | a :: is =>
    if a.char = '^' then ⟨a.apart, '*'⟩ :: ⟨false, '*'⟩ :: doubled is
    else a :: doubled is

/-- Sets power signs off and doubles them. -/
def raised : Bool → List Ink → List Ink
  | _, [] => []
  | after, a :: is =>
    if a.char = '^' then ⟨true, '*'⟩ :: ⟨false, '*'⟩ :: raised true is
    else ⟨a.apart || after, a.char⟩ :: raised false is

variable {chosen : Prior → Char → Bool}

/-- Ink that stands apart has nothing directly in front of it. -/
theorem setOff_apart {is : List Ink} (h : ∀ a, is.head? = some a → a.apart = true) (after : Bool)
    (p : Prior) : setOff chosen after p is = setOff chosen after .free is := by
  rcases is with _ | ⟨a, is⟩
  · rfl
  · rw [setOff, setOff, h a rfl]
    rfl

/-- **Spacing sets operators off.** -/
theorem inks_spacing (cs before : List Char) (apart after : Bool)
    (h : apart = true → prior before = .free) :
    inks (apart || after) (spacingRule.pass 0 before cs) =
      setOff isApart after (prior before) (inks apart cs) := by
  induction cs generalizing before apart after with
  | nil => rfl
  | cons c cs ih =>
    by_cases hc : isBlank c = true
    · have hfree : prior (c :: before) = .free := Prior.next_mark (isSolid_of_isBlank hc) _
      rw [Rule.pass_none (spacingRule_ignores (isSpaced_of_isBlank hc) _ _), inks_blank hc,
        inks_blank hc, setOff_apart fun _ ha => apart_of_head ha]
      have hrest := ih (c :: before) true after fun _ => hfree
      rwa [hfree, Bool.true_or] at hrest
    · have hink := Bool.eq_false_iff.mpr hc
      rw [inks_cons hink, setOff]
      have hprior : (if apart = true then Prior.free else prior before) = prior before := by
        split
        · rename_i happart
          exact (h happart).symm
        · rfl
      dsimp only
      rw [hprior]
      by_cases hset : isApart (prior before) c = true
      · have hfree : prior (c :: before) = .free := Prior.next_mark (isSolid_of_isApart hset) _
        have hhit : spacingRule before (c :: ([] ++ cs)) =
            some ⟨([] : List Char).length, [' ', c, ' ']⟩ := by
          rw [spacingRule_cons, if_pos hset]
          rfl
        have hrest := ih (c :: before) false true fun h => by cases h
        rw [hfree, Bool.or_true] at hrest
        rw [if_pos hset, show c :: cs = c :: ([] ++ cs) from rfl, Rule.pass_hit hhit]
        show inks _ (' ' :: c :: ' ' :: _) = _
        rw [inks_blank (by decide), inks_cons hink, inks_blank (by decide), ← hrest]
        rfl
      · have hnone : spacingRule before (c :: cs) = none := by
          rw [spacingRule_cons, if_neg hset]
        rw [if_neg hset, Rule.pass_none hnone, inks_cons hink]
        have hrest := ih (c :: before) false false fun h => by cases h
        exact congrArg _ hrest

theorem inks_skipBlanks (cs : List Char) : inks true (skipBlanks cs) = inks true cs := by
  induction cs with
  | nil => rfl
  | cons c cs ih =>
    by_cases hc : isBlank c = true
    · rw [inks_blank hc, ← ih, skipBlanks, List.dropWhile_cons_of_pos hc]
      rfl
    · rw [skipBlanks_cons (Bool.eq_false_iff.mpr hc)]

/-- Behind a power sign, it does not matter whether a blank comes next. -/
theorem raised_true (apart : Bool) (cs : List Char) :
    raised true (inks apart cs) = raised true (inks true cs) := by
  rcases cs with _ | ⟨c, cs⟩
  · rfl
  by_cases hc : isBlank c = true
  · rw [inks_blank hc, inks_blank hc]
  · rw [inks_cons (Bool.eq_false_iff.mpr hc), inks_cons (Bool.eq_false_iff.mpr hc), raised, raised,
      Bool.or_true, Bool.or_true]

/-- **The pass over power signs sets them off** and doubles them. -/
theorem inks_powerSign (cs before : List Char) (apart after : Bool) :
    inks (apart || after) (powerSignRule.pass 0 before cs) = raised after (inks apart cs) := by
  induction hn : cs.length using Nat.strongRecOn generalizing cs before apart after with
  | ind n ih =>
    -- blanks, and the first character behind them
    obtain ⟨g, rest, hg, hrest, rfl⟩ : ∃ g rest, (∀ c ∈ g, isBlank c = true) ∧
        StopsAt isBlank rest ∧ cs = g ++ rest := by
      obtain ⟨g, hg, hsplit⟩ := exists_gap cs
      exact ⟨g, _, hg, stopsAt_dropWhile cs, hsplit⟩
    rw [List.length_append] at hn
    rcases rest with _ | ⟨c, rest⟩
    · have hquiet : powerSignRule.pass 0 before (g ++ []) =
          g ++ powerSignRule.pass 0 (g.reverse ++ before) [] :=
        Rule.pass_quiet fun pre c post hsplit => powerSignRule_none (by
          rw [List.append_nil, skipBlanks_all fun x hx => hg x (by rw [hsplit]; simp_all)]
          exact stopsAt_nil) _
      rw [hquiet, Rule.pass_nil, inks_gap hg, inks_gap hg]
      rfl
    · rw [List.length_cons] at hn
      have hc : isBlank c = false := hrest c rfl
      by_cases hcaret : c = '^'
      · subst hcaret
        obtain ⟨before', hpass⟩ := pass_caret hg before rest
        have hless : (skipBlanks rest).length < n := by
          have hle := (List.dropWhile_sublist isBlank (l := rest)).length_le
          unfold skipBlanks
          omega
        have hrec := ih _ hless (skipBlanks rest) before' true true rfl
        rw [inks_skipBlanks, ← raised_true false] at hrec
        rw [hpass, inks_gap hg, inks_cons hc, raised, if_pos rfl, ← hrec]
        show inks _ (' ' :: '*' :: '*' :: ' ' :: _) = _
        rw [inks_blank (by decide), inks_cons (by decide), inks_cons (by decide),
          inks_blank (by decide)]
        rfl
      · have hfront : StopsAt (· == '^') (c :: rest) := stopsAt_cons (by simpa using hcaret)
        have hquiet : powerSignRule.pass 0 before (g ++ c :: rest) =
            g ++ powerSignRule.pass 0 (g.reverse ++ before) (c :: rest) := by
          refine Rule.pass_quiet fun pre x post hsplit => powerSignRule_none ?_ _
          rw [← List.cons_append, skipBlanks_blanks fun y hy => hg y (by rw [hsplit]; simp_all),
            skipBlanks_cons hc]
          exact hfront
        have hnone : powerSignRule (g.reverse ++ before) (c :: rest) = none :=
          powerSignRule_none (by rwa [skipBlanks_cons hc]) _
        have hrec := ih _ (by omega) rest (c :: (g.reverse ++ before)) false false rfl
        rw [hquiet, Rule.pass_none hnone, inks_gap hg, inks_gap hg, inks_cons hc, inks_cons hc,
          raised, if_neg hcaret, ← hrec, Bool.or_right_comm]
        rfl

/-- Setting operators off and then power signs is setting off all signs. -/
theorem raised_setOff (is : List Ink) (after after' : Bool) (p : Prior) :
    raised after (setOff isApart after' p is) =
      doubled (setOff isSetOff (after' || after) p is) := by
  induction is generalizing after after' p with
  | nil => rfl
  | cons a is ih =>
    rw [setOff, setOff]
    generalize (if a.apart = true then Prior.free else p) = q
    by_cases hcaret : a.char = '^'
    · have hnext : q.next a.char = .free := by
        rw [hcaret]
        exact Prior.next_mark (by decide) q
      have hset : isSetOff q a.char = true ∧ isApart q a.char = false := by
        rw [hcaret]
        exact ⟨rfl, rfl⟩
      rw [hset.2, hset.1, hnext, if_neg (by decide), if_pos rfl, raised, doubled, if_pos hcaret,
        if_pos hcaret, ih]
      rfl
    · have hset : isSetOff q a.char = isApart q a.char := by
        rw [isSetOff, beq_eq_false_iff_ne.mpr hcaret, Bool.false_or]
      rw [hset]
      split
      · rw [raised, doubled, if_neg hcaret, if_neg hcaret, ih]
        rfl
      · rw [raised, doubled, if_neg hcaret, if_neg hcaret, ih, Bool.or_assoc]
        rfl

/-- **Setting signs off twice** is as good as doing so once. -/
theorem setOff_setOff (is : List Ink) (after after' : Bool) (p : Prior)
    (hp : after' = true → p = .free) :
    setOff isSetOff after p (setOff isSetOff after' p is) =
      setOff isSetOff (after' || after) p is := by
  induction is generalizing after after' p with
  | nil => rfl
  | cons a is ih =>
    rw [setOff, setOff]
    generalize hq : (if a.apart = true then Prior.free else p) = q
    by_cases hset : isSetOff q a.char = true
    · rw [if_pos hset, if_pos hset, setOff]
      dsimp only
      rw [if_pos rfl, if_pos (isSetOff_free hset), ih _ _ _ fun _ => rfl]
      rfl
    · have hfront : (if (a.apart || after') = true then Prior.free else p) = q := by
        rw [← hq]
        cases after' with
        | false => rw [Bool.or_false]
        | true => rw [hp rfl, ite_self, ite_self]
      rw [if_neg hset, if_neg hset, setOff]
      dsimp only
      rw [hfront, if_neg hset, ih _ _ _ (fun h => by cases h), Bool.or_assoc]
      rfl

/-- **Setting signs off cuts no piece.** -/
theorem pieces_setOff (is : List Ink) (after : Bool) (p : Prior) :
    pieces (setOff isSetOff after p is) = pieces is := by
  induction is generalizing after p with
  | nil => rfl
  | cons a is ih =>
    rw [setOff]
    generalize (if a.apart = true then Prior.free else p) = q
    by_cases hset : isSetOff q a.char = true
    · have hmark := isSolid_of_isSetOff hset
      rw [if_pos hset, pieces, pieces, ih, holds_mark (a := a) hmark,
        holds_mark (a := ⟨true, a.char⟩) hmark]
    · -- a sign in front of which a blank comes is no solid character
      have hholds : Ink.holds ⟨a.apart || after, a.char⟩
          (setOff isSetOff false (q.next a.char) is) = a.holds is := by
        rcases is with _ | ⟨b, is⟩
        · rfl
        rw [setOff]
        generalize (if b.apart = true then Prior.free else q.next a.char) = q'
        split
        · rename_i hb
          simp [Ink.holds, isSolid_of_isSetOff hb]
        · simp [Ink.holds]
      rw [if_neg hset, pieces, pieces, ih, hholds]

theorem mem_setOff {a : Ink} {is : List Ink} {after : Bool} {p : Prior}
    (h : a ∈ setOff isSetOff after p is) :
    (∃ b ∈ is, a.char = b.char) ∧ (a.char = '^' → a.apart = true) := by
  induction is generalizing after p with
  | nil => cases h
  | cons b is ih =>
    rw [setOff] at h
    generalize (if b.apart = true then Prior.free else p) = q at h
    split at h
    · rcases List.mem_cons.mp h with rfl | h
      · exact ⟨⟨b, List.mem_cons_self, rfl⟩, fun _ => rfl⟩
      · obtain ⟨⟨x, hx, hchar⟩, hcaret⟩ := ih h
        exact ⟨⟨x, List.mem_cons_of_mem _ hx, hchar⟩, hcaret⟩
    · rename_i hset
      rcases List.mem_cons.mp h with rfl | h
      · refine ⟨⟨b, List.mem_cons_self, rfl⟩, fun hcaret => absurd ?_ hset⟩
        rw [show b.char = '^' from hcaret]
        rfl
      · obtain ⟨⟨x, hx, hchar⟩, hcaret⟩ := ih h
        exact ⟨⟨x, List.mem_cons_of_mem _ hx, hchar⟩, hcaret⟩

/-! ## Double stars -/

/-- No two stars come one after the other, whatever blanks stand between them. -/
def SingleStars (is : List Ink) : Prop := is.IsChain fun a b => ¬(a.char = '*' ∧ b.char = '*')

/-- Where no two pieces are stars one after the other, no two stars are. -/
theorem singleStars_of_pieces {is : List Ink}
    (h : (pieces is).IsChain fun x y => ¬(x = ['*'] ∧ y = ['*'])) : SingleStars is := by
  induction is with
  | nil => exact .nil
  | cons a is ih =>
    rcases is with _ | ⟨b, is⟩
    · exact .singleton a
    have hsolid : ∀ c, isSolid c = true → c ≠ '*' := by
      rintro c hc rfl
      revert hc
      decide
    obtain ⟨w, ws, hws⟩ := pieces_cons b is
    rw [pieces, hws] at h
    rw [hws] at ih
    by_cases hholds : a.holds (b :: is) = true
    · have hboth := hholds
      simp only [Ink.holds, Bool.and_eq_true] at hboth
      rw [hholds, glue, if_pos rfl] at h
      refine List.isChain_cons_cons.mpr ⟨fun hstars => hsolid _ hboth.1.1 hstars.1, ih ?_⟩
      exact List.isChain_cons.mpr ⟨fun y _ hstars =>
        hsolid _ hboth.1.2 (List.cons.inj hstars.1).1, (List.isChain_cons.mp h).2⟩
    · rw [Bool.eq_false_iff.mpr hholds, glue_false] at h
      obtain ⟨hstars, hrest⟩ := List.isChain_cons_cons.mp h
      refine List.isChain_cons_cons.mpr ⟨fun hboth => hstars ⟨by rw [hboth.1], ?_⟩, ih hrest⟩
      have hmark : isSolid b.char = false := by
        rw [hboth.2]
        decide
      rw [pieces, holds_mark hmark, glue_false] at hws
      rw [← (List.cons.inj hws).1, hboth.2]

/-- Over an ink, the rule makes a double star a power sign again. -/
theorem pass_stars {a : Ink} {is : List Ink}
    (h : a.char = '*' → StopsAt (· == '*') (drawn (doubled is))) (before : List Char) :
    ∃ before', starsRule.pass 0 before (typeset (doubled (a :: is))) =
      a.char :: starsRule.pass 0 before' (drawn (doubled is)) := by
  by_cases hcaret : a.char = '^'
  · rw [doubled, if_pos hcaret, hcaret]
    exact ⟨_, @Rule.pass_hit starsRule before '*' ['*'] (drawn (doubled is)) _ rfl⟩
  · have hnone : starsRule before (a.char :: drawn (doubled is)) = none := by
      by_cases hstar : a.char = '*'
      · rw [hstar]
        exact starsRule_star (h hstar) before
      · exact starsRule_ignores hstar _ _
    rw [doubled, if_neg hcaret]
    exact ⟨_, Rule.pass_none hnone⟩

theorem drawn_doubled (a : Ink) (is : List Ink) : drawn (doubled (a :: is)) =
    (if a.apart then [' '] else []) ++ typeset (doubled (a :: is)) := by
  rw [doubled]
  split
  · exact drawn_cons _ _
  · exact drawn_cons _ _

/-- What comes directly behind a star is no star, with power signs doubled too. -/
theorem stops_star {a : Ink} {is : List Ink} (hsingle : SingleStars (a :: is))
    (hcarets : ∀ b ∈ is, b.char = '^' → b.apart = true) (ha : a.char = '*') :
    StopsAt (· == '*') (drawn (doubled is)) := by
  rcases is with _ | ⟨b, is⟩
  · exact stopsAt_nil
  rw [drawn_doubled]
  by_cases hb : b.apart = true
  · rw [if_pos hb]
    exact stopsAt_cons rfl
  · have hcaret : b.char ≠ '^' := fun hcaret => hb (hcarets b List.mem_cons_self hcaret)
    have hstar : b.char ≠ '*' := fun hstar => (List.isChain_cons_cons.mp hsingle).1 ⟨ha, hstar⟩
    rw [if_neg hb, doubled, if_neg hcaret]
    exact stopsAt_cons (beq_eq_false_iff_ne.mpr hstar)

/-- **The rule for double stars undoes the doubling.** -/
theorem pass_stars_drawn {is : List Ink} (hsingle : SingleStars is)
    (hcarets : ∀ a ∈ is, a.char = '^' → a.apart = true) (before : List Char) :
    starsRule.pass 0 before (drawn (doubled is)) = drawn is := by
  induction is generalizing before with
  | nil => rfl
  | cons a is ih =>
    have hrest : ∀ b ∈ is, b.char = '^' → b.apart = true :=
      fun b hb => hcarets b (List.mem_cons_of_mem _ hb)
    have hspace : ∀ c ∈ (if a.apart = true then [' '] else []), starsRule.Ignores c := by
      intro c hc
      refine starsRule_ignores ?_
      rintro rfl
      split at hc <;> simp at hc
    rw [drawn_doubled, drawn_cons, Rule.pass_ignored hspace]
    obtain ⟨before', hpass⟩ := pass_stars (stops_star hsingle hrest)
      ((if a.apart = true then [' '] else []).reverse ++ before)
    rw [hpass, ih (List.isChain_cons.mp hsingle).2 hrest]
    rfl

/-! ## The layout -/

/-- The ink of a text with its signs set off. -/
def spaced (cs : List Char) : List Ink := setOff isSetOff false .free (inks true cs)

/-- **The last passes lay out the ink of a text**, with its power signs doubled. -/
theorem layout_eq (cs : List Char) :
    trim (blanksRule.apply (powerSignRule.apply (spacingRule.apply cs))) =
      typeset (doubled (spaced cs)) := by
  have hspacing := inks_spacing cs [] true false fun _ => rfl
  have hsigns := inks_powerSign (spacingRule.apply cs) [] true false
  rw [Bool.or_false] at hspacing hsigns
  rw [trim_blanks]
  show typeset (inks true (powerSignRule.pass 0 [] (spacingRule.apply cs))) = _
  rw [hsigns]
  show typeset (raised false (inks true (spacingRule.pass 0 [] cs))) = _
  rw [hspacing, raised_setOff]
  rfl

theorem inks_spaced (cs : List Char) : inks true (typeset (spaced cs)) = spaced cs := by
  refine inks_typeset (fun a ha => ?_) fun a ha => ?_
  · obtain ⟨⟨b, hb, hchar⟩, -⟩ := mem_setOff ha
    rw [hchar]
    exact not_blank_of_mem_inks hb
  · unfold spaced at ha
    rcases his : inks true cs with _ | ⟨b, is⟩
    · rw [his] at ha
      cases ha
    · have hhead : (inks true cs).head? = some b := by
        rw [his]
        rfl
      have hb := apart_of_head hhead
      rw [his, setOff] at ha
      generalize (if b.apart = true then Prior.free else Prior.free) = q at ha
      split at ha
      · cases ha
        rfl
      · cases ha
        rw [hb]
        rfl

/-- **What is laid out has the pieces that it had before.** -/
theorem cut_spaced (cs : List Char) : cut (typeset (spaced cs)) = cut cs := by
  rw [cut, inks_spaced, spaced, pieces_setOff, cut]

/-- **What is laid out already stays as it is.** -/
theorem spaced_spaced (cs : List Char) : spaced (typeset (spaced cs)) = spaced cs := by
  rw [spaced, inks_spaced, spaced, setOff_setOff _ _ _ _ fun h => by cases h]
  rfl

/-- With its power signs single again, a layout is that of the text without the doubling. -/
theorem starsRule_layout {cs : List Char}
    (h : (cut cs).IsChain fun x y => ¬(x = ['*'] ∧ y = ['*'])) :
    starsRule.apply (typeset (doubled (spaced cs))) = typeset (spaced cs) := by
  have hsingle : SingleStars (spaced cs) := by
    refine singleStars_of_pieces ?_
    rw [spaced, pieces_setOff]
    exact h
  have hcarets : ∀ a ∈ spaced cs, a.char = '^' → a.apart = true := fun a ha => (mem_setOff ha).2
  generalize spaced cs = is at hsingle hcarets
  rcases is with _ | ⟨a, is⟩
  · rfl
  · have hrest : ∀ b ∈ is, b.char = '^' → b.apart = true :=
      fun b hb => hcarets b (List.mem_cons_of_mem _ hb)
    obtain ⟨before', hpass⟩ := pass_stars (stops_star hsingle hrest) []
    rw [Rule.apply, hpass, pass_stars_drawn (List.isChain_cons.mp hsingle).2 hrest]
    rfl

end InitialValue.Formula
