/-
  The normal text of a formula that passed the safety check passes it again.

  Only the raw text is checked, and the passes that make the normal text of it write and delete
  characters.  What keeps them harmless is that all they ever write is text that stood there before,
  or walls, or the words `pow`, `pi` and `e`:

  1. **In any surroundings** — `NoWorse old new`: whatever stands around it, new text in the place
     of old brings about no refused fragment.  This is kept by putting pieces together, so each
     seam of a pass is settled by the pieces on either side.
  2. **What may be written** — walls in the place of anything (`NoWorse.walls`), a letter in the
     place of one that counts as the same (`NoWorse.letter`), and the front of a call of `pow`
     anywhere (`NoWorse.call`): no refused fragment ends with one of its letters, so none reaches
     into it, and its bracket is a wall.
  3. **Passes** — `Rule.apply_noWorse`: a rule whose hits are no worse than what they replace.
  4. **Whole texts** — `normalize_safe`.
-/
import InitialValue.Proofs.Failing
import InitialValue.Proofs.Formula.Constants
import InitialValue.Proofs.Formula.Fragments
import InitialValue.Proofs.Formula.PowerRule
import InitialValue.Proofs.Formula.Seams

namespace InitialValue.Formula

open InitialValue.Text

/-! ## Occurrences in parts of a text -/

namespace Fragment

theorem startsLike_append {ls xs : List Char} (h : startsLike ls xs = true) (ys : List Char) :
    startsLike ls (xs ++ ys) = true := by
  induction ls generalizing xs with
  | nil => rfl
  | cons l ls ih =>
    cases xs with
    | nil => cases h
    | cons x xs =>
      obtain ⟨hl, hls⟩ := Bool.and_eq_true_iff.mp h
      exact Bool.and_eq_true_iff.mpr ⟨hl, ih hls⟩

theorem atFront_append {f : Fragment} {xs : List Char} (h : f.atFront xs = true) (ys : List Char) :
    f.atFront (xs ++ ys) = true := by
  cases f with
  | literal ls => exact startsLike_append h ys
  | anyOf ls =>
    cases xs with
    | nil => cases h
    | cons x xs => exact h

theorem occurs_append_left {f : Fragment} {ys : List Char} (h : f.occurs ys = true)
    (xs : List Char) : f.occurs (xs ++ ys) = true := by
  induction xs with
  | nil => exact h
  | cons x xs ih => exact Bool.or_eq_true_iff.mpr (Or.inr ih)

theorem occurs_append_right {f : Fragment} {xs : List Char} (h : f.occurs xs = true)
    (ys : List Char) : f.occurs (xs ++ ys) = true := by
  induction xs with
  | nil => cases h
  | cons x xs ih =>
    rcases Bool.or_eq_true_iff.mp h with h | h
    · exact Bool.or_eq_true_iff.mpr (Or.inl (atFront_append h ys))
    · exact Bool.or_eq_true_iff.mpr (Or.inr (ih h))

/-! ## Last characters -/

/-- Could a character be the last one of an occurrence? -/
def mayEndWith : Fragment → Char → Bool
  | .literal ls, c => ls.getLast?.elim true fun l => sameLetter l c
  | .anyOf ls, c => ls.contains c

theorem startsLike_concat {ls : List Char} {c : Char}
    (hc : (literal ls).mayEndWith c = false) (xs : List Char) :
    startsLike ls (xs ++ [c]) = startsLike ls xs := by
  induction ls generalizing xs with
  | nil => cases hc
  | cons l ls ih =>
    cases ls with
    | nil =>
      have hl : sameLetter l c = false := hc
      cases xs with
      | nil =>
        show (sameLetter l c && true) = false
        rw [hl, Bool.false_and]
      | cons x xs => rfl
    | cons l' ls =>
      cases xs with
      | nil => exact Bool.and_false _
      | cons x xs =>
        show (sameLetter l x && startsLike (l' :: ls) (xs ++ [c])) =
          (sameLetter l x && startsLike (l' :: ls) xs)
        rw [ih hc]

theorem occurs_concat {f : Fragment} {c : Char} (hc : f.mayEndWith c = false) (xs : List Char) :
    f.occurs (xs ++ [c]) = f.occurs xs := by
  have hfront : ∀ xs, f.atFront (xs ++ [c]) = f.atFront xs := by
    intro xs
    cases f with
    | literal ls => exact startsLike_concat hc xs
    | anyOf ls =>
      cases xs with
      | nil => exact hc
      | cons x xs => rfl
  induction xs with
  | nil =>
    show (f.atFront ([] ++ [c]) || false) = false
    rw [hfront, Bool.or_false]
    cases f with
    | literal ls =>
      cases ls with
      | nil => cases hc
      | cons l ls => rfl
    | anyOf ls => rfl
  | cons x xs ih =>
    show (f.atFront (x :: xs ++ [c]) || f.occurs (xs ++ [c])) = _
    rw [hfront, ih]
    rfl

/-! ## Letters that count as the same -/

/-- The fragment takes one character wherever it takes another. -/
def Takes (c : Char) : Fragment → Char → Prop
  | .literal ls, d => ∀ l ∈ ls, sameLetter l d = true → sameLetter l c = true
  | .anyOf ls, d => d ∉ ls

/-- Does the fragment take a letter only as that very letter of its own? -/
def takesAsItself : Fragment → Char → Bool
  | .literal ls, d => ls.all fun l => !sameLetter l d || l == d
  | .anyOf ls, d => !ls.contains d

theorem takes_of_takesAsItself {f : Fragment} {c d : Char} (h : f.takesAsItself d = true)
    (hc : sameLetter d c = true) : f.Takes c d := by
  cases f with
  | literal ls =>
    intro l hl hsame
    have hone := List.all_eq_true.mp h l hl
    rw [hsame, Bool.not_true, Bool.false_or, beq_iff_eq] at hone
    rwa [hone]
  | anyOf ls =>
    intro hmem
    have hnot : (!ls.contains d) = true := h
    rw [List.contains_iff_mem.mpr hmem] at hnot
    cases hnot

theorem startsLike_takes {ls : List Char} {c d : Char} (h : (literal ls).Takes c d)
    {xs ys : List Char} (hls : startsLike ls (xs ++ d :: ys) = true) :
    startsLike ls (xs ++ c :: ys) = true := by
  induction ls generalizing xs with
  | nil => rfl
  | cons l ls ih =>
    have htail : (literal ls).Takes c d := fun l' hl' => h l' (List.mem_cons_of_mem _ hl')
    cases xs with
    | nil =>
      obtain ⟨hl, hrest⟩ := Bool.and_eq_true_iff.mp hls
      exact Bool.and_eq_true_iff.mpr ⟨h l List.mem_cons_self hl, hrest⟩
    | cons x xs =>
      obtain ⟨hl, hrest⟩ := Bool.and_eq_true_iff.mp hls
      exact Bool.and_eq_true_iff.mpr ⟨hl, ih htail hrest⟩

theorem occurs_takes {f : Fragment} {c d : Char} (h : f.Takes c d) {xs ys : List Char}
    (hoccurs : f.occurs (xs ++ d :: ys) = true) : f.occurs (xs ++ c :: ys) = true := by
  have hfront : ∀ xs, f.atFront (xs ++ d :: ys) = true → f.atFront (xs ++ c :: ys) = true := by
    intro xs hat
    cases f with
    | literal ls => exact startsLike_takes h hat
    | anyOf ls =>
      cases xs with
      | nil => exact absurd (List.contains_iff_mem.mp hat) h
      | cons x xs => exact hat
  induction xs with
  | nil => exact Bool.or_eq_true_iff.mpr ((Bool.or_eq_true_iff.mp hoccurs).imp_left (hfront []))
  | cons x xs ih =>
    exact Bool.or_eq_true_iff.mpr ((Bool.or_eq_true_iff.mp hoccurs).imp (hfront (x :: xs)) ih)

end Fragment

/-! ## In any surroundings -/

/-- Whatever stands around it, new text in the place of old brings about no refused fragment. -/
def NoWorse (old new : List Char) : Prop :=
  ∀ f ∈ refusedFragments, ∀ xs ys,
    f.1.occurs (xs ++ new ++ ys) = true → f.1.occurs (xs ++ old ++ ys) = true

namespace NoWorse

variable {as bs cs ds : List Char}

theorem refl (cs : List Char) : NoWorse cs cs := fun _ _ _ _ h => h

theorem trans (h : NoWorse as bs) (h' : NoWorse bs cs) : NoWorse as cs :=
  fun f hf xs ys hoccurs => h f hf xs ys (h' f hf xs ys hoccurs)

theorem append (h : NoWorse as bs) (h' : NoWorse cs ds) : NoWorse (as ++ cs) (bs ++ ds) := by
  intro f hf xs ys hoccurs
  have hback : f.1.occurs (xs ++ bs ++ cs ++ ys) = true := by
    refine h' f hf (xs ++ bs) ys ?_
    simpa only [List.append_assoc] using hoccurs
  have hfront : f.1.occurs (xs ++ as ++ (cs ++ ys)) = true := by
    refine h f hf xs (cs ++ ys) ?_
    simpa only [List.append_assoc] using hback
  simpa only [List.append_assoc] using hfront

theorem harmless (h : NoWorse as bs) (has : Harmless as) : Harmless bs := by
  intro f hf
  rw [Bool.eq_false_iff]
  intro hoccurs
  have hold := h f hf [] [] (by rwa [List.nil_append, List.append_nil])
  rw [List.nil_append, List.append_nil, has f hf] at hold
  cases hold

/-- **Walls may be written** in the place of anything. -/
theorem walls (old : List Char) {c : Char} {g : List Char}
    (hg : ∀ d ∈ c :: g, isWall d = true) : NoWorse old (c :: g) := by
  intro f hf xs ys hoccurs
  have hc := mentions_of_isWall (hg c List.mem_cons_self) hf
  rw [List.append_assoc, List.cons_append, Fragment.occurs_wall (refused_ne hf) hc,
    occurs_walls hf fun d hd => hg d (List.mem_cons_of_mem _ hd)] at hoccurs
  rw [List.append_assoc]
  rcases Bool.or_eq_true_iff.mp hoccurs with h | h
  · exact Fragment.occurs_append_right h _
  · exact Fragment.occurs_append_left (Fragment.occurs_append_left h old) xs

/-- Some letters may be written in the place of what counts as the same. -/
theorem letter {l c : Char} (hl : l ∈ ['p', 'i', 'e']) (hc : sameLetter l c = true) :
    NoWorse [c] [l] := by
  have hall : ∀ l ∈ ['p', 'i', 'e'], (refusedFragments.all fun f => f.1.takesAsItself l) = true :=
    forall_mem_of_all (by decide)
  intro f hf xs ys hoccurs
  have htakes := Fragment.takes_of_takesAsItself (List.all_eq_true.mp (hall l hl) f hf) hc
  rw [List.append_assoc] at hoccurs ⊢
  exact Fragment.occurs_takes htakes hoccurs

/-- **The front of a call of `pow` may be written anywhere.** -/
theorem call : NoWorse [] "pow(".toList := by
  have hall : ∀ c ∈ ['p', 'o', 'w'], (refusedFragments.all fun f => !f.1.mayEndWith c) = true :=
    forall_mem_of_all (by decide)
  intro f hf xs ys hoccurs
  have hend : ∀ c ∈ ['p', 'o', 'w'], f.1.mayEndWith c = false := fun c hc => by
    have hone := List.all_eq_true.mp (hall c hc) f hf
    rwa [Bool.not_eq_true'] at hone
  have hsplit : xs ++ "pow(".toList ++ ys = xs ++ ['p'] ++ ['o'] ++ ['w'] ++ '(' :: ys := by
    simp
  rw [hsplit, Fragment.occurs_wall (refused_ne hf) (mentions_of_isWall (isWall_mark (by simp)) hf),
    Fragment.occurs_concat (hend 'w' (by simp)), Fragment.occurs_concat (hend 'o' (by simp)),
    Fragment.occurs_concat (hend 'p' (by simp))] at hoccurs
  rw [List.append_nil]
  rcases Bool.or_eq_true_iff.mp hoccurs with h | h
  · exact Fragment.occurs_append_right h ys
  · exact Fragment.occurs_append_left h xs

end NoWorse

/-! ## Passes -/

/-- The hits of a rule are no worse than what they replace. -/
def Rule.Gentle (r : Rule) : Prop :=
  ∀ before cs hit, r before cs = some hit → NoWorse (cs.take (hit.extra + 1)) hit.text

theorem Rule.pass_noWorse {r : Rule} (hr : r.Gentle) (n : Nat) (before cs : List Char) :
    NoWorse (cs.drop n) (r.pass n before cs) := by
  refine pass_induction (NoWorse.refl []) (fun c _ _ h => (NoWorse.refl [c]).append h)
    (fun before cs hit out hhit h => ?_) n before cs
  have happend := (hr before cs hit hhit).append h
  rwa [List.take_append_drop] at happend

/-- **A pass whose hits are no worse** than what they replace is no worse than the text. -/
theorem Rule.apply_noWorse {r : Rule} (hr : r.Gentle) (cs : List Char) : NoWorse cs (r.apply cs) :=
  r.pass_noWorse hr 0 [] cs

/-- Rules that write nothing but walls are gentle. -/
theorem Rule.gentle_of_walls {r : Rule}
    (h : ∀ before cs hit, r before cs = some hit → hit.text ≠ [] ∧ hit.text.all isWall = true) :
    r.Gentle := by
  intro before cs hit hhit
  obtain ⟨hne, hall⟩ := h before cs hit hhit
  obtain ⟨c, g, hg⟩ := List.exists_cons_of_ne_nil hne
  rw [hg]
  rw [hg] at hall
  exact NoWorse.walls _ (List.all_eq_true.mp hall)

/-! ### Powers -/

/-- A power sign with the blanks around it. -/
def IsSign (sign : List Char) : Prop :=
  (∃ c ∈ sign, c = '^' ∨ c = '*') ∧ ∀ c ∈ sign, isBlank c = true ∨ c = '^' ∨ c = '*'

theorem isSign_powerSign (g : Gap) (doubled : Bool) (g' : Gap) :
    IsSign (g.text ++ (powerSign doubled ++ g'.text)) := by
  have hmarks : ∀ c ∈ powerSign doubled, c = '^' ∨ c = '*' := by
    cases doubled <;> simp [powerSign]
  constructor
  · obtain ⟨c, rest, hsign⟩ : ∃ c rest, powerSign doubled = c :: rest := by
      cases doubled <;> exact ⟨_, _, rfl⟩
    have hc : c ∈ powerSign doubled := by rw [hsign]; exact List.mem_cons_self
    exact ⟨c, List.mem_append_right _ (List.mem_append_left _ hc), hmarks c hc⟩
  · intro c hc
    rcases List.mem_append.mp hc with hc | hc
    · exact Or.inl (g.blank c hc)
    · exact (List.mem_append.mp hc).elim (fun hc => Or.inr (hmarks c hc))
        fun hc => Or.inl (g'.blank c hc)

/-- The exponent stands behind a sign with its gaps. -/
theorem exponent?_split {cs e tail : List Char} (h : exponent? cs = some (e, tail)) :
    ∃ sign, IsSign sign ∧ cs = sign ++ (e ++ tail) := by
  obtain ⟨g, g', doubled, hcs⟩ := exponent?_sign h
  refine ⟨_, isSign_powerSign g doubled g', ?_⟩
  rw [hcs]
  simp only [List.append_assoc]

/-- What the power rule takes is an operand, a sign with its gaps, and an exponent. -/
theorem powerRule_split {before cs : List Char} {hit : Hit} (h : powerRule before cs = some hit) :
    ∃ base sign e, IsSign sign ∧ cs.take (hit.extra + 1) = base ++ sign ++ e ∧
      hit.text = spelled base e := by
  obtain ⟨base, e, g, g', doubled, htake, htext⟩ := powerRule_call h
  refine ⟨base, _, e, isSign_powerSign g doubled g', ?_, htext⟩
  rw [htake]
  simp only [List.append_assoc]

theorem powerRule_gentle : powerRule.Gentle := by
  intro before cs hit h
  obtain ⟨base, sign, e, -, htake, htext⟩ := powerRule_split h
  have hcomma : NoWorse sign [',', ' '] := NoWorse.walls sign (forall_mem_of_all (by decide))
  have hclosing : NoWorse [] [')'] := NoWorse.walls [] (forall_mem_of_all (by decide))
  have hspelled : NoWorse ([] ++ base ++ sign ++ e ++ []) (spelled base e) :=
    (((NoWorse.call.append (.refl base)).append hcomma).append (.refl e)).append hclosing
  rw [List.nil_append, List.append_nil] at hspelled
  rw [htake, htext]
  exact hspelled

theorem spellPowers_noWorse (cs : List Char) : NoWorse cs (spellPowers cs) := by
  unfold spellPowers
  generalize powerMarks cs = n
  induction n generalizing cs with
  | zero => exact .refl cs
  | succ n ih =>
    rw [spellPowersUpTo]
    split
    · exact (Rule.apply_noWorse powerRule_gentle cs).trans (ih _)
    · exact .refl cs

theorem starsRule_gentle : starsRule.Gentle := by
  refine Rule.gentle_of_walls fun before cs hit h => ?_
  unfold starsRule at h
  split at h <;> cases h
  decide

/-! ### Juxtaposition -/

theorem take_bracket {cs tail : List Char} {n : ℕ} (h : skipBlanks (cs.drop n) = '(' :: tail) :
    cs.take (n + ((cs.drop n).takeWhile isBlank).length + 1) =
      cs.take n ++ ((cs.drop n).takeWhile isBlank ++ ['(']) := by
  have hsplit : cs.drop n = (cs.drop n).takeWhile isBlank ++ ['('] ++ tail := by
    conv_lhs => rw [← List.takeWhile_append_dropWhile (p := isBlank) (l := cs.drop n)]
    rw [List.append_assoc]
    exact congrArg _ h
  rw [Nat.add_assoc, List.take_add]
  congr 1
  generalize (cs.drop n).takeWhile isBlank = gap at hsplit
  rw [hsplit]
  exact List.take_left' (by simp)

theorem noWorse_bracket {cs tail : List Char} {n : ℕ} (h : skipBlanks (cs.drop n) = '(' :: tail) :
    NoWorse (cs.take (n + ((cs.drop n).takeWhile isBlank).length + 1))
      (cs.take n ++ ['*', '(']) := by
  rw [take_bracket h]
  exact (NoWorse.refl _).append (NoWorse.walls _ (forall_mem_of_all (by decide)))

theorem bracketRule_gentle {blocked called : List Char → Bool} {length? : List Char → Option Nat} :
    (bracketRule blocked length? called).Gentle := by
  intro before cs hit h
  obtain ⟨n, -, hopen, hextra, htext⟩ := bracketRule_found h
  obtain ⟨tail, htail⟩ := List.head?_eq_some_iff.mp hopen
  rw [hextra]
  rcases htext with htext | htext
  · rw [htext]
    exact .refl _
  · rw [htext]
    exact noWorse_bracket htail

theorem nameBracketRule_gentle : nameBracketRule.Gentle := by
  rw [nameBracketRule_eq_bracketRule]
  exact bracketRule_gentle

theorem numberBracketRule_gentle : numberBracketRule.Gentle := by
  rw [numberBracketRule_eq_bracketRule]
  exact bracketRule_gentle

theorem bracketTermRule_gentle : bracketTermRule.Gentle := by
  have hstar : [')', '*'].all isWall = true := by decide
  refine Rule.gentle_of_walls fun before cs hit h => ?_
  unfold bracketTermRule at h
  split at h
  · dsimp only at h
    split at h
    · split at h <;> cases h
      exact ⟨by simp, hstar⟩
    · cases h
  · cases h

/-! ### Constants -/

theorem piRule_gentle : piRule.Gentle := by
  intro before cs hit h
  rcases cs with _ | ⟨a, _ | ⟨b, rest⟩⟩
  · cases h
  · cases h
  · rw [piRule_cons] at h
    split at h <;> cases h
    rename_i hletters
    simp only [Bool.and_eq_true] at hletters
    obtain ⟨⟨⟨ha, hb⟩, -⟩, -⟩ := hletters
    exact (NoWorse.letter (by decide) ha).append (NoWorse.letter (by decide) hb)

theorem eulerRule_gentle : eulerRule.Gentle := by
  intro before cs hit h
  rcases cs with _ | ⟨a, rest⟩
  · cases h
  · rw [eulerRule_cons] at h
    split at h <;> cases h
    rename_i hletter
    simp only [Bool.and_eq_true] at hletter
    exact NoWorse.letter (by decide) hletter.1.1

/-! ### Spacing -/

theorem spacingRule_gentle : spacingRule.Gentle := by
  have hall : ∀ c ∈ ['+', '-', '*', '/'], [' ', c, ' '].all isWall = true :=
    forall_mem_of_all (by decide)
  refine Rule.gentle_of_walls fun before cs hit h => ?_
  unfold spacingRule at h
  split at h
  · rename_i c rest
    obtain ⟨hspaced, hhit⟩ := Option.ite_none_right_eq_some.mp h
    cases hhit
    have hc : c ∈ ['+', '-', '*', '/'] := by
      have hspaced := (Bool.and_eq_true_iff.mp hspaced).1
      simpa only [isSpaced, Bool.or_eq_true, beq_iff_eq, List.mem_cons, List.not_mem_nil, or_false,
        or_assoc] using hspaced
    exact ⟨by simp, hall c hc⟩
  · cases h

theorem powerSignRule_gentle : powerSignRule.Gentle := by
  have hsign : " ** ".toList.all isWall = true := by decide
  refine Rule.gentle_of_walls fun before cs hit h => ?_
  unfold powerSignRule at h
  dsimp only at h
  split at h <;> cases h
  exact ⟨by simp, hsign⟩

theorem blanksRule_gentle : blanksRule.Gentle := by
  have hspace : [' '].all isWall = true := by decide
  refine Rule.gentle_of_walls fun before cs hit h => ?_
  unfold blanksRule at h
  split at h
  · split at h <;> cases h
    exact ⟨by simp, hspace⟩
  · cases h

/-! ## Whole texts -/

theorem checkSafety_eq_ok {cs : List Char} : checkSafety cs = .ok () ↔ Harmless cs := by
  constructor
  · intro h f hf
    rw [Bool.eq_false_iff]
    intro hoccurs
    have hsome : (refusedIn? cs).isSome = true := by
      rw [refusedIn?, Option.isSome_map, List.find?_isSome]
      exact ⟨f, hf, hoccurs⟩
    unfold checkSafety at h
    split at h
    · cases h
    · rename_i hnone
      rw [hnone] at hsome
      cases hsome
  · intro h
    unfold checkSafety
    rw [refusedIn?_eq_none h]

theorem trim_infix (cs : List Char) : trim cs <:+: cs := by
  have hend : trim cs <+: cs.dropWhile isBlank := by
    rw [← List.reverse_suffix, trim, List.reverse_reverse]
    exact List.dropWhile_suffix _
  exact hend.isInfix.trans (List.dropWhile_suffix _).isInfix

theorem Harmless.trim {cs : List Char} (h : Harmless cs) : Harmless (trim cs) := by
  obtain ⟨xs, ys, hcs⟩ := trim_infix cs
  intro f hf
  rw [Bool.eq_false_iff]
  intro hoccurs
  have hwhole := Fragment.occurs_append_right (Fragment.occurs_append_left hoccurs xs) ys
  rw [hcs, h f hf] at hwhole
  cases hwhole

theorem finish_harmless {cs : List Char} (h : Harmless cs) : Harmless (finish cs) := by
  unfold finish
  have hnames := Rule.apply_noWorse nameBracketRule_gentle cs
  have hnumbers := hnames.trans (Rule.apply_noWorse numberBracketRule_gentle _)
  have hbrackets := hnumbers.trans (Rule.apply_noWorse bracketTermRule_gentle _)
  have hpi := hbrackets.trans (Rule.apply_noWorse piRule_gentle _)
  have heuler := hpi.trans (Rule.apply_noWorse eulerRule_gentle _)
  have hspaced := heuler.trans (Rule.apply_noWorse spacingRule_gentle _)
  have hsigns := hspaced.trans (Rule.apply_noWorse powerSignRule_gentle _)
  have hblanks := hsigns.trans (Rule.apply_noWorse blanksRule_gentle _)
  exact (hblanks.harmless h).trim

/-- **The normal text of a safe text is safe.**  Whatever the text, if it passes the safety check
    and has a normal text, then no refused fragment occurs in the normal text either. -/
theorem normalize_safe {cs n : List Char} (hsafe : checkSafety cs = .ok ())
    (hnormal : normalize cs = .ok n) : checkSafety n = .ok () := by
  unfold normalize at hnormal
  obtain ⟨-, -, hfinish⟩ := bind_eq_ok.mp hnormal
  rw [← pure_eq_ok.mp hfinish, checkSafety_eq_ok]
  refine finish_harmless ?_
  have hpowers := spellPowers_noWorse (trim cs)
  have hstars := hpowers.trans (Rule.apply_noWorse starsRule_gentle _)
  exact hstars.harmless (checkSafety_eq_ok.mp hsafe).trim

theorem normalize_safe_apart :
    checkSafety "i f ^ 2 (.5)".toList = .ok () ∧
      normalize "i f ^ 2 (.5)".toList = .ok "i pow(f, 2) * (.5)".toList ∧
      checkSafety "i pow(f, 2) * (.5)".toList = .ok () := by
  have hsafe : checkSafety "i f ^ 2 (.5)".toList = .ok () := by decide +kernel
  have hnormal : normalize "i f ^ 2 (.5)".toList = .ok "i pow(f, 2) * (.5)".toList := by
    decide +kernel
  exact ⟨hsafe, hnormal, normalize_safe hsafe hnormal⟩

end InitialValue.Formula
