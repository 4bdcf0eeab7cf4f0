/-
  Spelling powers comes to an end.

  Powers are spelled as calls pass after pass, until a pass finds none.  Spelling makes a text longer
  and writes operands again that may have powers inside, so neither the length nor the powers found
  tell how long this goes on.  What does is the power signs: a hit strikes out one of them and
  writes none.

  1. **One replacement** — `Respelled k` strikes out `k` power signs, one after the other, and writes
     the marks of a call around what stood on either side.  A pass does that once for every hit
     (`apply_respelled`), blanks left aside.
  2. **The loop** — `Spelling` is the loop as it stands, without a bound on the number of passes.  It
     ends for every text, with the text that `spellPowers` makes within its bound (`spelling_ends`).
-/
import InitialValue.Proofs.Formula.PowerRule

namespace InitialValue.Formula

open InitialValue.Text

/-! ## Hits of a pass -/

namespace Rule

variable {r : Rule}

/-- **Where a rule is found nowhere**, it applies at no place. -/
theorem findFrom?_eq_none_iff {before cs : List Char} : r.findFrom? before cs = none ↔
    ∀ pre c post, cs = pre ++ c :: post → r (pre.reverse ++ before) (c :: post) = none := by
  constructor
  · intro h pre c post hcs
    induction pre generalizing before cs with
    | nil =>
      subst hcs
      rw [List.nil_append, findFrom?] at h
      split at h
      · cases h
      · assumption
    | cons x pre ih =>
      subst hcs
      rw [List.cons_append, findFrom?] at h
      split at h
      · cases h
      · rw [List.reverse_cons, List.append_assoc]
        exact ih h rfl
  · intro h
    have hall : r.findFrom? before (cs ++ []) = r.findFrom? (cs.reverse ++ before) [] := by
      refine findFrom?_append fun pre c post hcs => ?_
      rw [List.append_nil]
      exact h pre c post hcs
    rwa [List.append_nil] at hall

theorem hitsFrom_eq_zero_iff {before cs : List Char} :
    r.hitsFrom 0 before cs = 0 ↔ r.findFrom? before cs = none := by
  induction cs generalizing before with
  | nil => exact iff_of_true rfl rfl
  | cons c cs ih =>
    rw [hitsFrom, findFrom?]
    cases r before (c :: cs) with
    | none => exact ih
    | some hit => exact iff_of_false (Nat.succ_ne_zero _) (Option.some_ne_none (hit, c :: cs))

/-- A pass without hits is one of a rule that is found nowhere. -/
theorem hits_eq_zero_iff {cs : List Char} : r.hits cs = 0 ↔ r.find? cs = none :=
  hitsFrom_eq_zero_iff

/-- A pass without hits leaves the text as it is. -/
theorem apply_of_hits {cs : List Char} (h : r.hits cs = 0) : r.apply cs = cs := by
  refine hits_induction (r := r) (R := fun k cs out => k = 0 → out = cs) (fun _ => rfl)
    (fun c k cs out ih hk => ?_) (fun before cs hit k out hhit ih hk => ?_) 0 [] cs h
  · rw [ih hk]
  · exact absurd hk (Nat.succ_ne_zero k)

end Rule

/-! ## One replacement -/

/-- A text without its blanks. -/
def unspaced (cs : List Char) : List Char := cs.filter fun c => !isBlank c

theorem unspaced_append (xs ys : List Char) : unspaced (xs ++ ys) = unspaced xs ++ unspaced ys :=
  List.filter_append xs ys

theorem unspaced_gap (g : Gap) : unspaced g.text = [] :=
  List.filter_eq_nil_iff.mpr fun c hc => by rw [g.blank c hc]; exact Bool.false_ne_true

theorem unspaced_sign (doubled : Bool) : unspaced (powerSign doubled) = powerSign doubled := by
  cases doubled <;> decide

/-- Marks are no blanks. -/
theorem count_unspaced {c : Char} (hc : isBlank c = false) (cs : List Char) :
    (unspaced cs).count c = cs.count c :=
  List.count_filter (by rw [hc]; rfl)

theorem powerMarks_unspaced (cs : List Char) : powerMarks (unspaced cs) = powerMarks cs := by
  have hmark : ∀ c, (c == '^' || c == '*') = true → isBlank c = false := by
    intro c hc
    simp only [Bool.or_eq_true, beq_iff_eq] at hc
    rcases hc with rfl | rfl <;> exact isBlank_mark (by decide)
  rw [powerMarks, unspaced, List.countP_filter]
  refine List.countP_congr fun c _ => ?_
  rw [Bool.and_eq_true]
  exact ⟨fun h => h.1, fun h => ⟨h, by rw [hmark c h]; rfl⟩⟩

/-- A call of `pow` without blanks. -/
def powCall (base e : List Char) : List Char := "pow(".toList ++ (base ++ (',' :: (e ++ [')'])))

theorem unspaced_spelled (base e : List Char) :
    unspaced (spelled base e) = powCall (unspaced base) (unspaced e) := by
  have hcall : unspaced "pow(".toList = "pow(".toList := by decide
  have hcomma : unspaced [',', ' '] = [','] := by decide
  have hclosing : unspaced [')'] = [')'] := by decide
  rw [spelled_eq]
  simp only [unspaced_append, hcall, hcomma, hclosing]
  rfl

/-- `Respelled k xs ys` — as often as counted, a power sign in a text is struck out, and what stood on
    either side of it becomes a call. -/
inductive Respelled : Nat → List Char → List Char → Prop
  | refl (xs : List Char) : Respelled 0 xs xs
  | strike {k : Nat} {ys : List Char} (a base : List Char) (doubled : Bool) (e b : List Char) :
      Respelled k (a ++ (powCall base e ++ b)) ys →
        Respelled (k + 1) (a ++ (base ++ (powerSign doubled ++ (e ++ b)))) ys

namespace Respelled

variable {j k : Nat} {xs ys zs : List Char}

theorem trans (h : Respelled j xs ys) (h' : Respelled k ys zs) : Respelled (j + k) xs zs := by
  induction h with
  | refl => rwa [Nat.zero_add]
  | strike a base doubled e b _ ih =>
    rw [Nat.add_right_comm]
    exact .strike a base doubled e b (ih h')

theorem front (h : Respelled k xs ys) (a : List Char) : Respelled k (a ++ xs) (a ++ ys) := by
  induction h with
  | refl => exact .refl _
  | strike a' base doubled e b _ ih =>
    rw [← List.append_assoc] at ih ⊢
    exact .strike (a ++ a') base doubled e b ih

theorem back (h : Respelled k xs ys) (b : List Char) : Respelled k (xs ++ b) (ys ++ b) := by
  induction h with
  | refl => exact .refl _
  | strike a base doubled e b' _ ih =>
    simp only [List.append_assoc] at ih ⊢
    exact .strike a base doubled e (b' ++ b) ih

theorem append (h : Respelled j xs ys) {us vs : List Char} (h' : Respelled k us vs) :
    Respelled (j + k) (xs ++ us) (ys ++ vs) := (h.back us).trans (h'.front ys)

/-- **Power signs are used up.** -/
theorem marks (h : Respelled k xs ys) : powerMarks ys + k ≤ powerMarks xs := by
  induction h with
  | refl => exact Nat.le_refl _
  | strike a base doubled e b _ ih =>
    have hcall : powerMarks (powCall base e) = powerMarks base + powerMarks e := by
      simp [powerMarks, powCall]
    have hsign : 1 ≤ powerMarks (powerSign doubled) := by cases doubled <;> decide
    unfold powerMarks at ih hcall hsign ⊢
    simp only [List.countP_append] at ih ⊢
    omega

/-- Every replacement writes a comma. -/
theorem commas (h : Respelled k xs ys) : ys.count ',' = xs.count ',' + k := by
  induction h with
  | refl => rfl
  | strike a base doubled e b _ ih =>
    have hcall : (powCall base e).count ',' = base.count ',' + e.count ',' + 1 := by
      simp [powCall, Nat.add_assoc]
    have hsign : (powerSign doubled).count ',' = 0 := by cases doubled <;> decide
    simp only [List.count_append] at ih ⊢
    omega

end Respelled

/-- **A hit of the power rule is one replacement.** -/
theorem respelled_hit {before cs : List Char} {hit : Hit} (h : powerRule before cs = some hit) :
    Respelled 1 (unspaced (cs.take (hit.extra + 1))) (unspaced hit.text) := by
  obtain ⟨base, e, g, g', doubled, htake, htext⟩ := powerRule_call h
  have hold : unspaced (cs.take (hit.extra + 1)) =
      unspaced base ++ (powerSign doubled ++ unspaced e) := by
    rw [htake]
    simp only [unspaced_append, unspaced_gap, unspaced_sign, List.nil_append]
  have hnew : Respelled 1 ([] ++ (unspaced base ++ (powerSign doubled ++ (unspaced e ++ []))))
      ([] ++ (powCall (unspaced base) (unspaced e) ++ [])) := .strike [] _ doubled _ [] (.refl _)
  simp only [List.nil_append, List.append_nil] at hnew
  rw [hold, htext, unspaced_spelled]
  exact hnew

/-- **A pass makes one replacement for every hit.** -/
theorem apply_respelled (cs : List Char) :
    Respelled (powerRule.hits cs) (unspaced cs) (unspaced (powerRule.apply cs)) := by
  refine Rule.hits_induction (R := fun k cs out => Respelled k (unspaced cs) (unspaced out))
    (.refl _) (fun c k cs out ih => ?_) (fun before cs hit k out hhit ih => ?_) 0 [] cs
  · have hcons := ih.front (unspaced [c])
    rw [← unspaced_append, ← unspaced_append] at hcons
    exact hcons
  · have happend := (respelled_hit hhit).append ih
    rw [← unspaced_append, ← unspaced_append, List.take_append_drop, Nat.add_comm] at happend
    exact happend

/-- A pass takes a power sign for every hit. -/
theorem powerMarks_apply (cs : List Char) :
    powerMarks (powerRule.apply cs) + powerRule.hits cs ≤ powerMarks cs := by
  have hmarks := (apply_respelled cs).marks
  rwa [powerMarks_unspaced, powerMarks_unspaced] at hmarks

/-! ## The loop -/

/-- `Spelling cs n k out` — passes over a text until one has no hits: how many passes have hits, how
    many hits they have together, and the text that comes out. -/
inductive Spelling : List Char → Nat → Nat → List Char → Prop
  | stop {cs : List Char} (h : powerRule.hits cs = 0) : Spelling cs 0 0 (powerRule.apply cs)
  | turn {cs out : List Char} {n k : Nat} (h : powerRule.hits cs ≠ 0)
      (hrest : Spelling (powerRule.apply cs) n k out) :
      Spelling cs (n + 1) (powerRule.hits cs + k) out

namespace Spelling

variable {cs out out' : List Char} {n n' k k' : Nat}

/-- The loop ends in one way. -/
theorem unique (h : Spelling cs n k out) (h' : Spelling cs n' k' out') :
    n' = n ∧ k' = k ∧ out' = out := by
  induction h generalizing n' k' with
  | stop hnone =>
    cases h' with
    | stop => exact ⟨rfl, rfl, rfl⟩
    | turn hfound => exact absurd hnone hfound
  | turn hfound _ ih =>
    cases h' with
    | stop hnone => exact absurd hnone hfound
    | turn _ hrest =>
      obtain ⟨rfl, rfl, rfl⟩ := ih hrest
      exact ⟨rfl, rfl, rfl⟩

/-- Where the loop ends, the rule applies nowhere. -/
theorem hits_eq_zero (h : Spelling cs n k out) : powerRule.hits out = 0 := by
  induction h with
  | stop hnone => rwa [Rule.apply_of_hits hnone]
  | turn _ _ ih => exact ih

/-- **The loop replaces as often as its passes have hits.** -/
theorem respelled (h : Spelling cs n k out) : Respelled k (unspaced cs) (unspaced out) := by
  induction h with
  | stop hnone =>
    rw [Rule.apply_of_hits hnone]
    exact .refl _
  | turn _ _ ih => exact (apply_respelled _).trans ih

/-- Every pass but the last has a hit. -/
theorem passes_le (h : Spelling cs n k out) : n ≤ k := by
  induction h with
  | stop => exact Nat.le_refl 0
  | turn hfound _ ih => omega

/-- Where the rule is found somewhere, there is something to replace. -/
theorem pos (h : Spelling cs n k out) (hfound : powerRule.find? cs ≠ none) : 0 < k := by
  rw [ne_eq, ← Rule.hits_eq_zero_iff] at hfound
  cases h with
  | stop hnone => exact absurd hnone hfound
  | turn _ _ => omega

/-- **There are no more passes than power signs.** -/
theorem le_powerMarks (h : Spelling cs n k out) : n ≤ powerMarks cs := by
  have hmarks := h.respelled.marks
  rw [powerMarks_unspaced, powerMarks_unspaced] at hmarks
  exact Nat.le_trans h.passes_le (Nat.le_trans (Nat.le_add_left _ _) hmarks)

end Spelling

/-- **The loop ends**, and a bound of as many passes as there are power signs is never felt. -/
theorem spelling_upTo {n : Nat} {cs : List Char} (h : powerMarks cs ≤ n) :
    ∃ m k, Spelling cs m k (spellPowersUpTo n cs) := by
  induction n generalizing cs with
  | zero =>
    have hmarks := powerMarks_apply cs
    have hnone : powerRule.hits cs = 0 := by omega
    refine ⟨0, 0, ?_⟩
    have hstop := Spelling.stop hnone
    rwa [Rule.apply_of_hits hnone] at hstop
  | succ n ih =>
    rw [spellPowersUpTo]
    split
    · rename_i hfound
      have hhits : powerRule.hits cs ≠ 0 := by
        rw [ne_eq, Rule.hits_eq_zero_iff]
        exact Option.isSome_iff_ne_none.mp hfound
      have hmarks := powerMarks_apply cs
      obtain ⟨m, k, hrest⟩ := ih (show powerMarks (powerRule.apply cs) ≤ n by omega)
      exact ⟨m + 1, _, .turn hhits hrest⟩
    · rename_i hnone
      rw [Option.not_isSome_iff_eq_none, ← Rule.hits_eq_zero_iff] at hnone
      refine ⟨0, 0, ?_⟩
      have hstop := Spelling.stop hnone
      rwa [Rule.apply_of_hits hnone] at hstop

/-- **Spelling powers ends** for every text, after no more passes with hits than the text has power
    marks.  Then the rule applies nowhere, and apart from blanks every hit has struck out one power
    sign and written the marks of one call. -/
theorem spelling_ends (cs : List Char) :
    ∃ n k, Spelling cs n k (spellPowers cs) ∧
      (∀ n' k' out, Spelling cs n' k' out → n' = n ∧ k' = k ∧ out = spellPowers cs) ∧
      n ≤ powerMarks cs ∧
      (∀ before c rest, spellPowers cs = before ++ c :: rest →
        powerRule before.reverse (c :: rest) = none) ∧
      Respelled k (unspaced cs) (unspaced (spellPowers cs)) := by
  obtain ⟨n, k, hspelling⟩ := spelling_upTo (Nat.le_refl (powerMarks cs))
  refine ⟨n, k, hspelling, fun n' k' out h' => hspelling.unique h', hspelling.le_powerMarks, ?_,
    hspelling.respelled⟩
  intro before c rest hsplit
  have hnone := Rule.findFrom?_eq_none_iff.mp (Rule.hits_eq_zero_iff.mp hspelling.hits_eq_zero)
  have hplace := hnone before c rest hsplit
  rwa [List.append_nil] at hplace

/-- Two passes: the exponent first, and then the power that has it for its exponent. -/
example : Spelling "t^y ** 2".toList 2 2 "pow(t, pow(y, 2))".toList :=
  .turn (by decide +kernel) (.turn (by decide +kernel) (.stop (by decide +kernel)))

end InitialValue.Formula
