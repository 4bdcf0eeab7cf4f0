/-
  Constants and the blanks around operators.

  Two rules write the constants with small letters, wherever they stand as words of their own; the
  next one sets blanks around operators, except in exponents of numbers.  All of them replace one
  lexeme with another.
-/
import InitialValue.Proofs.Formula.Seams

namespace InitialValue.Formula

open InitialValue.Text

/-! ## Letters -/

theorem toLower_cases {c l : Char} (h : c.toLower = l) : c = l ∨ isPlainStart c = true := by
  unfold Char.toLower at h
  split at h
  · rename_i hupper
    have halpha : c.isAlpha = true := by
      unfold Char.isAlpha Char.isUpper
      simp only [ge_iff_le, Bool.or_eq_true, decide_eq_true_eq]
      exact Or.inl hupper
    exact Or.inr (by simp [isPlainStart, halpha])
  · exact Or.inl h

theorem sameLetter_start {l c : Char} (hl : l = 'p' ∨ l = 'e') (h : sameLetter l c = true) :
    isPlainStart c = true := by
  have hlower : c.toLower = l := by
    rcases hl with rfl | rfl <;> simpa [sameLetter] using h
  rcases toLower_cases hlower with rfl | hstart
  · rcases hl with rfl | rfl <;> decide
  · exact hstart

/-- What counts as a letter is the letter itself or a word character. -/
theorem sameLetter_cases {l c : Char} (h : sameLetter l c = true) : c = l ∨ isWord c = true := by
  have hchar : ∀ n, c.toNat = n → c = Char.ofNat n := by
    rintro n rfl
    exact (Char.ofNat_toNat c).symm
  unfold sameLetter at h
  simp only [Bool.or_eq_true, Bool.and_eq_true, beq_iff_eq] at h
  rcases h with (h | ⟨-, h | h⟩) | ⟨-, h⟩
  · exact (toLower_cases h).imp_right fun hstart =>
      isWord_of_isPlainWord (isPlainWord_of_isPlainStart hstart)
  · rw [hchar _ h]
    exact Or.inr (by decide)
  · rw [hchar _ h]
    exact Or.inr (by decide)
  · rw [hchar _ h]
    exact Or.inr (by decide)

/-- What counts as an `i` is a word character. -/
theorem sameLetter_word {c : Char} (h : sameLetter 'i' c = true) : isWord c = true := by
  rcases sameLetter_cases h with rfl | hword
  · decide
  · exact hword

/-! ## Constants -/

theorem piRule_cons (before : List Char) (a b : Char) (rest : List Char) :
    piRule before (a :: b :: rest) =
      if sameLetter 'p' a && sameLetter 'i' b && !endsWord before.head? && !endsWord rest.head? then
        some ⟨1, ['p', 'i']⟩
      else none := rfl

theorem eulerRule_cons (before : List Char) (a : Char) (rest : List Char) :
    eulerRule before (a :: rest) =
      if sameLetter 'e' a && !endsWord before.head? && !endsWord rest.head? then some ⟨0, ['e']⟩
      else none := rfl

theorem piRule_behind {before : List Char} (h : endsWord before.head? = true) (cs : List Char) :
    piRule before cs = none := by
  rcases cs with _ | ⟨a, _ | ⟨b, rest⟩⟩
  · rfl
  · rfl
  · rw [piRule_cons, h]
    simp

theorem piRule_ignores {c : Char} (h : isPlainStart c = false) : piRule.Ignores c := by
  intro before rest
  have hc : sameLetter 'p' c = false := by
    rw [Bool.eq_false_iff]
    intro hp
    rw [sameLetter_start (Or.inl rfl) hp] at h
    cases h
  rcases rest with _ | ⟨b, rest⟩
  · rfl
  · rw [piRule_cons, hc]
    simp

theorem eulerRule_behind {before : List Char} (h : endsWord before.head? = true) (cs : List Char) :
    eulerRule before cs = none := by
  rcases cs with _ | ⟨a, rest⟩
  · rfl
  · rw [eulerRule_cons, h]
    simp

theorem eulerRule_ignores {c : Char} (h : isPlainStart c = false) : eulerRule.Ignores c := by
  intro before rest
  have hc : sameLetter 'e' c = false := by
    rw [Bool.eq_false_iff]
    intro he
    rw [sameLetter_start (Or.inr rfl) he] at h
    cases h
  rw [eulerRule_cons, hc]
  simp

/-- Over a word, the rule for `pi` writes the constant if it is the word. -/
theorem piRule_word {w before rest : List Char} (hne : w ≠ []) (hw : ∀ c ∈ w, isWord c = true)
    (hbefore : endsWord before.head? = false) (hrest : StopsAt isWord rest) :
    piRule.pass 0 before (w ++ rest) =
      (if isPi w then ['p', 'i'] else w) ++ piRule.pass 0 (w.reverse ++ before) rest := by
  have hafter := endsWord_of_stops hrest
  split
  · rename_i hpi
    unfold isPi at hpi
    split at hpi
    · rename_i a b
      refine @Rule.pass_hit _ _ a [b] _ _ ?_
      rw [List.cons_append, List.nil_append, piRule_cons, hpi, hbefore, hafter]
      rfl
    · cases hpi
  · rename_i hpi
    refine pass_word_behind (fun _ cs h => piRule_behind h cs) hw ?_
    -- too short, just as long with other letters, or longer
    rcases w with _ | ⟨a, _ | ⟨b, _ | ⟨c, w⟩⟩⟩
    · exact absurd rfl hne
    · rcases rest with _ | ⟨b, rest⟩
      · rfl
      · have hb : sameLetter 'i' b = false := by
          rw [Bool.eq_false_iff]
          intro hi
          have hword := sameLetter_word hi
          rw [hrest b rfl] at hword
          cases hword
        rw [List.cons_append, List.nil_append, piRule_cons, hb]
        simp
    · have hab : (sameLetter 'p' a && sameLetter 'i' b) = false := Bool.eq_false_iff.mpr hpi
      rw [List.cons_append, List.cons_append, piRule_cons, hab]
      simp
    · have hc : isWord c = true := hw _ (by simp)
      rw [List.cons_append, List.cons_append, List.cons_append, piRule_cons, List.head?_cons,
        endsWord_some, hc]
      simp

/-- Over a word, the rule for `e` writes the constant if it is the word. -/
theorem eulerRule_word {w before rest : List Char} (hne : w ≠ []) (hw : ∀ c ∈ w, isWord c = true)
    (hbefore : endsWord before.head? = false) (hrest : StopsAt isWord rest) :
    eulerRule.pass 0 before (w ++ rest) =
      (if isEuler w then ['e'] else w) ++ eulerRule.pass 0 (w.reverse ++ before) rest := by
  have hafter := endsWord_of_stops hrest
  split
  · rename_i he
    unfold isEuler at he
    split at he
    · rename_i a
      refine @Rule.pass_hit _ _ a [] _ _ ?_
      rw [List.nil_append, eulerRule_cons, he, hbefore, hafter]
      rfl
    · cases he
  · rename_i he
    refine pass_word_behind (fun _ cs h => eulerRule_behind h cs) hw ?_
    rcases w with _ | ⟨a, _ | ⟨b, w⟩⟩
    · exact absurd rfl hne
    · have ha : sameLetter 'e' a = false := Bool.eq_false_iff.mpr he
      rw [List.cons_append, List.nil_append, eulerRule_cons, ha]
      simp
    · have hb : isWord b = true := hw _ (by simp)
      rw [List.cons_append, List.cons_append, eulerRule_cons, List.head?_cons, endsWord_some, hb]
      simp

/-- No function is called like a constant. -/
theorem functionNames_constant :
    (functionNames.all fun f => !isPi f.toList && !isEuler f.toList) = true := by
  decide

theorem FunctionName.not_constant (f : FunctionName) :
    isPi f.val.toList = false ∧ isEuler f.val.toList = false := by
  have h := List.all_eq_true.mp functionNames_constant f.val (List.contains_iff_mem.mp f.property)
  simpa using h

namespace Lexeme

/-- The lexeme with `pi` in small letters. -/
def settlePi : Lexeme → Lexeme
  | name w => name w.settlePi
  | l => l

/-- The lexeme with `e` as a small letter. -/
def settleEuler : Lexeme → Lexeme
  | name w => name w.settleEuler
  | l => l

/-- A lexeme is a number or word, or no name starts in it. -/
theorem not_start {l : Lexeme} (hl : (∀ n, l ≠ number n) ∧ (∀ w, l ≠ name w) ∧ ∀ f, l ≠ call f)
    {c : Char} (hc : c ∈ l.text) : isPlainStart c = false := by
  have hmark : ∀ c ∈ ['(', ')', ',', '+', '-', '*', '/', '^'], isPlainStart c = false :=
    forall_mem_of_all (by decide)
  refine hmark c ?_
  cases l with
  | number n => exact absurd rfl (hl.1 n)
  | name w => exact absurd rfl (hl.2.1 w)
  | call f => exact absurd rfl (hl.2.2 f)
  | joint s => cases hc
  | arith op =>
    rw [List.mem_singleton.mp hc]
    cases op <;> decide
  | power doubled =>
    rcases Phrase.mem_powerSign hc with ⟨rfl, -⟩ | ⟨rfl, -⟩ <;> decide
  | _ =>
    rw [List.mem_singleton.mp hc]
    decide

end Lexeme

theorem piRule_replaces (l : Lexeme) : Replaces piRule l l.settlePi := by
  cases l with
  | number n =>
    exact Leaves.replaces fun before rest _ => pass_number_behind (fun _ cs h => piRule_behind h cs)
      (fun c hc => piRule_ignores hc) n before rest
  | name w =>
    intro before rest hroom
    refine ⟨[], [], by simp, by simp, ?_⟩
    show piRule.pass 0 before (w.text ++ rest) = w.settlePi.text ++ _
    rw [piRule_word (ne_of_isPlainText w.plain) (word_of_isPlainText w.plain)
      (not_endsWord (hroom.left rfl)) (stopsAt_isWord (hroom.right rfl))]
    unfold Name.settlePi
    split <;> rfl
  | call f =>
    refine Leaves.replaces fun before rest hroom => ?_
    have hstop : StopsAt isWord ('(' :: rest) := stopsAt_cons (by decide)
    rw [Lexeme.text, List.append_assoc, List.singleton_append,
      piRule_word (ne_of_isPlainText f.plain) (word_of_isPlainText f.plain)
        (not_endsWord (hroom.left rfl)) hstop,
      (FunctionName.not_constant f).1, Rule.pass_none (piRule_ignores (by decide) _ _)]
    simp
  | _ => exact (leaves_ignored fun c hc => piRule_ignores (Lexeme.not_start (by simp) hc)).replaces

theorem eulerRule_replaces (l : Lexeme) : Replaces eulerRule l l.settleEuler := by
  cases l with
  | number n =>
    exact Leaves.replaces fun before rest _ => pass_number_behind
      (fun _ cs h => eulerRule_behind h cs) (fun c hc => eulerRule_ignores hc) n before rest
  | name w =>
    intro before rest hroom
    refine ⟨[], [], by simp, by simp, ?_⟩
    show eulerRule.pass 0 before (w.text ++ rest) = w.settleEuler.text ++ _
    rw [eulerRule_word (ne_of_isPlainText w.plain) (word_of_isPlainText w.plain)
      (not_endsWord (hroom.left rfl)) (stopsAt_isWord (hroom.right rfl))]
    unfold Name.settleEuler
    split <;> rfl
  | call f =>
    refine Leaves.replaces fun before rest hroom => ?_
    have hstop : StopsAt isWord ('(' :: rest) := stopsAt_cons (by decide)
    rw [Lexeme.text, List.append_assoc, List.singleton_append,
      eulerRule_word (ne_of_isPlainText f.plain) (word_of_isPlainText f.plain)
        (not_endsWord (hroom.left rfl)) hstop,
      (FunctionName.not_constant f).2, Rule.pass_none (eulerRule_ignores (by decide) _ _)]
    simp
  | _ =>
    exact (leaves_ignored fun c hc => eulerRule_ignores (Lexeme.not_start (by simp) hc)).replaces

end InitialValue.Formula
