/-
  What the text of a phrase looks like at its ends, and where its brackets are.

  The passes over formula text look at the characters next to a place.  Where a phrase stands next
  to another, these are its first and its last one: `head` and `last` tell what they can be, from
  what the phrase starts and ends with.  Inside a bracket group the passes look for further
  brackets; the first one in a phrase is an opening one (`first_bracket`).
-/
import InitialValue.Proofs.Formula.Phrase

namespace InitialValue.Formula

open InitialValue.Text

/-! ## Names and blanks -/

theorem head_of_isPlainText {w : List Char} (h : isPlainText w = true) :
    ∃ c tail, w = c :: tail ∧ isPlainStart c = true ∧ ∀ x ∈ tail, isPlainWord x = true := by
  unfold isPlainText at h
  split at h
  · rw [Bool.and_eq_true, List.all_eq_true] at h
    exact ⟨_, _, rfl, h⟩
  · cases h

theorem mem_of_isPlainText {w : List Char} (h : isPlainText w = true) {c : Char} (hc : c ∈ w) :
    isPlainWord c = true := by
  obtain ⟨x, tail, rfl, hx, htail⟩ := head_of_isPlainText h
  rcases List.mem_cons.mp hc with rfl | hc
  · exact isPlainWord_of_isPlainStart hx
  · exact htail c hc

theorem ne_of_isPlainText {w : List Char} (h : isPlainText w = true) : w ≠ [] := by
  rintro rfl
  cases h

theorem word_of_isPlainText {w : List Char} (h : isPlainText w = true) :
    ∀ c ∈ w, isWord c = true := fun _ hc => isWord_of_isPlainWord (mem_of_isPlainText h hc)

theorem last_of_isPlainText {w : List Char} (h : isPlainText w = true) :
    ∃ front c, w = front ++ [c] ∧ isPlainWord c = true := by
  have hne := ne_of_isPlainText h
  exact ⟨_, _, (List.dropLast_concat_getLast hne).symm, mem_of_isPlainText h (List.getLast_mem hne)⟩

theorem Name.head (w : Name) : ∃ c tail, w.text = c :: tail ∧ isPlainStart c = true ∧
    ∀ x ∈ tail, isPlainWord x = true := head_of_isPlainText w.plain

theorem Name.mem (w : Name) {c : Char} (hc : c ∈ w.text) : isPlainWord c = true :=
  mem_of_isPlainText w.plain hc

theorem Name.last (w : Name) : ∃ front c, w.text = front ++ [c] ∧ isPlainWord c = true :=
  last_of_isPlainText w.plain

theorem functionNames_plain : (functionNames.all fun f => isPlainText f.toList) = true := by
  decide

namespace FunctionName

theorem plain (f : FunctionName) : isPlainText f.val.toList = true :=
  List.all_eq_true.mp functionNames_plain f.val (List.contains_iff_mem.mp f.property)

theorem head (f : FunctionName) : ∃ c tail, f.val.toList = c :: tail ∧ isPlainStart c = true ∧
    ∀ x ∈ tail, isPlainWord x = true := head_of_isPlainText (plain f)

theorem mem (f : FunctionName) {c : Char} (hc : c ∈ f.val.toList) : isPlainWord c = true :=
  mem_of_isPlainText (plain f) hc

theorem last (f : FunctionName) : ∃ front c, f.val.toList = front ++ [c] ∧ isPlainWord c = true :=
  last_of_isPlainText (plain f)

end FunctionName

/-- A character that no blank is. -/
theorem Gap.ne (g : Gap) {c d : Char} (hc : c ∈ g.text) (hd : isBlank d = false) : c ≠ d := by
  rintro rfl
  rw [g.blank c hc] at hd
  cases hd

/-- A character that is no plain word character. -/
theorem ne_of_plain {c d : Char} (hc : isPlainWord c = true) (hd : isPlainWord d = false) :
    c ≠ d := by
  rintro rfl
  rw [hc] at hd
  cases hd

/-! ## Ends -/

namespace Phrase

/-- What a phrase can start with. -/
def IsHead (p : Phrase) (c : Char) : Prop :=
  if p.opens then c = '(' else isPlainWord c = true ∨ c = '.' ∨ p.strength ≤ 4 ∧ c = '-'

theorem IsHead.of_binary {x : Phrase} {c : Char} (h : x.IsHead c) {p : Phrase}
    (hlead : p.lead = x.lead) (hstrength : p.strength ≤ 4 ∨ p.strength ≤ x.strength) :
    p.IsHead c := by
  unfold IsHead opens at h ⊢
  rw [hlead]
  split
  · rename_i hopen
    rw [if_pos hopen] at h
    exact h
  · rename_i hopen
    rw [if_neg hopen] at h
    exact h.imp_right (Or.imp_right fun ⟨h4, hc⟩ => ⟨by omega, hc⟩)

theorem isHead_word {p : Phrase} (h : p.lead = .other) {c : Char} (hc : isPlainWord c = true) :
    p.IsHead c := by
  unfold IsHead opens
  rw [h]
  exact Or.inl hc

/-- Operands are numbers, names, calls and groups. -/
theorem atom_cases {p : Phrase} (h : p.strength = 6) :
    (∃ n, p = number n) ∨ (∃ w, p = name w) ∨ (∃ f g args g', p = call f g args g') ∨
      (∃ f g, p = bare f g) ∨ ∃ g q g', p = group g q g' := by
  cases p with
  | number n => exact Or.inl ⟨n, rfl⟩
  | name w => exact Or.inr (Or.inl ⟨w, rfl⟩)
  | call f g args g' => exact Or.inr (Or.inr (Or.inl ⟨f, g, args, g', rfl⟩))
  | bare f g => exact Or.inr (Or.inr (Or.inr (Or.inl ⟨f, g, rfl⟩)))
  | group g q g' => exact Or.inr (Or.inr (Or.inr (Or.inr ⟨g, q, g', rfl⟩)))
  | power => cases h
  | minus => cases h
  | binary op => cases op <;> cases h
  | joint => cases h
  | comma => cases h

/-- **The first character of a phrase.** -/
theorem head (p : Phrase) (hp : p.proper = true) :
    ∃ c cs, p.text = c :: cs ∧ p.IsHead c := by
  induction p with
  | number n =>
    obtain ⟨c, cs, htext, hc⟩ := n.head
    refine ⟨c, cs, htext, ?_⟩
    rcases hc with hc | hc
    · exact isHead_word rfl (isPlainWord_of_isDigit hc)
    · exact Or.inr (Or.inl hc)
  | name w =>
    obtain ⟨c, cs, htext, hc, -⟩ := w.head
    exact ⟨c, cs, htext, isHead_word rfl (isPlainWord_of_isPlainStart hc)⟩
  | call f g args g' _ =>
    obtain ⟨c, cs, htext, hc, -⟩ := FunctionName.head f
    refine ⟨c, _, by rw [text, htext]; rfl, isHead_word rfl (isPlainWord_of_isPlainStart hc)⟩
  | bare f g =>
    obtain ⟨c, cs, htext, hc, -⟩ := FunctionName.head f
    refine ⟨c, _, by rw [text, htext]; rfl, isHead_word rfl (isPlainWord_of_isPlainStart hc)⟩
  | group g p g' _ =>
    refine ⟨'(', _, rfl, ?_⟩
    unfold IsHead opens lead
    split <;> rfl
  | power b g doubled g' e ihb _ =>
    simp only [proper, Bool.and_eq_true, beq_iff_eq] at hp
    obtain ⟨c, cs, htext, hc⟩ := ihb hp.1.2
    refine ⟨c, _, by rw [text, htext]; rfl, ?_⟩
    -- a number with a signed exponent makes the start risky, but leaves its first character
    by_cases hsigned : b.isSigned = true
    · rcases atom_cases hp.1.1.1 with ⟨n, rfl⟩ | hb
      · unfold IsHead opens lead at hc ⊢
        rw [if_pos hsigned]
        exact hc.imp_right (Or.imp_right fun h => absurd h.1 (by simp [strength]))
      · rcases hb with ⟨w, rfl⟩ | ⟨f, _, _, _, rfl⟩ | ⟨f, _, rfl⟩ | ⟨_, q, _, rfl⟩ <;> cases hsigned
    · have hlead : (power b g doubled g' e).lead = b.lead := by rw [lead, if_neg hsigned]
      exact hc.of_binary hlead (Or.inr (by rw [hp.1.1.1]; exact Nat.le_succ 5))
  | minus g p _ => exact ⟨'-', _, rfl, Or.inr (Or.inr ⟨Nat.le_refl 4, rfl⟩)⟩
  | binary op x g g' y ihx _ =>
    simp only [proper, Bool.and_eq_true] at hp
    obtain ⟨c, cs, htext, hc⟩ := ihx hp.1.2
    refine ⟨c, _, by rw [text, htext]; rfl, hc.of_binary rfl (Or.inl ?_)⟩
    cases op <;> simp [strength, Arith.strength]
  | joint x y ihx _ =>
    simp only [proper, Bool.and_eq_true] at hp
    obtain ⟨c, cs, htext, hc⟩ := ihx hp.1.2
    exact ⟨c, _, by rw [text, htext]; rfl, hc.of_binary rfl (Or.inl (by simp [strength]))⟩
  | comma x g g' y ihx _ =>
    simp only [proper, Bool.and_eq_true] at hp
    obtain ⟨c, cs, htext, hc⟩ := ihx hp.1.2
    exact ⟨c, _, by rw [text, htext]; rfl, hc.of_binary rfl (Or.inl (by simp [strength]))⟩

/-- What a phrase can end with. -/
def IsLast (p : Phrase) (c : Char) : Prop :=
  if p.ending = .bracket then c = ')' else isPlainWord c = true

theorem IsLast.of_right {y : Phrase} {c : Char} (h : y.IsLast c) {p : Phrase}
    (hending : p.ending = .bracket ↔ y.ending = .bracket) : p.IsLast c := by
  unfold IsLast at h ⊢
  simp only [hending]
  exact h

/-- A number ends with a digit. -/
theorem number_ending {n : Numeral} : (number n).ending ≠ .bracket := by
  rw [ending]
  split <;> decide

theorem number_ending_free {n : Numeral} : (number n).ending ≠ .free := by
  rw [ending]
  split <;> decide

/-- **The last character of a phrase.** -/
theorem last (p : Phrase) : ∃ front c, p.text = front ++ [c] ∧ p.IsLast c := by
  induction p with
  | number n =>
    obtain ⟨front, d, htext, hd⟩ := n.last
    refine ⟨front, d, htext, ?_⟩
    unfold IsLast
    rw [if_neg number_ending]
    exact isPlainWord_of_isDigit hd
  | name w =>
    obtain ⟨front, c, htext, hc⟩ := w.last
    exact ⟨front, c, htext, hc⟩
  | call f g args g' _ =>
    exact ⟨f.val.toList ++ '(' :: (g.text ++ (args.text ++ g'.text)), ')', by simp [text], rfl⟩
  | bare f g => exact ⟨f.val.toList ++ '(' :: g.text, ')', by simp [text], rfl⟩
  | group g p g' _ => exact ⟨'(' :: (g.text ++ (p.text ++ g'.text)), ')', by simp [text], rfl⟩
  | power b g doubled g' e _ ihe =>
    obtain ⟨front, c, htext, hc⟩ := ihe
    refine ⟨b.text ++ (g.text ++ (powerSign doubled ++ (g'.text ++ front))), c,
      by simp [text, htext], hc.of_right ?_⟩
    -- a name in the exponent is the end of the power as well
    rw [ending]
    split
    · rename_i hfree
      rw [hfree]
      decide
    · rfl
  | minus g p ih =>
    obtain ⟨front, c, htext, hc⟩ := ih
    exact ⟨'-' :: (g.text ++ front), c, by simp [text, htext], hc.of_right Iff.rfl⟩
  | binary op x g g' y _ ihy =>
    obtain ⟨front, c, htext, hc⟩ := ihy
    exact ⟨x.text ++ (g.text ++ op.mark :: (g'.text ++ front)), c, by simp [text, htext],
      hc.of_right Iff.rfl⟩
  | joint x y _ ihy =>
    obtain ⟨front, c, htext, hc⟩ := ihy
    refine ⟨x.text ++ front, c, by simp [text, htext], hc.of_right ?_⟩
    -- and so is one as the second factor
    rw [ending]
    split
    · rename_i hname
      cases y with
      | name w => simp [ending]
      | _ => cases hname
    · rfl
  | comma x g g' y _ ihy =>
    obtain ⟨front, c, htext, hc⟩ := ihy
    exact ⟨x.text ++ (g.text ++ ',' :: (g'.text ++ front)), c, by simp [text, htext],
      hc.of_right Iff.rfl⟩

/-! ## Brackets -/

/-- A round bracket. -/
def isParen (c : Char) : Bool := c == '(' || c == ')'

theorem isParen_of_plain {c : Char} (h : isPlainWord c = true) : isParen c = false := by
  have hopen : c ≠ '(' := ne_of_plain h (by decide)
  have hclose : c ≠ ')' := ne_of_plain h (by decide)
  simp [isParen, hopen, hclose]

theorem isParen_of_gap {g : Gap} {c : Char} (h : c ∈ g.text) : isParen c = false := by
  have hopen : c ≠ '(' := g.ne h (isBlank_mark (by decide))
  have hclose : c ≠ ')' := g.ne h (isBlank_mark (by decide))
  simp [isParen, hopen, hclose]

theorem isParen_of_numeral {n : Numeral} {c : Char} (h : c ∈ n.text) : isParen c = false := by
  rcases n.mem h with hbody | rfl | rfl
  · rcases Numeral.word_or_point_of_isBodyChar hbody with hword | rfl
    · rw [Bool.eq_false_iff]
      intro hparen
      unfold isParen at hparen
      simp only [Bool.or_eq_true, beq_iff_eq] at hparen
      rcases hparen with rfl | rfl <;> exact absurd hword (by decide)
    · rfl
  · rfl
  · rfl

theorem mem_powerSign {doubled : Bool} {c : Char} (h : c ∈ powerSign doubled) :
    c = '^' ∧ doubled = false ∨ c = '*' ∧ doubled = true := by
  cases doubled with
  | false => exact Or.inl ⟨List.mem_singleton.mp h, rfl⟩
  | true =>
    simp only [powerSign, if_true, List.mem_cons, List.not_mem_nil, or_false, or_self] at h
    exact Or.inr ⟨h, rfl⟩

theorem isParen_of_powerSign {doubled : Bool} {c : Char} (h : c ∈ powerSign doubled) :
    isParen c = false := by
  rcases mem_powerSign h with ⟨rfl, -⟩ | ⟨rfl, -⟩ <;> rfl

theorem isParen_mark (op : Arith) : isParen op.mark = false := by cases op <;> rfl

/-- A text whose first bracket, if it has one, is an opening one. -/
inductive FirstOpens : Bool → List Char → Prop
  | none {cs : List Char} : (∀ c ∈ cs, isParen c = false) → FirstOpens false cs
  | opening {cs rest : List Char} : (∀ c ∈ cs, isParen c = false) →
      FirstOpens true (cs ++ '(' :: rest)

theorem FirstOpens.append {a b : Bool} {xs ys : List Char} (hx : FirstOpens a xs)
    (hy : FirstOpens b ys) : FirstOpens (a || b) (xs ++ ys) := by
  cases hx with
  | none hxs =>
    cases hy with
    | none hys => exact .none fun c hc => (List.mem_append.mp hc).elim (hxs c) (hys c)
    | @opening cs rest hcs =>
      rw [← List.append_assoc]
      exact .opening fun c hc => (List.mem_append.mp hc).elim (hxs c) (hcs c)
  | opening hcs =>
    rw [List.append_assoc]
    exact .opening hcs

theorem FirstOpens.pass {a : Bool} {xs ys : List Char} (hx : ∀ c ∈ xs, isParen c = false)
    (hy : FirstOpens a ys) : FirstOpens a (xs ++ ys) := by
  rw [← Bool.false_or a]
  exact FirstOpens.append (.none hx) hy

/-- **The first bracket of a phrase is an opening one.** -/
theorem first_bracket (p : Phrase) : FirstOpens p.hasBracket p.text := by
  induction p with
  | number n => exact .none fun c hc => isParen_of_numeral hc
  | name w => exact .none fun c hc => isParen_of_plain (w.mem hc)
  | call f g args g' _ => exact .opening fun c hc => isParen_of_plain (FunctionName.mem f hc)
  | bare f g => exact .opening fun c hc => isParen_of_plain (FunctionName.mem f hc)
  | group g p g' _ =>
    have hfront : ∀ c ∈ ([] : List Char), isParen c = false := by simp
    exact .opening hfront
  | power b g doubled g' e ihb ihe =>
    exact ihb.append ((ihe.pass fun c hc => isParen_of_gap hc).pass
      (fun c hc => isParen_of_powerSign hc) |>.pass fun c hc => isParen_of_gap hc)
  | minus g p ih =>
    have hrest := ih.pass (fun c hc => isParen_of_gap (g := g) hc)
    have hminus : ∀ c ∈ ['-'], isParen c = false := by simp [isParen]
    exact hrest.pass hminus
  | binary op x g g' y ihx ihy =>
    have hrest := ihy.pass (fun c hc => isParen_of_gap (g := g') hc)
    have hmark : ∀ c ∈ [op.mark], isParen c = false := by simp [isParen_mark]
    exact ihx.append ((hrest.pass hmark).pass fun c hc => isParen_of_gap hc)
  | joint x y ihx ihy => exact ihx.append ihy
  | comma x g g' y ihx ihy =>
    have hrest := ihy.pass (fun c hc => isParen_of_gap (g := g') hc)
    have hcomma : ∀ c ∈ [','], isParen c = false := by simp [isParen]
    exact ihx.append ((hrest.pass hcomma).pass fun c hc => isParen_of_gap hc)

end Phrase

end InitialValue.Formula
