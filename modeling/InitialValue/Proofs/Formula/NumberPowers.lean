/-
  Numbers in powers.

  The rule for powers takes an operand, a power sign and an exponent, and writes all of it again as a
  call (`PowerParts`).  Seen from a number between marks, there are three cases: the power ends in front
  of the number, its base takes the number whole, or its exponent does.  In the last two the marks of
  the call stand around the number, where the marks of the power were.

  Inside the number no power starts.  Only behind the sign of its exponent could one, and then one would
  start at the number as well.
-/
import InitialValue.Proofs.Formula.Survival

namespace InitialValue.Formula

open InitialValue.Text
open Decimal (isSign)

variable {a b x cs : List Char}

/-! ## The parts of a power -/

/-- What stands behind the sign of a power: an operand, perhaps a minus sign in front of it. -/
theorem exponent?_operand {e tail : List Char} (h : exponent? cs = some (e, tail)) :
    ∃ minus t, e = minus ++ t ∧ (minus = [] ∨ minus = ['-']) ∧
      t.length ∈ operandLengths (t ++ tail) ∧ endsPower tail = true := by
  obtain ⟨n, -, h⟩ := Option.bind_eq_some_iff.mp h
  generalize skipBlanks ((skipBlanks cs).drop n) = rest at h
  obtain ⟨k, hk, h⟩ := List.exists_of_findSome?_eq_some h
  obtain ⟨hends, hparts⟩ := Option.ite_none_right_eq_some.mp h
  obtain ⟨rfl, rfl⟩ := Prod.mk.inj (Option.some.inj hparts)
  have hminus : rest.take (minusLength rest) = [] ∨ rest.take (minusLength rest) = ['-'] := by
    rw [StateName.minusLength_eq]
    split
    · rename_i hhead
      obtain ⟨more, rfl⟩ := List.head?_eq_some_iff.mp hhead
      exact Or.inr rfl
    · exact Or.inl rfl
  obtain ⟨front, c, more, hsplit, hlength, -⟩ := operand_last hk
  have ht : ((rest.drop (minusLength rest)).take k).length = k := by
    rw [List.length_take, hsplit, hlength]
    simp
  refine ⟨_, (rest.drop (minusLength rest)).take k, List.take_add, hminus, ?_, hends⟩
  rw [ht, ← List.drop_drop, List.take_append_drop]
  exact hk

/-- The parts of a power at the front of a text: base, sign, minus sign, exponent and what comes
    behind. -/
structure PowerParts (cs base sign minus t tail : List Char) : Prop where
  split : cs = base ++ (sign ++ (minus ++ (t ++ tail)))
  base : base.length ∈ operandLengths cs
  sign : IsSign sign
  minus : minus = [] ∨ minus = ['-']
  exponent : t.length ∈ operandLengths (t ++ tail)
  ends : endsPower tail = true

theorem powerRule_parts {before : List Char} {hit : Hit} (h : powerRule before cs = some hit) :
    ∃ base sign minus t tail, PowerParts cs base sign minus t tail ∧
      hit.extra + 1 = (base ++ (sign ++ (minus ++ t))).length ∧
      hit.text = spelled base (minus ++ t) := by
  rw [powerRule_eq] at h
  split at h
  · cases h
  obtain ⟨n, hn, h⟩ := List.exists_of_findSome?_eq_some h
  obtain ⟨⟨e, tail⟩, hexponent, rfl⟩ := Option.map_eq_some_iff.mp h
  obtain ⟨sign, hsign, hrest⟩ := exponent?_split hexponent
  obtain ⟨minus, t, rfl, hminus, ht, hends⟩ := exponent?_operand hexponent
  obtain ⟨front, c, more, hcs, hlength, -⟩ := operand_last hn
  have hbase : (cs.take n).length = n := by
    rw [List.length_take, hcs, hlength]
    simp
  have hsplit : cs = cs.take n ++ (sign ++ (minus ++ (t ++ tail))) := by
    conv_lhs => rw [← List.take_append_drop n cs, hrest, List.append_assoc]
  refine ⟨cs.take n, sign, minus, t, tail, ⟨hsplit, hbase.symm ▸ hn, hsign, hminus, ht, hends⟩, ?_,
    rfl⟩
  have hpos : 0 < sign.length := by
    obtain ⟨c, hc, -⟩ := hsign.1
    exact List.length_pos_of_mem hc
  have hcount := congrArg List.length hsplit
  simp only [List.length_append] at hcount ⊢
  omega

/-- An operand starts and ends like a term. -/
theorem operand_ends {t tail : List Char} (h : t.length ∈ operandLengths (t ++ tail)) :
    ∃ c more front d, t = c :: more ∧ t = front ++ [d] ∧ (isSolid c = true ∨ c = '(') ∧
      (isSolid d = true ∨ d = ')') := by
  obtain ⟨c, rest, hcs, hc⟩ := operand_head h
  obtain ⟨front, d, more, hsplit, hlength, hd⟩ := operand_last h
  have ht : t = front ++ [d] := by
    rw [show front ++ d :: more = front ++ [d] ++ more by simp] at hsplit
    exact List.append_inj_left hsplit (by simpa using hlength)
  rcases t with _ | ⟨z, t⟩
  · cases hlength
  · exact ⟨z, t, front, d, rfl, ht, (List.cons.inj hcs).1 ▸ hc, hd⟩

theorem IsSign.free {sign : List Char} (h : IsSign sign) :
    ∀ c ∈ sign, isFixed c = false ∧ isSolid c = false := by
  intro c hc
  rcases h.2 c hc with hblank | rfl | rfl
  · exact ⟨Rule.not_isFixed_of_isBlank hblank, isSolid_of_isBlank hblank⟩
  · decide
  · decide

/-- The comma of the call stands for the sign of the power. -/
theorem IsSign.comma {sign : List Char} (h : IsSign sign) : Alike sign [',', ' '] := by
  have hnone : sign.filter isFixed = [] :=
    List.filter_eq_nil_iff.mpr fun c hc => by simp [(h.free c hc).1]
  refine Alike.marks (fun hall => ?_) (Eq.trans (by decide) hnone.symm) (by decide) (by decide)
  exact absurd (hall ',' List.mem_cons_self) (by decide)

theorem keptBefore_call : KeptBefore [] "pow(".toList :=
  KeptBefore.marks (fun _ _ hc => nomatch hc) (by decide) (by decide)

theorem keptBehind_call : KeptBehind [] [')'] :=
  KeptBehind.marks (fun _ _ hc => nomatch hc) (by decide) (by decide)

theorem filter_spelled (base e : List Char) :
    (spelled base e).filter isFixed = base.filter isFixed ++ e.filter isFixed := by
  have hcall : "pow(".toList.filter isFixed = [] := by decide
  have hcomma : [',', ' '].filter isFixed = [] := by decide
  have hclose : [')'].filter isFixed = [] := by decide
  simp only [spelled_eq, List.filter_append, hcall, hcomma, hclose, List.nil_append, List.append_nil]

theorem powerRule_mild : powerRule.Mild := by
  intro before cs hit h
  obtain ⟨base, sign, minus, t, tail, hparts, hlength, htext⟩ := powerRule_parts h
  have hbase := hparts.base
  rw [hparts.split] at hbase
  obtain ⟨c, more, -, -, rfl, -, hc, -⟩ := operand_ends hbase
  obtain ⟨-, -, front, d, -, rfl, -, hd⟩ := operand_ends hparts.exponent
  have hwhole : cs = c :: (more ++ (sign ++ (minus ++ (front ++ [d])))) ++ tail := by
    rw [hparts.split]
    simp
  have hnone : sign.filter isFixed = [] :=
    List.filter_eq_nil_iff.mpr fun c hc => by simp [(hparts.sign.free c hc).1]
  rw [hlength, htext, hwhole, List.cons_append, List.take_left]
  have hends : c :: (more ++ (sign ++ (minus ++ (front ++ [d])))) =
      c :: (more ++ (sign ++ (minus ++ front))) ++ [d] := by simp
  refine Alike.of_ends hc hd hends ?_ ?_
  · rw [filter_spelled, ← List.cons_append]
    simp only [List.filter_append, hnone, List.nil_append]
  · have hcall : "pow(".toList.all isBlank = false := by decide
    rw [spelled_eq, List.all_append, hcall, Bool.false_and]

/-! ## Beside a number -/

/-- Marks and blanks stand in front of a number, if they start there. -/
theorem exists_of_bare (hx : IsNumber x) {front ys : List Char}
    (h : front ++ ys = a ++ (x ++ b)) (hfront : ∀ c ∈ front, isFixed c = false) :
    ∃ a', a = front ++ a' ∧ ys = a' ++ (x ++ b) := by
  refine exists_of_append_eq h (short_of_bare (b := b) hx fun c hc => hfront c ?_)
  rwa [← h, List.take_left] at hc

theorem not_endsPower_of_solid {c : Char} {rest : List Char} (hc : isSolid c = true) :
    endsPower (c :: rest) = false := by
  have hblocked : (isWord c || c == '.' || c == '(') = true := by
    rw [show (isWord c || c == '.') = true from hc]
    rfl
  rw [StateName.endsPower_eq, List.head?_cons, Option.elim_some, hblocked]
  rfl

section

variable {base sign minus t tail : List Char}
  (h : PowerParts (a ++ (x ++ b)) base sign minus t tail)
include h

/-- The marks between base and exponent. -/
theorem PowerParts.free : ∀ c ∈ sign ++ minus, isFixed c = false := by
  intro c hc
  rcases List.mem_append.mp hc with hc | hc
  · exact (h.sign.free c hc).1
  · rcases h.minus with rfl | rfl
    · cases hc
    · rw [List.mem_singleton.mp hc]
      decide

/-- **A base in front of the number**: the sign is in front of it as well, and then the exponent is
    too, or takes the number whole. -/
theorem PowerParts.carries_front (hx : IsNumber x) (ha : AwaitsOperand a) (hb : EndsOperand b)
    (hless : base.length < a.length) :
    Carries x a b (base ++ (sign ++ (minus ++ t))).length (spelled base (minus ++ t)) := by
  obtain ⟨a₁, rfl, hmarks⟩ := exists_of_append_eq h.split.symm hless.le
  rw [← List.append_assoc] at hmarks
  obtain ⟨a₂, rfl, hrest⟩ := exists_of_bare hx hmarks h.free
  have hexponent := h.exponent
  rw [hrest] at hexponent
  rcases operand_reach hx ha.suffix.suffix hb hexponent with
    hless | ⟨b₁, b₂, rfl, ht⟩ | ⟨c, rest, hdrop, hc⟩
  · refine Or.inl ?_
    simp only [List.length_append] at hless ⊢
    omega
  · have hwhole : t ++ tail = a₂ ++ (x ++ b₁) ++ b₂ := by rw [hrest]; simp
    obtain rfl := List.append_inj_left hwhole ht
    have hcall := (keptBefore_call.append (Kept.refl _ : KeptBefore base base)).append
      ((h.sign.comma.append (.refl minus)).append (.refl a₂)).before
    have hclose := (Kept.refl b₁ : KeptBehind b₁ b₁).append keptBehind_call
    rw [List.append_nil] at hclose
    refine Or.inr ⟨_, _, b₁, b₂, rfl, ?_, ?_, hcall, hclose⟩
    · simp only [List.length_append]
      omega
    · simp [spelled_eq]
  · -- a power does not end in front of a solid character
    rw [← hrest, List.drop_left] at hdrop
    have hends := h.ends
    rw [hdrop, not_endsPower_of_solid hc] at hends
    cases hends

/-- **A base that takes the number whole** starts the call. -/
theorem PowerParts.carries_base {b₁ b₂ : List Char} (hb : b = b₁ ++ b₂)
    (hbase : base.length = (a ++ (x ++ b₁)).length) :
    Carries x a b (base ++ (sign ++ (minus ++ t))).length (spelled base (minus ++ t)) := by
  have hwhole : base ++ (sign ++ (minus ++ (t ++ tail))) = a ++ (x ++ b₁) ++ b₂ := by
    rw [← h.split, hb]
    simp
  obtain rfl := List.append_inj_left hwhole hbase
  obtain rfl := List.append_cancel_left hwhole
  have hcall : KeptBefore ([] ++ a) ("pow(".toList ++ a) :=
    keptBefore_call.append (Kept.refl _ : KeptBefore a a)
  have hclose := (Kept.refl (minus ++ t) : KeptBehind _ _).append keptBehind_call
  rw [List.append_nil] at hclose
  have hcomma := (Kept.refl b₁ : KeptBehind b₁ b₁).append (h.sign.comma.behind.append hclose)
  refine Or.inr ⟨_, _, _, tail, ?_, ?_, ?_, hcall, hcomma⟩
  · rw [hb]
    simp
  · simp only [List.length_append]
    omega
  · simp [spelled_eq]

/-- No sign runs on from an operand. -/
theorem PowerParts.not_solid {c : Char} {rest : List Char}
    (hdrop : (a ++ (x ++ b)).drop base.length = c :: rest) : isSolid c = false := by
  obtain ⟨z, hz, -⟩ := h.sign.1
  obtain ⟨y, more, rfl⟩ := List.exists_cons_of_ne_nil (List.ne_nil_of_mem hz)
  rw [h.split, List.drop_left] at hdrop
  rw [← (List.cons.inj hdrop).1]
  exact (h.sign.free y List.mem_cons_self).2

end

theorem powerRule_spares (hx : IsNumber x) : powerRule.Spares x where
  mild := powerRule_mild
  hit before a b hit ha hb h := by
    obtain ⟨base, sign, minus, t, tail, hparts, hlength, htext⟩ := powerRule_parts h
    have ha : AwaitsOperand a := ha.suffix
    rw [hlength, htext]
    rcases operand_reach hx ha hb hparts.base with
      hless | ⟨b₁, b₂, hsplit, hbase⟩ | ⟨c, rest, hdrop, hc⟩
    · exact hparts.carries_front hx ha hb hless
    · exact hparts.carries_base hsplit hbase
    · rw [hparts.not_solid hdrop] at hc
      cases hc
  quiet before b ha hb h pre c post hsplit := by
    have hfree : startBlocked before = false := by
      rcases before with _ | ⟨d, before⟩
      · rfl
      · rw [List.reverse_cons] at ha
        obtain ⟨hsolid, hne⟩ := ha.last
        have hword : (isWord d || d == '.') = false := hsolid
        simp [startBlocked, hword, hne]
    have hnone : exponent? b = none := by
      rw [powerRule_eq, hfree, if_neg (by decide), operandLengths_number hx hb] at h
      simpa using h
    rw [powerRule_eq]
    split
    · rfl
    · rename_i hstart
      have hnumber : IsNumber (c :: post) := hx.inner hsplit fun d hd => by
        obtain ⟨front, rfl⟩ := List.getLast?_eq_some_iff.mp hd
        rw [List.reverse_append] at hstart
        rw [Bool.eq_false_iff]
        intro hsolid
        exact hstart (Bool.or_eq_true_iff.mpr (Or.inl hsolid))
      rw [← List.cons_append, operandLengths_number hnumber hb]
      simp [hnone]

end InitialValue.Formula
