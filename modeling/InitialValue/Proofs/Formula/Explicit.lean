/-
  Formulas with every product written with a sign.

  Such a formula keeps its meaning through the check and all passes (`normalize_printed`): its normal
  text has the variables of its tree and reads back as that tree.  The only thing in the way is a
  number with an underscore in front of a signed exponent, raised to a power: the digits behind the
  sign are taken for the base (`grouped_base_torn`).

  Every arithmetic tree is printed by such a formula (`Arithmetic.printed`).
-/
import InitialValue.Proofs.Formula.Fragments
import InitialValue.Proofs.Formula.Variables

namespace InitialValue.Formula

/-! ## Printed trees -/

namespace Phrase

/-- A tree as it is printed: every product has its sign, brackets stand where they have to, and all
    names are permitted. -/
structure Printed (p : Phrase) : Prop where
  explicit : p.explicit = true
  proper : p.proper = true
  permitted : p.permitted = true
  strength : 2 ≤ p.strength

theorem uncaught_of_explicit {p : Phrase} (h : p.explicit = true) : p.uncaught = true := by
  induction p with
  | number n => rfl
  | name w => rfl
  | call f g args g' ih => exact ih h
  | bare f g => rfl
  | group g p g' ih => exact ih h
  | power b g doubled g' e ihb ihe =>
    obtain ⟨hb, he⟩ := (Bool.and_eq_true _ _).mp h
    exact (Bool.and_eq_true _ _).mpr ⟨ihb hb, ihe he⟩
  | minus g p ih => exact ih h
  | binary op x g g' y ihx ihy =>
    obtain ⟨hx, hy⟩ := (Bool.and_eq_true _ _).mp h
    exact (Bool.and_eq_true _ _).mpr ⟨ihx hx, ihy hy⟩
  | joint x y => cases h
  | comma x g g' y ihx ihy =>
    obtain ⟨hx, hy⟩ := (Bool.and_eq_true _ _).mp h
    exact (Bool.and_eq_true _ _).mpr ⟨ihx hx, ihy hy⟩

theorem Printed.sound {p : Phrase} (h : p.Printed) (hsturdy : p.sturdy = true) : p.Sound :=
  ⟨h.proper, hsturdy, uncaught_of_explicit h.explicit⟩

/-- The phrase in brackets, unless it is strong enough without. -/
def enclosed (k : Nat) (p : Phrase) : Phrase :=
  if k ≤ p.strength && !p.isFragile then p else group .none p .none

@[simp]
theorem tree_enclosed (k : Nat) (p : Phrase) : (p.enclosed k).tree = p.tree := by
  unfold enclosed
  split <;> rfl

theorem isFragile_enclosed (k : Nat) (p : Phrase) : (p.enclosed k).isFragile = false := by
  unfold enclosed
  split
  · rename_i h
    rw [Bool.and_eq_true, Bool.not_eq_true'] at h
    exact h.2
  · rfl

theorem le_strength_enclosed {k : Nat} (hk : k ≤ 6) (p : Phrase) : k ≤ (p.enclosed k).strength := by
  unfold enclosed
  split
  · rename_i h
    rw [Bool.and_eq_true, decide_eq_true_eq] at h
    exact h.1
  · exact hk

/-- A phrase that prints a tree safely. -/
structure Prints (p : Phrase) (x : Expr) : Prop where
  printed : p.Printed
  sturdy : p.sturdy = true
  tree : p.tree = x

theorem Prints.enclosed {p : Phrase} {x : Expr} (h : p.Prints x) {k : Nat} (hk : 2 ≤ k)
    (hk' : k ≤ 6) : (p.enclosed k).Prints x := by
  refine ⟨⟨?_, ?_, ?_, Nat.le_trans hk (le_strength_enclosed hk' p)⟩, ?_,
    (tree_enclosed k p).trans h.tree⟩
  · unfold Phrase.enclosed
    split
    · exact h.printed.explicit
    · exact h.printed.explicit
  · unfold Phrase.enclosed
    split
    · exact h.printed.proper
    · simp only [proper, Bool.and_eq_true, decide_eq_true_eq]
      exact ⟨h.printed.strength, h.printed.proper⟩
  · unfold Phrase.enclosed
    split
    · exact h.printed.permitted
    · exact h.printed.permitted
  · unfold Phrase.enclosed
    split
    · exact h.sturdy
    · exact h.sturdy

end Phrase

/-! ## Arithmetic trees -/

/-- The trees of arithmetic formulas with permitted names. -/
inductive Arithmetic : Expr → Prop
  | number (n : Numeral) : Arithmetic (.number n.literal)
  | name {w : Name} : w.permitted = true → Arithmetic (.name w.settled)
  | call (f : FunctionName) {args : List Expr} :
      (∀ x ∈ args, Arithmetic x) → Arithmetic (.call (.name f.val) args)
  | minus {x : Expr} : Arithmetic x → Arithmetic (.signed .minus x)
  | binary (op : Arith) {x y : Expr} :
      Arithmetic x → Arithmetic y → Arithmetic (.binary op.operator x y)
  | power {x y : Expr} : Arithmetic x → Arithmetic y → Arithmetic (.binary .power x y)

namespace Arithmetic

open Phrase

/-- Arguments are printed with commas between them. -/
theorem printed_items {x : Expr} {xs : List Expr} (h : ∀ y ∈ x :: xs, ∃ p : Phrase, p.Prints y) :
    ∃ p : Phrase, p.explicit = true ∧ p.proper = true ∧ p.permitted = true ∧ p.sturdy = true ∧
      p.tree.items = x :: xs := by
  induction xs generalizing x with
  | nil =>
    obtain ⟨p, hp⟩ := h x List.mem_cons_self
    refine ⟨p, hp.printed.explicit, hp.printed.proper, hp.printed.permitted, hp.sturdy, ?_⟩
    rw [tree_items hp.printed.proper hp.printed.strength, hp.tree]
  | cons y ys ih =>
    obtain ⟨p, hp⟩ := h x List.mem_cons_self
    obtain ⟨q, hexplicit, hproper, hpermitted, hsturdy, htree⟩ :=
      ih fun z hz => h z (List.mem_cons_of_mem _ hz)
    refine ⟨.comma p .none .single q, ?_, ?_, ?_, ?_, ?_⟩
    · exact (Bool.and_eq_true _ _).mpr ⟨hp.printed.explicit, hexplicit⟩
    · simp only [proper, Bool.and_eq_true, decide_eq_true_eq]
      exact ⟨⟨hp.printed.strength, hp.printed.proper⟩, hproper⟩
    · exact (Bool.and_eq_true _ _).mpr ⟨hp.printed.permitted, hpermitted⟩
    · exact (Bool.and_eq_true _ _).mpr ⟨hp.sturdy, hsturdy⟩
    · rw [tree, hp.tree, htree]
      rfl

/-- **Every arithmetic tree is printed.** -/
theorem printed {x : Expr} (h : Arithmetic x) : ∃ p : Phrase, p.Prints x := by
  induction h with
  | number n => exact ⟨.number n, ⟨rfl, rfl, rfl, by simp [strength]⟩, rfl, rfl⟩
  | name hw => exact ⟨.name _, ⟨rfl, rfl, hw, by simp [strength]⟩, rfl, rfl⟩
  | @call f args _ ih =>
    rcases args with _ | ⟨x, xs⟩
    · exact ⟨.bare f .none, ⟨rfl, rfl, rfl, by simp [strength]⟩, rfl, rfl⟩
    · obtain ⟨p, hexplicit, hproper, hpermitted, hsturdy, htree⟩ := printed_items ih
      refine ⟨.call f .none p .none, ⟨hexplicit, hproper, hpermitted, by simp [strength]⟩, hsturdy,
        ?_⟩
      rw [tree, htree]
  | minus _ ih =>
    obtain ⟨p, hp⟩ := ih
    -- an operand gets brackets if its operator is weaker than the place asks for
    have h4 := hp.enclosed (k := 4) (by omega) (by omega)
    refine ⟨.minus .none (p.enclosed 4), ⟨h4.printed.explicit, ?_, h4.printed.permitted,
      by simp [strength]⟩, h4.sturdy, ?_⟩
    · simp only [proper, Bool.and_eq_true, decide_eq_true_eq]
      exact ⟨le_strength_enclosed (by omega) p, h4.printed.proper⟩
    · rw [tree, h4.tree]
  | binary op _ _ ihx ihy =>
    obtain ⟨p, hp⟩ := ihx
    obtain ⟨q, hq⟩ := ihy
    have hop : 2 ≤ op.strength ∧ op.strength + 1 ≤ 6 := by cases op <;> decide
    have hleft := hp.enclosed (k := op.strength) hop.1 (by omega)
    have hright := hq.enclosed (k := op.strength + 1) (by omega) hop.2
    refine ⟨.binary op (p.enclosed op.strength) .single .single (q.enclosed (op.strength + 1)),
      ⟨?_, ?_, ?_, hop.1⟩, ?_, ?_⟩
    · exact (Bool.and_eq_true _ _).mpr ⟨hleft.printed.explicit, hright.printed.explicit⟩
    · simp only [proper, Bool.and_eq_true, decide_eq_true_eq]
      exact ⟨⟨⟨le_strength_enclosed (by omega) p, le_strength_enclosed hop.2 q⟩,
        hleft.printed.proper⟩, hright.printed.proper⟩
    · exact (Bool.and_eq_true _ _).mpr ⟨hleft.printed.permitted, hright.printed.permitted⟩
    · exact (Bool.and_eq_true _ _).mpr ⟨hleft.sturdy, hright.sturdy⟩
    · rw [tree, hleft.tree, hright.tree]
  | power _ _ ihx ihy =>
    obtain ⟨p, hp⟩ := ihx
    obtain ⟨q, hq⟩ := ihy
    have hbase := hp.enclosed (k := 6) (by omega) (Nat.le_refl _)
    have hexponent := hq.enclosed (k := 4) (by omega) (by omega)
    refine ⟨.power (p.enclosed 6) .none false .none (q.enclosed 4),
      ⟨?_, ?_, ?_, by simp [strength]⟩, ?_, ?_⟩
    · exact (Bool.and_eq_true _ _).mpr ⟨hbase.printed.explicit, hexponent.printed.explicit⟩
    · simp only [proper, Bool.and_eq_true, decide_eq_true_eq, beq_iff_eq]
      -- only an atom is strong enough for a base
      exact ⟨⟨⟨Nat.le_antisymm (strength_le _) (le_strength_enclosed (Nat.le_refl _) p),
        le_strength_enclosed (by omega) q⟩, hbase.printed.proper⟩, hexponent.printed.proper⟩
    · exact (Bool.and_eq_true _ _).mpr ⟨hbase.printed.permitted, hexponent.printed.permitted⟩
    · simp only [sturdy, Bool.and_eq_true, Bool.not_eq_true']
      exact ⟨⟨isFragile_enclosed 6 p, hbase.sturdy⟩, hexponent.sturdy⟩
    · rw [tree, hbase.tree, hexponent.tree]

end Arithmetic

/-! ## Normal texts of printed trees -/

/-- What a text has to come to that prints a tree: it is accepted, and its normal text has the
    variables of the tree and reads back as the tree.  Brackets nested too deeply are the only
    reason why a normal text is not read. -/
structure Restores (cs : List Char) (tree : Expr) : Prop where
  safe : checkSafety cs = .ok ()
  normal : ∃ n, normalize cs = .ok n ∧ (∀ s, s ∈ namesIn n ↔ s ∈ tree.variableNames) ∧
    ∃ ts x, Token.scan (n.length + 1) n = some ts ∧ Expr.ofTokens? ts = some x ∧
      x.identify = tree.identify ∧ (Token.shallow 0 ts = true → Expr.ofText? n = some x)

theorem ofText?_eq {n : List Char} {ts : List Token} {x : Expr}
    (hts : Token.scan (n.length + 1) n = some ts) (hx : Expr.ofTokens? ts = some x)
    (hshallow : Token.shallow 0 ts = true) : Expr.ofText? n = some x := by
  unfold Expr.ofText? tokens?
  rw [hts]
  simp only [Option.bind_eq_bind, Option.bind_some]
  rw [if_pos hshallow]
  exact hx

/-- **A printed tree keeps its meaning**, unless a number with an underscore in front of a signed
    exponent is raised to a power. -/
theorem normalize_printed {p : Phrase} (h : p.Printed) (hsturdy : p.sturdy = true) (g g' : Gap) :
    Restores (g.text ++ (p.text ++ g'.text)) p.tree := by
  have hsound := h.sound hsturdy
  obtain ⟨n, hnormal, -, hrenders⟩ := normalize_renders hsound h.strength g g'
  obtain ⟨ts, x, hts, hx, htree⟩ := hrenders.reads
  refine ⟨Phrase.checkSafety_text hsound h.permitted g g', n, hnormal, fun s => ?_,
    ts, x, hts, hx, htree, ofText?_eq hts hx⟩
  rw [hrenders.names, mem_foldr_insertName]

/-- The time, as a name. -/
def Name.time : Name := ⟨['t'], by decide, by decide, by decide⟩

/-- The state, as a name. -/
def Name.state : Name := ⟨['y'], by decide, by decide, by decide⟩

/-- Without a point, there is none that digits would have to follow. -/
theorem pointed_of_not_mem {cs : List Char} (h : '.' ∉ cs) (pre post : List Char)
    (hcs : cs = pre ++ '.' :: post) : ∃ c more, post = c :: more ∧ c.isDigit = true := by
  refine absurd ?_ h
  rw [hcs]
  exact List.mem_append_right _ List.mem_cons_self

/-- The number two. -/
def Numeral.two : Numeral := ⟨['2'], .whole 2, by decide, pointed_of_not_mem (by decide)⟩

/-- A power of a negative power: `- t ^ - y ^ 2`. -/
theorem normalize_printed_powers :
    Restores "- t ^ - y ^ 2".toList (.signed .minus (.binary .power (.name "t")
      (.signed .minus (.binary .power (.name "y") (.number (.whole 2)))))) := by
  exact normalize_printed (p := .minus .single (.power (.name .time) .single false .single
    (.minus .single (.power (.name .state) .single false .single (.number .two)))))
    ⟨by decide, by decide, by decide, by decide⟩ (by decide) .none .none

/-- A number with an underscore in front of a signed exponent. -/
def Numeral.torn : Numeral :=
  ⟨"1_0e-5".toList, .decimal ⟨10, -5, 2, false⟩, by decide, pointed_of_not_mem (by decide)⟩

/-- The power of a number that is torn apart: `1_0e-5^2` becomes `1_0e-pow(5, 2)`. -/
theorem grouped_base_torn : ¬ ∀ p : Phrase, p.Printed → ∀ g g' : Gap,
    Restores (g.text ++ (p.text ++ g'.text)) p.tree := by
  intro h
  have hprinted : (Phrase.power (.number .torn) .none false .none (.number .two)).Printed :=
    ⟨by decide, by decide, by decide, by decide⟩
  obtain ⟨n, hnormal, -, ts, x, hts, hx, -⟩ := (h _ hprinted .none .none).normal
  have htorn : normalize "1_0e-5^2".toList = .ok "1_0e-pow(5, 2)".toList := by decide
  have hn : n = "1_0e-pow(5, 2)".toList := Except.ok.inj (hnormal.symm.trans htorn)
  have hscan : Token.scan (n.length + 1) n = none := by
    rw [hn]
    decide
  rw [hscan] at hts
  cases hts

end InitialValue.Formula
