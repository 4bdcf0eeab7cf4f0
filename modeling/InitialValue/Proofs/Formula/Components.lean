/-
  The components of a state by name.

  The component number `k` is called `y` followed by `k`, written without zeros in front.  That is
  the only name that stands for it (`Coupled.component?_eq_some`), since digits without a zero in
  front are those of their number; so what a system is given for a name is the component that the
  name stands for (`Coupled.valuesOf_component`).
-/
import InitialValue.Formula.Reading
import InitialValue.Proofs.Formula.Calculation
import InitialValue.Proofs.Formula.Names
import Mathlib.Data.List.Induction

namespace InitialValue.Formula

open InitialValue.Text

namespace Coupled

/-! ## Numbers in names -/

theorem digitsValue_eq (ds : List Char) : Decimal.digitsValue ds = Nat.ofDigitChars 10 ds 0 := rfl

theorem digitsValue_concat (ds : List Char) (c : Char) :
    Decimal.digitsValue (ds ++ [c]) = 10 * Decimal.digitsValue ds + (c.toNat - '0'.toNat) := by
  unfold Decimal.digitsValue
  rw [List.foldl_append]
  rfl

/-- A number that is not zero is written without a zero in front. -/
theorem toDigits_head {n : Nat} (h : 0 < n) :
    ∃ c cs, Nat.toDigits 10 n = c :: cs ∧ c ≠ '0' := by
  induction n using Nat.strongRecOn with
  | ind n ih =>
    rcases Nat.lt_or_ge n 10 with hn | hn
    · refine ⟨n.digitChar, [], Nat.toDigits_of_lt_base hn, ?_⟩
      have hall : ∀ m : Fin 10, 0 < m.val → Nat.digitChar m.val ≠ '0' := by decide
      exact hall ⟨n, hn⟩ h
    · obtain ⟨c, cs, hcs, hc⟩ := ih (n / 10) (by omega) (by omega)
      exact ⟨c, cs ++ [(n % 10).digitChar], by
        rw [Nat.toDigits_of_base_le (by decide) hn, hcs]; rfl, hc⟩

theorem digitChar_toNat {c : Char} (h : c.isDigit = true) :
    c.toNat - '0'.toNat < 10 ∧ (c.toNat - '0'.toNat).digitChar = c := by
  have hrange : 48 ≤ c.toNat ∧ c.toNat ≤ 57 := by
    rw [Char.isDigit, Bool.and_eq_true, decide_eq_true_eq, decide_eq_true_eq] at h
    exact h
  have hall : ∀ m : Fin 10, (Nat.digitChar m.val).toNat = 48 + m.val := by decide
  have hzero : '0'.toNat = 48 := rfl
  refine ⟨by omega, ?_⟩
  have hchar := hall ⟨c.toNat - '0'.toNat, by omega⟩
  refine Char.toNat_inj.mp ?_
  rw [hchar]
  dsimp only
  omega

/-- Digits without a zero in front are those of their number. -/
theorem toDigits_digitsValue {c : Char} {ds : List Char} (hc : c ≠ '0')
    (h : ∀ d ∈ c :: ds, d.isDigit = true) :
    0 < Decimal.digitsValue (c :: ds) ∧
      Nat.toDigits 10 (Decimal.digitsValue (c :: ds)) = c :: ds := by
  induction ds using List.reverseRecOn with
  | nil =>
    obtain ⟨hlt, hchar⟩ := digitChar_toNat (h c List.mem_cons_self)
    have hvalue : Decimal.digitsValue [c] = c.toNat - '0'.toNat := by
      unfold Decimal.digitsValue
      simp
    rw [hvalue]
    refine ⟨?_, by rw [Nat.toDigits_of_lt_base hlt, hchar]⟩
    rw [Nat.pos_iff_ne_zero]
    intro hzero
    rw [hzero] at hchar
    exact hc hchar.symm
  | append_singleton ds d ih =>
    obtain ⟨hpos, hdigits⟩ := ih fun x hx => h x (by
      rw [← List.cons_append]
      exact List.mem_append_left _ hx)
    obtain ⟨hlt, hchar⟩ := digitChar_toNat (h d (by simp))
    rw [← List.cons_append, digitsValue_concat]
    refine ⟨by omega, ?_⟩
    rw [Nat.toDigits_of_base_le (by decide) (by omega)]
    have hdiv : (10 * Decimal.digitsValue (c :: ds) + (d.toNat - '0'.toNat)) / 10 =
        Decimal.digitsValue (c :: ds) := by omega
    have hmod : (10 * Decimal.digitsValue (c :: ds) + (d.toNat - '0'.toNat)) % 10 =
        d.toNat - '0'.toNat := by omega
    rw [hdiv, hmod, hdigits, hchar]

/-! ## The names of components -/

/-- The name of a component. -/
def componentName (k : Nat) : String := "y" ++ toString k

theorem componentName_toList (k : Nat) : (componentName k).toList = 'y' :: Nat.toDigits 10 k := by
  show ("y" ++ String.ofList (Nat.toDigits 10 k)).toList = _
  rw [String.toList_append]
  exact congrArg ('y' :: ·) String.toList_ofList

/-- **A name stands for a component exactly when it is the name of it.** -/
theorem component?_eq_some {name : String} {k : Nat} :
    component? name = some k ↔ 0 < k ∧ name = componentName k := by
  constructor
  · intro h
    unfold component? at h
    split at h
    · rename_i c cs hname
      obtain ⟨hdigits, hk⟩ := Option.ite_none_right_eq_some.mp h
      rw [Bool.and_eq_true, bne_iff_ne, List.all_eq_true] at hdigits
      obtain ⟨hpos, htoDigits⟩ := toDigits_digitsValue hdigits.1 hdigits.2
      rw [Option.some.inj hk] at hpos htoDigits
      refine ⟨hpos, ?_⟩
      rw [String.ext_iff, componentName_toList, htoDigits, hname]
    · cases h
  · rintro ⟨hpos, rfl⟩
    obtain ⟨c, cs, hcs, hc⟩ := toDigits_head hpos
    have hdigits : ∀ d ∈ c :: cs, d.isDigit = true := by
      rw [← hcs]
      exact fun d hd => Nat.isDigit_of_mem_toDigits (by decide) (by decide) hd
    have hvalue : Decimal.digitsValue (c :: cs) = k := by
      rw [digitsValue_eq, ← hcs]
      exact Nat.ofDigitChars_toDigits (by decide) (by decide)
    have hcheck : (c != '0' && (c :: cs).all Char.isDigit) = true := by
      rw [Bool.and_eq_true, bne_iff_ne, List.all_eq_true]
      exact ⟨hc, hdigits⟩
    unfold component?
    rw [componentName_toList, hcs]
    show (if (c != '0' && (c :: cs).all Char.isDigit) = true then _ else _) = _
    rw [if_pos hcheck, hvalue]

theorem componentName_inj {k l : Nat} (h : componentName k = componentName l) : k = l := by
  have hlist := congrArg String.toList h
  rw [componentName_toList, componentName_toList] at hlist
  have hvalue := congrArg (fun ds => Nat.ofDigitChars 10 ds 0) (List.cons.inj hlist).2
  simpa [Nat.ofDigitChars_toDigits] using hvalue

theorem componentName_ne_time (k : Nat) : componentName k ≠ "t" := by
  intro h
  have hlist := congrArg String.toList h
  rw [componentName_toList] at hlist
  exact absurd (List.cons.inj hlist).1 (by decide)

/-! ## The highest component -/

theorem foldl_max_le {ns : List Nat} {m k : Nat} :
    ns.foldl max m ≤ k ↔ m ≤ k ∧ ∀ n ∈ ns, n ≤ k := by
  induction ns generalizing m with
  | nil => simp
  | cons n ns ih =>
    rw [List.foldl_cons, ih, Nat.max_le, List.forall_mem_cons, and_assoc]

theorem highest_le {names : List String} {k : Nat} :
    highest names ≤ k ↔ ∀ name ∈ names, ∀ n, component? name = some n → n ≤ k := by
  unfold highest
  rw [foldl_max_le]
  constructor
  · rintro ⟨-, h⟩ name hname n hn
    exact h n (List.mem_filterMap.mpr ⟨name, hname, hn⟩)
  · intro h
    refine ⟨Nat.zero_le k, fun n hn => ?_⟩
    obtain ⟨name, hname, hn⟩ := List.mem_filterMap.mp hn
    exact h name hname n hn

theorem le_highest {names : List String} {name : String} {n : Nat} (hname : name ∈ names)
    (hn : component? name = some n) : n ≤ highest names :=
  highest_le.mp (Nat.le_refl _) name hname n hn

/-! ## What is given -/

/-- What is given for the components of a state from a place on. -/
def givenFrom (k : Nat) : List Float → List Equation.Given
  | [] => []
  | y :: ys => ⟨componentName (k + 1), [], [y]⟩ :: givenFrom (k + 1) ys

theorem givenAt_eq (shape : List Nat) (time state : List Float) :
    givenAt shape time state = ⟨"t", shape, time⟩ :: givenFrom 0 state := by
  have hfrom : ∀ (ys : List Float) (k : Nat),
      (ys.zipIdx k).map (fun p => (⟨"y" ++ toString (p.2 + 1), [], [p.1]⟩ : Equation.Given)) =
        givenFrom k ys := by
    intro ys
    induction ys with
    | nil => exact fun _ => rfl
    | cons y ys ih => exact fun k => congrArg _ (ih (k + 1))
  exact congrArg _ (hfrom state 0)

theorem name_of_mem_givenFrom {ys : List Float} {k : Nat} {g : Equation.Given}
    (h : g ∈ givenFrom k ys) : ∃ n, k < n ∧ n ≤ k + ys.length ∧ g.name = componentName n := by
  induction ys generalizing k with
  | nil => cases h
  | cons y ys ih =>
    rw [givenFrom, List.mem_cons] at h
    rw [List.length_cons]
    rcases h with rfl | h
    · exact ⟨k + 1, by omega, by omega, rfl⟩
    · obtain ⟨n, hk, hn, hname⟩ := ih h
      exact ⟨n, by omega, by omega, hname⟩

/-- Only names that a system may use are given. -/
theorem isAllowed_of_given {shape : List Nat} {time state : List Float} {g : Equation.Given}
    (h : g ∈ givenAt shape time state) : isAllowed g.name = true := by
  unfold isAllowed
  rw [givenAt_eq, List.mem_cons] at h
  rcases h with rfl | h
  · rfl
  · obtain ⟨n, hn, -, hname⟩ := name_of_mem_givenFrom h
    rw [component?_eq_some.mpr ⟨Nat.zero_lt_of_lt hn, hname⟩, Option.isSome_some, Bool.or_true]

/-- **The name of a component stands for it.** -/
theorem valuesOf_component {shape : List Nat} {time state : List Float} {name : String} {k : Nat}
    (h : component? name = some k) :
    Equation.valuesOf (givenAt shape time state) name = state[k - 1]? := by
  obtain ⟨hpos, rfl⟩ := component?_eq_some.mp h
  have hfrom : ∀ (ys : List Float) (n : Nat), n < k →
      Equation.valuesOf (givenFrom n ys) (componentName k) = ys[k - n - 1]? := by
    intro ys
    induction ys with
    | nil => exact fun _ _ => rfl
    | cons y ys ih =>
      intro n hn
      by_cases hk : k = n + 1
      · subst hk
        have hindex : n + 1 - n - 1 = 0 := by omega
        rw [hindex]
        simp [Equation.valuesOf, givenFrom]
      · have hne : (componentName (n + 1) == componentName k) = false :=
          beq_false_of_ne fun heq => hk (componentName_inj heq).symm
        have hindex : k - n - 1 = (k - (n + 1) - 1) + 1 := by omega
        have hlater := ih (n + 1) (by omega)
        unfold Equation.valuesOf at hlater ⊢
        rw [hindex, List.getElem?_cons_succ, ← hlater, givenFrom, List.find?_cons, hne]
  have htime : ("t" == componentName k) = false :=
    beq_false_of_ne fun heq => componentName_ne_time k heq.symm
  rw [givenAt_eq]
  have hstate := hfrom state 0 hpos
  unfold Equation.valuesOf at hstate ⊢
  rw [List.find?_cons, htime]
  exact hstate

/-- Nothing is given for names that stand for no component. -/
theorem filter_givenFrom_none {p : String → Bool} {zs : List Float} {k : Nat}
    (h : ∀ n, k ≤ n → p (componentName (n + 1)) = true → zs[n - k]? = none) :
    (givenFrom k zs).filter (fun g => p g.name) = [] := by
  induction zs generalizing k with
  | nil => rfl
  | cons z zs ih =>
    have hhead : p (componentName (k + 1)) = false := by
      rw [Bool.eq_false_iff]
      intro hp
      have hz := h k (Nat.le_refl k) hp
      rw [Nat.sub_self, List.getElem?_cons_zero] at hz
      cases hz
    rw [givenFrom, List.filter_cons_of_neg (by rw [hhead]; decide)]
    refine ih fun n hn hp => ?_
    have hz := h n (by omega) hp
    rwa [show n - k = (n - (k + 1)) + 1 by omega, List.getElem?_cons_succ] at hz

/-- What is given for some names depends only on the components that they stand for. -/
theorem filter_givenFrom {p : String → Bool} {k : Nat} {xs ys : List Float}
    (h : ∀ n, k ≤ n → p (componentName (n + 1)) = true → xs[n - k]? = ys[n - k]?) :
    (givenFrom k xs).filter (fun g => p g.name) = (givenFrom k ys).filter fun g => p g.name := by
  induction xs generalizing k ys with
  | nil =>
    rw [filter_givenFrom_none fun n hn hp => (h n hn hp).symm]
    rfl
  | cons x xs ih =>
    cases ys with
    | nil =>
      rw [filter_givenFrom_none h]
      rfl
    | cons y ys =>
      have htail : (givenFrom (k + 1) xs).filter (fun g => p g.name) =
          (givenFrom (k + 1) ys).filter fun g => p g.name := by
        refine ih fun n hn hp => ?_
        have hn' := h n (by omega) hp
        rwa [show n - k = (n - (k + 1)) + 1 by omega, List.getElem?_cons_succ,
          List.getElem?_cons_succ] at hn'
      -- the names agree item by item, so only the values of those that are kept matter
      rw [givenFrom, givenFrom, List.filter_cons, List.filter_cons, htail]
      dsimp only
      split
      · rename_i hp
        have hxy := h k (Nat.le_refl k) hp
        rw [Nat.sub_self, List.getElem?_cons_zero, List.getElem?_cons_zero] at hxy
        rw [Option.some.inj hxy]
      · rfl

end Coupled

end InitialValue.Formula
