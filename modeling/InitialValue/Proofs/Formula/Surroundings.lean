/-
  What stands around an operand.

  An operand that stands between explicit operators has, blanks passed over, an operator, an opening
  bracket, a comma or nothing in front of it, and the like behind it (`AwaitsOperand`, `EndsOperand`).
  The passes over a formula change those surroundings, but not what they are:

  1. **Sides** — `Kept p xs ys`: read from the operand outwards, new text in the place of old still
     begins with one of the marks `p`, and the digits and points in it are those of the old text.
     Sides are put together from pieces, the nearest first (`Kept.append`).
  2. **Places** — `Stands x a b cs`: the operand `x` stands in the text `cs`, with what has become of
     its two sides around it.
  3. **Passes** — `Rule.Spares.pass`: a rule whose hits leave the sides what they are, take the operand
     whole or not at all, and start nowhere inside it, leaves the operand where it is.
-/
import InitialValue.Proofs.Formula.Seclusion

namespace InitialValue.Formula

open InitialValue.Text

/-! ## Sides -/

/-- A mark that an operand may follow: an operator, an opening bracket, a comma or a colon. -/
def opensOperand (c : Char) : Bool := "+-*/%@&|^~<>=([\x7b,:".toList.contains c

/-- A mark that may follow an operand: an operator, a closing bracket, a comma or a colon. -/
def closesOperand (c : Char) : Bool := "+-*/%@&|^~<>=!)]\x7d,:".toList.contains c

/-- A character that no pass writes, moves or leaves out: a digit of any script, a point or a hash
    sign. -/
def isFixed (c : Char) : Bool := isDigit c || c == '.' || c == '#'

/-- The first character that is no blank, if there is one, is of a class. -/
def Meets (p : Char → Bool) (cs : List Char) : Prop := ∀ c ∈ (skipBlanks cs).head?, p c = true

instance (p : Char → Bool) (cs : List Char) : Decidable (Meets p cs) :=
  decidable_of_iff ((skipBlanks cs).head?.all p = true) (Option.all_eq_true _ _)

/-- A text that an operand may follow: nothing, or something that ends with an operator, an opening
    bracket, a comma or a colon, and perhaps blanks. -/
def AwaitsOperand (a : List Char) : Prop := Meets opensOperand a.reverse

/-- A text that may follow an operand. -/
def EndsOperand (b : List Char) : Prop := Meets closesOperand b

instance (a : List Char) : Decidable (AwaitsOperand a) :=
  inferInstanceAs (Decidable (Meets _ _))

instance (b : List Char) : Decidable (EndsOperand b) :=
  inferInstanceAs (Decidable (Meets _ _))

section

variable {p : Char → Bool} {xs ys zs ws : List Char} {c : Char}

theorem meets_gap (h : ∀ c ∈ xs, isBlank c = true) : Meets p (xs ++ ys) ↔ Meets p ys := by
  rw [Meets, skipBlanks_blanks h, Meets]

/-- Behind what is no blank, nothing matters. -/
theorem meets_front (h : ¬ ∀ c ∈ xs, isBlank c = true) : Meets p (xs ++ ys) ↔ Meets p xs := by
  have hskip : skipBlanks (xs ++ ys) = skipBlanks xs ++ ys := by
    refine List.dropWhile_append.trans (if_neg ?_)
    rwa [List.isEmpty_iff, List.dropWhile_eq_nil_iff]
  have hne : skipBlanks xs ≠ [] := fun hnil => h (List.dropWhile_eq_nil_iff.mp hnil)
  obtain ⟨c, rest, hrest⟩ := List.exists_cons_of_ne_nil hne
  rw [Meets, Meets, hskip, hrest]
  rfl

theorem meets_cons (hc : isBlank c = false) : Meets p (c :: xs) ↔ p c = true := by
  rw [Meets, skipBlanks_cons hc]
  exact ⟨fun h => h c rfl, fun h d hd => Option.some.inj hd ▸ h⟩

theorem Meets.left (h : Meets p (xs ++ ys)) : Meets p xs := by
  by_cases hblank : ∀ c ∈ xs, isBlank c = true
  · have hnil := skipBlanks_blanks hblank []
    rw [List.append_nil] at hnil
    rw [Meets, hnil]
    exact fun c hc => nomatch hc
  · exact (meets_front hblank).mp h

/-- `Kept p xs ys` — read from an operand outwards, the second text may stand for the first. -/
structure Kept (p : Char → Bool) (xs ys : List Char) : Prop where
  blank : (∀ c ∈ ys, isBlank c = true) → ∀ c ∈ xs, isBlank c = true
  fixed : ys.filter isFixed = xs.filter isFixed
  meets : Meets p xs → Meets p ys

namespace Kept

theorem refl (xs : List Char) : Kept p xs xs := ⟨id, rfl, id⟩

theorem trans (h : Kept p xs ys) (h' : Kept p ys zs) : Kept p xs zs :=
  ⟨fun hzs => h.blank (h'.blank hzs), h'.fixed.trans h.fixed, fun hxs => h'.meets (h.meets hxs)⟩

/-- **Sides are put together from pieces**, the nearest first. -/
theorem append (h : Kept p xs ys) (h' : Kept p zs ws) : Kept p (xs ++ zs) (ys ++ ws) where
  blank hblank := by
    rw [List.forall_mem_append] at hblank ⊢
    exact ⟨h.blank hblank.1, h'.blank hblank.2⟩
  fixed := by rw [List.filter_append, List.filter_append, h.fixed, h'.fixed]
  meets hmeets := by
    by_cases hys : ∀ c ∈ ys, isBlank c = true
    · rw [meets_gap (h.blank hys)] at hmeets
      exact (meets_gap hys).mpr (h'.meets hmeets)
    · exact (meets_front hys).mpr (h.meets hmeets.left)

end Kept

/-- What stands behind an operand may be replaced. -/
abbrev KeptBehind (b b' : List Char) : Prop := Kept closesOperand b b'

/-- What stands in front of an operand may be replaced. -/
abbrev KeptBefore (a a' : List Char) : Prop := Kept opensOperand a.reverse a'.reverse

theorem KeptBefore.append (h : KeptBefore xs ys) (h' : KeptBefore zs ws) :
    KeptBefore (xs ++ zs) (ys ++ ws) := by
  have happend := Kept.append h' h
  rwa [← List.reverse_append, ← List.reverse_append] at happend

theorem AwaitsOperand.suffix (h : AwaitsOperand (xs ++ ys)) : AwaitsOperand ys := by
  rw [AwaitsOperand, List.reverse_append] at h
  exact h.left

theorem AwaitsOperand.kept (h : AwaitsOperand xs) (hkept : KeptBefore xs ys) : AwaitsOperand ys :=
  hkept.meets h

/-! ## What may stand for what -/

/-- Digits and points are the same from either end. -/
theorem fixed_reverse (h : ys.filter isFixed = xs.filter isFixed) :
    ys.reverse.filter isFixed = xs.reverse.filter isFixed := by
  rw [List.filter_reverse, List.filter_reverse, h]

theorem KeptBefore.marks (hblank : (∀ c ∈ ys, isBlank c = true) → ∀ c ∈ xs, isBlank c = true)
    (hfixed : ys.filter isFixed = xs.filter isFixed) (hopens : AwaitsOperand ys) :
    KeptBefore xs ys := by
  refine ⟨fun h => ?_, fixed_reverse hfixed, fun _ => hopens⟩
  simp only [List.mem_reverse] at h ⊢
  exact hblank h

theorem KeptBehind.marks (hblank : (∀ c ∈ ys, isBlank c = true) → ∀ c ∈ xs, isBlank c = true)
    (hfixed : ys.filter isFixed = xs.filter isFixed) (hcloses : EndsOperand ys) :
    KeptBehind xs ys := ⟨hblank, hfixed, fun _ => hcloses⟩

/-- On both sides of an operand, the second text may stand for the first. -/
structure Alike (xs ys : List Char) : Prop where
  before : KeptBefore xs ys
  behind : KeptBehind xs ys

namespace Alike

theorem refl (xs : List Char) : Alike xs xs := ⟨Kept.refl _, Kept.refl _⟩

theorem append (h : Alike xs ys) (h' : Alike zs ws) : Alike (xs ++ zs) (ys ++ ws) :=
  ⟨KeptBefore.append h.before h'.before, h.behind.append h'.behind⟩

/-- **Marks may stand for anything** with the same digits and points. -/
theorem marks (hblank : (∀ c ∈ ys, isBlank c = true) → ∀ c ∈ xs, isBlank c = true)
    (hfixed : ys.filter isFixed = xs.filter isFixed) (hopens : AwaitsOperand ys)
    (hcloses : EndsOperand ys) : Alike xs ys :=
  ⟨KeptBefore.marks hblank hfixed hopens, KeptBehind.marks hblank hfixed hcloses⟩

/-- **Anything may stand for a term**, since no operand stands next to it. -/
theorem term (hopens : ¬ AwaitsOperand xs) (hcloses : ¬ EndsOperand xs)
    (hfixed : ys.filter isFixed = xs.filter isFixed)
    (hblank : ¬ ∀ c ∈ ys, isBlank c = true) : Alike xs ys where
  before := by
    refine ⟨fun h => absurd ?_ hblank, fixed_reverse hfixed, fun h => absurd h hopens⟩
    simpa only [List.mem_reverse] using h
  behind := ⟨fun h => absurd h hblank, hfixed, fun h => absurd h hcloses⟩

end Alike

end

/-! ## Places -/

/-- `Stands x a b cs` — the operand `x` stands in a text between what has become of its sides. -/
def Stands (x a b cs : List Char) : Prop :=
  ∃ a' b', cs = a' ++ (x ++ b') ∧ KeptBefore a a' ∧ KeptBehind b b'

/-- What is made of a text leaves an operand between its sides. -/
def Spares (x : List Char) (f : List Char → List Char) : Prop :=
  ∀ a b, AwaitsOperand a → EndsOperand b → Stands x a b (f (a ++ (x ++ b)))

section

variable {x a b cs : List Char}

theorem Stands.refl (x a b : List Char) : Stands x a b (a ++ (x ++ b)) :=
  ⟨a, b, rfl, Kept.refl _, Kept.refl _⟩

theorem Stands.map {f : List Char → List Char} (h : Stands x a b cs) (ha : AwaitsOperand a)
    (hb : EndsOperand b) (hf : Spares x f) : Stands x a b (f cs) := by
  obtain ⟨a', b', rfl, hbefore, hbehind⟩ := h
  obtain ⟨a'', b'', hcs, hbefore', hbehind'⟩ := hf a' b' (hbefore.meets ha) (hbehind.meets hb)
  exact ⟨a'', b'', hcs, hbefore.trans hbefore', hbehind.trans hbehind'⟩

/-- Text in front of the place. -/
theorem Stands.front {u v : List Char} (h : Stands x a b cs) (huv : KeptBefore u v) :
    Stands x (u ++ a) b (v ++ cs) := by
  obtain ⟨a', b', rfl, hbefore, hbehind⟩ := h
  exact ⟨v ++ a', b', by rw [List.append_assoc], KeptBefore.append huv hbefore, hbehind⟩

theorem Spares.comp {f g : List Char → List Char} (hg : Spares x g) (hf : Spares x f) :
    Spares x (fun cs => g (f cs)) := fun a b ha hb => (hf a b ha hb).map ha hb hg

end

/-! ## Passes -/

/-- The hits of a rule leave the sides of operands what they are. -/
def Rule.Mild (r : Rule) : Prop :=
  ∀ before cs hit, r before cs = some hit → Alike (cs.take (hit.extra + 1)) hit.text

/-- `Carries x a b k text` — in the place of `k` characters of `a ++ (x ++ b)`, new text leaves the
    operand alone: the characters end in front of it, or they take it whole and the new text has it
    again, between what may stand for its sides. -/
def Carries (x a b : List Char) (k : Nat) (text : List Char) : Prop :=
  k ≤ a.length ∨ ∃ u v b₁ b₂, b = b₁ ++ b₂ ∧ k = (a ++ (x ++ b₁)).length ∧
    text = u ++ (x ++ v) ∧ KeptBefore a u ∧ KeptBehind b₁ v

/-- A rule that changes nothing about an operand between its sides.  A hit that starts in front of
    the operand ends there too, or takes the operand whole and writes it again; where no hit starts
    at the operand, none starts inside it. -/
structure Rule.Spares (r : Rule) (x : List Char) : Prop where
  mild : r.Mild
  hit : ∀ before a b hit, AwaitsOperand (before.reverse ++ a) → EndsOperand b →
    r before (a ++ (x ++ b)) = some hit → Carries x a b (hit.extra + 1) hit.text
  quiet : ∀ before b, AwaitsOperand before.reverse → EndsOperand b → r before (x ++ b) = none →
    ∀ pre c post, x = pre ++ c :: post → r (pre.reverse ++ before) (c :: (post ++ b)) = none

namespace Rule

variable {r : Rule} {x : List Char}

/-- Behind an operand, a pass may do anything that its rule does. -/
theorem Mild.pass (hr : r.Mild) (before cs : List Char) : Alike cs (r.pass 0 before cs) := by
  refine pass_induction (R := Alike) (Alike.refl []) (fun c _ _ h => (Alike.refl [c]).append h)
    (fun before cs hit out hhit h => ?_) 0 before cs
  have happend := (hr before cs hit hhit).append h
  rwa [List.take_append_drop] at happend

/-- **A pass leaves the operand where it is**, by induction on what is still in front of it. -/
theorem Spares.pass (hr : r.Spares x) (hx : x ≠ []) (before : List Char) {a b : List Char}
    (ha : AwaitsOperand (before.reverse ++ a)) (hb : EndsOperand b) :
    Stands x a b (r.pass 0 before (a ++ (x ++ b))) := by
  induction hn : a.length using Nat.strongRecOn generalizing a before with
  | ind n ih =>
    rcases hhit : r before (a ++ (x ++ b)) with _ | hit
    · rcases a with _ | ⟨c, a⟩
      · rw [List.append_nil] at ha
        rw [List.nil_append] at hhit ⊢
        rw [pass_quiet (hr.quiet before b ha hb hhit)]
        exact ⟨[], _, rfl, Kept.refl _, (hr.mild.pass _ b).behind⟩
      · rw [List.cons_append] at hhit ⊢
        rw [pass_none hhit]
        refine (ih a.length ?_ (c :: before) ?_ rfl).front (u := [c]) (Kept.refl _)
        · rw [← hn, List.length_cons]
          exact Nat.lt_succ_self _
        · rwa [List.reverse_cons, List.append_assoc]
    · have hne : a ++ (x ++ b) ≠ [] := by simp [hx]
      rw [pass_found (k := hit.extra + 1) (Nat.succ_pos _) hne hhit]
      rcases hr.hit before a b hit ha hb hhit with hshort | ⟨u, v, b₁, b₂, rfl, hlength, htext, hu, hv⟩
      · -- the hit ends in front of the operand
        have hmild := (hr.mild before _ hit hhit).before
        have hsplit := List.take_append_drop (hit.extra + 1) a
        rw [List.take_append_of_le_length hshort] at hmild ⊢
        rw [List.drop_append_of_le_length hshort]
        have hrest := ih (a.drop (hit.extra + 1)).length
          (by rw [← hn, List.length_drop]; omega)
          ((a.take (hit.extra + 1)).reverse ++ before)
          (by rwa [List.reverse_append, List.reverse_reverse, List.append_assoc, hsplit]) rfl
        rw [← hsplit]
        have hstands := hrest.front hmild
        rwa [hsplit] at hstands ⊢
      · -- the hit takes the operand with it
        have hwhole : a ++ (x ++ (b₁ ++ b₂)) = a ++ (x ++ b₁) ++ b₂ := by simp
        rw [hlength, hwhole, List.drop_left, htext]
        generalize (List.take _ _).reverse ++ before = passed
        exact ⟨u, v ++ r.pass 0 passed b₂, by simp, hu, hv.append (hr.mild.pass passed b₂).behind⟩

theorem Spares.apply (hr : r.Spares x) (hx : x ≠ []) : Formula.Spares x r.apply :=
  fun _ _ ha hb => hr.pass hx [] ha hb

end Rule

end InitialValue.Formula
