/-
  One pass over a text that is put together from pieces.

  A pass goes from left to right, so it can be followed piece by piece: over a piece where the rule
  does not apply the pass writes the piece again (`pass_quiet`), and over a piece that is one hit it
  writes the replacement (`pass_hit`).  Either way it comes out at the end of the piece, with the
  piece among the characters before it.  A rule that only starts at certain characters is quiet on
  all others (`pass_ignored`).
-/
import InitialValue.Formula.Substitution
import Mathlib.Data.List.Basic

namespace InitialValue.Formula.Rule

variable {r : Rule}

@[simp]
theorem pass_nil (n : Nat) (before : List Char) : r.pass n before [] = [] := by
  cases n <;> rfl

/-- Characters of an earlier hit are passed over. -/
theorem pass_skip (xs rest before : List Char) :
    r.pass xs.length before (xs ++ rest) = r.pass 0 (xs.reverse ++ before) rest := by
  induction xs generalizing before with
  | nil => rfl
  | cons x xs ih =>
    rw [List.length_cons, List.cons_append]
    show r.pass xs.length (x :: before) (xs ++ rest) = _
    rw [ih, List.reverse_cons, List.append_assoc]
    rfl

/-- **Over a hit**, the pass writes the replacement. -/
theorem pass_hit {before : List Char} {c : Char} {xs rest text : List Char}
    (h : r before (c :: (xs ++ rest)) = some ⟨xs.length, text⟩) :
    r.pass 0 before (c :: (xs ++ rest)) =
      text ++ r.pass 0 ((c :: xs).reverse ++ before) rest := by
  have hpass : r.pass 0 before (c :: (xs ++ rest)) =
      text ++ r.pass xs.length (c :: before) (xs ++ rest) := by
    rw [pass, h]
  rw [hpass, pass_skip, List.reverse_cons, List.append_assoc]
  rfl

/-- Characters of an earlier hit are passed over, as many as there are. -/
theorem pass_drop (n : Nat) (before cs : List Char) :
    r.pass n before cs = r.pass 0 ((cs.take n).reverse ++ before) (cs.drop n) := by
  induction cs generalizing n before with
  | nil => simp
  | cons c cs ih =>
    cases n with
    | zero => rfl
    | succ n =>
      rw [List.take_succ_cons, List.drop_succ_cons, List.reverse_cons, List.append_assoc]
      exact ih n (c :: before)

/-- **Over a hit of some length**, the pass writes the replacement and goes on behind it. -/
theorem pass_found {before cs text : List Char} {k : Nat} (hk : 1 ≤ k) (hcs : cs ≠ [])
    (h : r before cs = some ⟨k - 1, text⟩) :
    r.pass 0 before cs = text ++ r.pass 0 ((cs.take k).reverse ++ before) (cs.drop k) := by
  obtain ⟨c, rest, rfl⟩ := List.exists_cons_of_ne_nil hcs
  obtain ⟨k, rfl⟩ := Nat.exists_eq_add_of_le' hk
  rw [Nat.add_sub_cancel] at h
  have hpass : r.pass 0 before (c :: rest) = text ++ r.pass k (c :: before) rest := by
    rw [pass, h]
  rw [hpass, pass_drop, List.take_succ_cons, List.drop_succ_cons, List.reverse_cons,
    List.append_assoc]
  rfl

theorem pass_none {before : List Char} {c : Char} {rest : List Char}
    (h : r before (c :: rest) = none) :
    r.pass 0 before (c :: rest) = c :: r.pass 0 (c :: before) rest := by
  rw [pass, h]

/-- **Over a piece where the rule applies nowhere**, the pass writes the piece. -/
theorem pass_quiet {xs before rest : List Char}
    (h : ∀ pre c post, xs = pre ++ c :: post →
      r (pre.reverse ++ before) (c :: (post ++ rest)) = none) :
    r.pass 0 before (xs ++ rest) = xs ++ r.pass 0 (xs.reverse ++ before) rest := by
  induction xs generalizing before with
  | nil => rfl
  | cons x xs ih =>
    have hx : r before (x :: (xs ++ rest)) = none := h [] x xs rfl
    rw [List.cons_append, pass_none hx, ih]
    · rw [List.reverse_cons, List.append_assoc]
      rfl
    · intro pre c post hxs
      have hcons := h (x :: pre) c post (by rw [hxs]; rfl)
      rw [List.reverse_cons, List.append_assoc] at hcons
      exact hcons

/-- Where the rule applies nowhere in a text, the pass leaves the text as it is. -/
theorem pass_quiet_end {xs before : List Char} (h : ∀ pre c post, xs = pre ++ c :: post →
    r (pre.reverse ++ before) (c :: post) = none) : r.pass 0 before xs = xs := by
  have hpass : r.pass 0 before (xs ++ []) = xs ++ r.pass 0 (xs.reverse ++ before) [] := by
    refine pass_quiet fun pre c post hsplit => ?_
    rw [List.append_nil]
    exact h pre c post hsplit
  rwa [List.append_nil, pass_nil, List.append_nil] at hpass

/-- **Over a piece whose characters stop the rule behind them**, the pass writes the piece if the
    rule does not apply at its front. -/
theorem pass_behind {k : Char → Bool} (hr : ∀ d before cs, k d = true → r (d :: before) cs = none)
    {xs before rest : List Char} (hxs : ∀ c ∈ xs, k c = true) (h : r before (xs ++ rest) = none) :
    r.pass 0 before (xs ++ rest) = xs ++ r.pass 0 (xs.reverse ++ before) rest := by
  refine pass_quiet fun pre c post hsplit => ?_
  rcases List.eq_nil_or_concat pre with rfl | ⟨front, d, rfl⟩
  · rw [hsplit] at h
    exact h
  · rw [List.concat_eq_append, List.reverse_append]
    exact hr d _ _ (hxs d (by rw [hsplit]; simp))

/-- The number of hits of a pass. -/
def hitsFrom (r : Rule) : Nat → List Char → List Char → Nat
  | _, _, [] => 0
  | n + 1, before, c :: rest => hitsFrom r n (c :: before) rest
  | 0, before, c :: rest =>
    match r before (c :: rest) with
    | some hit => hitsFrom r hit.extra (c :: before) rest + 1
    | none => hitsFrom r 0 (c :: before) rest

/-- The number of hits of a pass over a whole text. -/
def hits (r : Rule) (cs : List Char) : Nat := r.hitsFrom 0 [] cs

/-- **Induction along a pass**: what holds of nothing, goes on over a character, and goes on over a
    hit of the rule, holds of the number of hits, a text and what the pass makes of it. -/
theorem hits_induction {R : Nat → List Char → List Char → Prop} (nil : R 0 [] [])
    (keep : ∀ c k cs out, R k cs out → R k (c :: cs) (c :: out))
    (hit : ∀ before cs (h : Hit) k out, r before cs = some h →
      R k (cs.drop (h.extra + 1)) out → R (k + 1) cs (h.text ++ out))
    (n : Nat) (before cs : List Char) :
    R (r.hitsFrom n before cs) (cs.drop n) (r.pass n before cs) := by
  induction cs generalizing n before with
  | nil =>
    rw [List.drop_nil, pass_nil, hitsFrom]
    exact nil
  | cons c cs ih =>
    cases n with
    | succ n => exact ih n (c :: before)
    | zero =>
      rcases hrule : r before (c :: cs) with _ | h
      · rw [pass_none hrule, hitsFrom, hrule]
        exact keep c _ cs _ (ih 0 (c :: before))
      · have hpass : r.pass 0 before (c :: cs) = h.text ++ r.pass h.extra (c :: before) cs := by
          rw [pass, hrule]
        rw [hpass, hitsFrom, hrule]
        exact hit before (c :: cs) h _ _ hrule (ih h.extra (c :: before))

/-- Induction along a pass whose hits are not counted. -/
theorem pass_induction {R : List Char → List Char → Prop} (nil : R [] [])
    (keep : ∀ c cs out, R cs out → R (c :: cs) (c :: out))
    (hit : ∀ before cs (h : Hit) out, r before cs = some h → R (cs.drop (h.extra + 1)) out →
      R cs (h.text ++ out)) (n : Nat) (before cs : List Char) :
    R (cs.drop n) (r.pass n before cs) :=
  hits_induction (R := fun _ => R) nil (fun c _ => keep c)
    (fun before cs h _ => hit before cs h) n before cs

/-- The rule never starts at a character. -/
def Ignores (r : Rule) (c : Char) : Prop := ∀ before rest, r before (c :: rest) = none

/-- Over characters that the rule never starts at, the pass writes them again. -/
theorem pass_ignored {xs : List Char} (h : ∀ c ∈ xs, r.Ignores c) (before rest : List Char) :
    r.pass 0 before (xs ++ rest) = xs ++ r.pass 0 (xs.reverse ++ before) rest := by
  refine pass_quiet fun pre c post hxs => h c ?_ _ _
  rw [hxs]
  exact List.mem_append_right _ List.mem_cons_self

theorem pass_ignored_end {xs : List Char} (h : ∀ c ∈ xs, r.Ignores c) (before : List Char) :
    r.pass 0 before xs = xs := by
  refine pass_quiet_end fun pre c post hxs => h c ?_ _ _
  rw [hxs]
  exact List.mem_append_right _ List.mem_cons_self

/-- Where the rule applies nowhere in a piece, it is looked for behind the piece. -/
theorem findFrom?_append {xs before rest : List Char}
    (h : ∀ pre c post, xs = pre ++ c :: post →
      r (pre.reverse ++ before) (c :: (post ++ rest)) = none) :
    r.findFrom? before (xs ++ rest) = r.findFrom? (xs.reverse ++ before) rest := by
  induction xs generalizing before with
  | nil => rfl
  | cons x xs ih =>
    have hx : r before (x :: (xs ++ rest)) = none := h [] x xs rfl
    rw [List.cons_append, findFrom?, hx]
    dsimp only
    rw [ih, List.reverse_cons, List.append_assoc]
    · rfl
    · intro pre c post hxs
      have hcons := h (x :: pre) c post (by rw [hxs]; rfl)
      rw [List.reverse_cons, List.append_assoc] at hcons
      exact hcons

end InitialValue.Formula.Rule
