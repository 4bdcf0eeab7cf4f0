/-
  The tokens of a phrase, and single steps of the reader.

  `Phrase.tokens` are the tokens of the normal text of a phrase; what they start with decides where
  the reader goes.  What may come behind a phrase is said by `Ends`: the end of an item, or an
  operator that binds at most as tightly as the phrase does.
-/
import InitialValue.Proofs.Formula.Cutting

namespace InitialValue.Formula

/-! ## The tokens of a phrase -/

namespace Phrase

/-- The tokens of the normal text of a phrase. -/
def tokens (p : Phrase) : List Token := (p.lexemes.map Lexeme.normal).flatMap Lexeme.tokens

theorem tokens_append (xs ys : List Lexeme) :
    ((xs ++ ys).map Lexeme.normal).flatMap Lexeme.tokens =
      (xs.map Lexeme.normal).flatMap Lexeme.tokens ++
        (ys.map Lexeme.normal).flatMap Lexeme.tokens := by
  rw [List.map_append, List.flatMap_append]

theorem tokens_cons (l : Lexeme) (ls : List Lexeme) :
    ((l :: ls).map Lexeme.normal).flatMap Lexeme.tokens =
      l.normal.tokens ++ (ls.map Lexeme.normal).flatMap Lexeme.tokens := rfl

theorem tokens_name (w : Name) : (name w).tokens = [.name w.settled] := rfl

theorem tokens_call (f : FunctionName) (g : Gap) (args : Phrase) (g' : Gap) :
    (call f g args g').tokens = .name f.val :: .mark "(" :: (args.tokens ++ [.mark ")"]) :=
  congrArg (fun ts => Token.name f.val :: Token.mark "(" :: ts) (tokens_append args.lexemes [.closing])

theorem tokens_bare (f : FunctionName) (g : Gap) :
    (bare f g).tokens = [.name f.val, .mark "(", .mark ")"] := rfl

theorem tokens_group (g : Gap) (p : Phrase) (g' : Gap) :
    (group g p g').tokens = .mark "(" :: (p.tokens ++ [.mark ")"]) :=
  congrArg (fun ts => Token.mark "(" :: ts) (tokens_append p.lexemes [.closing])

theorem tokens_power (b : Phrase) (g : Gap) (doubled : Bool) (g' : Gap) (e : Phrase) :
    (power b g doubled g' e).tokens = b.tokens ++ .mark "**" :: e.tokens :=
  tokens_append b.lexemes (.power doubled :: e.lexemes)

theorem tokens_minus (g : Gap) (p : Phrase) : (minus g p).tokens = .mark "-" :: p.tokens := rfl

theorem tokens_binary (op : Arith) (x : Phrase) (g g' : Gap) (y : Phrase) :
    (binary op x g g' y).tokens = x.tokens ++ op.token :: y.tokens :=
  tokens_append x.lexemes (.arith op :: y.lexemes)

theorem tokens_joint (x y : Phrase) :
    (joint x y).tokens = x.tokens ++ Arith.mul.token :: y.tokens :=
  tokens_append x.lexemes (.joint x.seam :: y.lexemes)

theorem tokens_comma (x : Phrase) (g g' : Gap) (y : Phrase) :
    (comma x g g' y).tokens = x.tokens ++ .mark "," :: y.tokens :=
  tokens_append x.lexemes (.comma :: y.lexemes)

/-- What the tokens of an operand start with. -/
def IsOperandHead (t : Token) : Prop := (∃ l, t = .number l) ∨ (∃ s, t = .name s) ∨ t = .mark "("

/-- The first token of a phrase. -/
theorem tokens_head (p : Phrase) (hp : p.proper = true) : ∃ t ts, p.tokens = t :: ts ∧
    (IsOperandHead t ∨ t = .mark "-") ∧ (5 ≤ p.strength → IsOperandHead t) := by
  obtain ⟨l, ls, hls, hstarts, hjoins, -⟩ := p.first hp
  unfold tokens
  rw [hls, tokens_cons]
  cases l with
  | number n => exact ⟨_, _, rfl, Or.inl (Or.inl ⟨_, rfl⟩), fun _ => Or.inl ⟨_, rfl⟩⟩
  | name w =>
    exact ⟨_, _, rfl, Or.inl (Or.inr (Or.inl ⟨_, rfl⟩)), fun _ => Or.inr (Or.inl ⟨_, rfl⟩)⟩
  | call f =>
    exact ⟨_, _, rfl, Or.inl (Or.inr (Or.inl ⟨_, rfl⟩)), fun _ => Or.inr (Or.inl ⟨_, rfl⟩)⟩
  | opening => exact ⟨_, _, rfl, Or.inl (Or.inr (Or.inr rfl)), fun _ => Or.inr (Or.inr rfl)⟩
  | arith op =>
    cases op with
    | sub => exact ⟨_, _, rfl, Or.inr rfl, fun h => by cases hjoins h⟩
    | _ => cases hstarts
  | _ => cases hstarts

end Phrase

/-! ## What comes behind -/

/-- No call and no index comes behind. -/
def NoTrailer (ts : List Token) : Prop :=
  ts.head? ≠ some (.mark "(") ∧ ts.head? ≠ some (.mark "[")

/-- Behind stands the end of an item, or an operator that binds at most this tightly. -/
def Ends (k : Nat) (ts : List Token) : Prop :=
  ∀ t, ts.head? = some t → t = .mark ")" ∨ t = .mark "," ∨ ∃ op : Arith, t = op.token ∧ op.strength ≤ k

theorem Ends.mono {k m : Nat} {ts : List Token} (h : Ends k ts) (hkm : k ≤ m) : Ends m ts :=
  fun t ht => (h t ht).imp_right (Or.imp_right fun ⟨op, hop, hk⟩ => ⟨op, hop, Nat.le_trans hk hkm⟩)

theorem Ends.head_ne {k : Nat} {ts : List Token} (h : Ends k ts) {m : String}
    (hm : m ∉ [")", ",", "+", "-", "*", "/"]) : ts.head? ≠ some (.mark m) := by
  intro hhead
  rcases h _ hhead with heq | heq | ⟨op, heq, -⟩
  · cases heq
    exact hm (by decide)
  · cases heq
    exact hm (by decide)
  · cases op <;> cases heq <;> exact hm (by decide)

theorem Ends.noTrailer {k : Nat} {ts : List Token} (h : Ends k ts) : NoTrailer ts :=
  ⟨h.head_ne (by decide), h.head_ne (by decide)⟩

theorem ends_close (k : Nat) (ts : List Token) : Ends k (.mark ")" :: ts) := by
  intro t ht
  cases ht
  exact Or.inl rfl

theorem ends_comma (k : Nat) (ts : List Token) : Ends k (.mark "," :: ts) := by
  intro t ht
  cases ht
  exact Or.inr (Or.inl rfl)

theorem ends_operator {op : Arith} {k : Nat} (h : op.strength ≤ k) (ts : List Token) :
    Ends k (op.token :: ts) := by
  intro t ht
  cases ht
  exact Or.inr (Or.inr ⟨op, rfl, h⟩)

/-! ## Single steps of the reader -/

namespace Expr

theorem readTrailers_stop {ts : List Token} (h : NoTrailer ts) (fuel : Nat) (x : Expr) :
    readTrailers (fuel + 1) x ts = some (x, ts) := by
  unfold readTrailers
  split
  · exact absurd rfl h.1
  · exact absurd rfl h.2
  · rfl

theorem readOperators_stop {k s : Nat} {ts : List Token} (h : Ends k ts) (hs : k + 5 < s ∨ ∀ t,
      ts.head? = some t → t = .mark ")" ∨ t = .mark ",") (fuel : Nat) (x : Expr) :
    readOperators (fuel + 1) s x ts = some (x, ts) := by
  rcases ts with _ | ⟨t, ts⟩
  · rfl
  · have hcases : t = .mark ")" ∨ t = .mark "," ∨
        ∃ op : Arith, t = op.token ∧ op.strength + 5 < s := by
      rcases hs with hs | hs
      · exact (h t rfl).imp_right (Or.imp_right fun ⟨op, hop, hk⟩ => ⟨op, hop, by omega⟩)
      · exact (hs t rfl).imp_right Or.inl
    rcases hcases with rfl | rfl | ⟨op, rfl, hop⟩
    · rfl
    · rfl
    · have hstop : readOperators (fuel + 1) s x (op.token :: ts) =
          if s ≤ op.strength + 5 then
            (read fuel (op.strength + 5 + 1) ts).bind fun p =>
              readOperators fuel s (.binary op.operator x p.1) p.2
          else some (x, op.token :: ts) := by cases op <;> rfl
      rw [hstop, if_neg (by omega)]

theorem readOperators_step {op : Arith} {s : Nat} (hs : s ≤ op.strength + 5) (fuel : Nat) (x : Expr)
    (ts : List Token) : readOperators (fuel + 1) s x (op.token :: ts) =
      (read fuel (op.strength + 6) ts).bind fun p =>
        readOperators fuel s (.binary op.operator x p.1) p.2 := by
  have hstep : readOperators (fuel + 1) s x (op.token :: ts) =
      if s ≤ op.strength + 5 then
        (read fuel (op.strength + 5 + 1) ts).bind fun p =>
          readOperators fuel s (.binary op.operator x p.1) p.2
      else some (x, op.token :: ts) := by cases op <;> rfl
  rw [hstep, if_pos hs]

theorem readSigned_operand {t : Token} (h : Phrase.IsOperandHead t) (fuel : Nat) (ts : List Token) :
    readSigned (fuel + 1) (t :: ts) = readPower fuel (t :: ts) := by
  rcases h with ⟨l, rfl⟩ | ⟨s, rfl⟩ | rfl <;> rfl

theorem readSigned_minus (fuel : Nat) (ts : List Token) :
    readSigned (fuel + 1) (.mark "-" :: ts) =
      (readSigned fuel ts).bind fun p => some (.signed .minus p.1, p.2) := rfl

theorem readPower_eq (fuel : Nat) (ts : List Token) :
    readPower (fuel + 1) ts =
      ((readAtom fuel ts).bind fun p => readTrailers fuel p.1 p.2).bind fun q =>
        match q.2 with
        | .mark "**" :: rest =>
          (readSigned fuel rest).bind fun r => some (.binary .power q.1 r.1, r.2)
        | rest => some (q.1, rest) := by
  rw [readPower]
  cases readAtom fuel ts with
  | none => rfl
  | some p =>
    show (readTrailers fuel p.1 p.2).bind _ = (readTrailers fuel p.1 p.2).bind _
    rfl

theorem readItems_item {t : Token} (h : t ≠ .mark ")") (fuel : Nat) (ts : List Token) :
    readItems (fuel + 1) ")" (t :: ts) = readItem fuel ")" (t :: ts) := by
  unfold readItems
  split
  · rename_i m rest heq
    obtain ⟨rfl, rfl⟩ := List.cons.inj heq
    rw [if_neg]
    intro hm
    rw [beq_iff_eq.mp hm] at h
    exact h rfl
  · rfl

end Expr

end InitialValue.Formula
