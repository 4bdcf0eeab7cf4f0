/-
  Stars between pieces.

  The rules that write stars look at a piece and at the first character of the next one, whatever
  blanks stand between them.  Such a rule `Weaves`: on the pieces of a text its pass puts a star
  wherever two neighbours ask for one (`weave`), and where no two do, it writes the text again
  (`Weaves.pass`).  So once the stars are written, nothing asks for one any more (`calm_weave`),
  also in any other text of the same pieces.
-/
import InitialValue.Proofs.Formula.Ink

namespace InitialValue.Formula

open InitialValue.Text

/-! ## Neighbours -/

/-- What asks for a star: a piece, and the first character of the one behind it. -/
abbrev Link := List Char → Char → Bool

/-- Does a piece ask for a star in front of the pieces behind it? -/
def Link.asks (p : Link) (x : List Char) (ws : List (List Char)) : Bool :=
  (ws.head?.bind List.head?).any (p x)

/-- Puts stars where they are asked for. -/
def weave (p : Link) : List (List Char) → List (List Char)
  | [] => []
  | x :: ws => if p.asks x ws then x :: ['*'] :: weave p ws else x :: weave p ws

/-- No piece asks for a star. -/
def Calm (p : Link) : List (List Char) → Prop
  | [] => True
  | x :: ws => p.asks x ws = false ∧ Calm p ws

variable {p q : Link}

theorem Link.asks_iff {x : List Char} {ws : List (List Char)} :
    p.asks x ws = true ↔ ∃ c, ws.head?.bind List.head? = some c ∧ p x c = true :=
  Option.any_eq_true _ _

theorem asks_weave (q p : Link) (x : List Char) (ws : List (List Char)) :
    q.asks x (weave p ws) = q.asks x ws := by
  cases ws with
  | nil => rfl
  | cons y ws =>
    rw [weave]
    split <;> rfl

/-- Who asks for less is calm sooner. -/
theorem Calm.mono {ws : List (List Char)} (h : Calm q ws)
    (hpq : ∀ x c, p x c = true → q x c = true) : Calm p ws := by
  induction ws with
  | nil => trivial
  | cons x ws ih =>
    refine ⟨?_, ih h.2⟩
    rw [Bool.eq_false_iff]
    intro hasks
    obtain ⟨c, hc, hp⟩ := Link.asks_iff.mp hasks
    have hq : q.asks x ws = true := Link.asks_iff.mpr ⟨c, hc, hpq x c hp⟩
    rw [h.1] at hq
    cases hq

/-- Where two links ask for a star in the same places, there is calm between them. -/
theorem calm_never (ws : List (List Char)) : Calm (fun _ _ => false) ws := by
  induction ws with
  | nil => trivial
  | cons x ws ih =>
    refine ⟨?_, ih⟩
    unfold Link.asks
    cases ws.head?.bind List.head? <;> rfl

/-- **Stars bring calm** for whoever asks for them only where they are put, and for none beside
    them. -/
theorem calm_weave (hstar : ∀ x c, p x c = true → q x '*' = false ∧ q ['*'] c = false)
    {ws : List (List Char)} (h : Calm (fun x c => q x c && !p x c) ws) : Calm q (weave p ws) := by
  induction ws with
  | nil => trivial
  | cons x ws ih =>
    rw [weave]
    by_cases hasks : p.asks x ws = true
    · obtain ⟨c, hc, hp⟩ := Link.asks_iff.mp hasks
      rw [if_pos hasks]
      refine ⟨(hstar x c hp).1, ?_, ih h.2⟩
      rw [asks_weave, Link.asks, hc]
      exact (hstar x c hp).2
    · rw [if_neg hasks]
      refine ⟨?_, ih h.2⟩
      rw [asks_weave, Bool.eq_false_iff]
      intro hq
      obtain ⟨c, hc, hq⟩ := Link.asks_iff.mp hq
      have hp : p x c = false := by
        rw [Bool.eq_false_iff]
        exact fun hp => hasks (Link.asks_iff.mpr ⟨c, hc, hp⟩)
      have hboth : Link.asks (fun x c => q x c && !p x c) x ws = true :=
        Link.asks_iff.mpr ⟨c, hc, by rw [hq, hp]; rfl⟩
      rw [h.1] at hboth
      cases hboth

/-! ## Rules that weave -/

/-- A piece at its place in a text: a mark, or a run of solid characters between others. -/
inductive PieceAt (before : List Char) : List Char → List Char → Prop
  | mark {c : Char} {cs : List Char} (hblank : isBlank c = false) (hsolid : isSolid c = false) :
      PieceAt before [c] cs
  | run {w cs : List Char} (hne : w ≠ []) (hw : ∀ c ∈ w, isSolid c = true)
      (hbefore : StopsAt isSolid before) (hcs : StopsAt isSolid cs) : PieceAt before w cs

/-- A rule that writes a star behind a piece where the piece asks for one. -/
structure Weaves (r : Rule) (p : Link) : Prop where
  blank : ∀ c, isBlank c = true → r.Ignores c
  keep : ∀ {before x cs}, PieceAt before x cs → (skipBlanks cs).head?.any (p x) = false →
    r.pass 0 before (x ++ cs) = x ++ r.pass 0 (x.reverse ++ before) cs
  sew : ∀ {before x g tail} {c : Char}, PieceAt before x (g ++ c :: tail) →
    (∀ d ∈ g, isBlank d = true) → p x c = true → r.pass 0 before (x ++ (g ++ c :: tail)) =
      x ++ '*' :: r.pass 0 (g.reverse ++ (x.reverse ++ before)) (c :: tail)

variable {before x cs : List Char}

theorem PieceAt.ne (h : PieceAt before x cs) : x ≠ [] := by
  cases h with
  | mark => exact List.cons_ne_nil _ _
  | run hne => exact hne

theorem PieceAt.cut (h : PieceAt before x cs) : cut (x ++ cs) = x :: cut cs := by
  cases h with
  | mark hblank hsolid => exact cut_mark hblank hsolid _
  | run hne hw _ hcs => exact cut_run hne hw hcs

/-- A piece stays one in front of another text that does not go on with it. -/
theorem PieceAt.imp (h : PieceAt before x cs) {cs' : List Char}
    (hstop : StopsAt isSolid cs → StopsAt isSolid cs') : PieceAt before x cs' := by
  cases h with
  | mark hblank hsolid => exact .mark hblank hsolid
  | run hne hw hbefore hcs => exact .run hne hw hbefore (hstop hcs)

/-- What a weaving pass makes of a text. -/
structure Woven (p : Link) (cs out : List Char) : Prop where
  cut : cut out = weave p (cut cs)
  calm : Calm p (Formula.cut cs) → out = cs
  head : out.head? = cs.head?

theorem asks_cut (p : Link) (x cs : List Char) :
    p.asks x (cut cs) = (skipBlanks cs).head?.any (p x) := by
  rw [head_skipBlanks]
  rfl

/-- Over a piece, a weaving pass goes on as it does behind it. -/
theorem Weaves.step {r : Rule} (hr : Weaves r p) (h : PieceAt before x cs)
    (hrest : Woven p cs (r.pass 0 (x.reverse ++ before) cs)) :
    Woven p (x ++ cs) (r.pass 0 before (x ++ cs)) := by
  obtain ⟨d, x', rfl⟩ := List.exists_cons_of_ne_nil h.ne
  by_cases hasks : p.asks (d :: x') (cut cs) = true
  · -- blanks, and the character that the star is asked for in front of
    obtain ⟨c, hc, hp⟩ := Link.asks_iff.mp hasks
    rw [← head_skipBlanks] at hc
    obtain ⟨tail, htail⟩ := List.head?_eq_some_iff.mp hc
    obtain ⟨g, hg, hcs⟩ := exists_gap cs
    rw [htail] at hcs
    subst hcs
    have hcut := hrest.cut
    rw [Rule.pass_ignored fun d hd => hr.blank d (hg d hd), cut_gap hg] at hcut
    rw [hr.sew h hg hp]
    refine ⟨?_, fun hcalm => ?_, rfl⟩
    · have hstar : PieceAt before (d :: x') ('*' :: r.pass 0 (g.reverse ++
          ((d :: x').reverse ++ before)) (c :: tail)) := h.imp fun _ => stopsAt_cons (by decide)
      rw [hstar.cut, cut_mark (by decide) (by decide), hcut, h.cut, weave, if_pos hasks]
    · rw [h.cut] at hcalm
      rw [hcalm.1] at hasks
      cases hasks
  · have hkeep := hr.keep h (by rw [← asks_cut]; exact Bool.eq_false_iff.mpr hasks)
    have hpiece : PieceAt before (d :: x') (r.pass 0 ((d :: x').reverse ++ before) cs) :=
      h.imp fun hstop e he => hstop e (by rwa [← hrest.head])
    rw [hkeep]
    refine ⟨?_, fun hcalm => ?_, rfl⟩
    · rw [hpiece.cut, h.cut, weave, if_neg hasks, hrest.cut]
    · rw [h.cut] at hcalm
      rw [hrest.calm hcalm.2]

/-- **A weaving pass** puts stars where they are asked for, and changes nothing where none is. -/
theorem Weaves.pass {r : Rule} (hr : Weaves r p) (cs before : List Char)
    (h : StopsAt isSolid before ∨ StopsAt isSolid cs) : Woven p cs (r.pass 0 before cs) := by
  induction cs using runs_induction isSolid generalizing before with
  | nil => exact ⟨rfl, fun _ => rfl, rfl⟩
  | other c cs hc ih =>
    have hrest := ih (c :: before) (Or.inl (stopsAt_cons hc))
    by_cases hblank : isBlank c = true
    · rw [Rule.pass_none (hr.blank c hblank _ _)]
      refine ⟨?_, fun hcalm => ?_, rfl⟩
      · rw [cut_blank hblank, cut_blank hblank, hrest.cut]
      · rw [cut_blank hblank] at hcalm
        rw [hrest.calm hcalm]
    · exact hr.step (.mark (Bool.eq_false_iff.mpr hblank) hc) hrest
  | run w cs hne hw hcs ih =>
    have hbefore : StopsAt isSolid before := h.resolve_right (not_stopsAt_run hne hw)
    exact hr.step (.run hne hw hbefore hcs) (ih _ (Or.inr hcs))

end InitialValue.Formula
