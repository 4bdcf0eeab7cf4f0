/-
  Lexemes: the pieces that the text of a phrase is put together from.

  Once powers are spelled, every pass over formula text looks at single pieces and at what stands
  next to them.  So the passes are followed on the list of pieces and not on the phrase:

  * `Phrase.lexemes` — the pieces of a phrase; the place between two factors without a sign is a
    piece of its own, which has no text (`Lexeme.joint`);
  * `Spells ok ls cs` — the text is made of the pieces with blanks of some kind around them;
  * `Lexeme.fits` — which piece may stand behind which one.  The pieces of a proper phrase fit
    (`Phrase.chain`), and from that comes what a pass finds next to a piece (`Room`).
-/
import InitialValue.Proofs.Formula.Powers
import Mathlib.Data.List.Chain

namespace InitialValue.Formula

open InitialValue.Text

/-! ## Lexemes -/

/-- How a factor ends that has no sign behind it. -/
inductive Seam where
  | name
  | number
  | bracket
  deriving DecidableEq

/-- A piece of formula text. -/
inductive Lexeme where
  | number (n : Numeral)
  | name (w : Name)
  /-- the name of a function and the bracket behind it -/
  | call (f : FunctionName)
  | opening
  | closing
  | comma
  | arith (op : Arith)
  | power (doubled : Bool)
  /-- the place between two factors without a sign -/
  | joint (s : Seam)

namespace Lexeme

/-- How a lexeme is written. -/
def text : Lexeme → List Char
  | number n => n.text
  | name w => w.text
  | call f => f.val.toList ++ ['(']
  | opening => ['(']
  | closing => [')']
  | comma => [',']
  | arith op => [op.mark]
  | power doubled => powerSign doubled
  | joint _ => []

/-- May a phrase start with the lexeme? -/
def starts : Lexeme → Bool
  | number _ => true
  | name _ => true
  | call _ => true
  | opening => true
  | arith op => op == .sub
  | _ => false

/-- May a phrase end with the lexeme, such that a seam of the kind comes next? -/
def endsAt : Lexeme → Seam → Bool
  | number _, .number => true
  | name _, .name => true
  | closing, .bracket => true
  | _, _ => false

/-- May a seam of the kind come next?  Not behind a number that no bracket can be put to. -/
def leaves : Lexeme → Seam → Bool
  | number n, .number => !n.grouped
  | name _, .name => true
  | closing, .bracket => true
  | _, _ => false

/-- May the lexeme stand behind a seam of the kind? -/
def joins : Lexeme → Seam → Bool
  | opening, _ => true
  | number _, s => s == .bracket
  | name _, s => s == .bracket
  | call _, s => s == .bracket
  | _, _ => false

/-- May a phrase end with the lexeme? -/
def ends : Lexeme → Bool
  | number _ => true
  | name _ => true
  | closing => true
  | _ => false

/-- May the lexeme stand behind a phrase? -/
def follows : Lexeme → Bool
  | closing => true
  | comma => true
  | arith _ => true
  | power _ => true
  | _ => false

/-- May the second lexeme stand behind the first? -/
def fits : Lexeme → Lexeme → Bool
  | joint s, b => b.joins s
  | number n, joint s => leaves (number n) s
  | name w, joint s => leaves (name w) s
  | closing, joint s => leaves closing s
  | call _, closing => true
  | a, b => if a.ends then b.follows else b.starts

end Lexeme

/-! ## Texts of lexemes -/

/-- `Spells ok ls cs` — the text consists of the lexemes, with blanks of a kind around them. -/
inductive Spells (ok : Char → Bool) : List Lexeme → List Char → Prop
  | nil {g : List Char} : (∀ c ∈ g, ok c = true) → Spells ok [] g
  | cons {g : List Char} {l : Lexeme} {ls : List Lexeme} {cs : List Char} :
      (∀ c ∈ g, ok c = true) → Spells ok ls cs → Spells ok (l :: ls) (g ++ (l.text ++ cs))

namespace Spells

variable {ok : Char → Bool} {ls ls' : List Lexeme} {cs cs' : List Char}

theorem gap {g : List Char} (hg : ∀ c ∈ g, ok c = true) (h : Spells ok ls cs) :
    Spells ok ls (g ++ cs) := by
  cases h with
  | nil hcs => exact .nil fun c hc => (List.mem_append.mp hc).elim (hg c) (hcs c)
  | cons hg' h =>
    rw [← List.append_assoc]
    exact .cons (fun c hc => (List.mem_append.mp hc).elim (hg c) (hg' c)) h

theorem piece (l : Lexeme) (h : Spells ok ls cs) : Spells ok (l :: ls) (l.text ++ cs) := by
  rw [← List.nil_append (l.text ++ cs)]
  exact .cons (fun _ hc => by cases hc) h

theorem append (h : Spells ok ls cs) (h' : Spells ok ls' cs') :
    Spells ok (ls ++ ls') (cs ++ cs') := by
  induction h with
  | nil hg => exact h'.gap hg
  | cons hg _ ih =>
    rw [List.append_assoc, List.append_assoc]
    exact .cons hg ih

theorem none : Spells ok [] [] := .nil fun _ hc => by cases hc

end Spells

/-! ## The lexemes of a phrase -/

namespace Phrase

/-- How the text of a phrase ends. -/
def seam : Phrase → Seam
  | number _ => .number
  | name _ => .name
  | call _ _ _ _ => .bracket
  | bare _ _ => .bracket
  | group _ _ _ => .bracket
  | power _ _ _ _ e => e.seam
  | minus _ p => p.seam
  | binary _ _ _ _ y => y.seam
  | joint _ y => y.seam
  | comma _ _ _ y => y.seam

/-- The lexemes of a phrase. -/
def lexemes : Phrase → List Lexeme
  | number n => [.number n]
  | name w => [.name w]
  | call f _ args _ => .call f :: (args.lexemes ++ [.closing])
  | bare f _ => [.call f, .closing]
  | group _ p _ => .opening :: (p.lexemes ++ [.closing])
  | power b _ doubled _ e => b.lexemes ++ .power doubled :: e.lexemes
  | minus _ p => .arith .sub :: p.lexemes
  | binary op x _ _ y => x.lexemes ++ .arith op :: y.lexemes
  | joint x y => x.lexemes ++ .joint x.seam :: y.lexemes
  | comma x _ _ y => x.lexemes ++ .comma :: y.lexemes

/-- **The text of a phrase consists of its lexemes.** -/
theorem spells (p : Phrase) : Spells isBlank p.lexemes p.text := by
  induction p with
  | number n =>
    rw [text, ← List.append_nil n.text]
    exact Spells.none.piece (.number n)
  | name w =>
    rw [text, ← List.append_nil w.text]
    exact Spells.none.piece (.name w)
  | call f g args g' ih =>
    have hclose := ((Spells.none : Spells isBlank [] []).piece .closing).gap g'.blank
    have hcall := ((ih.append hclose).gap g.blank).piece (.call f)
    simpa [text, lexemes, Lexeme.text] using hcall
  | bare f g =>
    have hclose := ((Spells.none : Spells isBlank [] []).piece .closing).gap g.blank
    simpa [text, lexemes, Lexeme.text] using hclose.piece (.call f)
  | group g p g' ih =>
    have hclose := ((Spells.none : Spells isBlank [] []).piece .closing).gap g'.blank
    have hgroup := ((ih.append hclose).gap g.blank).piece .opening
    simpa [text, lexemes, Lexeme.text] using hgroup
  | power b g doubled g' e ihb ihe =>
    have hsign := ((ihe.gap g'.blank).piece (.power doubled)).gap g.blank
    simpa [text, lexemes, Lexeme.text] using ihb.append hsign
  | minus g p ih =>
    have hminus := (ih.gap g.blank).piece (.arith .sub)
    simpa [text, lexemes, Lexeme.text, Arith.mark] using hminus
  | binary op x g g' y ihx ihy =>
    have hop := ((ihy.gap g'.blank).piece (.arith op)).gap g.blank
    simpa [text, lexemes, Lexeme.text] using ihx.append hop
  | joint x y ihx ihy => exact ihx.append (ihy.piece (.joint x.seam))
  | comma x g g' y ihx ihy =>
    have hcomma := ((ihy.gap g'.blank).piece .comma).gap g.blank
    simpa [text, lexemes, Lexeme.text] using ihx.append hcomma

end Phrase

/-! ## Fitting -/

namespace Lexeme

variable {a b : Lexeme}

theorem fits_follows (ha : a.ends = true) (hb : b.follows = true) : a.fits b = true := by
  cases a <;> cases b <;> simp_all [fits, ends, follows]

theorem fits_starts (ha : a ∈ [opening, comma] ∨ (∃ f, a = call f) ∨ (∃ op, a = arith op) ∨
    ∃ doubled, a = power doubled) (hb : b.starts = true) : a.fits b = true := by
  rcases ha with ha | ⟨f, rfl⟩ | ⟨op, rfl⟩ | ⟨doubled, rfl⟩
  · simp only [List.mem_cons, List.not_mem_nil, or_false] at ha
    rcases ha with rfl | rfl <;> cases b <;> simp_all [fits, ends, starts]
  · cases b <;> simp_all [fits, ends, starts]
  · cases b <;> simp_all [fits, ends, starts]
  · cases b <;> simp_all [fits, ends, starts]

theorem fits_joint {s : Seam} (h : a.leaves s = true) : a.fits (joint s) = true := by
  cases a <;> cases s <;> simp_all [fits, leaves]

end Lexeme

/-- Neighbours fit. -/
abbrev Chained (ls : List Lexeme) : Prop := ls.IsChain fun a b => a.fits b = true

theorem Chained.join {xs ys : List Lexeme} {a b m : Lexeme} (hx : Chained (xs ++ [a]))
    (hy : Chained (b :: ys)) (ha : a.fits m = true) (hb : m.fits b = true) :
    Chained (xs ++ [a] ++ m :: (b :: ys)) := by
  rw [Chained, List.isChain_append]
  refine ⟨hx, List.isChain_cons_cons.mpr ⟨hb, hy⟩, fun c hc d hd => ?_⟩
  rw [List.getLast?_concat] at hc
  cases hc
  cases hd
  exact ha

namespace Phrase

/-- The first lexeme of a phrase. -/
theorem first (p : Phrase) (hp : p.proper = true) :
    ∃ l ls, p.lexemes = l :: ls ∧ l.starts = true ∧
      (5 ≤ p.strength → l.joins .bracket = true) ∧ (p.opens = true → l = .opening) := by
  induction p with
  | number n => exact ⟨_, _, rfl, rfl, fun _ => rfl, fun h => by cases h⟩
  | name w => exact ⟨_, _, rfl, rfl, fun _ => rfl, fun h => by cases h⟩
  | call f g args g' _ => exact ⟨_, _, rfl, rfl, fun _ => rfl, fun h => by cases h⟩
  | bare f g => exact ⟨_, _, rfl, rfl, fun _ => rfl, fun h => by cases h⟩
  | group g p g' _ => exact ⟨_, _, rfl, rfl, fun _ => rfl, fun _ => rfl⟩
  | power b g doubled g' e ihb _ =>
    simp only [proper, Bool.and_eq_true, beq_iff_eq] at hp
    obtain ⟨l, ls, hls, hstarts, hjoins, hopens⟩ := ihb hp.1.2
    refine ⟨l, _, by rw [lexemes, hls]; rfl, hstarts, fun _ => hjoins (by omega), fun h => hopens ?_⟩
    unfold opens lead at h
    split at h
    · cases h
    · exact h
  | minus g p _ =>
    exact ⟨_, _, rfl, rfl, fun h => by simp [strength] at h, fun h => by cases h⟩
  | binary op x g g' y ihx _ =>
    simp only [proper, Bool.and_eq_true] at hp
    obtain ⟨l, ls, hls, hstarts, -, hopens⟩ := ihx hp.1.2
    refine ⟨l, _, by rw [lexemes, hls]; rfl, hstarts, fun h => ?_, hopens⟩
    cases op <;> simp [strength, Arith.strength] at h
  | joint x y ihx _ =>
    simp only [proper, Bool.and_eq_true] at hp
    obtain ⟨l, ls, hls, hstarts, -, hopens⟩ := ihx hp.1.2
    exact ⟨l, _, by rw [lexemes, hls]; rfl, hstarts, fun h => by simp [strength] at h, hopens⟩
  | comma x g g' y ihx _ =>
    simp only [proper, Bool.and_eq_true] at hp
    obtain ⟨l, ls, hls, hstarts, -, hopens⟩ := ihx hp.1.2
    exact ⟨l, _, by rw [lexemes, hls]; rfl, hstarts, fun h => by simp [strength] at h, hopens⟩

/-- The last lexeme of a phrase. -/
theorem final (p : Phrase) : ∃ ls l, p.lexemes = ls ++ [l] ∧ l.ends = true ∧
    (p.ending ≠ .grouped → l.leaves p.seam = true) ∧ (p.ending = .bracket → p.seam = .bracket) := by
  induction p with
  | number n =>
    refine ⟨[], .number n, rfl, rfl, fun h => ?_, fun h => absurd h number_ending⟩
    rw [ending] at h
    split at h
    · exact absurd rfl h
    · rename_i hgrouped
      exact Bool.not_eq_true' _ ▸ Bool.eq_false_iff.mpr hgrouped
  | name w => exact ⟨[], .name w, rfl, rfl, fun _ => rfl, fun h => by cases h⟩
  | call f g args g' _ =>
    exact ⟨.call f :: args.lexemes, .closing, rfl, rfl, fun _ => rfl, fun _ => rfl⟩
  | bare f g => exact ⟨[.call f], .closing, rfl, rfl, fun _ => rfl, fun _ => rfl⟩
  | group g p g' _ => exact ⟨.opening :: p.lexemes, .closing, rfl, rfl, fun _ => rfl, fun _ => rfl⟩
  | power b g doubled g' e _ ihe =>
    obtain ⟨ls, l, hls, hends, hleaves, hbracket⟩ := ihe
    refine ⟨b.lexemes ++ .power doubled :: ls, l, by simp [lexemes, hls], hends, fun h => ?_,
      fun h => ?_⟩
    · rw [ending] at h
      split at h
      · rename_i hfree
        exact hleaves (by rw [hfree]; decide)
      · exact hleaves h
    · rw [ending] at h
      split at h
      · cases h
      · exact hbracket h
  | minus g p ih =>
    obtain ⟨ls, l, hls, h⟩ := ih
    exact ⟨.arith .sub :: ls, l, by simp [lexemes, hls], h⟩
  | binary op x g g' y _ ihy =>
    obtain ⟨ls, l, hls, h⟩ := ihy
    exact ⟨x.lexemes ++ .arith op :: ls, l, by simp [lexemes, hls], h⟩
  | joint x y _ ihy =>
    obtain ⟨ls, l, hls, hends, hleaves, hbracket⟩ := ihy
    refine ⟨x.lexemes ++ .joint x.seam :: ls, l, by simp [lexemes, hls], hends, fun h => ?_,
      fun h => ?_⟩
    · rw [ending] at h
      split at h
      · -- a factor that is a name does not end with digits in groups
        rename_i hname
        refine hleaves fun hgrouped => ?_
        cases y with
        | name w => cases hgrouped
        | _ => cases hname
      · exact hleaves h
    · rw [ending] at h
      split at h
      · cases h
      · exact hbracket h
  | comma x g g' y _ ihy =>
    obtain ⟨ls, l, hls, h⟩ := ihy
    exact ⟨x.lexemes ++ .comma :: ls, l, by simp [lexemes, hls], h⟩

/-- Two phrases with a lexeme between them. -/
theorem chain_between {x y : Phrase} (hx : Chained x.lexemes) (hy : Chained y.lexemes)
    (hyp : y.proper = true) {m : Lexeme}
    (hleft : ∀ a : Lexeme, a.ends = true → (x.ending ≠ .grouped → a.leaves x.seam = true) →
      a.fits m = true)
    (hright : ∀ b : Lexeme, b.starts = true → (5 ≤ y.strength → b.joins .bracket = true) →
      (y.opens = true → b = .opening) → m.fits b = true) :
    Chained (x.lexemes ++ m :: y.lexemes) := by
  obtain ⟨xs, a, hxs, hends, hleaves, -⟩ := x.final
  obtain ⟨b, ys, hys, hstarts, hjoins, hopens⟩ := y.first hyp
  rw [hxs] at hx ⊢
  rw [hys] at hy ⊢
  exact hx.join hy (hleft a hends hleaves) (hright b hstarts hjoins hopens)

/-- A phrase in brackets. -/
theorem chain_inside {p : Phrase} (h : Chained p.lexemes) (hp : p.proper = true) {m : Lexeme}
    (hm : ∀ b : Lexeme, b.starts = true → m.fits b = true) :
    Chained (m :: (p.lexemes ++ [.closing])) := by
  obtain ⟨xs, a, hxs, hends, -, -⟩ := p.final
  obtain ⟨b, ys, hys, hstarts, -, -⟩ := p.first hp
  have hclose : Chained (p.lexemes ++ [.closing]) := by
    rw [Chained, List.isChain_append]
    refine ⟨h, List.isChain_singleton _, fun c hc d hd => ?_⟩
    rw [hxs, List.getLast?_concat] at hc
    cases hc
    cases hd
    exact Lexeme.fits_follows hends rfl
  rw [hys, List.cons_append] at hclose ⊢
  exact List.isChain_cons_cons.mpr ⟨hm b hstarts, hclose⟩

/-- **The lexemes of a phrase fit.** -/
theorem chain (p : Phrase) (hp : p.proper = true) (hu : p.uncaught = true) :
    Chained p.lexemes := by
  induction p with
  | number n => exact List.isChain_singleton _
  | name w => exact List.isChain_singleton _
  | call f g args g' ih =>
    exact chain_inside (ih hp hu) hp fun b => Lexeme.fits_starts (Or.inr (Or.inl ⟨f, rfl⟩))
  | bare f g => exact List.isChain_cons_cons.mpr ⟨rfl, List.isChain_singleton _⟩
  | group g p g' ih =>
    simp only [proper, Bool.and_eq_true] at hp
    exact chain_inside (ih hp.2 hu) hp.2 fun b => Lexeme.fits_starts (Or.inl (by simp))
  | power b g doubled g' e ihb ihe =>
    simp only [proper, uncaught, Bool.and_eq_true] at hp hu
    exact chain_between (ihb hp.1.2 hu.1) (ihe hp.2 hu.2) hp.2
      (fun a ha _ => Lexeme.fits_follows ha rfl)
      fun b hb _ _ => Lexeme.fits_starts (Or.inr (Or.inr (Or.inr ⟨doubled, rfl⟩))) hb
  | minus g p ih =>
    simp only [proper, Bool.and_eq_true] at hp
    obtain ⟨b, ys, hys, hstarts, -, -⟩ := p.first hp.2
    have hrest := ih hp.2 hu
    rw [lexemes]
    rw [hys] at hrest ⊢
    exact List.isChain_cons_cons.mpr
      ⟨Lexeme.fits_starts (Or.inr (Or.inr (Or.inl ⟨.sub, rfl⟩))) hstarts, hrest⟩
  | binary op x g g' y ihx ihy =>
    simp only [proper, uncaught, Bool.and_eq_true] at hp hu
    exact chain_between (ihx hp.1.2 hu.1) (ihy hp.2 hu.2) hp.2
      (fun a ha _ => Lexeme.fits_follows ha rfl)
      fun b hb _ _ => Lexeme.fits_starts (Or.inr (Or.inr (Or.inl ⟨op, rfl⟩))) hb
  | joint x y ihx ihy =>
    simp only [proper, uncaught, Bool.and_eq_true, Bool.or_eq_true, beq_iff_eq,
      decide_eq_true_eq] at hp hu
    have hgrouped : x.ending ≠ .grouped := by
      intro h
      have hapart := hu.1.1
      rw [apart, h] at hapart
      cases hapart
    -- the kind of the seam is how the first factor ends; the second one has to suit it
    refine chain_between (ihx hp.1.2 hu.1.2) (ihy hp.2 hu.2) hp.2
      (fun a _ ha => Lexeme.fits_joint (ha hgrouped)) fun b _ hjoins hopens => ?_
    show b.joins x.seam = true
    rcases hp.1.1.2 with hbracket | hopen
    · obtain ⟨-, -, -, -, -, hseam⟩ := x.final
      rw [hseam hbracket]
      exact hjoins hp.1.1.1.2
    · rw [hopens hopen]
      rfl
  | comma x g g' y ihx ihy =>
    simp only [proper, uncaught, Bool.and_eq_true] at hp hu
    exact chain_between (ihx hp.1.2 hu.1) (ihy hp.2 hu.2) hp.2
      (fun a ha _ => Lexeme.fits_follows ha rfl)
      fun b hb _ _ => Lexeme.fits_starts (Or.inl (by simp)) hb

end Phrase

end InitialValue.Formula
