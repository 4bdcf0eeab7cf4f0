/-
  What stands next to a lexeme, and passes that look no further.

  A pass over formula text looks at the characters around a place.  Where lexemes fit, these are
  known: `Room before l rest` says what matters in front of a lexeme and behind it.  A rule that
  writes every lexeme again or replaces it with another one is followed lexeme by lexeme
  (`pass_local`); a rule that also writes stars is followed from one lexeme to the next
  (`pass_seam`).  Either way the result is spelled by the list of new lexemes.
-/
import InitialValue.Proofs.Formula.Lexeme

namespace InitialValue.Formula

open InitialValue.Text

/-! ## First characters -/

/-- The characters that a lexeme behind a phrase starts with. -/
def isFollower (c : Char) : Bool := [')', ',', '+', '-', '*', '/', '^'].contains c

/-- The characters that the passes put a star in front of, behind a factor of the kind. -/
def touches : Seam → Char → Bool
  | .bracket, c => startsTerm c
  | _, c => c == '('

theorem isFollower_spec {c : Char} (h : isFollower c = true) : isBlank c = false ∧
    (isWord c || c == '.') = false ∧ ∀ s, touches s c = false := by
  have hall : ([')', ',', '+', '-', '*', '/', '^'].all fun c => !isBlank c &&
      !(isWord c || c == '.') && !startsTerm c && !(c == '(')) = true := by decide
  have hc := List.all_eq_true.mp hall c (List.contains_iff_mem.mp h)
  simp only [Bool.and_eq_true, Bool.not_eq_true'] at hc
  refine ⟨hc.1.1.1, hc.1.1.2, fun s => ?_⟩
  cases s
  · exact hc.2
  · exact hc.2
  · exact hc.1.2

theorem not_blank_of_touches {s : Seam} {c : Char} (h : touches s c = true) :
    isBlank c = false := by
  have hopen : isBlank '(' = false := isBlank_mark (by decide)
  cases s
  · rw [beq_iff_eq.mp h]
    exact hopen
  · rw [beq_iff_eq.mp h]
    exact hopen
  · unfold touches startsTerm at h
    simp only [Bool.or_eq_true, beq_iff_eq] at h
    rcases h with ((h | h) | rfl) | rfl
    · exact isBlank_of_isWord (isWord_of_isPlainWord (isPlainWord_of_isPlainStart h))
    · exact isBlank_of_isWord (isWord_of_isDigit h)
    · exact isBlank_mark (by decide)
    · exact hopen

namespace Lexeme

variable {a b : Lexeme}

theorem follows_head (h : b.follows = true) :
    ∃ c tail, b.text = c :: tail ∧ isFollower c = true := by
  cases b with
  | closing => exact ⟨_, _, rfl, rfl⟩
  | comma => exact ⟨_, _, rfl, rfl⟩
  | arith op => exact ⟨_, _, rfl, by cases op <;> rfl⟩
  | power doubled => cases doubled <;> exact ⟨_, _, rfl, rfl⟩
  | _ => cases h

theorem joins_head {s : Seam} (h : b.joins s = true) :
    ∃ c tail, b.text = c :: tail ∧ touches s c = true := by
  cases b with
  | number n =>
    obtain ⟨c, tail, htext, hc⟩ := n.head
    rw [beq_iff_eq.mp h]
    refine ⟨c, tail, htext, ?_⟩
    rcases hc with hc | rfl
    · simp [touches, startsTerm, isDigit_of_ascii hc]
    · rfl
  | name w =>
    obtain ⟨c, tail, htext, hc, -⟩ := w.head
    rw [beq_iff_eq.mp h]
    exact ⟨c, tail, htext, by simp [touches, startsTerm, hc]⟩
  | call f =>
    obtain ⟨c, tail, htext, hc, -⟩ := FunctionName.head f
    rw [beq_iff_eq.mp h]
    exact ⟨c, tail ++ ['('], by rw [text, htext]; rfl, by simp [touches, startsTerm, hc]⟩
  | opening =>
    refine ⟨'(', [], rfl, ?_⟩
    cases s <;> rfl
  | _ => cases h

theorem starts_head (h : b.starts = true) :
    ∃ c tail, b.text = c :: tail ∧ isBlank c = false ∧ isMultiplicative c = false := by
  have hword : ∀ c, isPlainWord c = true → isBlank c = false ∧ isMultiplicative c = false := by
    intro c hc
    have hstar : c ≠ '*' := ne_of_plain hc (by decide)
    have hslash : c ≠ '/' := ne_of_plain hc (by decide)
    exact ⟨isBlank_of_isWord (isWord_of_isPlainWord hc), by simp [isMultiplicative, hstar, hslash]⟩
  cases b with
  | number n =>
    obtain ⟨c, tail, htext, hc⟩ := n.head
    refine ⟨c, tail, htext, ?_⟩
    rcases hc with hc | rfl
    · exact hword c (isPlainWord_of_isDigit hc)
    · decide
  | name w =>
    obtain ⟨c, tail, htext, hc, -⟩ := w.head
    exact ⟨c, tail, htext, hword c (isPlainWord_of_isPlainStart hc)⟩
  | call f =>
    obtain ⟨c, tail, htext, hc, -⟩ := FunctionName.head f
    exact ⟨c, tail ++ ['('], by rw [text, htext]; rfl, hword c (isPlainWord_of_isPlainStart hc)⟩
  | opening => exact ⟨'(', [], rfl, by decide⟩
  | arith op =>
    cases op with
    | sub => exact ⟨'-', [], rfl, by decide⟩
    | _ => cases h
  | _ => cases h

/-! ## Neighbours -/

/-- Behind the end of a phrase, something follows or a seam comes. -/
theorem fits_ends (h : a.fits b = true) (ha : a.ends = true) :
    b.follows = true ∨ ∃ s, b = joint s ∧ a.leaves s = true := by
  cases b with
  | joint s =>
    right
    refine ⟨s, rfl, ?_⟩
    cases a with
    | number n => exact h
    | name w => exact h
    | closing => exact h
    | _ => cases ha
  | _ =>
    left
    cases a with
    | number n => exact h
    | name w => exact h
    | closing => exact h
    | _ => cases ha

/-- A lexeme that no word character may touch from the left. -/
def fresh : Lexeme → Bool
  | number _ => true
  | name _ => true
  | call _ => true
  | joint s => s == .bracket
  | _ => false

/-- A lexeme that no word character may touch from the right. -/
def isWordy : Lexeme → Bool
  | number _ => true
  | name _ => true
  | _ => false

theorem clear_mark {c : Char} (h : c ∈ ['(', ')', ',', '+', '-', '*', '/', '^']) (cs : List Char) :
    Decimal.Clear (c :: cs) := by
  have hall : ∀ c ∈ ['(', ')', ',', '+', '-', '*', '/', '^'],
      (isWord c || c == '.') = false := forall_mem_of_all (by decide)
  exact stopsAt_cons (hall c h)

theorem not_fresh (h : a.fits b = true) (ha : a.isWordy = true) : b.fresh = false := by
  have hends : a.ends = true := by cases a <;> first | rfl | cases ha
  rcases fits_ends h hends with hb | ⟨s, rfl, hs⟩
  · cases b <;> first | rfl | cases hb
  · cases s with
    | name => rfl
    | number => rfl
    | bracket =>
      cases a with
      | number n => cases hs
      | name w => cases hs
      | _ => cases ha

/-- In front of a lexeme that may not be touched there is none to touch it. -/
theorem clear_before (h : a.fits b = true) {before : List Char}
    (ha : a.fresh = true → Decimal.Clear before) (hb : b.fresh = true) :
    Decimal.Clear (a.text.reverse ++ before) := by
  cases a with
  | number n =>
    rw [not_fresh h rfl] at hb
    cases hb
  | name w =>
    rw [not_fresh h rfl] at hb
    cases hb
  | call f =>
    rw [text, List.reverse_append]
    exact clear_mark (by simp) _
  | opening => exact clear_mark (by simp) _
  | closing => exact clear_mark (by simp) _
  | comma => exact clear_mark (by simp) _
  | arith op =>
    have hmark : op.mark ∈ ['(', ')', ',', '+', '-', '*', '/', '^'] := by cases op <;> decide
    exact clear_mark hmark _
  | power doubled => cases doubled <;> exact clear_mark (by simp) _
  | joint s =>
    refine ha ?_
    cases b with
    | opening => cases hb
    | number n => exact h
    | name w => exact h
    | call f => exact h
    | _ => cases h

end Lexeme

/-! ## Room -/

theorem skipBlanks_blanks {g : List Char} (hg : ∀ c ∈ g, isBlank c = true) (cs : List Char) :
    skipBlanks (g ++ cs) = skipBlanks cs := List.dropWhile_append_of_pos hg

theorem skipBlanks_all {g : List Char} (hg : ∀ c ∈ g, isBlank c = true) : skipBlanks g = [] := by
  have h := skipBlanks_blanks hg []
  rw [List.append_nil] at h
  exact h

theorem clear_blank {c : Char} (hc : isBlank c = true) (cs : List Char) :
    Decimal.Clear (c :: cs) := by
  have hpoint : c ≠ '.' := ne_of_isBlank hc (isBlank_mark (by decide))
  exact stopsAt_cons (by simp [isWord_of_isBlank hc, hpoint])

theorem clear_of_skipBlanks {cs : List Char} (h : Decimal.Clear (skipBlanks cs)) :
    Decimal.Clear cs := by
  rcases cs with _ | ⟨c, cs⟩
  · exact h
  · by_cases hc : isBlank c = true
    · exact clear_blank hc cs
    · rw [skipBlanks_cons (Bool.eq_false_iff.mpr hc)] at h
      exact h

theorem clear_blanks {g before : List Char} (hg : ∀ c ∈ g, isBlank c = true)
    (h : Decimal.Clear before) : Decimal.Clear (g.reverse ++ before) := by
  rcases hrev : g.reverse with _ | ⟨b, more⟩
  · exact h
  · have hb : b ∈ g := List.mem_reverse.mp (by rw [hrev]; exact List.mem_cons_self)
    exact clear_blank (hg b hb) _

/-- What stands next to a lexeme. -/
structure Room (before : List Char) (l : Lexeme) (rest : List Char) : Prop where
  left : l.fresh = true → Decimal.Clear before
  right : l.isWordy = true → Decimal.Clear rest
  next : ∀ op, l = .arith op → StopsAt isMultiplicative (skipBlanks rest)

variable {ok : Char → Bool} {a l : Lexeme} {ls : List Lexeme} {cs before rest : List Char}

theorem Spells.of_cons (h : Spells ok (l :: ls) cs) : ∃ g cs', (∀ c ∈ g, ok c = true) ∧
    Spells ok ls cs' ∧ cs = g ++ (l.text ++ cs') := by
  cases h with
  | cons hg h => exact ⟨_, _, hg, h, rfl⟩

theorem Spells.of_nil (h : Spells ok [] cs) : ∀ c ∈ cs, ok c = true := by
  cases h with
  | nil h => exact h

/-- Behind the blanks, a text starts with its first lexeme. -/
theorem Spells.skipBlanks_eq (h : Spells isBlank (l :: ls) cs) {c : Char} {tail : List Char}
    (htext : l.text = c :: tail) (hc : isBlank c = false) :
    ∃ cs', skipBlanks cs = c :: (tail ++ cs') ∧ Spells isBlank ls cs' := by
  obtain ⟨g, cs', hg, h', rfl⟩ := h.of_cons
  refine ⟨cs', ?_, h'⟩
  rw [skipBlanks_blanks hg, htext, List.cons_append, skipBlanks_cons hc]

/-- Behind the end of a phrase, what comes next follows unless it is a seam. -/
theorem front_follower (h : Spells isBlank ls cs) (hchain : Chained (a :: ls))
    (ha : a.ends = true) (hseam : ∀ s, ls.head? = some (.joint s) → a.leaves s = false) :
    StopsAt (fun c => !isFollower c) (skipBlanks cs) := by
  rcases ls with _ | ⟨b, ls⟩
  · rw [skipBlanks_all h.of_nil]
    exact stopsAt_nil
  · rcases Lexeme.fits_ends (List.isChain_cons_cons.mp hchain).1 ha with hb | ⟨s, rfl, hs⟩
    · obtain ⟨c, tail, htext, hc⟩ := Lexeme.follows_head hb
      obtain ⟨cs', hcs, -⟩ := h.skipBlanks_eq htext (isFollower_spec hc).1
      rw [hcs]
      exact stopsAt_cons (by rw [hc]; rfl)
    · rw [hseam s rfl] at hs
      cases hs

/-- Behind a seam, the next lexeme touches. -/
theorem front_touches {s : Seam} (h : Spells isBlank ls cs)
    (hchain : Chained (.joint s :: ls)) : StopsAt (fun c => !touches s c) (skipBlanks cs) := by
  rcases ls with _ | ⟨b, ls⟩
  · rw [skipBlanks_all h.of_nil]
    exact stopsAt_nil
  · obtain ⟨c, tail, htext, hc⟩ := Lexeme.joins_head (List.isChain_cons_cons.mp hchain).1
    obtain ⟨cs', hcs, -⟩ := h.skipBlanks_eq htext (not_blank_of_touches hc)
    rw [hcs]
    exact stopsAt_cons (by rw [hc]; rfl)

/-- Behind an operator, no star and no slash comes next. -/
theorem front_operand {op : Arith} (h : Spells isBlank ls cs)
    (hchain : Chained (.arith op :: ls)) : StopsAt isMultiplicative (skipBlanks cs) := by
  rcases ls with _ | ⟨b, ls⟩
  · rw [skipBlanks_all h.of_nil]
    exact stopsAt_nil
  · have hb : b.starts = true := by
      have hfits := (List.isChain_cons_cons.mp hchain).1
      cases b with
      | joint s => exact hfits
      | _ => exact hfits
    obtain ⟨c, tail, htext, hc, hstar⟩ := Lexeme.starts_head hb
    obtain ⟨cs', hcs, -⟩ := h.skipBlanks_eq htext hc
    rw [hcs]
    exact stopsAt_cons hstar

theorem clear_rest (h : Spells isBlank ls cs) (hchain : Chained (a :: ls))
    (ha : a.isWordy = true) : Decimal.Clear cs := by
  have hends : a.ends = true := by cases a <;> first | rfl | cases ha
  refine clear_of_skipBlanks ?_
  by_cases hseam : ∃ s, ls.head? = some (.joint s) ∧ a.leaves s = true
  · obtain ⟨s, hs, hleaves⟩ := hseam
    obtain ⟨ls', rfl⟩ := List.head?_eq_some_iff.mp hs
    obtain ⟨g, cs', hg, h', rfl⟩ := h.of_cons
    have htouch := front_touches h' (List.isChain_cons_cons.mp hchain).2
    rw [skipBlanks_blanks hg]
    show Decimal.Clear (skipBlanks cs')
    refine StopsAt.imp htouch fun c hc => ?_
    rw [Bool.not_eq_true']
    cases s with
    | bracket =>
      cases a with
      | number n => cases hleaves
      | name w => cases hleaves
      | _ => cases ha
    | _ =>
      rw [Bool.eq_false_iff]
      intro hopen
      rw [beq_iff_eq.mp hopen] at hc
      revert hc
      decide
  · refine StopsAt.imp (front_follower h hchain hends fun s hs => ?_) fun c hc => ?_
    · rw [Bool.eq_false_iff]
      exact fun hleaves => hseam ⟨s, hs, hleaves⟩
    · rw [Bool.not_eq_true', Bool.eq_false_iff]
      intro hfollow
      rw [(isFollower_spec hfollow).2.1] at hc
      cases hc

/-- **Where lexemes fit, there is room.** -/
theorem room (h : Spells isBlank ls rest) (hchain : Chained (l :: ls))
    (hbefore : l.fresh = true → Decimal.Clear before) : Room before l rest := by
  refine ⟨hbefore, fun hl => clear_rest h hchain hl, fun op hop => ?_⟩
  subst hop
  exact front_operand h hchain

/-! ## Passes that replace lexemes -/

/-- A rule replaces a lexeme with another one, perhaps with blanks around it. -/
def Replaces (r : Rule) (l l' : Lexeme) : Prop :=
  ∀ before rest, Room before l rest → ∃ g g' : List Char, (∀ c ∈ g, isBlank c = true) ∧
    (∀ c ∈ g', isBlank c = true) ∧ r.pass 0 before (l.text ++ rest) =
      g ++ (l'.text ++ (g' ++ r.pass 0 (l.text.reverse ++ before) rest))

/-- A rule leaves a lexeme alone. -/
def Leaves (r : Rule) (l : Lexeme) : Prop :=
  ∀ before rest, Room before l rest →
    r.pass 0 before (l.text ++ rest) = l.text ++ r.pass 0 (l.text.reverse ++ before) rest

theorem Leaves.replaces {r : Rule} (h : Leaves r l) : Replaces r l l :=
  fun before rest hroom => ⟨[], [], by simp, by simp, h before rest hroom⟩

theorem leaves_ignored {r : Rule} (h : ∀ c ∈ l.text, r.Ignores c) : Leaves r l :=
  fun before rest _ => Rule.pass_ignored h before rest

theorem clear_next (hchain : Chained (l :: ls)) (hbefore : l.fresh = true → Decimal.Clear before) :
    ∀ b, ls.head? = some b → b.fresh = true → Decimal.Clear (l.text.reverse ++ before) := by
  intro b hb hfresh
  obtain ⟨ls', rfl⟩ := List.head?_eq_some_iff.mp hb
  exact Lexeme.clear_before (List.isChain_cons_cons.mp hchain).1 hbefore hfresh

/-- **A pass that replaces lexemes** gives a text of the new ones. -/
theorem pass_local {r : Rule} {f : Lexeme → Lexeme} (hgap : ∀ c, isBlank c = true → r.Ignores c)
    (hr : ∀ l ∈ ls, Replaces r l (f l)) (h : Spells isBlank ls cs) (hchain : Chained ls)
    (hbefore : ∀ b, ls.head? = some b → b.fresh = true → Decimal.Clear before) :
    Spells isBlank (ls.map f) (r.pass 0 before cs) := by
  induction h generalizing before with
  | nil hg =>
    rename_i g
    rw [Rule.pass_ignored_end fun c hc => hgap c (hg c hc)]
    exact .nil hg
  | cons hg h ih =>
    rename_i g l ls cs
    rw [Rule.pass_ignored fun c hc => hgap c (hg c hc)]
    have hclear : l.fresh = true → Decimal.Clear (g.reverse ++ before) :=
      fun hl => clear_blanks hg (hbefore l rfl hl)
    obtain ⟨g₁, g₂, hg₁, hg₂, hpass⟩ := hr l List.mem_cons_self _ cs (room h hchain hclear)
    have hrest := ih (fun l hl => hr l (List.mem_cons_of_mem _ hl)) (List.isChain_cons.mp hchain).2
      (clear_next hchain hclear)
    rw [hpass]
    exact (((hrest.gap hg₂).piece (f l)).gap hg₁).gap hg

/-! ## Passes that write stars -/

/-- The lexeme with a star for a seam of the kind. -/
def Lexeme.sew (s : Seam) : Lexeme → Lexeme
  | joint t => if t = s then arith .mul else joint t
  | l => l

theorem Lexeme.sew_eq {s : Seam} (h : l ≠ .joint s) : l.sew s = l := by
  cases l with
  | joint t => exact if_neg fun hts => h (by rw [hts])
  | _ => rfl

theorem Lexeme.ends_of_endsAt {s : Seam} (h : l.endsAt s = true) : l.ends = true := by
  cases l <;> cases s <;> first | rfl | cases h

theorem Lexeme.leaves_of_endsAt {s t : Seam} (h : l.endsAt s = true) (hne : t ≠ s) :
    l.leaves t = false := by
  cases l <;> cases s <;> cases t <;> first | exact absurd rfl hne | rfl | cases h

theorem Lexeme.leaves_of_fits {s : Seam} (h : l.fits (.joint s) = true) : l.leaves s = true := by
  cases l <;> exact h

/-- A rule leaves a lexeme alone unless a seam of a kind comes behind it. -/
def Keeps (r : Rule) (s : Seam) : Prop :=
  ∀ before l rest, Room before l rest →
    (l.endsAt s = true → StopsAt (touches s) (skipBlanks rest)) →
    r.pass 0 before (l.text ++ rest) = l.text ++ r.pass 0 (l.text.reverse ++ before) rest

/-- A rule writes a star for a seam of a kind, and takes out the blanks there. -/
def Sews (r : Rule) (s : Seam) : Prop :=
  ∀ before l g c tail, Room before l (g ++ c :: tail) → l.leaves s = true →
    (∀ x ∈ g, isBlank x = true) → touches s c = true →
    r.pass 0 before (l.text ++ (g ++ c :: tail)) =
      l.text ++ '*' :: r.pass 0 (g.reverse ++ (l.text.reverse ++ before)) (c :: tail)

/-- In front of lexemes that begin with no seam of a kind, such a rule has nothing to sew. -/
theorem stops_touches {s : Seam} (h : Spells isBlank ls rest) (hchain : Chained (l :: ls))
    (hends : l.endsAt s = true) (hhead : ls.head? ≠ some (.joint s)) :
    StopsAt (touches s) (skipBlanks rest) := by
  refine StopsAt.imp (front_follower h hchain (Lexeme.ends_of_endsAt hends)
    fun t ht => Lexeme.leaves_of_endsAt hends ?_) fun c hc => ?_
  · rintro rfl
    exact hhead ht
  · rw [Bool.not_eq_true', Bool.eq_false_iff]
    intro hfollow
    rw [(isFollower_spec hfollow).2.2 s] at hc
    cases hc

/-- At a seam of its kind, a rule writes the star and goes on at the lexeme behind the seam. -/
theorem Sews.seam {r : Rule} {s : Seam} (hsews : Sews r s) {b : Lexeme} {g₁ g₂ : List Char}
    (hroom : Room before l (g₁ ++ ((Lexeme.joint s).text ++ (g₂ ++ (b.text ++ rest)))))
    (hg₁ : ∀ c ∈ g₁, isBlank c = true) (hg₂ : ∀ c ∈ g₂, isBlank c = true)
    (hleft : l.fits (.joint s) = true) (hright : (Lexeme.joint s).fits b = true) :
    r.pass 0 before (l.text ++ (g₁ ++ ((Lexeme.joint s).text ++ (g₂ ++ (b.text ++ rest))))) =
      l.text ++ ((Lexeme.arith .mul).text ++
        r.pass 0 ((g₁ ++ g₂).reverse ++ (l.text.reverse ++ before)) (b.text ++ rest)) := by
  obtain ⟨c, tail, htext, hc⟩ := Lexeme.joins_head hright
  have hsplit : g₁ ++ ((Lexeme.joint s).text ++ (g₂ ++ (b.text ++ rest))) =
      (g₁ ++ g₂) ++ c :: (tail ++ rest) := by
    rw [htext]
    simp [Lexeme.text]
  have hgap : ∀ x ∈ g₁ ++ g₂, isBlank x = true :=
    fun x hx => (List.mem_append.mp hx).elim (hg₁ x) (hg₂ x)
  rw [hsplit] at hroom ⊢
  rw [hsews _ _ _ _ _ hroom (Lexeme.leaves_of_fits hleft) hgap hc, htext]
  rfl

/-- **A pass that writes stars** gives a text in which the seams of a kind have one. -/
theorem pass_seam {r : Rule} {s : Seam} (hgap : ∀ c, isBlank c = true → r.Ignores c)
    (hkeeps : Keeps r s) (hsews : Sews r s) (h : Spells isBlank ls cs) (hchain : Chained ls)
    (hbefore : ∀ b, ls.head? = some b → b.fresh = true → Decimal.Clear before)
    (hhead : ls.head? ≠ some (.joint s)) (hlast : ∀ b, ls.getLast? = some b → b.ends = true) :
    Spells isBlank (ls.map (Lexeme.sew s)) (r.pass 0 before cs) := by
  -- on the number of lexemes, since a seam is passed over with the lexeme in front of it
  induction hn : ls.length using Nat.strongRecOn generalizing ls cs before with
  | ind n ih =>
    rcases ls with _ | ⟨l, ls⟩
    · have hg := h.of_nil
      rw [Rule.pass_ignored_end fun c hc => hgap c (hg c hc)]
      exact .nil hg
    · obtain ⟨g, rest, hg, hrest, rfl⟩ := h.of_cons
      have hl : l.sew s = l := Lexeme.sew_eq fun hl => hhead (by rw [hl]; rfl)
      have hclear : l.fresh = true → Decimal.Clear (g.reverse ++ before) :=
        fun hf => clear_blanks hg (hbefore l rfl hf)
      have hroom := room hrest hchain hclear
      rw [Rule.pass_ignored fun c hc => hgap c (hg c hc), List.map_cons, hl]
      refine Spells.gap hg ?_
      by_cases hseam : ls.head? = some (.joint s)
      · -- the star takes the place of the seam, and the induction goes on behind it
        obtain ⟨ls', rfl⟩ := List.head?_eq_some_iff.mp hseam
        obtain ⟨g₁, rest', hg₁, hrest', rfl⟩ := hrest.of_cons
        obtain ⟨hleft, hbehind⟩ := List.isChain_cons_cons.mp hchain
        rcases ls' with _ | ⟨b, ls'⟩
        · cases hlast (.joint s) rfl
        · obtain ⟨g₂, tail, hg₂, htail, rfl⟩ := hrest'.of_cons
          obtain ⟨hright, hchain'⟩ := List.isChain_cons_cons.mp hbehind
          rw [hsews.seam hroom hg₁ hg₂ hleft hright]
          have hnext : ∀ x, (b :: ls').head? = some x → x.fresh = true →
              Decimal.Clear ((g₁ ++ g₂).reverse ++ (l.text.reverse ++ (g.reverse ++ before))) := by
            intro x hx hfresh
            cases hx
            refine Lexeme.clear_before hright (fun hf => clear_blanks (fun c hc => ?_) ?_) hfresh
            · exact (List.mem_append.mp hc).elim (hg₁ c) (hg₂ c)
            · exact Lexeme.clear_before hleft hclear hf
          have hb : (b :: ls').head? ≠ some (.joint s) := by
            intro hb
            cases hb
            cases hright
          have hspells := ih ls'.length.succ (by rw [← hn]; simp) (htail.piece b) hchain' hnext hb
            (fun x hx => hlast x (by simpa using hx)) rfl
          rw [List.map_cons, Lexeme.sew, if_pos rfl]
          exact (hspells.piece (.arith .mul)).piece l
      · -- no seam of the kind comes next, so the pass writes the lexeme again
        rw [hkeeps _ _ _ hroom fun hends => stops_touches hrest hchain hends hseam]
        refine Spells.piece l (ih ls.length (by rw [← hn]; simp) hrest
          (List.isChain_cons.mp hchain).2 (clear_next hchain hclear) hseam ?_ rfl)
        intro x hx
        refine hlast x ?_
        rw [List.getLast?_cons, hx]
        rfl

end InitialValue.Formula
