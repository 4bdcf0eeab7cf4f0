/-
  The characters of a normal text.

  All that the passes write is text that stood there before and a few marks and letters, so the
  normal text of a text in ASCII is in ASCII (`normalize_ascii`).  Such a text has no stylised
  letters: every name in it is the plain name that it amounts to (`plainName_eq`).
-/
import InitialValue.Proofs.Formula.Seclusion
import InitialValue.Text.Identifier

namespace InitialValue.Text

/-! ## ASCII -/

/-- Every character is in ASCII. -/
def Ascii (cs : List Char) : Prop := ∀ c ∈ cs, c.toNat < 128

theorem plain_of_ascii {c : Char} (h : c.toNat < 128) : plain c = c := by
  have hall : (stylisedRows.all fun r => 128 ≤ r.1) = true := by decide +kernel
  have hnone : (stylisedRows.find? fun r => r.1 ≤ c.toNat && c.toNat < r.1 + r.2.1) = none := by
    rw [List.find?_eq_none]
    intro r hr
    have hrow := of_decide_eq_true (List.all_eq_true.mp hall r hr)
    simp only [Bool.and_eq_true, decide_eq_true_eq, not_and]
    omega
  unfold plain
  rw [hnone]

/-- A name in ASCII is plain. -/
theorem plainName_eq {s : String} (h : Ascii s.toList) : plainName s = s := by
  unfold plainName
  rw [String.ext_iff, String.toList_map]
  exact (List.map_congr_left fun c hc => plain_of_ascii (h c hc)).trans (List.map_id _)

end InitialValue.Text

namespace InitialValue.Formula

open InitialValue.Text

/-! ## What passes write -/

/-- The characters that passes write on their own. -/
def written : List Char := "pow(), *^ie".toList

/-- A rule writes nothing but what it found and a few characters of its own. -/
def Rule.Writes (r : Rule) : Prop :=
  ∀ before cs hit, r before cs = some hit → ∀ c ∈ hit.text, c ∈ cs ∨ c ∈ written

theorem Rule.Writes.pass {r : Rule} (hr : r.Writes) (n : Nat) (before cs : List Char) {c : Char}
    (hc : c ∈ r.pass n before cs) : c ∈ cs ∨ c ∈ written := by
  induction cs generalizing n before with
  | nil =>
    rw [pass_nil] at hc
    cases hc
  | cons d rest ih =>
    cases n with
    | succ n => exact (ih n (d :: before) hc).imp_left (List.mem_cons_of_mem d)
    | zero =>
      rcases hrule : r before (d :: rest) with _ | hit
      · rw [pass_none hrule, List.mem_cons] at hc
        rcases hc with rfl | hc
        · exact Or.inl List.mem_cons_self
        · exact (ih 0 (d :: before) hc).imp_left (List.mem_cons_of_mem d)
      · have hpass : r.pass 0 before (d :: rest) =
            hit.text ++ r.pass hit.extra (d :: before) rest := by
          rw [Rule.pass, hrule]
        rw [hpass, List.mem_append] at hc
        rcases hc with hc | hc
        · exact hr before _ hit hrule c hc
        · exact (ih hit.extra (d :: before) hc).imp_left (List.mem_cons_of_mem d)

theorem Rule.Writes.apply {r : Rule} (hr : r.Writes) {cs : List Char} {c : Char}
    (hc : c ∈ r.apply cs) : c ∈ cs ∨ c ∈ written :=
  hr.pass 0 [] cs hc

/-- What is written of a text that is written of another one. -/
theorem written_trans {as bs : List Char} {c : Char} (h : c ∈ bs ∨ c ∈ written)
    (hbs : c ∈ bs → c ∈ as ∨ c ∈ written) : c ∈ as ∨ c ∈ written :=
  h.elim hbs Or.inr

/-! ## The rules -/

theorem powerRule_writes : powerRule.Writes := by
  intro before cs hit h c hc
  obtain ⟨base, sign, e, -, htake, htext⟩ := powerRule_split h
  have hsub : ∀ d ∈ base ++ sign ++ e, d ∈ cs := fun d hd => List.mem_of_mem_take (htake ▸ hd)
  rw [htext] at hc
  delta spelled at hc
  simp only [List.mem_append, List.mem_cons, List.not_mem_nil, or_false] at hc hsub
  have hpow : ∀ d ∈ "pow(".toList, d ∈ written := forall_mem_of_all (by decide)
  rcases hc with (((hc | hc) | hc) | hc) | rfl
  · exact Or.inr (hpow c hc)
  · exact Or.inl (hsub c (Or.inl (Or.inl hc)))
  · rcases hc with rfl | rfl <;> exact Or.inr (by decide)
  · exact Or.inl (hsub c (Or.inr hc))
  · exact Or.inr (by decide)

theorem starsRule_writes : starsRule.Writes := by
  intro before cs hit h c hc
  unfold starsRule at h
  split at h <;> cases h
  rw [List.mem_singleton] at hc
  exact Or.inr (hc ▸ by decide)

theorem mem_of_bracket {cs : List Char} {n : Nat} {c : Char} (h : c ∈ cs.take n ++ ['*', '(']) :
    c ∈ cs ∨ c ∈ written := by
  rcases List.mem_append.mp h with h | h
  · exact Or.inl (List.mem_of_mem_take h)
  · refine Or.inr ?_
    rcases List.mem_pair.mp h with rfl | rfl <;> decide

theorem bracketRule_writes {blocked called : List Char → Bool} {length? : List Char → Option Nat} :
    (bracketRule blocked length? called).Writes := by
  intro before cs hit h c hc
  obtain ⟨n, -, -, -, htext | htext⟩ := bracketRule_found h
  · rw [htext] at hc
    exact Or.inl (List.mem_of_mem_take hc)
  · rw [htext] at hc
    exact mem_of_bracket hc

theorem nameBracketRule_writes : nameBracketRule.Writes := by
  rw [nameBracketRule_eq_bracketRule]
  exact bracketRule_writes

theorem numberBracketRule_writes : numberBracketRule.Writes := by
  rw [numberBracketRule_eq_bracketRule]
  exact bracketRule_writes

theorem bracketTermRule_writes : bracketTermRule.Writes := by
  intro before cs hit h c hc
  unfold bracketTermRule at h
  split at h
  · dsimp only at h
    split at h
    · split at h <;> cases h
      refine Or.inr ?_
      rcases List.mem_pair.mp hc with rfl | rfl <;> decide
    · cases h
  · cases h

theorem piRule_writes : piRule.Writes := by
  intro before cs hit h c hc
  rcases cs with _ | ⟨a, _ | ⟨b, rest⟩⟩
  · cases h
  · cases h
  · rw [piRule_cons] at h
    split at h <;> cases h
    refine Or.inr ?_
    rcases List.mem_pair.mp hc with rfl | rfl <;> decide

theorem eulerRule_writes : eulerRule.Writes := by
  intro before cs hit h c hc
  rcases cs with _ | ⟨a, rest⟩
  · cases h
  · rw [eulerRule_cons] at h
    split at h <;> cases h
    rw [List.mem_singleton] at hc
    exact Or.inr (hc ▸ by decide)

theorem spacingRule_writes : spacingRule.Writes := by
  intro before cs hit h c hc
  unfold spacingRule at h
  split at h
  · rename_i d rest
    obtain ⟨-, hhit⟩ := Option.ite_none_right_eq_some.mp h
    cases hhit
    simp only [List.mem_cons, List.not_mem_nil, or_false] at hc
    rcases hc with rfl | rfl | rfl
    · exact Or.inr (by decide)
    · exact Or.inl List.mem_cons_self
    · exact Or.inr (by decide)
  · cases h

theorem powerSignRule_writes : powerSignRule.Writes := by
  have hsign : ∀ d ∈ " ** ".toList, d ∈ written := forall_mem_of_all (by decide)
  intro before cs hit h c hc
  unfold powerSignRule at h
  dsimp only at h
  split at h <;> cases h
  exact Or.inr (hsign c hc)

theorem blanksRule_writes : blanksRule.Writes := by
  intro before cs hit h c hc
  unfold blanksRule at h
  split at h
  · split at h <;> cases h
    rw [List.mem_singleton] at hc
    exact Or.inr (hc ▸ by decide)
  · cases h

/-! ## Whole texts -/

theorem mem_spellPowers {cs : List Char} {c : Char} (h : c ∈ spellPowers cs) :
    c ∈ cs ∨ c ∈ written := by
  unfold spellPowers at h
  generalize powerMarks cs = n at h
  induction n generalizing cs with
  | zero => exact Or.inl h
  | succ n ih =>
    rw [spellPowersUpTo] at h
    split at h
    · exact written_trans (ih h) powerRule_writes.apply
    · exact Or.inl h

theorem mem_of_mem_trim {cs : List Char} {c : Char} (h : c ∈ trim cs) : c ∈ cs := by
  have hwithin := trim_infix cs
  exact hwithin.subset h

theorem mem_finish {cs : List Char} {c : Char} (h : c ∈ finish cs) : c ∈ cs ∨ c ∈ written := by
  unfold finish at h
  have hblanks := blanksRule_writes.apply (mem_of_mem_trim h)
  have hsigns := written_trans hblanks powerSignRule_writes.apply
  have hspaced := written_trans hsigns spacingRule_writes.apply
  have heuler := written_trans hspaced eulerRule_writes.apply
  have hpi := written_trans heuler piRule_writes.apply
  have hbrackets := written_trans hpi bracketTermRule_writes.apply
  have hnumbers := written_trans hbrackets numberBracketRule_writes.apply
  exact written_trans hnumbers nameBracketRule_writes.apply

/-- **The characters of a normal text** stood in the text, or are among a few that passes write. -/
theorem mem_normalize {cs n : List Char} (h : normalize cs = .ok n) {c : Char} (hc : c ∈ n) :
    c ∈ cs ∨ c ∈ written := by
  unfold normalize at h
  obtain ⟨-, -, hfinish⟩ := bind_eq_ok.mp h
  rw [← pure_eq_ok.mp hfinish] at hc
  have hstars := written_trans (mem_finish hc) starsRule_writes.apply
  have hpowers := written_trans hstars mem_spellPowers
  exact hpowers.imp_left mem_of_mem_trim

theorem normalize_ascii {cs n : List Char} (hcs : Ascii cs) (h : normalize cs = .ok n) :
    Ascii n := by
  have hwritten : Ascii written := forall_mem_of_all (by decide)
  intro c hc
  exact (mem_normalize h hc).elim (hcs c) (hwritten c)

end InitialValue.Formula
