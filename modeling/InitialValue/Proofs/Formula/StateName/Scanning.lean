/-
  The tokens of a text, whatever the state is called.

  The scanner reads a number, a name or a mark at a place and goes on behind it.  Numbers and marks
  are the same cells with any name for the state, as their readers stop at a `y` (`halts_named`).
  The state is a name of its own, and in ASCII no other name begins with it, so the tokens are those
  of the plain text with the name of the state (`scan_named`).
-/
import InitialValue.Proofs.Formula.Characters
import InitialValue.Proofs.Formula.Halting
import InitialValue.Proofs.Formula.Renaming
import InitialValue.Proofs.Formula.StateName.Marking

namespace InitialValue.Formula

open InitialValue.Text

namespace Token

/-- More fuel does not change what is scanned. -/
theorem scan_mono {fuel fuel' : Nat} {cs : List Char} {ts : List Token}
    (h : scan fuel cs = some ts) (hfuel : fuel ≤ fuel') : scan fuel' cs = some ts := by
  induction fuel generalizing fuel' cs ts with
  | zero => cases h
  | succ fuel ih =>
    obtain ⟨fuel', rfl⟩ := Nat.exists_eq_add_of_le' (Nat.le_trans (Nat.le_add_left 1 fuel) hfuel)
    have hfuel := Nat.le_of_add_le_add_right hfuel
    have hmap : ∀ (xs : List Char) (f : List Token → List Token),
        (scan fuel xs).map f = some ts → (scan fuel' xs).map f = some ts := by
      intro xs f hxs
      obtain ⟨us, hus, hf⟩ := Option.map_eq_some_iff.mp hxs
      rw [ih hus hfuel, Option.map_some, hf]
    cases begins cs with
    | done => exact h
    | hash rest => exact h
    | blank rest =>
      rw [scan_space] at h ⊢
      exact ih h hfuel
    | number hhash hspace hnumber =>
      rw [scan_number_step hhash hspace hnumber] at h ⊢
      obtain ⟨p, hp, hscan⟩ := Option.bind_eq_some_iff.mp h
      rw [hp]
      exact hmap _ _ hscan
    | name hnumber hname =>
      rw [scan_name_step hnumber hname] at h ⊢
      exact hmap _ _ h
    | mark hhash hspace hnumber hname =>
      rw [scan_mark_step hhash hspace hnumber hname] at h ⊢
      obtain ⟨p, hp, hscan⟩ := Option.bind_eq_some_iff.mp h
      rw [hp]
      exact hmap _ _ hscan

end Token

namespace StateName

open Token

variable {w : List Char} {cs : List Cell}

/-! ## Readers -/

/-- A reader that stops at a `y` reads the same cells, whatever the state is called. -/
theorem halts_named {α : Type} (hw : IsStateName w) {f : List Char → Option (α × List Char)}
    (hf : Halts f) (hsuffix : ∀ xs x rest, f xs = some (x, rest) → rest <:+ xs) {x : α}
    {rest : List Char} (h : f (plain cs) = some (x, rest)) :
    ∃ k, rest = plain (cs.drop k) ∧ f (named w cs) = some (x, named w (cs.drop k)) := by
  have hdrop : ∃ k, rest = plain (cs.drop k) := by
    refine ⟨(plain cs).length - rest.length, ?_⟩
    rw [← plain_drop]
    exact (List.suffix_iff_eq_drop.mp (hsuffix _ _ _ h))
  obtain ⟨k, rfl⟩ := hdrop
  by_cases hstate : .state ∈ cs
  · obtain ⟨pre, post, rfl, hpre⟩ := List.eq_append_cons_of_mem hstate
    obtain ⟨o, ho⟩ := hf (plain pre)
    obtain ⟨ds, rfl, -⟩ := id hw
    have hplain := ho (plain post)
    have hnamed := ho (ds ++ named ('y' :: ds) post)
    rw [← named_eq_plain (w := 'y' :: ds) hpre, ← List.cons_append, ← named_state,
      ← named_append] at hnamed
    rw [← plain_state, ← plain_append, h] at hplain
    obtain ⟨⟨x', q⟩, rfl, hpair⟩ := Option.map_eq_some_iff.mp hplain.symm
    obtain rfl : x' = x := congrArg Prod.fst hpair
    have hq : q ++ plain (.state :: post) = plain ((pre ++ .state :: post).drop k) :=
      congrArg Prod.snd hpair
    have hk : k ≤ pre.length := by
      have hlength := congrArg List.length hq
      simp only [List.length_append, List.length_cons, length_plain, List.length_drop] at hlength
      omega
    refine ⟨k, rfl, ?_⟩
    rw [List.drop_append_of_le_length hk] at hq ⊢
    rw [plain_append] at hq
    rw [hnamed, named_append, named_eq_plain fun hmem => hpre (List.drop_subset k pre hmem),
      ← List.append_cancel_right hq]
    rfl
  · refine ⟨k, rfl, ?_⟩
    rw [named_eq_plain hstate, named_eq_plain fun hmem => hstate (List.drop_subset k cs hmem)]
    exact h

theorem startsNumber_named (hw : IsStateName w) :
    startsNumber (named w cs) = startsNumber (plain cs) := by
  cases cs with
  | nil => rfl
  | cons c cs =>
    cases c with
    | char a =>
      rw [named_char, plain_char]
      by_cases ha : a = '.'
      · subst ha
        rw [startsNumber_point, startsNumber_point, head?_named hw]
      · rw [startsNumber_cons ha, startsNumber_cons ha]
    | state =>
      obtain ⟨ds, rfl, -⟩ := hw
      rw [named_state, plain_state, List.cons_append, startsNumber_cons (by decide),
        startsNumber_cons (by decide)]

/-- Only a `y` asks what stands before it. -/
theorem Marked.of_head {b b' e : Bool} (h : Marked b cs e) (hne : (plain cs).head? ≠ some 'y') :
    Marked b' cs e := by
  cases cs with
  | nil => trivial
  | cons c cs =>
    cases c with
    | char a =>
      refine ⟨?_, h.2⟩
      rintro rfl
      exact absurd rfl hne
    | state => exact absurd rfl hne

/-! ## Tokens -/

theorem steady_isNamePart : Steady isNamePart := fun _ _ hd =>
  isNamePart_of_isPlainWord (isPlainWord_of_isDigit hd)

/-- Among ASCII characters, the parts of names are those of words. -/
theorem isNamePart_eq_isWord {c : Char} (hascii : c.toNat < 128) : isNamePart c = isWord c := by
  rw [isNamePart_of_ascii hascii, isWord, if_pos hascii]

theorem stopsAt_isNamePart_of_leads (hascii : Ascii (plain cs)) (h : leads false cs = false) :
    StopsAt isNamePart (plain cs) := by
  intro c hc
  rw [leads_eq, hc] at h
  rw [isNamePart_eq_isWord (hascii c (List.mem_of_mem_head? hc))]
  exact h

theorem ascii_drop {k : Nat} (h : Ascii (plain cs)) : Ascii (plain (cs.drop k)) := by
  rw [← plain_drop]
  exact fun c hc => h c (List.drop_subset k _ hc)

/-- The state is cut off as a name. -/
theorem scan_state (hw : IsStateName w) {fuel : Nat} (hrest : StopsAt isNamePart (named w cs)) :
    scan (fuel + 1) (named w (.state :: cs)) =
      (scan fuel (named w cs)).map (.name (String.ofList w) :: ·) := by
  obtain ⟨ds, rfl, hds⟩ := hw
  have hpart : ∀ d ∈ ds, isNamePart d = true := fun d hd =>
    isNamePart_of_isPlainWord (isPlainWord_of_isDigit (hds d hd))
  rw [named_state, List.cons_append, scan_name_step (startsNumber_cons (by decide) _) (by decide),
    takeWhile_append_stop hpart hrest, dropWhile_append_stop hpart hrest]

/-- The plain state is cut off as a name. -/
theorem scan_plain_state {fuel : Nat} (hrest : StopsAt isNamePart (plain cs)) :
    scan (fuel + 1) (plain (.state :: cs)) =
      (scan fuel (plain cs)).map (.name (String.ofList ['y']) :: ·) := by
  have hnone : ∀ d ∈ ([] : List Char), isNamePart d = true := fun _ hd => by cases hd
  have htake := takeWhile_append_stop hnone hrest
  have hdrop := dropWhile_append_stop hnone hrest
  rw [List.nil_append] at htake hdrop
  rw [plain_state, scan_name_step (startsNumber_cons (by decide) _) (by decide), htake, hdrop]

section

variable (hw : IsStateName w) {fuel : Nat} {ts : List Token} {a : Char}
  (hcs : Marked false (.char a :: cs) false)
  (hlater : ∀ k us, Marked false ((Cell.char a :: cs).drop k) false →
    scan fuel (plain ((Cell.char a :: cs).drop k)) = some us →
    scan fuel (named w ((Cell.char a :: cs).drop k)) =
      some (us.map (Token.rename (asNamed w))))

include hw hcs hlater

/-- A number is cut off, and no `y` follows. -/
theorem scan_named_number (hhash : a ≠ '#') (hspace : a ≠ ' ')
    (hstart : startsNumber (a :: plain cs) = true) (hstart' : startsNumber (a :: named w cs) = true)
    (h : scan (fuel + 1) (a :: plain cs) = some ts) :
    scan (fuel + 1) (a :: named w cs) = some (ts.map (Token.rename (asNamed w))) := by
  rw [scan_number_step hhash hspace hstart] at h
  obtain ⟨⟨l, rest⟩, hnumber, hscan⟩ := Option.bind_eq_some_iff.mp h
  obtain ⟨us, hus, rfl⟩ := Option.map_eq_some_iff.mp hscan
  change takeNumber? (plain (.char a :: cs)) = some (l, rest) at hnumber
  obtain ⟨k, rfl, hnamed⟩ := halts_named hw takeNumber?_halts
    (fun xs x rest hx => (takeNumber?_rest hx).1) hnumber
  have hmarked : Marked false ((Cell.char a :: cs).drop k) false := by
    refine hcs.drop.of_head fun hhead => ?_
    obtain ⟨tail, htail⟩ := List.head?_eq_some_iff.mp hhead
    have hends := (takeNumber?_rest hnumber).2
    rw [htail, endsNumber_y] at hends
    cases hends
  rw [named_char] at hnamed
  rw [scan_number_step hhash hspace hstart', hnamed, Option.bind_some, hlater k us hmarked hus]
  rfl

/-- A mark is cut off, which is no part of a word. -/
theorem scan_named_mark (hhash : a ≠ '#') (hspace : a ≠ ' ')
    (hstart : startsNumber (a :: plain cs) = false)
    (hstart' : startsNumber (a :: named w cs) = false) (hname : isNameStart a = false)
    (h : scan (fuel + 1) (a :: plain cs) = some ts) :
    scan (fuel + 1) (a :: named w cs) = some (ts.map (Token.rename (asNamed w))) := by
  rw [scan_mark_step hhash hspace hstart hname] at h
  obtain ⟨⟨m, rest⟩, hmark, hscan⟩ := Option.bind_eq_some_iff.mp h
  obtain ⟨us, hus, rfl⟩ := Option.map_eq_some_iff.mp hscan
  change takeMark? (plain (.char a :: cs)) = some (m, rest) at hmark
  obtain ⟨k, rfl, hnamed⟩ := halts_named hw takeMark?_halts
    (fun xs x rest hx => ⟨_, (takeMark?_spec hx).1.symm⟩) hmark
  have hmarked : Marked false ((Cell.char a :: cs).drop k) false := by
    obtain ⟨htext, hne, hword⟩ := takeMark?_spec hmark
    have htake : plain ((Cell.char a :: cs).take k) = m.toList := by
      have happend : plain ((Cell.char a :: cs).take k) ++ plain ((Cell.char a :: cs).drop k) =
          m.toList ++ plain ((Cell.char a :: cs).drop k) := by
        rw [← plain_append, List.take_append_drop, ← htext]
      exact List.append_cancel_right happend
    have htrails : trails false ((Cell.char a :: cs).take k) = false := by
      refine trails_of_gap fun c hc => hword _ ?_
      rw [← htake]
      exact List.mem_map_of_mem hc
    have hdrop := hcs.drop (n := k)
    rwa [htrails] at hdrop
  rw [named_char] at hnamed
  rw [scan_mark_step hhash hspace hstart' hname, hnamed, Option.bind_some, hlater k us hmarked hus]
  rfl

/-- A name is cut off, which is not that of the state. -/
theorem scan_named_name (hascii : Ascii (plain (.char a :: cs)))
    (hstart : startsNumber (a :: plain cs) = false)
    (hstart' : startsNumber (a :: named w cs) = false) (hname : isNameStart a = true)
    (h : scan (fuel + 1) (a :: plain cs) = some ts) :
    scan (fuel + 1) (a :: named w cs) = some (ts.map (Token.rename (asNamed w))) := by
  rw [scan_name_step hstart hname] at h
  obtain ⟨us, hus, rfl⟩ := Option.map_eq_some_iff.mp h
  have ha := (isNamePart_eq_isWord (hascii a List.mem_cons_self)).symm.trans
    (isNamePart_of_isNameStart hname)
  have htrue : Marked true cs false := ha ▸ hcs.2
  have hstate := state_not_mem htrue (p := isNamePart) fun c hc hpart =>
    (isNamePart_eq_isWord (hascii _ (List.mem_cons_of_mem _ (List.mem_map_of_mem hc)))).symm.trans
      hpart
  have hdrop : (Cell.char a :: cs).drop ((cs.takeWhile (Cell.is isNamePart)).length + 1) =
      cs.dropWhile (Cell.is isNamePart) := drop_length_takeWhile cs
  have hstop : StopsAt isNamePart (plain (cs.dropWhile (Cell.is isNamePart))) := by
    rw [← dropWhile_plain]
    exact stopsAt_dropWhile _
  have hmarked : Marked false (cs.dropWhile (Cell.is isNamePart)) false := by
    rw [← hdrop]
    refine hcs.drop.of_head fun hhead => ?_
    rw [hdrop] at hhead
    exact absurd (hstop 'y' hhead) (by decide)
  have hrest := hlater _ us (hdrop ▸ hmarked) (by rwa [hdrop, ← dropWhile_plain])
  -- a lone `y` would be the state
  have hne : a :: (plain cs).takeWhile isNamePart ≠ ['y'] := by
    intro hy
    obtain ⟨rfl, hnil⟩ := List.cons.inj hy
    rcases hcs.1 rfl with hleft | hright
    · cases hleft
    · rw [leads_eq] at hright
      cases hhead : (plain cs).head? with
      | none =>
        rw [hhead] at hright
        cases hright
      | some c =>
        have hc := hascii c (List.mem_cons_of_mem _ (List.mem_of_mem_head? hhead))
        obtain ⟨rest, hrest⟩ := List.head?_eq_some_iff.mp hhead
        rw [hhead, Option.elim_some, ← isNamePart_eq_isWord hc] at hright
        rw [hrest, List.takeWhile_cons_of_pos hright] at hnil
        cases hnil
  rw [scan_name_step hstart' hname, takeWhile_named hw steady_isNamePart, named_eq_plain hstate,
    dropWhile_named hw steady_isNamePart, ← hdrop, hrest, ← takeWhile_plain]
  rw [Option.map_some, List.map_cons, Token.rename, asNamed_other hne]

end

/-- **The tokens of a formula** are those of the plain text, with the name of the state. -/
theorem scan_named (hw : IsStateName w) {fuel : Nat} {ts : List Token}
    (hascii : Ascii (plain cs)) (hcs : Marked false cs false)
    (h : scan fuel (plain cs) = some ts) :
    scan fuel (named w cs) = some (ts.map (Token.rename (asNamed w))) := by
  induction fuel generalizing cs ts with
  | zero => cases h
  | succ fuel ih =>
    cases cs with
    | nil =>
      obtain rfl := Option.some.inj h
      rfl
    | cons c cs =>
      have hrest : Ascii (plain cs) := fun d hd => hascii d (List.mem_cons_of_mem _ hd)
      cases c with
      | state =>
        -- the state is a token of its own, with either name
        have hstop := stopsAt_isNamePart_of_leads hrest hcs.1.2
        rw [scan_plain_state hstop] at h
        obtain ⟨us, hus, rfl⟩ := Option.map_eq_some_iff.mp h
        rw [scan_state hw fun d hd => hstop d ((head?_named hw).symm.trans hd),
          ih hrest (hcs.2.of_head fun hhead => ?_) hus]
        · rw [Option.map_some, List.map_cons, Token.rename, asNamed_state]
        · exact absurd (hstop 'y' hhead) (by decide)
      | char a =>
        have hstart : startsNumber (named w (.char a :: cs)) =
            startsNumber (plain (.char a :: cs)) := startsNumber_named hw
        -- any other token is the same, and the scan goes on behind its cells
        have hlater := fun k us (hmarked : Marked false ((Cell.char a :: cs).drop k) false)
            (hscan : scan fuel (plain ((Cell.char a :: cs).drop k)) = some us) =>
          ih (ascii_drop hascii) hmarked hscan
        rw [plain_char] at h hstart
        rw [named_char] at hstart ⊢
        generalize hbegins : a :: plain cs = xs at h hstart
        cases begins xs with
        | done => cases hbegins
        | hash rest =>
          cases hbegins
          obtain rfl := Option.some.inj h
          rfl
        | blank rest =>
          cases hbegins
          rw [scan_space] at h ⊢
          exact ih hrest hcs.2 h
        | number hhash hspace hnumber =>
          cases hbegins
          exact scan_named_number hw hcs hlater hhash hspace hnumber (hstart.trans hnumber) h
        | name hnumber hname =>
          cases hbegins
          exact scan_named_name hw hcs hlater hascii hnumber (hstart.trans hnumber) hname h
        | mark hhash hspace hnumber hname =>
          cases hbegins
          exact scan_named_mark hw hcs hlater hhash hspace hnumber (hstart.trans hnumber) hname h

end StateName

end InitialValue.Formula
