import HeaderBinding.Token.Pattern

/-!
# Derivatives and languages

`nullable`, `isVoid` and `derivative` are the three questions a lexer asks of a pattern. Each is
answered here by the language of the pattern: a text is matched exactly if the pattern left by its
bytes matches the empty text, and a pattern is dropped exactly if no word is left for it.
-/

namespace HeaderBinding

namespace Pattern

variable {p q : Pattern} {s : Bytes} {b low high : UInt8}

/-! ## The language by the form of the pattern -/

@[simp] theorem not_matches_void : ¬ Matches .void s := by
  intro h
  cases h

@[simp] theorem matches_empty_iff : Matches .empty s ↔ s = [] := by
  constructor
  · intro h
    cases h
    rfl
  · rintro rfl
    exact .empty

theorem matches_range_iff : Matches (.range low high) s ↔ ∃ b, low ≤ b ∧ b ≤ high ∧ s = [b] := by
  constructor
  · intro h
    cases h with
    | range hl hh => exact ⟨_, hl, hh, rfl⟩
  · rintro ⟨b, hl, hh, rfl⟩
    exact .range hl hh

theorem matches_seq_iff :
    Matches (.seq p q) s ↔ ∃ t u, Matches p t ∧ Matches q u ∧ t ++ u = s := by
  constructor
  · intro h
    cases h with
    | seq hp hq => exact ⟨_, _, hp, hq, rfl⟩
  · rintro ⟨t, u, hp, hq, rfl⟩
    exact .seq hp hq

@[simp] theorem matches_alt_iff : Matches (.alt p q) s ↔ Matches p s ∨ Matches q s := by
  constructor
  · intro h
    cases h with
    | altLeft h => exact .inl h
    | altRight h => exact .inr h
  · rintro (h | h)
    · exact .altLeft h
    · exact .altRight h

/-- A repetition that matches something starts with a match that is not empty. -/
theorem matches_star_cons_iff :
    Matches (.star p) (b :: s) ↔
      ∃ t u, Matches p (b :: t) ∧ Matches (.star p) u ∧ t ++ u = s := by
  constructor
  · intro h
    generalize hstar : Pattern.star p = r at h
    generalize htext : b :: s = text at h
    induction h with
    | @starCons _ t u hp hrest _ ih =>
        cases hstar
        cases t with
        | nil => exact ih rfl htext
        | cons a t =>
            obtain ⟨rfl, rfl⟩ := List.cons.inj htext
            exact ⟨t, u, hp, hrest, rfl⟩
    | starNil => cases htext
    | _ => cases hstar
  · rintro ⟨t, u, hp, hrest, rfl⟩
    exact .starCons hp hrest

/-! ## The empty text -/

theorem nullable_iff : p.nullable = true ↔ Matches p [] := by
  induction p with
  | void => simp [nullable]
  | empty => simp [nullable]
  | range low high => simp [nullable, matches_range_iff]
  | seq p q ihp ihq =>
      simp only [nullable, Bool.and_eq_true, ihp, ihq, matches_seq_iff, List.append_eq_nil_iff]
      constructor
      · rintro ⟨hp, hq⟩
        exact ⟨[], [], hp, hq, rfl, rfl⟩
      · rintro ⟨t, u, hp, hq, rfl, rfl⟩
        exact ⟨hp, hq⟩
  | alt p q ihp ihq => simp [nullable, ihp, ihq]
  | star p => simp [nullable, Matches.starNil]

/-! ## One byte -/

theorem matches_thenMatch_iff : Matches (thenMatch p q) s ↔ Matches (.seq p q) s := by
  fun_cases thenMatch p q with
  | case1 => simp [matches_seq_iff]
  | case2 => simp [matches_seq_iff]
  | case3 => rfl

theorem matches_orMatch_iff : Matches (orMatch p q) s ↔ Matches (.alt p q) s := by
  fun_cases orMatch p q with
  | case1 => simp
  | case2 => simp
  | case3 => rfl

/-- A sequence starts with a byte of its first part, or with one of the second if the first is
empty. -/
theorem matches_seq_cons_iff :
    Matches (.seq p q) (b :: s) ↔
      (∃ t u, Matches p (b :: t) ∧ Matches q u ∧ t ++ u = s) ∨
        Matches p [] ∧ Matches q (b :: s) := by
  rw [matches_seq_iff]
  constructor
  · rintro ⟨t, u, hp, hq, htext⟩
    cases t with
    | nil =>
        subst htext
        exact .inr ⟨hp, hq⟩
    | cons a t =>
        obtain ⟨rfl, rfl⟩ := List.cons.inj htext
        exact .inl ⟨t, u, hp, hq, rfl⟩
  · rintro (⟨t, u, hp, hq, rfl⟩ | ⟨hp, hq⟩)
    · exact ⟨b :: t, u, hp, hq, rfl⟩
    · exact ⟨[], b :: s, hp, hq, rfl⟩

theorem matches_derivative_iff : Matches (p.derivative b) s ↔ Matches p (b :: s) := by
  induction p generalizing s with
  | void => simp [derivative]
  | empty => simp [derivative]
  | range low high =>
      simp only [derivative, matches_range_iff, List.cons.injEq]
      split
      · rename_i h
        simp only [Bool.and_eq_true, decide_eq_true_eq] at h
        rw [matches_empty_iff]
        constructor
        · rintro rfl
          exact ⟨b, h.1, h.2, rfl, rfl⟩
        · rintro ⟨_, _, _, _, hs⟩
          exact hs
      · rename_i h
        simp only [Bool.and_eq_true, decide_eq_true_eq] at h
        simp only [not_matches_void, false_iff]
        rintro ⟨a, hl, hh, rfl, _⟩
        exact h ⟨hl, hh⟩
  | seq p q ihp ihq =>
      simp only [derivative, matches_seq_cons_iff, ← nullable_iff]
      split
      · rename_i h
        simp only [matches_orMatch_iff, matches_alt_iff, matches_thenMatch_iff, matches_seq_iff,
          ihp, ihq, h, true_and]
      · rename_i h
        simp only [matches_thenMatch_iff, matches_seq_iff, ihp, h, Bool.false_eq_true, false_and,
          or_false]
  | alt p q ihp ihq => simp only [derivative, matches_orMatch_iff, matches_alt_iff, ihp, ihq]
  | star p ih =>
      simp only [derivative, matches_thenMatch_iff, matches_seq_iff, matches_star_cons_iff, ih]

/-- A text is matched if nothing is left to match behind its bytes. -/
theorem nullable_foldl_derivative_iff :
    (s.foldl (fun p b => p.derivative b) p).nullable = true ↔ Matches p s := by
  induction s generalizing p with
  | nil => exact nullable_iff
  | cons b s ih => rw [List.foldl_cons, ih, matches_derivative_iff]

instance : Decidable (Matches p s) :=
  decidable_of_iff _ nullable_foldl_derivative_iff

/-! ## No text at all -/

theorem isVoid_eq_false_iff : p.isVoid = false ↔ ∃ s, Matches p s := by
  induction p with
  | void => simp [isVoid]
  | empty => simp [isVoid]
  | range low high =>
      simp only [isVoid, decide_eq_false_iff_not, UInt8.not_lt, matches_range_iff]
      constructor
      · intro h
        exact ⟨[low], low, UInt8.le_refl low, h, rfl⟩
      · rintro ⟨_, b, hl, hh, _⟩
        exact UInt8.le_trans hl hh
  | seq p q ihp ihq =>
      simp only [isVoid, Bool.or_eq_false_iff, ihp, ihq, matches_seq_iff]
      constructor
      · rintro ⟨⟨t, hp⟩, ⟨u, hq⟩⟩
        exact ⟨t ++ u, t, u, hp, hq, rfl⟩
      · rintro ⟨_, t, u, hp, hq, _⟩
        exact ⟨⟨t, hp⟩, ⟨u, hq⟩⟩
  | alt p q ihp ihq =>
      simp only [isVoid, Bool.and_eq_false_iff, ihp, ihq, matches_alt_iff, exists_or]
  | star p =>
      simp only [isVoid, true_iff]
      exact ⟨[], .starNil⟩

/-- A pattern lives on behind the first byte of a text that it matches. -/
theorem isVoid_derivative (h : p.Matches (b :: s)) : (p.derivative b).isVoid = false :=
  isVoid_eq_false_iff.mpr ⟨s, matches_derivative_iff.mpr h⟩

theorem isVoid_foldl_derivative {front : Bytes} (h : p.Matches (front ++ s)) :
    (front.foldl (fun p b => p.derivative b) p).isVoid = false := by
  induction front generalizing p with
  | nil => exact isVoid_eq_false_iff.mpr ⟨s, h⟩
  | cons b front ih => exact ih (matches_derivative_iff.mpr h)

end Pattern

end HeaderBinding
