import HeaderBinding.Proofs.Reading.Passage
import HeaderBinding.Reading.Member

/-!
# Enumerators are read as the grammar has them

The text of the current enumerator stands for the tokens it was gathered from, so the statement
about the loop speaks of these tokens and those up to the closing brace.
-/

namespace HeaderBinding

namespace Grammar

theorem Enumerators.kind_ne {tokens : List Token} {texts : List Bytes}
    (h : Enumerators tokens texts) :
    ∀ t ∈ tokens, t.kind ≠ .comma → endsEnumerator t = false := by
  induction h with
  | empty hpiece _ => exact fun t ht _ => hpiece t ht
  | last hpiece _ => exact fun t ht _ => hpiece t ht
  | cons hpiece _ ht _ ih =>
      intro u hu hne
      rcases List.mem_append.mp hu with hu | hu
      · exact hpiece u hu
      · rcases List.mem_cons.mp hu with rfl | hu
        · exact absurd ht hne
        · exact ih u hu hne

theorem endsEnumerator_of_comma {t : Token} (ht : t.kind = .comma) : endsEnumerator t = true := by
  simp [endsEnumerator, ht]

theorem enumerators_of_piece {piece : List Token} {texts : List Bytes}
    (hpiece : ∀ t ∈ piece, endsEnumerator t = false) :
    Enumerators piece texts ↔
      texts = if enumeratorText piece = [] then [] else [enumeratorText piece] := by
  constructor
  · intro h
    cases h with
    | empty _ htext => simp [htext]
    | last _ htext => simp [htext]
    | cons _ _ ht _ =>
        have hfalse := hpiece _ (List.mem_append_right _ List.mem_cons_self)
        simp [endsEnumerator_of_comma ht] at hfalse
  · rintro rfl
    split
    · rename_i htext
      exact .empty hpiece htext
    · rename_i htext
      exact .last hpiece htext

/-- The first comma ends the first enumerator, which must not be empty. -/
theorem enumerators_append_comma {piece tokens : List Token} {t : Token} {texts : List Bytes}
    (hpiece : ∀ t ∈ piece, endsEnumerator t = false) (ht : t.kind = .comma) :
    Enumerators (piece ++ t :: tokens) texts ↔
      enumeratorText piece ≠ [] ∧
        ∃ others, texts = enumeratorText piece :: others ∧ Enumerators tokens others := by
  constructor
  · intro h
    generalize hall : piece ++ t :: tokens = all at h
    have hmem : t ∈ all := hall ▸ by simp
    cases h with
    | empty hall _ => exact absurd (endsEnumerator_of_comma ht) (by simp [hall t hmem])
    | last hall _ => exact absurd (endsEnumerator_of_comma ht) (by simp [hall t hmem])
    | cons hfront htext hu hrest =>
        obtain ⟨rfl, rfl, rfl⟩ :=
          append_cons_inj (p := (endsEnumerator · = true)) (by simpa using hpiece)
            (by simpa using hfront) (endsEnumerator_of_comma ht) (endsEnumerator_of_comma hu) hall
        exact ⟨htext, _, rfl, hrest⟩
  · intro h
    rcases h with ⟨htext, others, rfl, h⟩
    exact .cons hpiece htext ht h

/-- At the closing brace the current enumerator is the last one, if it has a text. -/
theorem exists_enumerators_of_piece {done : Array Bytes} {piece : List Token} {texts : List Bytes}
    (hpiece : ∀ t ∈ piece, endsEnumerator t = false) :
    (∃ others, texts = done.toList ++ others ∧ Enumerators piece others) ↔
      (if enumeratorText piece = [] then done.toList
        else (done.push (enumeratorText piece)).toList) = texts := by
  simp only [enumerators_of_piece hpiece, exists_eq_right]
  split <;> simp [eq_comm]

/-- A mark other than a comma is no part of an enumerator. -/
theorem not_enumerators_of_mark (front : List Token) {t : Token} (hne : t.kind ≠ .comma)
    (ht : endsEnumerator t = true) (body : List Token) (others : List Bytes) :
    ¬ Enumerators (front ++ t :: body) others := by
  intro h
  simp [h.kind_ne t (by simp) hne] at ht

/-- Enumerators are read up to the brace that closes them, and only if they have the form of
enumerators together with the tokens of the current one that were read before. -/
theorem readEnumerators_eq_done_iff {o : ReadOptions} {c : Construct} {done : Array Bytes}
    {current : Array UInt8} {multiline : Bool} {front tokens rest : List Token}
    {texts : List Bytes} (hfront : ∀ t ∈ front, endsEnumerator t = false)
    (hcurrent : current.toList = Token.concat (front.filter isEnumeratorText)) :
    readEnumerators o c done current multiline tokens = .done texts rest ↔
      Encloses .rightBrace
        (fun body =>
          (o.multilineEnum = true ∨ multiline = false ∧ ∀ t ∈ body, t.kind ≠ .newline) ∧
          ∃ others, texts = done.toList ++ others ∧ Enumerators (front ++ body) others)
        tokens rest := by
  induction tokens generalizing done current multiline front with
  | nil => simp [readEnumerators, Construct.cut, encloses_nil]
  | cons t tokens ih =>
      have htext : Bytes.trim current.toList = enumeratorText front := by
        rw [hcurrent, enumeratorText]
      rw [readEnumerators]
      split
      · rename_i hk
        have hpiece : current.toList = Token.concat ((front ++ [t]).filter isEnumeratorText) := by
          simp [hcurrent, isEnumeratorText, hk]
        rw [encloses_cons_of_ne (by simp [hk]),
          ih (forall_mem_concat hfront (by simp [endsEnumerator, hk])) hpiece]
        simp [hk]
      · rename_i hk
        have hpiece : current.toList = Token.concat ((front ++ [t]).filter isEnumeratorText) := by
          simp [hcurrent, isEnumeratorText, hk]
        rw [encloses_cons_of_ne (by simp [hk]),
          ih (forall_mem_concat hfront (by simp [endsEnumerator, hk])) hpiece]
        simp [hk]
      · rename_i hk
        rw [encloses_cons_of_ne (by simp [hk])]
        simp only [enumerators_append_comma hfront hk, htext]
        split
        · rename_i hempty
          simp [List.isEmpty_iff.mp hempty, Encloses]
        · rename_i hnonempty
          have hne : enumeratorText front ≠ [] := by simpa using hnonempty
          rw [ih (List.forall_mem_nil _) rfl]
          simp only [exists_push_append_iff]
          simp [hne, hk]
      · rename_i hk
        have hinside := not_enumerators_of_mark front (t := t) (by simp [hk])
          (by simp [endsEnumerator, hk])
        rw [encloses_cons_of_eq hk (by simp [hinside])]
        simp only [List.append_nil, exists_enumerators_of_piece hfront, htext]
        split
        · rename_i hlines
          simp [hlines.1, hlines.2]
        · rename_i hlines
          have hallowed : o.multilineEnum = true ∨ multiline = false := by
            cases multiline <;> simp_all
          split
          · rename_i hempty
            simp [List.isEmpty_iff.mp hempty, hallowed, and_comm]
          · rename_i hnonempty
            have hne : enumeratorText front ≠ [] := by simpa using hnonempty
            simp [hne, hallowed, and_comm]
      iterate 3
        rename_i hk
        have hinside := not_enumerators_of_mark front (t := t) (by simp [hk])
          (by simp [endsEnumerator, hk])
        rw [encloses_cons_of_ne (by simp [hk])]
        simp [hinside, Encloses]
      · rename_i hcomment hnewline hcomma hright hleft hsemicolon hinvalid
        have hends : endsEnumerator t = false := by
          simp only [endsEnumerator, Bool.or_eq_false_iff, beq_eq_false_iff_ne]
          exact ⟨⟨⟨⟨hcomma, hleft⟩, hright⟩, hsemicolon⟩, hinvalid⟩
        have htaken : isEnumeratorText t = true := by
          simp only [isEnumeratorText, Bool.and_eq_true, bne_iff_ne]
          exact ⟨hcomment, hnewline⟩
        have hpiece : (current ++ t.text).toList =
            Token.concat ((front ++ [t]).filter isEnumeratorText) := by
          simp [hcurrent, htaken]
        rw [encloses_cons_of_ne hright, ih (forall_mem_concat hfront hends) hpiece]
        simp [show t.kind ≠ .newline from hnewline]

end Grammar

end HeaderBinding
