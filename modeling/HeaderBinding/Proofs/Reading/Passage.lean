import HeaderBinding.Proofs.Reading.Grammar
import Mathlib.Data.List.TakeWhile

/-!
# Passing over layout, and reading up to a mark

What the readers skip is what the grammar leaves out of account, and a reader that stops at a mark
is described by what the mark encloses.
-/

namespace HeaderBinding

/-! ## Skipping -/

theorem TokenKind.isLayoutOrNewline_iff {k : TokenKind} :
    k.isLayoutOrNewline = true ↔ k = .whiteSpace ∨ k = .comment ∨ k = .newline := by
  cases k <;> decide

theorem isLayoutOrNewline_eq_false {k : TokenKind} (hwhite : k ≠ .whiteSpace)
    (hcomment : k ≠ .comment) (hnewline : k ≠ .newline) : k.isLayoutOrNewline = false := by
  rw [← Bool.not_eq_true, TokenKind.isLayoutOrNewline_iff]
  rintro (h | h | h) <;> contradiction

theorem solid_cons_of_blank {t : Token} (h : t.kind.isLayoutOrNewline = true)
    (tokens : List Token) : solid (t :: tokens) = solid tokens := by
  simp [solid, h]

theorem solid_cons_of_solid {t : Token} (h : t.kind.isLayoutOrNewline = false)
    (tokens : List Token) : solid (t :: tokens) = t :: solid tokens := by
  simp [solid, h]

theorem significant_cons {t : Token} (h : t.kind.isLayout = false) (tokens : List Token) :
    significant (t :: tokens) = t :: significant tokens := by
  simp [significant, h]

theorem dropWhile_eq_cons_iff {α : Type} {p : α → Bool} {l rest : List α} {a : α} :
    l.dropWhile p = a :: rest ↔
      ∃ front, l = front ++ a :: rest ∧ (front.filter fun x => !p x) = [] ∧ p a = false := by
  induction l with
  | nil => simp
  | cons x l ih =>
      rw [List.dropWhile_cons]
      split
      · rename_i hx
        rw [ih]
        constructor
        · intro h
          rcases h with ⟨front, rfl, hfront, ha⟩
          exact ⟨x :: front, rfl, by simpa [hx] using hfront, ha⟩
        · intro h
          rcases h with ⟨front, h, hfront, ha⟩
          cases front with
          | nil =>
              obtain ⟨rfl, _⟩ := List.cons.inj h
              simp [hx] at ha
          | cons y front =>
              obtain ⟨rfl, rfl⟩ := List.cons.inj h
              exact ⟨front, rfl, by simpa [hx] using hfront, ha⟩
      · rename_i hx
        constructor
        · intro h
          obtain ⟨rfl, rfl⟩ := List.cons.inj h
          exact ⟨[], rfl, rfl, by simpa using hx⟩
        · intro h
          rcases h with ⟨front, h, hfront, ha⟩
          cases front with
          | nil => exact h
          | cons y front =>
              obtain ⟨rfl, rfl⟩ := List.cons.inj h
              simp [hx] at hfront

theorem skipLayout_eq_nil_iff {tokens : List Token} :
    skipLayout tokens = [] ↔ significant tokens = [] := by
  simp [skipLayout, significant, List.dropWhile_eq_nil_iff]

theorem skipLayout_eq_cons_iff {tokens rest : List Token} {t : Token} :
    skipLayout tokens = t :: rest ↔
      ∃ front, tokens = front ++ t :: rest ∧ significant front = [] ∧ t.kind.isLayout = false :=
  dropWhile_eq_cons_iff

theorem skipLines_eq_cons_iff {tokens rest : List Token} {t : Token} :
    skipLines tokens = t :: rest ↔
      ∃ front, tokens = front ++ t :: rest ∧ solid front = [] ∧
        t.kind.isLayoutOrNewline = false :=
  dropWhile_eq_cons_iff

theorem skipLayout_append {front : List Token} (h : significant front = []) (tokens : List Token) :
    skipLayout (front ++ tokens) = skipLayout tokens := by
  apply List.dropWhile_append_of_pos
  simpa [significant] using h

theorem skipLines_append {front : List Token} (h : solid front = []) (tokens : List Token) :
    skipLines (front ++ tokens) = skipLines tokens := by
  apply List.dropWhile_append_of_pos
  simpa [solid] using h

theorem skipLayout_append_cons {front rest : List Token} {t : Token} (h : significant front = [])
    (ht : t.kind.isLayout = false) : skipLayout (front ++ t :: rest) = t :: rest :=
  skipLayout_eq_cons_iff.mpr ⟨front, rfl, h, ht⟩

theorem skipLines_append_cons {front rest : List Token} {t : Token} (h : solid front = [])
    (ht : t.kind.isLayoutOrNewline = false) : skipLines (front ++ t :: rest) = t :: rest :=
  skipLines_eq_cons_iff.mpr ⟨front, rfl, h, ht⟩

theorem significant_append (front tokens : List Token) :
    significant (front ++ tokens) = significant front ++ significant tokens := by
  simp [significant]

theorem solid_append (front tokens : List Token) :
    solid (front ++ tokens) = solid front ++ solid tokens := by
  simp [solid]

theorem filter_eq_cons {α : Type} {p : α → Bool} {l others : List α} {a : α}
    (h : l.filter p = a :: others) :
    ∃ front rest, l = front ++ a :: rest ∧ front.filter p = [] ∧ p a = true ∧
      rest.filter p = others := by
  obtain ⟨front, rest, rfl, hfront, ha, hrest⟩ := List.filter_eq_cons_iff.mp h
  exact ⟨front, rest, rfl, List.filter_eq_nil_iff.mpr hfront, ha, hrest⟩

/-- The first token that is not layout, what is before it and what is behind it. -/
theorem significant_eq_cons {tokens others : List Token} {t : Token}
    (h : significant tokens = t :: others) :
    ∃ front rest, tokens = front ++ t :: rest ∧ significant front = [] ∧
      t.kind.isLayout = false ∧ significant rest = others := by
  obtain ⟨front, rest, htokens, hfront, ht, hrest⟩ := filter_eq_cons h
  exact ⟨front, rest, htokens, hfront, by simpa using ht, hrest⟩

theorem solid_eq_cons {tokens others : List Token} {t : Token} (h : solid tokens = t :: others) :
    ∃ front rest, tokens = front ++ t :: rest ∧ solid front = [] ∧
      t.kind.isLayoutOrNewline = false ∧ solid rest = others := by
  obtain ⟨front, rest, htokens, hfront, ht, hrest⟩ := filter_eq_cons h
  exact ⟨front, rest, htokens, hfront, by simpa using ht, hrest⟩

/-! ## What a closing mark encloses -/

/-- The tokens up to a closing mark have a property, and `rest` is behind the mark. -/
def Encloses (closing : TokenKind) (p : List Token → Prop) (tokens rest : List Token) : Prop :=
  ∃ body right, tokens = body ++ right :: rest ∧ right.kind = closing ∧ p body

section

variable {closing : TokenKind} {p q : List Token → Prop} {t : Token} {tokens rest : List Token}

theorem encloses_nil : ¬ Encloses closing p [] rest := by
  intro h
  rcases h with ⟨body, right, h, _⟩
  simp at h

theorem encloses_cons :
    Encloses closing p (t :: tokens) rest ↔
      (t.kind = closing ∧ tokens = rest ∧ p []) ∨
        Encloses closing (fun body => p (t :: body)) tokens rest := by
  constructor
  · intro h
    rcases h with ⟨body, right, h, hright, hbody⟩
    cases body with
    | nil =>
        obtain ⟨rfl, rfl⟩ := List.cons.inj h
        exact .inl ⟨hright, rfl, hbody⟩
    | cons u body =>
        obtain ⟨rfl, rfl⟩ := List.cons.inj h
        exact .inr ⟨body, right, rfl, hright, hbody⟩
  · intro h
    rcases h with ⟨ht, rfl, hbody⟩ | ⟨body, right, rfl, hright, hbody⟩
    · exact ⟨[], t, rfl, ht, hbody⟩
    · exact ⟨t :: body, right, rfl, hright, hbody⟩

theorem encloses_congr (h : ∀ body, p body ↔ q body) :
    Encloses closing p tokens rest ↔ Encloses closing q tokens rest := by
  simp only [Encloses, h]

theorem not_encloses (h : ∀ body, ¬ p body) : ¬ Encloses closing p tokens rest := by
  intro h
  rcases h with ⟨body, _, _, _, hbody⟩
  exact h body hbody

/-- A token that is not the mark belongs to what is enclosed. -/
theorem encloses_cons_of_ne (hne : t.kind ≠ closing) :
    Encloses closing p (t :: tokens) rest ↔
      Encloses closing (fun body => p (t :: body)) tokens rest := by
  simp [encloses_cons, hne]

/-- A mark that may not stand inside is the closing one. -/
theorem encloses_cons_of_eq (heq : t.kind = closing) (hinside : ∀ body, ¬ p (t :: body)) :
    Encloses closing p (t :: tokens) rest ↔ tokens = rest ∧ p [] := by
  simp [encloses_cons, heq, not_encloses hinside]

end

section

variable {closing : TokenKind} (hclosing : closing.isLayoutOrNewline = false)
  (p : List Token → Prop) {t : Token} (tokens rest : List Token)

include hclosing

/-- A blank at the front does not matter where blanks do not count. -/
theorem encloses_cons_of_blank (hblank : t.kind.isLayoutOrNewline = true) :
    Encloses closing (fun body => p (solid body)) (t :: tokens) rest ↔
      Encloses closing (fun body => p (solid body)) tokens rest := by
  have hne : t.kind ≠ closing := by
    rintro rfl
    simp [hclosing] at hblank
  rw [encloses_cons_of_ne hne]
  simp only [solid_cons_of_blank hblank]

theorem encloses_skipLines :
    Encloses closing (fun body => p (solid body)) tokens rest ↔
      Encloses closing (fun body => p (solid body)) (skipLines tokens) rest := by
  induction tokens with
  | nil => rfl
  | cons t tokens ih =>
      by_cases hblank : t.kind.isLayoutOrNewline = true
      · have hskip : skipLines (t :: tokens) = skipLines tokens := by
          simp [skipLines, hblank]
        rw [encloses_cons_of_blank hclosing p tokens rest hblank, hskip, ih]
      · have hskip : skipLines (t :: tokens) = t :: tokens := by
          simp [skipLines, hblank]
        rw [hskip]

end

/-! ## What is gathered on the way -/

theorem forall_mem_concat {α : Type} {p : α → Prop} {l : List α} {a : α} (hl : ∀ b ∈ l, p b)
    (ha : p a) : ∀ b ∈ l ++ [a], p b := by
  rw [List.forall_mem_append, List.forall_mem_singleton]
  exact ⟨hl, ha⟩

theorem forall_mem_push {α : Type} {p : α → Prop} {done : Array α} {a : α}
    (hdone : ∀ b ∈ done.toList, p b) (ha : p a) : ∀ b ∈ (done.push a).toList, p b := by
  rw [Array.toList_push]
  exact forall_mem_concat hdone ha

/-- What comes behind an element that was gathered comes with it behind those gathered before. -/
theorem exists_push_append_iff {α : Type} {done : Array α} {a : α} {all : List α}
    {p : List α → Prop} :
    (∃ others, all = (done.push a).toList ++ others ∧ p others) ↔
      ∃ others, all = done.toList ++ others ∧ ∃ behind, others = a :: behind ∧ p behind := by
  constructor
  · rintro ⟨others, rfl, h⟩
    exact ⟨a :: others, by simp, others, rfl, h⟩
  · rintro ⟨_, rfl, others, rfl, h⟩
    exact ⟨others, by simp, h⟩

/-- A token that is not the mark moves over to those gathered before. -/
theorem encloses_cons_push {closing : TokenKind} {p : List Token → Prop} {current : Array Token}
    {t : Token} {tokens rest : List Token} (hsolid : t.kind.isLayoutOrNewline = false)
    (hne : t.kind ≠ closing) :
    Encloses closing (fun body => p (current.toList ++ solid body)) (t :: tokens) rest ↔
      Encloses closing (fun body => p ((current.push t).toList ++ solid body)) tokens rest := by
  rw [encloses_cons_of_ne hne]
  simp [solid_cons_of_solid hsolid]

/-- A list is cut in one way only at the first element with a property. -/
theorem append_cons_inj {α : Type} {p : α → Prop} {x y u v : List α} {a b : α}
    (hx : ∀ c ∈ x, ¬ p c) (hy : ∀ c ∈ y, ¬ p c) (ha : p a) (hb : p b)
    (h : x ++ a :: u = y ++ b :: v) : x = y ∧ a = b ∧ u = v := by
  induction x generalizing y with
  | nil =>
      cases y with
      | nil => simpa using h
      | cons c y =>
          obtain ⟨rfl, _⟩ := List.cons.inj h
          exact absurd ha (hy a (by simp))
  | cons c x ih =>
      cases y with
      | nil =>
          obtain ⟨rfl, _⟩ := List.cons.inj h
          exact absurd hb (hx c (by simp))
      | cons d y =>
          obtain ⟨rfl, htail⟩ := List.cons.inj h
          obtain ⟨rfl, hrest⟩ :=
            ih (fun e he => hx e (by simp [he])) (fun e he => hy e (by simp [he])) htail
          exact ⟨rfl, hrest⟩

end HeaderBinding
