import HeaderBinding.Proofs.Token.Derivative
import Mathlib.Computability.Language

/-!
# Languages over characters and over bytes

The words of a language over characters are encoded in UTF-8, which carries union, concatenation and
repetition over to languages of bytes. A pattern reads bytes; here the patterns for single
characters are shown to match just the encodings of the characters of a class.
-/

namespace HeaderBinding

open scoped Computability

/-- Characters in UTF-8. -/
def utf8 (w : List Char) : Bytes :=
  w.flatMap String.utf8EncodeChar

/-- The encodings of the words of a language. -/
def encoded (words : Language Char) : Language UInt8 :=
  {s | ∃ w ∈ words, utf8 w = s}

/-! ## Words and classes of characters -/

namespace Lexicon

/-- The characters of a class, each a word. -/
def char (P : Char → Prop) : Language Char :=
  {w | ∃ c, P c ∧ w = [c]}

def anyOf (cs : List Char) : Language Char := char (· ∈ cs)

def noneOf (cs : List Char) : Language Char := char (· ∉ cs)

def between (low high : Char) : Language Char := char fun c => low ≤ c ∧ c ≤ high

/-- One fixed word. -/
def text (s : String) : Language Char := {s.toList}

end Lexicon

/-! ## Encoding languages -/

section Encoding

variable {L M : Language Char} {P : Char → Prop} {s : Bytes}

theorem utf8_append (v w : List Char) : utf8 (v ++ w) = utf8 v ++ utf8 w := by
  simp [utf8]

theorem mem_encoded : s ∈ encoded L ↔ ∃ w ∈ L, utf8 w = s := Iff.rfl

theorem encoded_add : encoded (L + M) = encoded L + encoded M := by
  ext s
  simp only [mem_encoded, Language.mem_add]
  constructor
  · rintro ⟨w, hw | hw, rfl⟩
    · exact .inl ⟨w, hw, rfl⟩
    · exact .inr ⟨w, hw, rfl⟩
  · rintro (⟨w, hw, rfl⟩ | ⟨w, hw, rfl⟩)
    · exact ⟨w, .inl hw, rfl⟩
    · exact ⟨w, .inr hw, rfl⟩

theorem encoded_mul : encoded (L * M) = encoded L * encoded M := by
  ext s
  simp only [mem_encoded, Language.mem_mul]
  constructor
  · rintro ⟨_, ⟨v, hv, w, hw, rfl⟩, rfl⟩
    exact ⟨utf8 v, ⟨v, hv, rfl⟩, utf8 w, ⟨w, hw, rfl⟩, (utf8_append v w).symm⟩
  · rintro ⟨_, ⟨v, hv, rfl⟩, _, ⟨w, hw, rfl⟩, rfl⟩
    exact ⟨v ++ w, ⟨v, hv, w, hw, rfl⟩, utf8_append v w⟩

theorem utf8_flatten (words : List (List Char)) :
    utf8 words.flatten = (words.map utf8).flatten := by
  induction words with
  | nil => rfl
  | cons w words ih => rw [List.flatten_cons, utf8_append, ih, List.map_cons, List.flatten_cons]

theorem encoded_kstar : encoded (L∗) = (encoded L)∗ := by
  ext s
  rw [mem_encoded, Language.mem_kstar]
  constructor
  · rintro ⟨w, hw, rfl⟩
    obtain ⟨words, rfl, hwords⟩ := Language.mem_kstar.mp hw
    refine ⟨words.map utf8, utf8_flatten words, ?_⟩
    intro t ht
    obtain ⟨w, hw, rfl⟩ := List.mem_map.mp ht
    exact ⟨w, hwords w hw, rfl⟩
  · rintro ⟨texts, rfl, htexts⟩
    induction texts with
    | nil => exact ⟨[], Language.nil_mem_kstar L, rfl⟩
    | cons t texts ih =>
        obtain ⟨v, hv, rfl⟩ := htexts t List.mem_cons_self
        obtain ⟨w, hw, htext⟩ := ih fun t ht => htexts t (List.mem_cons_of_mem _ ht)
        obtain ⟨words, rfl, hwords⟩ := Language.mem_kstar.mp hw
        refine ⟨v ++ words.flatten, ?_, by rw [utf8_append, htext, List.flatten_cons]⟩
        exact Language.mem_kstar.mpr ⟨v :: words, rfl, List.forall_mem_cons.mpr ⟨hv, hwords⟩⟩

theorem encoded_text (t : String) : encoded (Lexicon.text t) = {utf8 t.toList} := by
  ext s
  constructor
  · rintro ⟨w, hw, rfl⟩
    rw [show w = t.toList from hw]
    rfl
  · intro hs
    exact ⟨t.toList, rfl, (show s = _ from hs).symm⟩

theorem mem_encoded_char :
    s ∈ encoded (Lexicon.char P) ↔ ∃ c, P c ∧ s = String.utf8EncodeChar c := by
  constructor
  · rintro ⟨_, ⟨c, hc, rfl⟩, rfl⟩
    exact ⟨c, hc, by simp [utf8]⟩
  · rintro ⟨c, hc, rfl⟩
    exact ⟨[c], ⟨c, hc, rfl⟩, by simp [utf8]⟩

end Encoding

/-! ## Languages of patterns -/

namespace Pattern

variable {p q : Pattern} {s : Bytes}

def language (p : Pattern) : Language UInt8 :=
  {s | Matches p s}

theorem mem_language : s ∈ p.language ↔ Matches p s := Iff.rfl

theorem language_empty : empty.language = 1 := by
  ext s
  simp [mem_language]

theorem language_alt : (alt p q).language = p.language + q.language := by
  ext s
  rw [mem_language, matches_alt_iff, Language.mem_add, mem_language, mem_language]

theorem language_seq : (seq p q).language = p.language * q.language := by
  ext s
  simp only [mem_language, matches_seq_iff, Language.mem_mul]
  constructor
  · rintro ⟨t, u, ht, hu, rfl⟩
    exact ⟨t, ht, u, hu, rfl⟩
  · rintro ⟨t, ht, u, hu, rfl⟩
    exact ⟨t, u, ht, hu, rfl⟩

theorem language_star : (star p).language = p.language∗ := by
  ext s
  rw [mem_language, Language.mem_kstar]
  constructor
  · intro h
    generalize hstar : star p = r at h
    induction h with
    | starNil => exact ⟨[], rfl, by simp⟩
    | @starCons _ t u ht _ _ ih =>
        cases hstar
        obtain ⟨texts, rfl, htexts⟩ := ih rfl
        exact ⟨t :: texts, rfl, List.forall_mem_cons.mpr ⟨ht, htexts⟩⟩
    | _ => cases hstar
  · rintro ⟨texts, rfl, htexts⟩
    induction texts with
    | nil => exact .starNil
    | cons t texts ih =>
        obtain ⟨ht, htexts⟩ := List.forall_mem_cons.mp htexts
        exact .starCons ht (ih htexts)

theorem matches_oneOf_cons (ps : List Pattern) :
    Matches (oneOf (p :: ps)) s ↔ Matches p s ∨ Matches (oneOf ps) s := by
  cases ps with
  | nil => simp [oneOf]
  | cons => simp [oneOf]

theorem matches_oneOf_iff {ps : List Pattern} : Matches (oneOf ps) s ↔ ∃ p ∈ ps, Matches p s := by
  induction ps with
  | nil => simp [oneOf]
  | cons p ps ih => simp [matches_oneOf_cons, ih]

theorem language_oneOf_cons (ps : List Pattern) :
    (oneOf (p :: ps)).language = p.language + (oneOf ps).language := by
  ext s
  exact matches_oneOf_cons ps

theorem language_inOrder_cons (ps : List Pattern) :
    (inOrder (p :: ps)).language = p.language * (inOrder ps).language := by
  cases ps with
  | nil => simp [inOrder, language_empty]
  | cons => rw [inOrder, language_seq]; simp

theorem matches_byte_iff {b : UInt8} : Matches (byte b) s ↔ s = [b] := by
  rw [byte, matches_range_iff]
  constructor
  · rintro ⟨a, hl, hh, rfl⟩
    rw [UInt8.le_antisymm hh hl]
  · rintro rfl
    exact ⟨b, UInt8.le_refl b, UInt8.le_refl b, rfl⟩

theorem matches_literal_iff {t : Bytes} : Matches (literal t) s ↔ s = t := by
  fun_induction literal t generalizing s with
  | case1 => exact matches_empty_iff
  | case2 b => exact matches_byte_iff
  | case3 b t _ ih =>
      simp only [matches_seq_iff, matches_byte_iff, ih]
      constructor
      · rintro ⟨_, _, rfl, rfl, rfl⟩
        rfl
      · rintro rfl
        exact ⟨[b], t, rfl, rfl, rfl⟩

end Pattern

/-! ## Single characters -/

section Characters

open Pattern Lexicon

/-- The byte of an ASCII character. -/
def Lexicon.byteOfChar (c : Char) : UInt8 := c.toNat.toUInt8

/-- Are all characters ASCII? -/
def Lexicon.allAscii (cs : List Char) : Bool := cs.all (·.toNat < 0x80)

variable {c : Char} {a b d e : UInt8} {s : Bytes}

theorem allAscii_iff {cs : List Char} : allAscii cs = true ↔ ∀ c ∈ cs, c.toNat < 0x80 := by
  simp [allAscii]

theorem toNat_byteOfChar (h : c.toNat < 0x80) : (byteOfChar c).toNat = c.toNat := by
  simp only [byteOfChar, Nat.toUInt8, UInt8.toNat_ofNat']
  omega

theorem utf8EncodeChar_of_lt (h : c.toNat < 0x80) : String.utf8EncodeChar c = [byteOfChar c] := by
  have hle : c.val.toNat ≤ 0x7f := Nat.le_of_lt_succ h
  simp only [String.utf8EncodeChar, hle, if_true]
  rfl

theorem exists_char {n : Nat} (h : n.isValidChar) : ∃ c : Char, c.toNat = n :=
  ⟨Char.ofNatAux n h, rfl⟩

theorem exists_char_of_lt (h : b.toNat < 0x80) : ∃ c : Char, c.toNat < 0x80 ∧ byteOfChar c = b := by
  obtain ⟨c, hc⟩ := exists_char (n := b.toNat) (.inl (by omega))
  refine ⟨c, hc ▸ h, ?_⟩
  rw [← UInt8.toNat_inj, toNat_byteOfChar (hc ▸ h), hc]

/-- A class of ASCII characters is a class of single bytes. -/
theorem mem_encoded_ascii {P : Char → Prop} (h : ∀ c, P c → c.toNat < 0x80) :
    s ∈ encoded (char P) ↔ ∃ c, P c ∧ s = [byteOfChar c] := by
  rw [mem_encoded_char]
  constructor
  · rintro ⟨c, hc, rfl⟩
    exact ⟨c, hc, utf8EncodeChar_of_lt (h c hc)⟩
  · rintro ⟨c, hc, rfl⟩
    exact ⟨c, hc, (utf8EncodeChar_of_lt (h c hc)).symm⟩

theorem char_le_iff {a b : Char} : a ≤ b ↔ a.toNat ≤ b.toNat :=
  Char.le_def.trans UInt32.le_iff_toNat_le

theorem language_range (low high : Char) (hlow : low.toNat < 0x80) (hhigh : high.toNat < 0x80) :
    (range (byteOfChar low) (byteOfChar high)).language = encoded (between low high) := by
  have hascii : ∀ c : Char, low ≤ c ∧ c ≤ high → c.toNat < 0x80 := by
    intro c hc
    have := char_le_iff.mp hc.2
    omega
  ext s
  rw [mem_language, matches_range_iff, between, mem_encoded_ascii hascii]
  constructor
  · rintro ⟨b, hl, hh, rfl⟩
    rw [UInt8.le_iff_toNat_le, toNat_byteOfChar ‹_›] at hl hh
    obtain ⟨c, hc, rfl⟩ := exists_char_of_lt (b := b) (by omega)
    rw [toNat_byteOfChar hc] at hl hh
    exact ⟨c, ⟨char_le_iff.mpr hl, char_le_iff.mpr hh⟩, rfl⟩
  · rintro ⟨c, hc, rfl⟩
    refine ⟨byteOfChar c, ?_, ?_, rfl⟩
    · rw [UInt8.le_iff_toNat_le, toNat_byteOfChar hlow, toNat_byteOfChar (hascii c hc)]
      exact char_le_iff.mp hc.1
    · rw [UInt8.le_iff_toNat_le, toNat_byteOfChar hhigh, toNat_byteOfChar (hascii c hc)]
      exact char_le_iff.mp hc.2

theorem matches_byteOf_iff {t : Bytes} : Matches (byteOf t) s ↔ ∃ b ∈ t, s = [b] := by
  induction t with
  | nil => simp [byteOf, oneOf]
  | cons a t ih =>
      rw [byteOf, List.map_cons, matches_oneOf_cons, matches_byte_iff, ← byteOf, ih]
      simp

theorem language_byteOf (cs : List Char) (h : allAscii cs) :
    (byteOf (cs.map byteOfChar)).language = encoded (anyOf cs) := by
  ext s
  rw [mem_language, matches_byteOf_iff, anyOf, mem_encoded_ascii (allAscii_iff.mp h)]
  simp

/-- The first range of a gap ends before the byte it avoids. -/
theorem matches_gaps_cons_iff {low a : UInt8} {t : Bytes} :
    Matches (oneOf (asciiExcept.gaps low (a :: t))) s ↔
      (∃ b, low ≤ b ∧ b < a ∧ s = [b]) ∨ Matches (oneOf (asciiExcept.gaps (a + 1) t)) s := by
  rw [asciiExcept.gaps]
  split
  · rename_i h
    have hbefore : ∀ b : UInt8, b ≤ a - 1 ↔ b < a := by
      intro b
      have hone : (1 : UInt8) ≤ a := by
        simp only [UInt8.lt_iff_toNat_lt] at h
        simp only [UInt8.le_iff_toNat_le, UInt8.reduceToNat]
        omega
      simp only [UInt8.lt_iff_toNat_lt, UInt8.le_iff_toNat_le, UInt8.reduceToNat,
        UInt8.toNat_sub_of_le a 1 hone] at h hone ⊢
      omega
    simp only [matches_oneOf_cons, matches_range_iff, hbefore]
  · rename_i h
    have hnone : ¬ ∃ b, low ≤ b ∧ b < a ∧ s = [b] := by
      rintro ⟨b, hl, hh, _⟩
      exact h (UInt8.lt_of_le_of_lt hl hh)
    rw [or_iff_right hnone]

/-- The ranges around the bytes of an ascending text leave out just these bytes. -/
theorem matches_gaps_iff {low : UInt8} {t : Bytes} (hlow : ∀ b ∈ t, low ≤ b)
    (hascending : t.Pairwise (· < ·)) (hascii : ∀ b ∈ t, b < 0x80) :
    Matches (oneOf (asciiExcept.gaps low t)) s ↔ ∃ b, low ≤ b ∧ b < 0x80 ∧ b ∉ t ∧ s = [b] := by
  induction t generalizing low with
  | nil =>
      have hlast : ∀ b : UInt8, b ≤ 0x7F ↔ b < 0x80 := by
        intro b
        simp only [UInt8.le_iff_toNat_le, UInt8.lt_iff_toNat_lt, UInt8.reduceToNat]
        omega
      simp [asciiExcept.gaps, oneOf, matches_range_iff, hlast]
  | cons a t ih =>
      obtain ⟨ha, ht⟩ := List.forall_mem_cons.mp hascii
      obtain ⟨hbehind, hascending⟩ := List.pairwise_cons.mp hascending
      have hle : ∀ b : UInt8, a + 1 ≤ b ↔ a < b := by
        intro b
        simp only [UInt8.lt_iff_toNat_lt, UInt8.le_iff_toNat_le, UInt8.toNat_add,
          UInt8.reduceToNat] at ha ⊢
        omega
      rw [matches_gaps_cons_iff, ih (fun b hb => (hle b).mpr (hbehind b hb)) hascending ht]
      constructor
      · rintro (⟨b, hl, hh, rfl⟩ | ⟨b, hl, hb, hnot, rfl⟩)
        · refine ⟨b, hl, UInt8.lt_trans hh ha, ?_, rfl⟩
          rintro (_ | ⟨_, hb⟩)
          · exact UInt8.lt_irrefl _ hh
          · exact UInt8.lt_asymm hh (hbehind b hb)
        · have hab := (hle b).mp hl
          refine ⟨b, UInt8.le_trans (hlow a List.mem_cons_self) (UInt8.le_of_lt hab), hb, ?_, rfl⟩
          rintro (_ | ⟨_, hb⟩)
          · exact UInt8.lt_irrefl _ hab
          · exact hnot hb
      · rintro ⟨b, hl, hb, hnot, rfl⟩
        rw [List.mem_cons, not_or] at hnot
        by_cases hba : b < a
        · exact .inl ⟨b, hl, hba, rfl⟩
        · have hab : a < b := UInt8.lt_of_le_of_ne (UInt8.not_lt.mp hba) (Ne.symm hnot.1)
          exact .inr ⟨b, (hle b).mpr hab, hb, hnot.2, rfl⟩

/-! ## Characters beyond ASCII -/

/-- Ranges in order match bytes one by one. -/
theorem matches_ranges_iff {ranges : List (UInt8 × UInt8)} :
    Matches (inOrder (ranges.map fun r => .range r.1 r.2)) s ↔
      List.Forall₂ (fun r b => r.1.toNat ≤ b.toNat ∧ b.toNat ≤ r.2.toNat) ranges s := by
  induction ranges generalizing s with
  | nil => simp [inOrder]
  | cons r ranges ih =>
      rw [List.map_cons, ← mem_language, language_inOrder_cons, Language.mem_mul,
        List.forall₂_cons_left_iff]
      simp only [mem_language, ih, matches_range_iff, UInt8.le_iff_toNat_le]
      constructor
      · rintro ⟨_, ⟨b, hl, hh, rfl⟩, t, ht, rfl⟩
        exact ⟨b, t, ⟨hl, hh⟩, ht, rfl⟩
      · rintro ⟨b, t, ⟨hl, hh⟩, ht, rfl⟩
        exact ⟨[b], ⟨b, hl, hh, rfl⟩, t, ht, rfl⟩

/-- The bytes of the well-formed encodings beyond ASCII. -/
def wellFormedRanges : List (List (UInt8 × UInt8)) :=
  [[(0xC2, 0xDF), (0x80, 0xBF)],
   [(0xE0, 0xE0), (0xA0, 0xBF), (0x80, 0xBF)],
   [(0xE1, 0xEC), (0x80, 0xBF), (0x80, 0xBF)],
   [(0xED, 0xED), (0x80, 0x9F), (0x80, 0xBF)],
   [(0xEE, 0xEF), (0x80, 0xBF), (0x80, 0xBF)],
   [(0xF0, 0xF0), (0x90, 0xBF), (0x80, 0xBF), (0x80, 0xBF)],
   [(0xF1, 0xF3), (0x80, 0xBF), (0x80, 0xBF), (0x80, 0xBF)],
   [(0xF4, 0xF4), (0x80, 0x8F), (0x80, 0xBF), (0x80, 0xBF)]]

theorem matches_beyondAscii_ranges :
    Matches beyondAscii s ↔ ∃ ranges ∈ wellFormedRanges,
      List.Forall₂ (fun r b => r.1.toNat ≤ b.toNat ∧ b.toNat ≤ r.2.toNat) ranges s := by
  have htable : beyondAscii =
      oneOf (wellFormedRanges.map fun ranges => inOrder (ranges.map fun r => .range r.1 r.2)) := rfl
  rw [htable, matches_oneOf_iff]
  simp only [List.mem_map, exists_exists_and_eq_and, matches_ranges_iff]

/-- Two bytes of these ranges encode a character. -/
theorem exists_char_twoBytes (ha : 0xC2 ≤ a.toNat ∧ a.toNat ≤ 0xDF)
    (hb : 0x80 ≤ b.toNat ∧ b.toNat ≤ 0xBF) :
    ∃ c : Char, 0x80 ≤ c.toNat ∧ [a, b] = String.utf8EncodeChar c := by
  obtain ⟨c, hc⟩ := exists_char (n := (a.toNat - 0xC0) * 64 + (b.toNat - 0x80)) (.inl (by omega))
  refine ⟨c, by omega, ?_⟩
  change c.val.toNat = _ at hc
  simp only [String.utf8EncodeChar]
  rw [if_neg (by omega), if_pos (by omega)]
  simp only [List.cons.injEq, ← UInt8.toNat_inj, UInt8.toNat_ofNat', and_true]
  omega

/-- Three bytes encode a character unless they are overlong or a surrogate. -/
theorem exists_char_threeBytes (ha : 0xE0 ≤ a.toNat ∧ a.toNat ≤ 0xEF)
    (hb : 0x80 ≤ b.toNat ∧ b.toNat ≤ 0xBF) (hd : 0x80 ≤ d.toNat ∧ d.toNat ≤ 0xBF)
    (hlong : a.toNat = 0xE0 → 0xA0 ≤ b.toNat) (hsurrogate : a.toNat = 0xED → b.toNat ≤ 0x9F) :
    ∃ c : Char, 0x80 ≤ c.toNat ∧ [a, b, d] = String.utf8EncodeChar c := by
  have hvalid :
      ((a.toNat - 0xE0) * 4096 + (b.toNat - 0x80) * 64 + (d.toNat - 0x80)).isValidChar := by
    unfold Nat.isValidChar
    omega
  obtain ⟨c, hc⟩ := exists_char hvalid
  refine ⟨c, by omega, ?_⟩
  change c.val.toNat = _ at hc
  simp only [String.utf8EncodeChar]
  rw [if_neg (by omega), if_neg (by omega), if_pos (by omega)]
  simp only [List.cons.injEq, ← UInt8.toNat_inj, UInt8.toNat_ofNat', and_true]
  omega

/-- Four bytes encode a character unless they are overlong or beyond the last one. -/
theorem exists_char_fourBytes (ha : 0xF0 ≤ a.toNat ∧ a.toNat ≤ 0xF4)
    (hb : 0x80 ≤ b.toNat ∧ b.toNat ≤ 0xBF) (hd : 0x80 ≤ d.toNat ∧ d.toNat ≤ 0xBF)
    (he : 0x80 ≤ e.toNat ∧ e.toNat ≤ 0xBF) (hlong : a.toNat = 0xF0 → 0x90 ≤ b.toNat)
    (hlast : a.toNat = 0xF4 → b.toNat ≤ 0x8F) :
    ∃ c : Char, 0x80 ≤ c.toNat ∧ [a, b, d, e] = String.utf8EncodeChar c := by
  have hvalid : ((a.toNat - 0xF0) * 262144 + (b.toNat - 0x80) * 4096 + (d.toNat - 0x80) * 64 +
      (e.toNat - 0x80)).isValidChar := by
    unfold Nat.isValidChar
    omega
  obtain ⟨c, hc⟩ := exists_char hvalid
  refine ⟨c, by omega, ?_⟩
  change c.val.toNat = _ at hc
  simp only [String.utf8EncodeChar]
  rw [if_neg (by omega), if_neg (by omega), if_neg (by omega)]
  simp only [List.cons.injEq, ← UInt8.toNat_inj, UInt8.toNat_ofNat', and_true]
  omega

theorem utf8EncodeChar_wellFormed (h : 0x80 ≤ c.toNat) :
    ∃ ranges ∈ wellFormedRanges,
      List.Forall₂ (fun r b => r.1.toNat ≤ b.toNat ∧ b.toNat ≤ r.2.toNat) ranges
        (String.utf8EncodeChar c) := by
  have hvalid : c.val.toNat < 0xD800 ∨ 0xDFFF < c.val.toNat ∧ c.val.toNat < 0x110000 := c.valid
  change 0x80 ≤ c.val.toNat at h
  simp only [String.utf8EncodeChar]
  rw [if_neg (by omega)]
  split
  · refine ⟨[(0xC2, 0xDF), (0x80, 0xBF)], by decide, ?_⟩
    simp only [List.forall₂_cons, List.Forall₂.nil, UInt8.toNat_ofNat', UInt8.reduceToNat,
          and_true]
    omega
  · split
    · have hcases : c.val.toNat < 0x1000 ∨ 0x1000 ≤ c.val.toNat ∧ c.val.toNat < 0xD000 ∨
          0xD000 ≤ c.val.toNat ∧ c.val.toNat < 0xD800 ∨ 0xE000 ≤ c.val.toNat := by omega
      rcases hcases with hn | hn | hn | hn
      · refine ⟨[(0xE0, 0xE0), (0xA0, 0xBF), (0x80, 0xBF)], by decide, ?_⟩
        simp only [List.forall₂_cons, List.Forall₂.nil, UInt8.toNat_ofNat', UInt8.reduceToNat,
          and_true]
        omega
      · refine ⟨[(0xE1, 0xEC), (0x80, 0xBF), (0x80, 0xBF)], by decide, ?_⟩
        simp only [List.forall₂_cons, List.Forall₂.nil, UInt8.toNat_ofNat', UInt8.reduceToNat,
          and_true]
        omega
      · refine ⟨[(0xED, 0xED), (0x80, 0x9F), (0x80, 0xBF)], by decide, ?_⟩
        simp only [List.forall₂_cons, List.Forall₂.nil, UInt8.toNat_ofNat', UInt8.reduceToNat,
          and_true]
        omega
      · refine ⟨[(0xEE, 0xEF), (0x80, 0xBF), (0x80, 0xBF)], by decide, ?_⟩
        simp only [List.forall₂_cons, List.Forall₂.nil, UInt8.toNat_ofNat', UInt8.reduceToNat,
          and_true]
        omega
    · have hcases : c.val.toNat < 0x40000 ∨ 0x40000 ≤ c.val.toNat ∧ c.val.toNat < 0x100000 ∨
          0x100000 ≤ c.val.toNat := by omega
      rcases hcases with hn | hn | hn
      · refine ⟨[(0xF0, 0xF0), (0x90, 0xBF), (0x80, 0xBF), (0x80, 0xBF)], by decide, ?_⟩
        simp only [List.forall₂_cons, List.Forall₂.nil, UInt8.toNat_ofNat', UInt8.reduceToNat,
          and_true]
        omega
      · refine ⟨[(0xF1, 0xF3), (0x80, 0xBF), (0x80, 0xBF), (0x80, 0xBF)], by decide, ?_⟩
        simp only [List.forall₂_cons, List.Forall₂.nil, UInt8.toNat_ofNat', UInt8.reduceToNat,
          and_true]
        omega
      · refine ⟨[(0xF4, 0xF4), (0x80, 0x8F), (0x80, 0xBF), (0x80, 0xBF)], by decide, ?_⟩
        simp only [List.forall₂_cons, List.Forall₂.nil, UInt8.toNat_ofNat', UInt8.reduceToNat,
          and_true]
        omega

theorem matches_beyondAscii_iff :
    Matches beyondAscii s ↔ ∃ c : Char, 0x80 ≤ c.toNat ∧ s = String.utf8EncodeChar c := by
  rw [matches_beyondAscii_ranges]
  constructor
  · simp only [wellFormedRanges, List.mem_cons, List.not_mem_nil, or_false, exists_eq_or_imp,
      exists_eq_left, List.forall₂_cons_left_iff, List.forall₂_nil_left_iff, UInt8.reduceToNat]
    rintro (⟨a, _, ha, ⟨b, _, hb, rfl, rfl⟩, rfl⟩ | h | h | h | h | h | h | h)
    · exact exists_char_twoBytes ha hb
    iterate 4
      · obtain ⟨a, _, ha, ⟨b, _, hb, ⟨d, _, hd, rfl, rfl⟩, rfl⟩, rfl⟩ := h
        exact exists_char_threeBytes (by omega) (by omega) hd (by omega) (by omega)
    iterate 3
      · obtain ⟨a, _, ha, ⟨b, _, hb, ⟨d, _, hd, ⟨e, _, he, rfl, rfl⟩, rfl⟩, rfl⟩, rfl⟩ := h
        exact exists_char_fourBytes (by omega) (by omega) hd he (by omega) (by omega)
  · rintro ⟨c, hc, rfl⟩
    exact utf8EncodeChar_wellFormed hc

/-! ## Classes -/

theorem language_charExcept (cs : List Char) (hascending : (cs.map byteOfChar).Pairwise (· < ·))
    (h : allAscii cs) : (charExcept (cs.map byteOfChar)).language = encoded (noneOf cs) := by
  have hascii := allAscii_iff.mp h
  have hbytes : ∀ b ∈ cs.map byteOfChar, b < 0x80 := by
    intro b hb
    obtain ⟨c, hc, rfl⟩ := List.mem_map.mp hb
    rw [UInt8.lt_iff_toNat_lt, toNat_byteOfChar (hascii c hc)]
    exact hascii c hc
  ext s
  rw [mem_language, charExcept, matches_alt_iff, asciiExcept,
    matches_gaps_iff (fun b _ => UInt8.zero_le) hascending hbytes, matches_beyondAscii_iff,
    noneOf, mem_encoded_char]
  constructor
  · rintro (⟨b, _, hb, hnot, rfl⟩ | ⟨c, hc, rfl⟩)
    · obtain ⟨c, hc, rfl⟩ := exists_char_of_lt (UInt8.lt_iff_toNat_lt.mp hb)
      refine ⟨c, ?_, (utf8EncodeChar_of_lt hc).symm⟩
      intro hmem
      exact hnot (List.mem_map_of_mem hmem)
    · refine ⟨c, ?_, rfl⟩
      intro hmem
      have := hascii c hmem
      omega
  · rintro ⟨c, hc, rfl⟩
    by_cases hlt : c.toNat < 0x80
    · refine .inl ⟨byteOfChar c, UInt8.zero_le, ?_, ?_, utf8EncodeChar_of_lt hlt⟩
      · rw [UInt8.lt_iff_toNat_lt, toNat_byteOfChar hlt]
        exact hlt
      · intro hmem
        obtain ⟨c', hc', hbyte⟩ := List.mem_map.mp hmem
        rw [← UInt8.toNat_inj, toNat_byteOfChar (hascii c' hc'), toNat_byteOfChar hlt,
          Char.toNat_inj] at hbyte
        exact hc (hbyte ▸ hc')
    · exact .inr ⟨c, by omega, rfl⟩

theorem utf8_eq_map {w : List Char} (h : allAscii w) : utf8 w = w.map byteOfChar := by
  induction w with
  | nil => rfl
  | cons c w ih =>
      obtain ⟨hc, hw⟩ := List.forall_mem_cons.mp (allAscii_iff.mp h)
      rw [utf8, List.flatMap_cons, utf8EncodeChar_of_lt hc, ← utf8, ih (allAscii_iff.mpr hw)]
      rfl

theorem language_literal (t : String) (h : allAscii t.toList) :
    (literal (ascii t)).language = encoded (text t) := by
  ext s
  rw [mem_language, matches_literal_iff, encoded_text, utf8_eq_map h]
  rfl

end Characters

end HeaderBinding
