import HeaderBinding.Proofs.Token.ClosingMarks
import HeaderBinding.Text.Utf8

/-!
# Characters of a text

A text that encodes characters is read as these characters, unit by unit. The first byte of an
encoding is none that goes on with one, so encodings can be told from behind as well, and blanks at
either end of such a text can be cut off without breaking a character.
-/

namespace HeaderBinding

open Lexicon

/-! ## Units -/

namespace Utf8

section

variable {a b c d : UInt8}

theorem isContinuation_of_toNat (hb : 0x80 ≤ b.toNat ∧ b.toNat ≤ 0xBF) :
    isContinuation b = true := by
  simpa [isContinuation, UInt8.le_iff_toNat_le] using hb

/-- What a second byte has to be: no overlong form, no surrogate and no value above the last one. -/
theorem isSecond_of_toNat (hb : 0x80 ≤ b.toNat ∧ b.toNat ≤ 0xBF)
    (hthree : a.toNat = 0xE0 → 0xA0 ≤ b.toNat) (hsurrogate : a.toNat = 0xED → b.toNat ≤ 0x9F)
    (hfour : a.toNat = 0xF0 → 0x90 ≤ b.toNat) (hlast : a.toNat = 0xF4 → b.toNat ≤ 0x8F) :
    isSecond a b = true := by
  unfold isSecond secondRange
  simp only [← UInt8.toNat_inj, UInt8.le_iff_toNat_le, Bool.and_eq_true, decide_eq_true_eq,
    UInt8.reduceToNat]
  split_ifs <;> simp only [UInt8.reduceToNat] <;> omega

theorem not_lt_of_toNat (ha : 0x80 ≤ a.toNat) : ¬ a < 0x80 := by
  simp only [UInt8.lt_iff_toNat_lt, UInt8.reduceToNat]
  omega

theorem headUnit_oneByte (ha : a.toNat < 0x80) (s : Bytes) : headUnit a s = .point a.toNat [a] := by
  unfold headUnit
  rw [if_pos (UInt8.lt_iff_toNat_lt.mpr ha)]

theorem headUnit_twoBytes (ha : 0xC2 ≤ a.toNat ∧ a.toNat ≤ 0xDF)
    (hb : 0x80 ≤ b.toNat ∧ b.toNat ≤ 0xBF) (s : Bytes) :
    headUnit a (b :: s) = .point ((a.toNat - 0xC0) * 64 + (b.toNat - 0x80)) [a, b] := by
  have hone : ¬ a < 0x80 := not_lt_of_toNat (by omega)
  have htwo : (0xC2 ≤ a && a ≤ 0xDF) = true := by simpa [UInt8.le_iff_toNat_le] using ha
  unfold headUnit
  rw [if_neg hone]
  dsimp only
  rw [if_pos (isSecond_of_toNat hb (by omega) (by omega) (by omega) (by omega)), if_pos htwo]
  rfl

theorem headUnit_threeBytes (ha : 0xE0 ≤ a.toNat ∧ a.toNat ≤ 0xEF)
    (hb : 0x80 ≤ b.toNat ∧ b.toNat ≤ 0xBF) (hc : 0x80 ≤ c.toNat ∧ c.toNat ≤ 0xBF)
    (hlong : a.toNat = 0xE0 → 0xA0 ≤ b.toNat) (hsurrogate : a.toNat = 0xED → b.toNat ≤ 0x9F)
    (s : Bytes) :
    headUnit a (b :: c :: s) =
      .point (((a.toNat - 0xE0) * 64 + (b.toNat - 0x80)) * 64 + (c.toNat - 0x80)) [a, b, c] := by
  have hone : ¬ a < 0x80 := not_lt_of_toNat (by omega)
  have htwo : ¬ (0xC2 ≤ a && a ≤ 0xDF) = true := by
    simp only [UInt8.le_iff_toNat_le, UInt8.reduceToNat, Bool.and_eq_true, decide_eq_true_eq]
    omega
  have hthree : (0xE0 ≤ a && a ≤ 0xEF) = true := by simpa [UInt8.le_iff_toNat_le] using ha
  unfold headUnit
  rw [if_neg hone]
  dsimp only
  rw [if_pos (isSecond_of_toNat hb hlong hsurrogate (by omega) (by omega)), if_neg htwo,
    if_pos (isContinuation_of_toNat hc), if_pos hthree]
  rfl

theorem headUnit_fourBytes (ha : 0xF0 ≤ a.toNat ∧ a.toNat ≤ 0xF4)
    (hb : 0x80 ≤ b.toNat ∧ b.toNat ≤ 0xBF) (hc : 0x80 ≤ c.toNat ∧ c.toNat ≤ 0xBF)
    (hd : 0x80 ≤ d.toNat ∧ d.toNat ≤ 0xBF) (hlong : a.toNat = 0xF0 → 0x90 ≤ b.toNat)
    (hlast : a.toNat = 0xF4 → b.toNat ≤ 0x8F) (s : Bytes) :
    headUnit a (b :: c :: d :: s) =
      .point ((((a.toNat - 0xF0) * 64 + (b.toNat - 0x80)) * 64 + (c.toNat - 0x80)) * 64 +
        (d.toNat - 0x80)) [a, b, c, d] := by
  have hone : ¬ a < 0x80 := not_lt_of_toNat (by omega)
  have htwo : ¬ (0xC2 ≤ a && a ≤ 0xDF) = true := by
    simp only [UInt8.le_iff_toNat_le, UInt8.reduceToNat, Bool.and_eq_true, decide_eq_true_eq]
    omega
  have hthree : ¬ (0xE0 ≤ a && a ≤ 0xEF) = true := by
    simp only [UInt8.le_iff_toNat_le, UInt8.reduceToNat, Bool.and_eq_true, decide_eq_true_eq]
    omega
  have hfour : (isContinuation d && (0xF0 ≤ a && a ≤ 0xF4)) = true := by
    simpa [UInt8.le_iff_toNat_le, isContinuation_of_toNat hd] using ha
  unfold headUnit
  rw [if_neg hone]
  dsimp only
  rw [if_pos (isSecond_of_toNat hb (by omega) (by omega) hlong hlast), if_neg htwo,
    if_pos (isContinuation_of_toNat hc), if_neg hthree]
  rw [if_pos hfour]
  rfl

end

/-- What a character is read as. -/
def unitOf (c : Char) : TextUnit := .point c.toNat (String.utf8EncodeChar c)

/-- The unit at the head of an encoding is the encoded character. -/
theorem exists_headUnit (c : Char) : ∃ a more, String.utf8EncodeChar c = a :: more ∧
    ∀ s, headUnit a (more ++ s) = unitOf c := by
  have hvalid : c.val.toNat < 0xD800 ∨ 0xDFFF < c.val.toNat ∧ c.val.toNat < 0x110000 := c.valid
  have hbyte {n : Nat} (h : n < 256) : (UInt8.ofNat n).toNat = n := by
    rw [UInt8.toNat_ofNat']
    omega
  have hpoint {a : UInt8} {more s : Bytes} {code : Nat}
      (hencoding : String.utf8EncodeChar c = a :: more)
      (h : headUnit a (more ++ s) = .point code (a :: more)) (hcode : code = c.val.toNat) :
      headUnit a (more ++ s) = unitOf c := by
    rw [h, unitOf, hencoding, hcode]
    rfl
  have hencoding := String.utf8EncodeChar.eq_1 c
  by_cases hone : c.val.toNat ≤ 0x7F
  · rw [if_pos hone] at hencoding
    refine ⟨_, _, hencoding, fun s => hpoint hencoding (headUnit_oneByte ?_ s) ?_⟩
    · rw [hbyte (by omega)]
      omega
    · rw [hbyte (by omega)]
  rw [if_neg hone] at hencoding
  by_cases htwo : c.val.toNat ≤ 0x7FF
  · rw [if_pos htwo] at hencoding
    have ha := hbyte (n := c.val.toNat / 64 % 32 + 192) (by omega)
    have hb := hbyte (n := c.val.toNat % 64 + 128) (by omega)
    exact ⟨_, _, hencoding, fun s =>
      hpoint hencoding (headUnit_twoBytes (by omega) (by omega) s) (by omega)⟩
  rw [if_neg htwo] at hencoding
  by_cases hthree : c.val.toNat ≤ 0xFFFF
  · rw [if_pos hthree] at hencoding
    have ha := hbyte (n := c.val.toNat / 4096 % 16 + 224) (by omega)
    have hb := hbyte (n := c.val.toNat / 64 % 64 + 128) (by omega)
    have hc := hbyte (n := c.val.toNat % 64 + 128) (by omega)
    exact ⟨_, _, hencoding, fun s => hpoint hencoding
      (headUnit_threeBytes (by omega) (by omega) (by omega) (by omega) (by omega) s) (by omega)⟩
  · rw [if_neg hthree] at hencoding
    have ha := hbyte (n := c.val.toNat / 262144 % 8 + 240) (by omega)
    have hb := hbyte (n := c.val.toNat / 4096 % 64 + 128) (by omega)
    have hc := hbyte (n := c.val.toNat / 64 % 64 + 128) (by omega)
    have hd := hbyte (n := c.val.toNat % 64 + 128) (by omega)
    exact ⟨_, _, hencoding, fun s => hpoint hencoding
      (headUnit_fourBytes (by omega) (by omega) (by omega) (by omega) (by omega) (by omega) s)
      (by omega)⟩

/-- A text of characters is read as its characters. -/
theorem units_utf8 (cs : List Char) : units (utf8 cs) = cs.map unitOf := by
  have honto (read : List TextUnit) : unitsOnto read (utf8 cs) = read.reverse ++ cs.map unitOf := by
    induction cs generalizing read with
    | nil => simp [utf8, unitsOnto]
    | cons c cs ih =>
        obtain ⟨a, more, hencoding, hhead⟩ := exists_headUnit c
        have hlength : (unitOf c).bytes = a :: more := hencoding
        rw [utf8_cons, hencoding, List.cons_append, unitsOnto, hhead, hlength, List.length_cons,
          Nat.add_sub_cancel, List.drop_left, ih]
        simp
  exact honto []

end Utf8

/-! ## Encodings from behind -/

theorem eq_nil_of_utf8EncodeChar {c c' : Char} {w : Bytes}
    (h : String.utf8EncodeChar c = w ++ String.utf8EncodeChar c') : w = [] := by
  have hpos : 0 < (String.utf8EncodeChar c').length :=
    List.length_pos_iff.mpr String.utf8EncodeChar_ne_nil
  have hlt : w.length < (String.utf8EncodeChar c).length := by
    rw [h, List.length_append]
    omega
  have hget : (String.utf8EncodeChar c)[w.length] = (String.utf8EncodeChar c')[0] := by
    simp [h]
  have hfirst := UInt8.isUTF8FirstByte_getElem_zero_utf8EncodeChar (c := c')
  rw [← hget, UInt8.isUTF8FirstByte_getElem_utf8EncodeChar] at hfirst
  exact List.eq_nil_of_length_eq_zero hfirst

theorem append_utf8EncodeChar_inj {c c' : Char} {x y : Bytes}
    (h : x ++ String.utf8EncodeChar c = y ++ String.utf8EncodeChar c') : x = y ∧ c = c' := by
  have hsame : x = y := by
    rcases List.append_eq_append_iff.mp h with ⟨w, rfl, hc⟩ | ⟨w, rfl, hc⟩
    · rw [eq_nil_of_utf8EncodeChar hc, List.append_nil]
    · rw [eq_nil_of_utf8EncodeChar hc, List.append_nil]
  subst hsame
  have hc := congrArg (· ++ []) (List.append_cancel_left h)
  exact ⟨rfl, (utf8EncodeChar_append_inj hc).1⟩

/-! ## Trimming characters -/

namespace IsUtf8

variable {s t e : Bytes}

theorem append (hs : IsUtf8 s) (ht : IsUtf8 t) : IsUtf8 (s ++ t) := by
  obtain ⟨cs, rfl⟩ := hs
  obtain ⟨cs', rfl⟩ := ht
  exact ⟨cs ++ cs', utf8_append cs cs'⟩

/-- What follows a character is made of characters. -/
theorem of_append_left {c : Char} (h : IsUtf8 (String.utf8EncodeChar c ++ s)) : IsUtf8 s := by
  obtain ⟨cs, hcs⟩ := h
  cases cs with
  | nil => simp [utf8, String.utf8EncodeChar_ne_nil] at hcs
  | cons c' cs => exact ⟨cs, (utf8EncodeChar_append_inj hcs).2⟩

/-- What stands before a character is made of characters. -/
theorem of_append_right {c : Char} (h : IsUtf8 (s ++ String.utf8EncodeChar c)) : IsUtf8 s := by
  obtain ⟨cs, hcs⟩ := h
  cases cs using List.reverseRecOn with
  | nil => simp [utf8, String.utf8EncodeChar_ne_nil] at hcs
  | append_singleton cs c' =>
      rw [utf8_append, utf8_cons, show utf8 [] = [] from rfl, List.append_nil] at hcs
      exact ⟨cs, (append_utf8EncodeChar_inj hcs).1⟩

/-- A blank is one character. -/
theorem exists_char_of_mem_encodings (he : e ∈ Blank.encodings) :
    ∃ c, String.utf8EncodeChar c = e := by
  have htable : Blank.encodings =
      ['\t', '\n', '\x0b', '\x0c', '\r', ' ', '\u0085', '\u00a0', '\u1680', '\u2000', '\u2001',
        '\u2002', '\u2003', '\u2004', '\u2005', '\u2006', '\u2007', '\u2008', '\u2009', '\u200a',
        '\u2028', '\u2029', '\u202f', '\u205f', '\u3000'].map String.utf8EncodeChar := by
    decide
  rw [htable] at he
  obtain ⟨c, -, hc⟩ := List.mem_map.mp he
  exact ⟨c, hc⟩

/-- What survives cutting off one of the encodings survives cutting off all that stand there. -/
theorem dropEncodings_induct {encodings : List Bytes} {P : Bytes → Prop}
    (hdrop : ∀ e ∈ encodings, ∀ s, P (e ++ s) → P s) (h : P s) :
    P (Bytes.dropEncodings encodings s) := by
  fun_induction Bytes.dropEncodings encodings s with
  | case1 => exact h
  | case2 => exact h
  | case3 b s n hlength ih =>
      rw [Blank.matchLength] at hlength
      cases hfind : encodings.find? (·.isPrefixOf (b :: s)) with
      | none => simp [hfind] at hlength
      | some e =>
          rw [hfind] at hlength
          have hlength : n + 1 = e.length := hlength.symm
          have hprefix : e <+: b :: s := by simpa using List.find?_some hfind
          obtain ⟨rest, hrest⟩ := hprefix
          have hdropped : s.drop n = rest := by
            rw [← List.drop_succ_cons (a := b), hlength, ← hrest, List.drop_left]
          rw [← hrest] at h
          exact ih (hdropped ▸ hdrop e (List.mem_of_find?_eq_some hfind) rest h)

theorem trimLeft (h : IsUtf8 s) : IsUtf8 s.trimLeft := by
  refine dropEncodings_induct (fun e he s hs => ?_) h
  obtain ⟨c, rfl⟩ := exists_char_of_mem_encodings he
  exact hs.of_append_left

theorem trimRight (h : IsUtf8 s) : IsUtf8 s.trimRight := by
  refine dropEncodings_induct (P := fun s => IsUtf8 s.reverse) (fun e he s hs => ?_) ?_
  · obtain ⟨e, hblank, rfl⟩ := List.mem_map.mp he
    obtain ⟨c, rfl⟩ := exists_char_of_mem_encodings hblank
    rw [List.reverse_append, List.reverse_reverse] at hs
    exact hs.of_append_right
  · rwa [List.reverse_reverse]

/-- Trimming takes whole characters. -/
theorem trim (h : IsUtf8 s) : IsUtf8 s.trim :=
  h.trimLeft.trimRight

end IsUtf8

end HeaderBinding
