import HeaderBinding.Json
import HeaderBinding.Proofs.Token.Characters

/-!
# What a JSON text tells

The text of a value whose strings are made of characters tells the value, and where the value ends
if more follows. Its first byte tells what kind of value it is. A string ends at the first quote
that is not escaped, and each character before it is escaped in a way of its own.
-/

namespace HeaderBinding

open Lexicon

/-! ## Hexadecimal digits -/

@[simp] theorem length_hexadecimal (width n : Nat) : (hexadecimal width n).length = width := by
  induction width generalizing n with
  | zero => rfl
  | succ width ih => rw [hexadecimal, List.length_append, ih, List.length_singleton]

theorem hexDigit_inj {m n : Nat} (hm : m < 16) (hn : n < 16) (h : hexDigit m = hexDigit n) :
    m = n := by
  have hdigits : ∀ m n : Fin 16, hexDigit m = hexDigit n → m = n := by decide
  exact congrArg Fin.val (hdigits ⟨m, hm⟩ ⟨n, hn⟩ h)

/-- Numbers that fit into the width are told by their digits. -/
theorem hexadecimal_inj {width m n : Nat} (hm : m < 16 ^ width) (hn : n < 16 ^ width)
    (h : hexadecimal width m = hexadecimal width n) : m = n := by
  induction width generalizing m n with
  | zero =>
      rw [Nat.pow_zero] at hm hn
      omega
  | succ width ih =>
      rw [Nat.pow_succ] at hm hn
      obtain ⟨hfront, hlast⟩ := List.append_inj' h rfl
      have hdigit := hexDigit_inj (Nat.mod_lt m (by decide)) (Nat.mod_lt n (by decide))
        (List.singleton_injective hlast)
      have hrest := ih (Nat.div_lt_of_lt_mul (by omega)) (Nat.div_lt_of_lt_mul (by omega)) hfront
      omega

namespace Json

/-! ## Strings -/

/-- What stands behind the backslash for a character with an escape of its own. -/
def escapes : List (Nat × UInt8) :=
  [(0x22, 0x22), (0x5C, 0x5C), (0x08, 0x62), (0x0C, 0x66), (0x0A, 0x6E), (0x0D, 0x72), (0x09, 0x74)]

/-- How a character is written between quotes. -/
inductive Escaped (c : Char) : Bytes → Prop where
  | short {b : UInt8} (h : (c.toNat, b) ∈ escapes) : Escaped c [0x5C, b]
  | code (h : c.toNat < 16 ^ 4) : Escaped c (0x5C :: 0x75 :: hexadecimal 4 c.toNat)
  | plain (hquote : c ≠ '"') (hslash : c ≠ '\\') : Escaped c (String.utf8EncodeChar c)

/-- A character with an escape of its own is written with it. -/
theorem escaped_ite {c : Char} {code : Nat} {b : UInt8} {s : Bytes} (hmem : (code, b) ∈ escapes)
    (hs : c.toNat ≠ code → Escaped c s) :
    Escaped c (if c.toNat = code then [0x5C, b] else s) := by
  by_cases hcode : c.toNat = code
  · rw [if_pos hcode]
    exact .short (hcode ▸ hmem)
  · rw [if_neg hcode]
    exact hs hcode

theorem escaped_escapeUnit (c : Char) : Escaped c (escapeUnit (Utf8.unitOf c)) := by
  have hne {a : Char} (h : ¬ c.toNat = a.toNat) : c ≠ a := fun hca => h (congrArg Char.toNat hca)
  refine escaped_ite (by decide) fun hquote => ?_
  refine escaped_ite (by decide) fun hslash => ?_
  refine escaped_ite (by decide) fun _ => ?_
  refine escaped_ite (by decide) fun _ => ?_
  refine escaped_ite (by decide) fun _ => ?_
  refine escaped_ite (by decide) fun _ => ?_
  refine escaped_ite (by decide) fun _ => ?_
  split
  · exact .code (by omega)
  · exact .plain (hne hquote) (hne hslash)

section

variable {c c' : Char} {s t x y : Bytes}

theorem eq_of_utf8EncodeChar_append (hc : c.toNat < 0x80)
    (h : String.utf8EncodeChar c' ++ x = byteOfChar c :: y) : c' = c := by
  have hencoding : byteOfChar c :: y = String.utf8EncodeChar c ++ y := by
    rw [utf8EncodeChar_of_lt hc]
    rfl
  exact (utf8EncodeChar_append_inj (h.trans hencoding)).1

/-- A character that is written as it stands is not written like an escaped one. -/
theorem Escaped.append_inj (h : Escaped c s) (h' : Escaped c' t) (heq : s ++ x = t ++ y) :
    c = c' ∧ x = y := by
  have hshort : ∀ e ∈ escapes, e.2 ≠ 0x75 ∧ ∀ e' ∈ escapes, e.2 = e'.2 → e.1 = e'.1 := by decide
  have hslash {d : Char} {u v : Bytes} (hd : d ≠ '\\') :
      String.utf8EncodeChar d ++ u ≠ 0x5C :: v :=
    fun h => hd (eq_of_utf8EncodeChar_append (c := '\\') (by decide) h)
  cases h with
  | short hmem =>
      cases h' with
      | short hmem' =>
          obtain ⟨hmark, hrest⟩ := List.cons.inj (List.cons.inj heq).2
          exact ⟨Char.toNat_inj.mp ((hshort _ hmem).2 _ hmem' hmark), hrest⟩
      | code => exact absurd (List.cons.inj (List.cons.inj heq).2).1 (hshort _ hmem).1
      | plain _ hplain => exact absurd heq.symm (hslash hplain)
  | code hcode =>
      cases h' with
      | short hmem' => exact absurd (List.cons.inj (List.cons.inj heq).2).1.symm (hshort _ hmem').1
      | code hcode' =>
          obtain ⟨hdigits, hrest⟩ := List.append_inj (List.cons.inj (List.cons.inj heq).2).2 (by simp)
          exact ⟨Char.toNat_inj.mp (hexadecimal_inj hcode hcode' hdigits), hrest⟩
      | plain _ hplain => exact absurd heq.symm (hslash hplain)
  | plain _ hplain =>
      cases h' with
      | short => exact absurd heq (hslash hplain)
      | code => exact absurd heq (hslash hplain)
      | plain => exact utf8EncodeChar_append_inj heq

/-- No character is written so that it could be taken for the closing quote. -/
theorem Escaped.ne_quote (h : Escaped c s) : s ++ x ≠ 0x22 :: y := by
  intro heq
  cases h with
  | short => exact absurd (List.cons.inj heq).1 (by decide)
  | code => exact absurd (List.cons.inj heq).1 (by decide)
  | plain hquote => exact hquote (eq_of_utf8EncodeChar_append (c := '"') (by decide) heq)

theorem quote_utf8 (cs : List Char) :
    quote (utf8 cs) = 0x22 :: (cs.flatMap (fun c => escapeUnit (Utf8.unitOf c)) ++ [0x22]) := by
  rw [quote, Utf8.units_utf8, List.flatMap_map]
  rfl

theorem escaped_append_inj {cs cs' : List Char}
    (h : cs.flatMap (fun c => escapeUnit (Utf8.unitOf c)) ++ 0x22 :: x =
      cs'.flatMap (fun c => escapeUnit (Utf8.unitOf c)) ++ 0x22 :: y) : cs = cs' ∧ x = y := by
  induction cs generalizing cs' with
  | nil =>
      cases cs' with
      | nil => exact ⟨rfl, (List.cons.inj h).2⟩
      | cons c' cs' =>
          rw [List.flatMap_cons, List.append_assoc] at h
          exact absurd h.symm (escaped_escapeUnit c').ne_quote
  | cons c cs ih =>
      rw [List.flatMap_cons, List.append_assoc] at h
      cases cs' with
      | nil => exact absurd h (escaped_escapeUnit c).ne_quote
      | cons c' cs' =>
          rw [List.flatMap_cons, List.append_assoc] at h
          obtain ⟨rfl, hrest⟩ := (escaped_escapeUnit c).append_inj (escaped_escapeUnit c') h
          obtain ⟨rfl, hxy⟩ := ih hrest
          exact ⟨rfl, hxy⟩

/-- A quoted text tells the text and where it ends. -/
theorem quote_append_inj (hs : IsUtf8 s) (ht : IsUtf8 t) (h : quote s ++ x = quote t ++ y) :
    s = t ∧ x = y := by
  obtain ⟨cs, rfl⟩ := hs
  obtain ⟨cs', rfl⟩ := ht
  rw [quote_utf8, quote_utf8, List.cons_append, List.cons_append, List.append_assoc,
    List.append_assoc] at h
  obtain ⟨rfl, hxy⟩ := escaped_append_inj (List.cons.inj h).2
  exact ⟨rfl, hxy⟩

end

/-! ## Values -/

/-- The byte that the text of a value starts with. -/
def opening : Json → UInt8
  | .null => 0x6E
  | .bool true => 0x74
  | .bool false => 0x66
  | .string _ => 0x22
  | .list _ => 0x5B
  | .object _ => 0x7B

theorem exists_indented (level : Nat) (v : Json) :
    ∃ rest, v.indented level = v.opening :: rest := by
  match v with
  | .null | .bool true | .bool false | .string _ | .list [] | .list (_ :: _) | .object []
  | .object (_ :: _) =>
    rw [indented]
    exact ⟨_, rfl⟩

/-- A value whose strings are made of characters. The names of its fields are ASCII. -/
inductive IsText : Json → Prop where
  | null : IsText .null
  | bool (b : Bool) : IsText (.bool b)
  | string {s : Bytes} (h : IsUtf8 s) : IsText (.string s)
  | list {items : List Json} (h : ∀ item ∈ items, IsText item) : IsText (.list items)
  | object {fields : List (String × Json)} (hnames : ∀ field ∈ fields, allAscii field.1.toList = true)
      (hvalues : ∀ field ∈ fields, IsText field.2) : IsText (.object fields)

/-- The text of a value tells the value, and where it ends. -/
def Tells (v : Json) : Prop :=
  ∀ {level : Nat} {w : Json} {s t : Bytes}, w.IsText →
    v.indented level ++ s = w.indented level ++ t → v = w ∧ s = t

section

variable {v w item : Json} {level : Nat} {s t : Bytes} {items items' : List Json}
  {fields fields' : List (String × Json)}

theorem opening_eq (h : v.indented level ++ s = w.indented level ++ t) : v.opening = w.opening := by
  obtain ⟨rest, hv⟩ := exists_indented level v
  obtain ⟨rest', hw⟩ := exists_indented level w
  rw [hv, hw] at h
  exact (List.cons.inj h).1

theorem tells_null : Tells .null := by
  intro level w s t _ h
  have hopening := opening_eq h
  cases w with
  | null => exact ⟨rfl, List.append_cancel_left h⟩
  | bool b => cases b <;> exact absurd hopening (by decide)
  | string | list | object => exact absurd hopening (by simp [opening])

theorem tells_bool (b : Bool) : Tells (.bool b) := by
  intro level w s t _ h
  have hopening := opening_eq h
  cases w with
  | bool b' =>
      obtain rfl : b = b' := by
        revert hopening
        cases b <;> cases b' <;> decide
      exact ⟨rfl, List.append_cancel_left h⟩
  | null | string | list | object => cases b <;> exact absurd hopening (by simp [opening])

theorem tells_string (hs : IsUtf8 s) : Tells (.string s) := by
  intro level w x t hw h
  have hopening := opening_eq h
  cases hw with
  | string ht =>
      rw [indented, indented] at h
      obtain ⟨rfl, hrest⟩ := quote_append_inj hs ht h
      exact ⟨rfl, hrest⟩
  | bool b => cases b <;> exact absurd hopening (by simp [opening])
  | null | list | object => exact absurd hopening (by simp [opening])

/-- Items end where no comma follows. -/
theorem indentedItems_append_inj (hitems : ∀ item ∈ items, item.Tells)
    (hitems' : ∀ item ∈ items', item.IsText) (hs : s.head? ≠ some 0x2C)
    (ht : t.head? ≠ some 0x2C)
    (h : indentedItems level items ++ s = indentedItems level items' ++ t) :
    items = items' ∧ s = t := by
  induction items generalizing items' with
  | nil =>
      cases items' with
      | nil => exact ⟨rfl, h⟩
      | cons item' items' => exact absurd (congrArg List.head? h) hs
  | cons item items ih =>
      cases items' with
      | nil => exact absurd (congrArg List.head? h.symm) ht
      | cons item' items' =>
          obtain ⟨hitem, hothers⟩ := List.forall_mem_cons.mp hitems
          obtain ⟨hitem', hothers'⟩ := List.forall_mem_cons.mp hitems'
          simp only [indentedItems, List.append_assoc] at h
          obtain ⟨rfl, hrest⟩ := hitem hitem'
            (List.append_cancel_left (List.append_cancel_left h))
          obtain ⟨rfl, hst⟩ := ih hothers hothers' hrest
          exact ⟨rfl, hst⟩

/-- What follows a line of its own is no comma. -/
theorem head?_lineAt (level : Nat) (s : Bytes) : (lineAt level ++ s).head? ≠ some 0x2C := nofun

/-- A list without items is the only one whose bracket is closed at once. -/
theorem tells_list (hitems : ∀ item ∈ items, item.Tells) : Tells (.list items) := by
  intro level w s t hw h
  have hopening := opening_eq h
  cases hw with
  | @list items' hitems' =>
      match items, items' with
      | [], [] =>
          simp only [indented] at h
          exact ⟨rfl, List.append_cancel_left h⟩
      | [], _ :: _ | _ :: _, [] =>
          simp only [indented, List.append_assoc] at h
          exact absurd (List.cons.inj (List.cons.inj h).2).1 (by decide)
      | item :: items, item' :: items' =>
          -- But for the bracket, the first item is written like those behind commas.
          have hcommas :
              indentedItems (level + 1) (item :: items) ++ (lineAt level ++ (ascii "]" ++ s)) =
                indentedItems (level + 1) (item' :: items') ++
                  (lineAt level ++ (ascii "]" ++ t)) := by
            simp only [indented, indentedItems, List.append_assoc] at h ⊢
            exact congrArg (ascii "," ++ ·) (List.append_cancel_left h)
          obtain ⟨hsame, hend⟩ := indentedItems_append_inj hitems hitems' (head?_lineAt level _)
            (head?_lineAt level _) hcommas
          rw [hsame]
          exact ⟨rfl, List.append_cancel_left (List.append_cancel_left hend)⟩
  | bool b => cases b <;> exact absurd hopening (by simp [opening])
  | null | string | object => exact absurd hopening (by simp [opening])

theorem isUtf8_ascii {name : String} (h : allAscii name.toList = true) : IsUtf8 (ascii name) :=
  ⟨name.toList, utf8_eq_map h⟩

theorem quote_ascii_append_inj {name name' : String} (h : allAscii name.toList = true)
    (h' : allAscii name'.toList = true)
    (heq : quote (ascii name) ++ s = quote (ascii name') ++ t) : name = name' ∧ s = t := by
  have hname : quote (utf8 name.toList) = quote (ascii name) := congrArg quote (utf8_eq_map h)
  have hname' : quote (utf8 name'.toList) = quote (ascii name') := congrArg quote (utf8_eq_map h')
  rw [← hname, ← hname', quote_utf8, quote_utf8, List.cons_append, List.cons_append,
    List.append_assoc, List.append_assoc] at heq
  obtain ⟨hchars, hst⟩ := escaped_append_inj (List.cons.inj heq).2
  exact ⟨String.toList_inj.mp hchars, hst⟩

/-- Fields end where no comma follows. -/
theorem indentedFields_append_inj (hnames : ∀ field ∈ fields, allAscii field.1.toList = true)
    (hvalues : ∀ field ∈ fields, field.2.Tells)
    (hnames' : ∀ field ∈ fields', allAscii field.1.toList = true)
    (hvalues' : ∀ field ∈ fields', field.2.IsText) (hs : s.head? ≠ some 0x2C)
    (ht : t.head? ≠ some 0x2C)
    (h : indentedFields level fields ++ s = indentedFields level fields' ++ t) :
    fields = fields' ∧ s = t := by
  induction fields generalizing fields' with
  | nil =>
      cases fields' with
      | nil => exact ⟨rfl, h⟩
      | cons field' fields' => exact absurd (congrArg List.head? h) hs
  | cons field fields ih =>
      cases fields' with
      | nil => exact absurd (congrArg List.head? h.symm) ht
      | cons field' fields' =>
          obtain ⟨name, value⟩ := field
          obtain ⟨name', value'⟩ := field'
          obtain ⟨hname, hnames⟩ := List.forall_mem_cons.mp hnames
          obtain ⟨hname', hnames'⟩ := List.forall_mem_cons.mp hnames'
          obtain ⟨hvalue, hvalues⟩ := List.forall_mem_cons.mp hvalues
          obtain ⟨hvalue', hvalues'⟩ := List.forall_mem_cons.mp hvalues'
          simp only [indentedFields, List.append_assoc] at h
          obtain ⟨hsame, hrest⟩ := quote_ascii_append_inj hname hname'
            (List.append_cancel_left (List.append_cancel_left h))
          obtain ⟨hvalueSame, hrest⟩ := hvalue hvalue' (List.append_cancel_left hrest)
          obtain ⟨hothers, hst⟩ := ih hnames hvalues hnames' hvalues' hrest
          rw [show name = name' from hsame, show value = value' from hvalueSame, hothers]
          exact ⟨rfl, hst⟩

theorem tells_object (hnames : ∀ field ∈ fields, allAscii field.1.toList = true)
    (hvalues : ∀ field ∈ fields, field.2.Tells) : Tells (.object fields) := by
  intro level w s t hw h
  have hopening := opening_eq h
  cases hw with
  | @object fields' hnames' hvalues' =>
      match fields, fields' with
      | [], [] =>
          simp only [indented] at h
          exact ⟨rfl, List.append_cancel_left h⟩
      | [], _ :: _ | _ :: _, [] =>
          simp only [indented, List.append_assoc] at h
          exact absurd (List.cons.inj (List.cons.inj h).2).1 (by decide)
      | field :: fields, field' :: fields' =>
          have hcommas :
              indentedFields (level + 1) (field :: fields) ++ (lineAt level ++ (ascii "\x7d" ++ s)) =
                indentedFields (level + 1) (field' :: fields') ++
                  (lineAt level ++ (ascii "\x7d" ++ t)) := by
            simp only [indented, indentedFields, List.append_assoc] at h ⊢
            exact congrArg (ascii "," ++ ·) (List.append_cancel_left h)
          obtain ⟨hsame, hend⟩ := indentedFields_append_inj hnames hvalues hnames' hvalues'
            (head?_lineAt level _) (head?_lineAt level _) hcommas
          rw [hsame]
          exact ⟨rfl, List.append_cancel_left (List.append_cancel_left hend)⟩
  | bool b => cases b <;> exact absurd hopening (by simp [opening])
  | null | string | list => exact absurd hopening (by simp [opening])

/-- By induction on the value: the items of a list and the values of fields tell themselves. -/
theorem IsText.tells (h : v.IsText) : v.Tells := by
  induction h with
  | null => exact tells_null
  | bool b => exact tells_bool b
  | string hs => exact tells_string hs
  | list _ ih => exact tells_list ih
  | object hnames _ ih => exact tells_object hnames ih

/-- Values with the same text are the same. -/
theorem IsText.eq_of_indented (hv : v.IsText) (hw : w.IsText)
    (h : v.indented level = w.indented level) : v = w :=
  (hv.tells hw (congrArg (· ++ []) h)).1

end

end Json

end HeaderBinding
