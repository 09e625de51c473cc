import HeaderBinding.Token.Lexer

/-!
# No byte is lost

A lexer hands out one token at a time and then reports the end of the source. The tokens it hands
out are those of `tokenize`; put together they are the source, and each one stands where the texts
before it end.
-/

namespace HeaderBinding

/-! ## Tokens in their places -/

/-- The first token stands at the given offset, and each other one where the one before it ends. -/
def Token.Placed (offset : Nat) : List Token → Prop
  | [] => True
  | t :: tokens => t.position.offset = offset ∧ Placed (offset + t.text.length) tokens

namespace Token

theorem placed_append {offset : Nat} {front tokens : List Token} :
    Placed offset (front ++ tokens) ↔
      Placed offset front ∧ Placed (offset + (concat front).length) tokens := by
  induction front generalizing offset with
  | nil => simp [Placed]
  | cons t front ih =>
      simp only [List.cons_append, Placed, ih, concat_cons, List.length_append, Nat.add_assoc,
        and_assoc]

end Token

namespace Lexer

/-! ## One token at a time -/

/-- What a lexer holds between two calls: the bytes left, the place of the first of them, and the
number of bytes handed out. -/
structure State where
  rest : Bytes
  cursor : Cursor
  offset : Nat
deriving Repr, DecidableEq

def State.start (source : Bytes) : State := ⟨source, ⟨1, 1⟩, 0⟩

/-- The answer to one call. -/
inductive Emission where
  | token (value : Token)
  | finish (position : Position)
deriving Repr, DecidableEq

/-- The invalid pieces at the front of a text joined to one, with the cursor and the text behind
them. -/
def takeInvalid (c : Cursor) : Bytes → Bytes × Cursor × Bytes
  | [] => ([], c, [])
  | b :: s =>
    match (scan b s).accepted with
    | some _ => ([], c, b :: s)
    | none =>
      let others :=
        takeInvalid (c.past (b :: s.take (scan b s).read)) (s.drop (scan b s).read)
      (b :: s.take (scan b s).read ++ others.1, others.2)
termination_by s => s.length
decreasing_by simp only [List.length_drop, List.length_cons]; omega

/-- Hands out the next token. The end of the source is reported in the first row and column. -/
def next (l : State) : Emission × State :=
  match l.rest with
  | [] => (.finish ⟨l.offset, 1, 1⟩, l)
  | b :: s =>
    match (scan b s).accepted with
    | some (kind, size) =>
      (.token ⟨kind, b :: s.take size, ⟨l.offset, l.cursor.row, l.cursor.column⟩⟩,
        ⟨s.drop size, l.cursor.past ((b :: s).take (scan b s).read),
          l.offset + (b :: s.take size).length⟩)
    | none =>
      let run := takeInvalid l.cursor (b :: s)
      (.token ⟨.invalid, run.1, ⟨l.offset, l.cursor.row, l.cursor.column⟩⟩,
        ⟨run.2.2, run.2.1, l.offset + run.1.length⟩)

/-- Calls from a state on hand out the tokens and then report the end at a position. -/
inductive Emits : State → List Token → Position → Prop where
  | finish {l l' : State} {p : Position} : next l = (.finish p, l') → Emits l [] p
  | token {l l' : State} {t : Token} {tokens : List Token} {p : Position} :
      next l = (.token t, l') → Emits l' tokens p → Emits l (t :: tokens) p

/-! ## What one call takes -/

theorem takeInvalid_append (c : Cursor) (s : Bytes) :
    (takeInvalid c s).1 ++ (takeInvalid c s).2.2 = s := by
  fun_induction takeInvalid c s with
  | case1 c => rfl
  | case2 c b s kind h => rfl
  | case3 c b s h others ih =>
      simp only [List.cons_append, List.append_assoc]
      rw [ih, List.take_append_drop]

theorem takeInvalid_ne_nil (c : Cursor) {b : UInt8} {s : Bytes}
    (h : (scan b s).accepted = none) : (takeInvalid c (b :: s)).1 ≠ [] := by
  rw [takeInvalid, h]
  simp

/-- A call that hands out a token takes its text off the front and places it at the offset. -/
theorem next_token {l l' : State} {t : Token} (h : next l = (.token t, l')) :
    l.rest = t.text ++ l'.rest ∧ t.text ≠ [] ∧ t.position.offset = l.offset ∧
      l'.offset = l.offset + t.text.length := by
  rw [next] at h
  split at h
  · simp at h
  · rename_i b s hrest
    split at h
    · obtain ⟨ht, hl⟩ := Prod.mk.inj h
      cases ht
      subst hl
      simp [hrest]
    · rename_i hnone
      obtain ⟨ht, hl⟩ := Prod.mk.inj h
      cases ht
      subst hl
      exact ⟨hrest.trans (takeInvalid_append l.cursor (b :: s)).symm,
        takeInvalid_ne_nil l.cursor hnone, rfl, rfl⟩

/-- Only a lexer without bytes reports the end, at its offset. -/
theorem next_finish {l l' : State} {p : Position} (h : next l = (.finish p, l')) :
    l.rest = [] ∧ p = ⟨l.offset, 1, 1⟩ := by
  rw [next] at h
  split at h
  · rename_i hrest
    obtain ⟨hp, _⟩ := Prod.mk.inj h
    cases hp
    exact ⟨hrest, rfl⟩
  · split at h <;> simp at h

/-! ## What a run of calls takes -/

namespace Emits

variable {l : State} {tokens : List Token} {p : Position}

theorem concat_eq (h : Emits l tokens p) : Token.concat tokens = l.rest := by
  induction h with
  | finish h => simp [(next_finish h).1]
  | token h _ ih => rw [Token.concat_cons, ih, (next_token h).1]

theorem text_ne_nil (h : Emits l tokens p) : ∀ t ∈ tokens, t.text ≠ [] := by
  induction h with
  | finish _ => simp
  | token h _ ih =>
      intro t ht
      rcases List.mem_cons.mp ht with rfl | ht
      · exact (next_token h).2.1
      · exact ih t ht

theorem placed (h : Emits l tokens p) : Token.Placed l.offset tokens := by
  induction h with
  | finish _ => trivial
  | token h _ ih =>
      obtain ⟨_, _, hoffset, hnext⟩ := next_token h
      exact ⟨hoffset, hnext ▸ ih⟩

theorem finish_eq (h : Emits l tokens p) : p = ⟨l.offset + l.rest.length, 1, 1⟩ := by
  induction h with
  | finish h =>
      obtain ⟨hrest, hp⟩ := next_finish h
      simp [hrest, hp]
  | token h _ ih =>
      obtain ⟨hrest, _, _, hnext⟩ := next_token h
      rw [ih, hnext, hrest, List.length_append, Nat.add_assoc]

end Emits

/-! ## The run that gives all tokens -/

theorem kind_of_mem_advance {b : UInt8} {rules : List LexicalRule} {rule : LexicalRule}
    (h : rule ∈ advance b rules) : ∃ r ∈ rules, r.kind = rule.kind := by
  simp only [advance, List.mem_filter, List.mem_map] at h
  obtain ⟨⟨r, hr, rfl⟩, _⟩ := h
  exact ⟨r, hr, rfl⟩

theorem advance_ne_invalid {b : UInt8} {rules : List LexicalRule}
    (h : ∀ rule ∈ rules, rule.kind ≠ .invalid) :
    ∀ rule ∈ advance b rules, rule.kind ≠ .invalid := by
  intro rule hrule
  obtain ⟨r, hr, hkind⟩ := kind_of_mem_advance hrule
  exact hkind ▸ h r hr

theorem accepted?_ne_invalid {rules : List LexicalRule}
    (h : ∀ rule ∈ rules, rule.kind ≠ .invalid) : ∀ kind ∈ accepted? rules, kind ≠ .invalid := by
  intro kind hkind
  obtain ⟨rule, hrule, rfl⟩ := Option.map_eq_some_iff.mp hkind
  exact h rule (List.mem_of_find?_eq_some hrule)

theorem scanRest_ne_invalid {live : List LexicalRule} {count : Nat}
    {best : Option (TokenKind × Nat)} (s : Bytes) (hlive : ∀ rule ∈ live, rule.kind ≠ .invalid)
    (hbest : ∀ m ∈ best, m.1 ≠ .invalid) :
    ∀ m ∈ (scanRest live count best s).accepted, m.1 ≠ .invalid := by
  induction s generalizing live count best with
  | nil => exact hbest
  | cons b s ih =>
      have hnext := advance_ne_invalid (b := b) hlive
      simp only [scanRest]
      split
      · exact hbest
      · apply ih hnext
        intro m hm
        rcases Option.or_eq_some_iff.mp hm with hm | ⟨_, hm⟩
        · obtain ⟨kind, hkind, rfl⟩ := Option.map_eq_some_iff.mp hm
          exact accepted?_ne_invalid hnext kind hkind
        · exact hbest m hm

theorem all_ne_invalid : ∀ rule ∈ LexicalRule.all, rule.kind ≠ .invalid := by
  decide

/-- A match never has the kind of what no rule matches. -/
theorem scan_ne_invalid {b : UInt8} {s : Bytes} {kind : TokenKind} {size : Nat}
    (h : (scan b s).accepted = some (kind, size)) : kind ≠ .invalid := by
  have hlive := advance_ne_invalid (b := b) all_ne_invalid
  simp only [scan] at h
  split at h
  · simp at h
  · refine scanRest_ne_invalid s hlive ?_ (kind, size) h
    intro m hm
    obtain ⟨kind, hkind, rfl⟩ := Option.map_eq_some_iff.mp hm
    exact accepted?_ne_invalid hlive kind hkind

/-- The pieces of a text with neighbouring invalid ones joined. -/
def joined (c : Cursor) (s : Bytes) : List Piece :=
  (pieces c s).foldr joinInvalid []

theorem joined_nil (c : Cursor) : joined c [] = [] := by
  simp [joined, pieces]

theorem joined_of_accepted (c : Cursor) {b : UInt8} {s : Bytes} {kind : TokenKind} {size : Nat}
    (h : (scan b s).accepted = some (kind, size)) :
    joined c (b :: s) =
      ⟨kind, b :: s.take size, c⟩
        :: joined (c.past ((b :: s).take (scan b s).read)) (s.drop size) := by
  have hkind := scan_ne_invalid h
  simp only [joined, pieces, h, List.foldr_cons]
  cases hp : (pieces _ _).foldr joinInvalid [] <;> simp [joinInvalid, hkind]

theorem joined_of_rejected (c : Cursor) {b : UInt8} {s : Bytes}
    (h : (scan b s).accepted = none) :
    joined c (b :: s) =
      joinInvalid ⟨.invalid, b :: s.take (scan b s).read, c⟩
        (joined (c.past (b :: s.take (scan b s).read)) (s.drop (scan b s).read)) := by
  simp only [joined, pieces, h, List.foldr_cons]

theorem takeInvalid_of_rejected (c : Cursor) {b : UInt8} {s : Bytes}
    (h : (scan b s).accepted = none) :
    takeInvalid c (b :: s) =
      let others := takeInvalid (c.past (b :: s.take (scan b s).read)) (s.drop (scan b s).read)
      (b :: s.take (scan b s).read ++ others.1, others.2) := by
  rw [takeInvalid, h]

/-- An invalid piece takes the invalid pieces behind it along. -/
theorem joinInvalid_joined (c c' : Cursor) (text rest : Bytes) :
    joinInvalid ⟨.invalid, text, c⟩ (joined c' rest) =
      ⟨.invalid, text ++ (takeInvalid c' rest).1, c⟩
        :: joined (takeInvalid c' rest).2.1 (takeInvalid c' rest).2.2 := by
  fun_induction takeInvalid c' rest generalizing text c with
  | case1 c' => simp [joined_nil, joinInvalid]
  | case2 c' b s m h =>
      simp [joined_of_accepted c' h, joinInvalid, scan_ne_invalid h]
  | case3 c' b s h others ih =>
      rw [joined_of_rejected c' h, ih]
      simp [joinInvalid, others]

/-- A call hands out the first of the tokens that are to come. -/
theorem place_joined {l l' : State} {t : Token} (h : next l = (.token t, l')) :
    place l.offset (joined l.cursor l.rest) =
      t :: place l'.offset (joined l'.cursor l'.rest) := by
  rw [next] at h
  split at h
  · simp at h
  · rename_i b s hrest
    split at h
    · rename_i kind size hsome
      obtain ⟨ht, hl⟩ := Prod.mk.inj h
      cases ht
      subst hl
      rw [hrest, joined_of_accepted l.cursor hsome]
      rfl
    · rename_i hnone
      obtain ⟨ht, hl⟩ := Prod.mk.inj h
      cases ht
      subst hl
      rw [hrest, joined_of_rejected l.cursor hnone, joinInvalid_joined,
        takeInvalid_of_rejected l.cursor hnone]
      rfl

theorem emits_place (l : State) :
    ∃ p, Emits l (place l.offset (joined l.cursor l.rest)) p := by
  generalize hn : l.rest.length = n
  induction n using Nat.strongRecOn generalizing l with
  | _ n ih =>
      cases hnext : next l with
      | mk emission l' =>
          cases emission with
          | finish p =>
              refine ⟨p, ?_⟩
              rw [(next_finish hnext).1, joined_nil]
              exact .finish hnext
          | token t =>
              obtain ⟨hrest, htext, _, _⟩ := next_token hnext
              have hlt : l'.rest.length < n := by
                have hpos := List.length_pos_iff.mpr htext
                rw [← hn, hrest, List.length_append]
                omega
              obtain ⟨p, hp⟩ := ih _ hlt l' rfl
              exact ⟨p, place_joined hnext ▸ .token hnext hp⟩

/-- Calls on a fresh lexer hand out the tokens of the source and report the end at its length. -/
theorem emits_tokenize (source : Bytes) :
    Emits (State.start source) (tokenize source) (Position.endOf source) := by
  obtain ⟨p, hp⟩ := emits_place (State.start source)
  have hend : p = Position.endOf source := by
    rw [hp.finish_eq]
    simp [State.start, Position.endOf]
  exact hend ▸ hp

end Lexer

/-! ## The tokens of a source -/

theorem concat_tokenize (source : Bytes) : Token.concat (tokenize source) = source :=
  (Lexer.emits_tokenize source).concat_eq

theorem placed_tokenize (source : Bytes) : Token.Placed 0 (tokenize source) :=
  (Lexer.emits_tokenize source).placed

/-- A source is cut without loss: a lexer hands out the tokens of the source one by one and then
reports the end behind its last byte; no token is empty, the texts of all tokens are the source, and
each token stands where the texts before it end. -/
theorem tokenize_lossless (source : Bytes) :
    Lexer.Emits (Lexer.State.start source) (tokenize source) (Position.endOf source) ∧
      (∀ t ∈ tokenize source, t.text ≠ []) ∧
      Token.concat (tokenize source) = source ∧
      ∀ front t tokens, tokenize source = front ++ t :: tokens →
        t.position.offset = (Token.concat front).length := by
  have hrun := Lexer.emits_tokenize source
  refine ⟨hrun, hrun.text_ne_nil, concat_tokenize source, ?_⟩
  intro front t tokens h
  have hplaced := placed_tokenize source
  rw [h, Token.placed_append] at hplaced
  simpa using hplaced.2.1

end HeaderBinding
