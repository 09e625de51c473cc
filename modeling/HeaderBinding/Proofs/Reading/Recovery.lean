import HeaderBinding.Proofs.Reading.Acceptance
import HeaderBinding.Proofs.Reading.Closing
import HeaderBinding.Proofs.Reading.Placement

/-!
# Only the broken declaration is lost

A collecting session that meets a broken declaration goes on behind the `;` that ends it, wherever
in the declaration the fault was found. What stands before and behind is read as it is read alone.
-/

namespace HeaderBinding

/-! ## A declaration by its braces and its end -/

/-- How many more braces are opened than closed. -/
def braceBalance (tokens : List Token) : Int :=
  (tokens.countP (·.kind == .leftBrace) : Int) - tokens.countP (·.kind == .rightBrace)

/-- The tokens of one declaration, broken or not. -/
structure Standalone (tokens : List Token) : Prop where
  /-- Neither layout nor a separator, a closing brace or a directive comes first. -/
  start : ∀ t ∈ tokens.head?, t.kind.isLayout = false ∧ t.kind.isDirective = false ∧
    t.kind ∉ [.newline, .semicolon, .rightBrace]
  not_linkage : ¬ OpensLinkage tokens
  balanced : braceBalance tokens = 0
  nonneg : ∀ i ≤ tokens.length, 0 ≤ braceBalance (tokens.take i)
  last : ∃ t ∈ tokens.getLast?, t.kind = .semicolon
  /-- No other `;` stands outside braces. -/
  only : ∀ i (h : i < tokens.length), tokens[i].kind = .semicolon →
    braceBalance (tokens.take i) = 0 → i + 1 = tokens.length
  /-- A name or a `;` follows each brace that closes the outermost level. -/
  continued : ∀ i (h : i < tokens.length), tokens[i].kind = .rightBrace →
    braceBalance (tokens.take (i + 1)) = 0 →
    ∃ u ∈ (solid (tokens.drop (i + 1))).head?, u.kind = .identifier ∨ u.kind = .semicolon

theorem braceBalance_append_singleton (front : List Token) (t : Token) :
    braceBalance (front ++ [t]) = braceBalance front +
      (if t.kind = .leftBrace then 1 else if t.kind = .rightBrace then -1 else 0) := by
  unfold braceBalance
  rw [List.countP_append, List.countP_append]
  by_cases hleft : t.kind = .leftBrace
  · simp [hleft]
    omega
  · by_cases hright : t.kind = .rightBrace
    · simp [hright]
      omega
    · simp [hleft, hright]

theorem head?_skipLines (tokens : List Token) :
    (skipLines tokens).head? = (solid tokens).head? := by
  induction tokens with
  | nil => rfl
  | cons t tokens ih =>
      by_cases hblank : t.kind.isLayoutOrNewline = true
      · rw [solid_cons_of_blank hblank, ← ih]
        simp [skipLines, hblank]
      · rw [solid_cons_of_solid (by simpa using hblank)]
        simp [skipLines, hblank]

theorem continuesBehindBrace_eq_true_iff {tokens : List Token} :
    continuesBehindBrace tokens = true ↔
      ∃ u ∈ (solid tokens).head?, u.kind = .identifier ∨ u.kind = .semicolon := by
  rw [← head?_skipLines, continuesBehindBrace]
  cases skipLines tokens with
  | nil => simp
  | cons t rest => simp [or_comm]

theorem continuesBehindBrace_append {tokens : List Token} (more : List Token)
    (h : continuesBehindBrace tokens = true) : continuesBehindBrace (tokens ++ more) = true := by
  rw [continuesBehindBrace_eq_true_iff] at h ⊢
  obtain ⟨u, hu, hkind⟩ := h
  refine ⟨u, ?_, hkind⟩
  rw [solid_append, List.head?_append, Option.mem_def.mp hu]
  rfl

/-- Where no brace closes too much, the depth is the balance. -/
theorem braceDepth_braceBalance {front : List Token} (t : Token) (h : 0 ≤ braceBalance front) :
    braceDepth (braceBalance front).toNat t = (braceBalance (front ++ [t])).toNat := by
  rw [braceBalance_append_singleton]
  rw [braceDepth]
  split
  · rename_i hleft
    rw [if_pos hleft]
    omega
  · rename_i hright
    rw [if_neg (by simp [hright]), if_pos hright]
    omega
  · rename_i hleft hright
    rw [if_neg hleft, if_neg hright, Int.add_zero]

/-- The last token is the `;`, outside braces because the braces match. -/
theorem Standalone.last_spec {front : List Token} {t : Token} (h : Standalone (front ++ [t])) :
    t.kind = .semicolon ∧ braceBalance front = 0 := by
  obtain ⟨u, hu, hkind⟩ := h.last
  have hlast : t = u := by simpa using hu
  subst hlast
  have hbalanced := h.balanced
  rw [braceBalance_append_singleton] at hbalanced
  simp only [hkind, reduceCtorEq, ↓reduceIte] at hbalanced
  exact ⟨hkind, by omega⟩

/-- From any place inside on, the tokens of a declaration go on to its end. -/
theorem Standalone.closes_of_append {front rest : List Token} (h : Standalone (front ++ rest))
    (hrest : rest ≠ []) : Closes (braceBalance front).toNat rest := by
  induction rest generalizing front with
  | nil => exact absurd rfl hrest
  | cons t rest ih =>
      have hlt : front.length < (front ++ t :: rest).length := by simp
      have htake' : (front ++ t :: rest).take (front.length + 1) = front ++ [t] := by
        rw [List.take_length_add_append]
        rfl
      have hdrop' : (front ++ t :: rest).drop (front.length + 1) = rest := by
        rw [List.drop_length_add_append]
        rfl
      have hfront : 0 ≤ braceBalance front := by simpa using h.nonneg front.length hlt.le
      rw [Closes]
      by_cases hends : t.kind = .semicolon ∧ (braceBalance front).toNat = 0
      · rw [if_pos hends]
        have hzero : braceBalance front = 0 := by omega
        simpa using h.only front.length hlt (by simpa using hends.1) (by simpa using hzero)
      · rw [if_neg hends]
        refine ⟨?_, ?_⟩
        · intro hright
          have hnext := h.nonneg (front.length + 1) hlt
          have hsum := braceBalance_append_singleton front t
          simp only [hright, reduceCtorEq, ↓reduceIte] at hsum
          rw [htake'] at hnext
          refine ⟨by omega, ?_⟩
          intro houter
          have hcontinued := h.continued front.length hlt (by simpa using hright)
            (by rw [htake']; omega)
          rw [hdrop'] at hcontinued
          exact continuesBehindBrace_eq_true_iff.mpr hcontinued
        · rw [braceDepth_braceBalance t hfront]
          refine ih (by simpa using h) ?_
          intro hnil
          subst hnil
          obtain ⟨hkind, hzero⟩ := h.last_spec
          exact hends ⟨hkind, by omega⟩

theorem Standalone.closes {tokens : List Token} (h : Standalone tokens) : Closes 0 tokens := by
  have hwhole : Standalone ([] ++ tokens) := h
  refine hwhole.closes_of_append ?_
  intro hnil
  obtain ⟨t, ht, _⟩ := h.last
  simp [hnil] at ht

/-! ## Going on behind it -/

theorem skipBroken_of_closes {depth : Nat} {rest : List Token} (more : List Token)
    (h : Closes depth rest) : skipBroken 0 depth (rest ++ more) = more := by
  induction rest generalizing depth with
  | nil => exact h.elim
  | cons t rest ih =>
      rw [List.cons_append, skipBroken, if_neg (by simp)]
      by_cases hinside : 0 < braceDepth depth t
      · rw [if_pos hinside]
        apply ih
        apply h.tail
        intro hends
        simp [braceDepth, hends] at hinside
      · rw [if_neg hinside]
        by_cases hend : t.kind = .semicolon
        · rw [if_pos hend]
          have hdepth : depth = 0 := by
            simpa [braceDepth, hend] using hinside
          subst hdepth
          rw [h.rest_eq_nil hend, List.nil_append]
        · rw [if_neg hend]
          have htail : Closes 0 rest := by
            have hdepth : braceDepth depth t = 0 := by omega
            exact hdepth ▸ h.tail fun hends => hend hends.1
          have hcontinues : ¬ (t.kind = .rightBrace ∧ ¬ continuesBehindBrace (rest ++ more)) := by
            intro hclose
            obtain ⟨hright, hnot⟩ := hclose
            obtain ⟨hpos, houter⟩ := h.of_rightBrace hright
            have hdepth : depth = 1 := by
              simp only [braceDepth, hright] at hinside
              omega
            exact hnot (continuesBehindBrace_append more (houter hdepth))
          rw [if_neg hcontinues]
          exact ih htail

/-- After a fault anywhere in a closed construct, reading goes on behind the construct. -/
theorem resume_of_closes {start : Token} {tokens rest : List Token} {fault : Fault}
    (more : List Token) (h : Closes 0 (start :: tokens)) (hsuffix : rest <:+ tokens)
    (hrest : rest ≠ []) (hdirective : start.kind.isDirective = false)
    (hright : start.kind ≠ .rightBrace) (hcause : fault.cause.isPassable = true) :
    resume 0 start (tokens ++ more) (rest ++ more) fault = more := by
  obtain ⟨front, rfl⟩ := hsuffix
  have hlinkage : fault.cause ≠ .linkageBlock := by
    intro hblock
    rw [hblock] at hcause
    exact absurd hcause (by decide)
  have hleaves : leavesRest start fault = true := by
    simp [leavesRest, hdirective, hright, hlinkage]
  have htaken : (front ++ rest ++ more).take
      ((front ++ rest ++ more).length - (rest ++ more).length) = front := by
    rw [List.append_assoc, List.length_append, Nat.add_sub_cancel, List.take_left]
  rw [resume, if_pos hleaves, htaken]
  apply skipBroken_of_closes
  rw [← List.cons_append] at h
  exact h.append hrest

namespace Standalone

variable {o : ReadOptions} {start : Token} {tokens : List Token}

theorem start_spec (h : Standalone (start :: tokens)) :
    start.kind.isDirective = false ∧ start.kind ≠ .semicolon ∧ start.kind ≠ .rightBrace := by
  obtain ⟨_, hdirective, hmark⟩ := h.start start rfl
  simp only [List.mem_cons, List.not_mem_nil, or_false, not_or] at hmark
  exact ⟨hdirective, hmark.2⟩

theorem skipLayout_append (h : Standalone (start :: tokens)) (more : List Token) :
    skipLayout (start :: (tokens ++ more)) = start :: (tokens ++ more) := by
  have hlayout := (h.start start rfl).1
  simp [skipLayout, hlayout]

theorem not_separator (h : Standalone (start :: tokens)) :
    ¬ (start.kind = .newline ∨ start.kind = .semicolon) := by
  obtain ⟨_, _, hmark⟩ := h.start start rfl
  intro hseparator
  rcases hseparator with hk | hk <;> simp [hk] at hmark

/-- The fault of a declaration that is read alone is found in its only construct, and in the same
place whatever follows. -/
theorem readConstruct_eq_broken (ho : o.collect = false) (h : Standalone (start :: tokens))
    {fault : Fault} (hfault : (readTokens o (start :: tokens)).fault = some fault)
    (more : List Token) :
    ∃ rest, readConstruct o start (tokens ++ more) = .broken fault (rest ++ more) ∧
      rest <:+ tokens ∧ rest ≠ [] ∧ fault.cause.isPassable = true := by
  obtain ⟨hdirective, hsemicolon, hright⟩ := h.start_spec
  have hskip : skipLayout (Session.ofTokens (start :: tokens)).rest = start :: tokens := by
    rw [Session.ofTokens]
    simpa using h.skipLayout_append []
  have hclose : ¬ (start.kind = .rightBrace ∧
      0 < (Session.ofTokens (start :: tokens)).linkage) := by
    simp [hright]
  have hsuffix := readConstruct_rest_suffix o start tokens
  have hstays := readConstruct_stays (o := o) more h.closes hdirective ⟨hsemicolon, hright⟩
    h.not_linkage
  generalize hread : readConstruct o start tokens = outcome at hstays hsuffix
  generalize readConstruct o start (tokens ++ more) = outcome' at hstays
  rw [readTokens_eq] at hfault
  cases hstays with
  | done hrest =>
      -- A declaration that is read ends with its last token, and nothing is left to be broken.
      subst hrest
      rw [Session.run_of_go (.declare hskip h.not_separator hclose hread),
        Session.run_of_stop (.finish rfl)] at hfault
      cases hfault
  | @broken found rest hcause hrest =>
      have hstops : Session.stops o found = true := by simp [Session.stops, ho]
      rw [Session.run_of_stop (.halt hskip h.not_separator hclose hread hstops)] at hfault
      cases hfault
      exact ⟨rest, rfl, hsuffix, hrest, hcause⟩

/-- A collecting session notes the fault of a broken declaration and passes over all of it. -/
theorem run_append (ho : o.collect = false) (h : Standalone tokens) {fault : Fault}
    (hfault : (readTokens o tokens).fault = some fault) (more : List Token) :
    Session.run { o with collect := true } (.ofTokens (tokens ++ more)) =
      Session.run { o with collect := true } ⟨more, 0, #[], #[fault]⟩ := by
  obtain ⟨start, tokens, rfl⟩ := List.exists_cons_of_ne_nil h.closes.ne_nil
  obtain ⟨rest, hread, hsuffix, hrest, hcause⟩ := h.readConstruct_eq_broken ho hfault more
  obtain ⟨hdirective, _, hright⟩ := h.start_spec
  obtain ⟨hcategory, hblock⟩ : fault.cause.category ≠ .unterminated ∧
      fault.cause ≠ .linkageBlock := by
    simpa [SyntaxError.isPassable] using hcause
  have hskip : skipLayout (Session.ofTokens (start :: tokens ++ more)).rest =
      start :: (tokens ++ more) := h.skipLayout_append more
  have hclose : ¬ (start.kind = .rightBrace ∧
      0 < (Session.ofTokens (start :: tokens ++ more)).linkage) := by
    simp [hright]
  have hstops : Session.stops { o with collect := true } fault = false := by
    simp [Session.stops, hcategory]
  have hlinkage : Session.linkageAfter 0 fault = 0 := by
    simp [Session.linkageAfter, hblock]
  have hresume := resume_of_closes more h.closes hsuffix hrest hdirective hright hcause
  rw [← readConstruct_collect o true] at hread
  rw [Session.run_of_go (.recover hskip h.not_separator hclose hread hstops)]
  simp [Session.ofTokens, hlinkage, hresume]

/-- What is read behind a broken declaration is what is read there alone. -/
theorem readTokens_joined (ho : o.collect = false) (h : Standalone tokens) {fault : Fault}
    (hfault : (readTokens o tokens).fault = some fault) (more : List Token) :
    let after := readTokens { o with collect := true } more
    let distance := (Token.concat tokens).length
    readTokens { o with collect := true } (Token.joined tokens more) =
      ⟨after.declarations, fault :: after.diagnostics.map (Fault.move (.along distance)),
        after.fault.map (Fault.move (.along distance))⟩ := by
  intro after distance
  have hmore := readTokens_move (.along distance) { o with collect := true } more
  rw [readTokens_eq, Reading.ofRun] at hmore
  obtain ⟨hdeclarations, hdiagnostics, hstopped⟩ := Reading.mk.inj hmore
  rw [readTokens_eq, Token.joined, h.run_append ho hfault, Session.run_eq_behind]
  simp [Reading.ofRun, Session.behind, hdeclarations, hdiagnostics, hstopped, after, distance]

end Standalone

/-- What is read behind items is what is read there alone. -/
theorem readTokens_joined_items {o : ReadOptions} (collect : Bool) {tokens : List Token}
    {declarations : List Declaration} (h : Grammar.Items o tokens declarations)
    (hnewline : ∀ t ∈ tokens.getLast?, t.kind = .newline) (more : List Token) :
    let after := readTokens { o with collect := collect } more
    let distance := (Token.concat tokens).length
    readTokens { o with collect := collect } (Token.joined tokens more) =
      ⟨declarations ++ after.declarations, after.diagnostics.map (Fault.move (.along distance)),
        after.fault.map (Fault.move (.along distance))⟩ := by
  intro after distance
  have hmore := readTokens_move (.along distance) { o with collect := collect } more
  rw [readTokens_eq, Reading.ofRun] at hmore
  obtain ⟨hdeclarations, hdiagnostics, hstopped⟩ := Reading.mk.inj hmore
  rw [readTokens_eq, Token.joined, Session.ofTokens,
    Grammar.run_items collect h (.inr hnewline), Session.run_eq_behind]
  simp [Reading.ofRun, Session.behind, hdeclarations, hdiagnostics, hstopped, after, distance]

/-- A broken declaration between two sources is noted, and nothing else of them is lost. -/
theorem readHeader_recovers (multilineEnum noInlineEnum : Bool) {source front back : Bytes}
    {broken : List Token} {fault : Fault}
    (hfront : (readHeader ⟨false, multilineEnum, noInlineEnum⟩ front).fault = none)
    (hnewline : ∃ t ∈ (tokenize front).getLast?, t.kind = .newline)
    (hbroken : Standalone broken) (hplaced : Token.Placed 0 broken)
    (hfault : (readTokens ⟨false, multilineEnum, noInlineEnum⟩ broken).fault = some fault)
    (hsource : (tokenize source).map Token.spelling =
      (tokenize front ++ broken ++ tokenize back).map Token.spelling) :
    let before := readHeader ⟨false, multilineEnum, noInlineEnum⟩ front
    let after := readHeader ⟨true, multilineEnum, noInlineEnum⟩ back
    let collected := readHeader ⟨true, multilineEnum, noInlineEnum⟩ source
    let distance := front.length + (Token.concat broken).length
    collected.declarations = before.declarations ++ after.declarations ∧
      collected.diagnostics.map (Fault.shifted 0) =
        fault.shifted front.length :: after.diagnostics.map (Fault.shifted distance) ∧
      collected.fault.map (Fault.shifted 0) = after.fault.map (Fault.shifted distance) := by
  intro before after collected distance
  let o : ReadOptions := ⟨false, multilineEnum, noInlineEnum⟩
  let rest := Token.joined broken (tokenize back)
  -- The source is read as its three parts moved one behind another.
  have hparts : Token.Placed 0 (Token.joined (tokenize front) rest) :=
    placed_joined (placed_tokenize front) (placed_joined hplaced (placed_tokenize back))
  have hspelling : (tokenize source).map Token.spelling =
      (Token.joined (tokenize front) rest).map Token.spelling := by
    rw [hsource, map_spelling_joined, map_spelling_joined]
    simp
  obtain ⟨hdeclarations, hdiagnostics, hstopped⟩ :=
    readTokens_eq_of_spelling { o with collect := true } (placed_tokenize source) hparts hspelling
  have hitems : Grammar.Items o (tokenize front) before.declarations :=
    (Grammar.readTokens_accepts_iff rfl).mp ⟨rfl, hfront⟩
  have hlast : ∀ t ∈ (tokenize front).getLast?, t.kind = .newline := by
    obtain ⟨u, hu, hkind⟩ := hnewline
    intro t ht
    rwa [Option.mem_unique ht hu]
  have hread := readTokens_joined_items true hitems hlast rest
  have hbehind := hbroken.readTokens_joined (o := o) rfl hfault (tokenize back)
  rw [hread, hbehind, concat_tokenize] at hdeclarations hdiagnostics hstopped
  have hshift : ∀ e : Fault, Fault.shifted 0 ((e.move (.along (Token.concat broken).length)).move
      (.along front.length)) = e.shifted distance := by
    intro e
    rw [Fault.shifted_move, Fault.shifted_move, Nat.add_zero, Nat.add_comm]
  refine ⟨hdeclarations, hdiagnostics.trans ?_, hstopped.trans ?_⟩
  · simp only [List.map_cons, List.map_map, Function.comp_def, hshift, Fault.shifted_move,
      Nat.add_zero]
    rfl
  · simp only [Option.map_map, Function.comp_def, hshift]
    rfl

/-- A struct with a pointer as its member. The fault is found at the `;` inside the braces, which a
name and another `;` follow. -/
def pointerStruct : List Token :=
  [⟨.structKeyword, ascii "struct", ⟨0, 1, 1⟩⟩, ⟨.whiteSpace, ascii " ", ⟨6, 1, 7⟩⟩,
   ⟨.identifier, ascii "S", ⟨7, 1, 8⟩⟩, ⟨.leftBrace, ascii "\x7b", ⟨8, 1, 9⟩⟩,
   ⟨.intKeyword, ascii "int", ⟨9, 1, 10⟩⟩, ⟨.star, ascii "*", ⟨12, 1, 13⟩⟩,
   ⟨.identifier, ascii "p", ⟨13, 1, 14⟩⟩, ⟨.semicolon, ascii ";", ⟨14, 1, 15⟩⟩,
   ⟨.rightBrace, ascii "\x7d", ⟨15, 1, 16⟩⟩, ⟨.identifier, ascii "t", ⟨16, 1, 17⟩⟩,
   ⟨.semicolon, ascii ";", ⟨17, 1, 18⟩⟩]

theorem standalone_pointerStruct : Standalone pointerStruct where
  start := by decide
  not_linkage := by
    intro h
    obtain ⟨t, ht, hkind⟩ := h.head?_kind
    cases ht
    cases hkind
  balanced := by decide
  nonneg := by decide
  last := by decide
  only := by decide
  continued := by decide

theorem readHeader_recovers_pointerStruct :
    (readHeader ⟨true, false, false⟩
          (ascii "int f();\nstruct S\x7bint*p;\x7dt;\nint g();\nint h(")).declarations =
        [.prototype ⟨ascii "f", .scalar .int, []⟩, .prototype ⟨ascii "g", .scalar .int, []⟩] ∧
      (readHeader ⟨true, false, false⟩
          (ascii "int f();\nstruct S\x7bint*p;\x7dt;\nint g();\nint h(")).diagnostics.map
          (Fault.shifted 0) =
        [(.pointerMember, ascii "int * p", 21)] ∧
      (readHeader ⟨true, false, false⟩
          (ascii "int f();\nstruct S\x7bint*p;\x7dt;\nint g();\nint h(")).fault.map
          (Fault.shifted 0) =
        some (.unclosedPrototype, ascii "int h", 37) := by
  have hfront : (readHeader ⟨false, false, false⟩ (ascii "int f();\n")).fault = none := by
    decide +kernel
  have hnewline : ∃ t ∈ (tokenize (ascii "int f();\n")).getLast?, t.kind = .newline := by
    decide +kernel
  have hplaced : Token.Placed 0 pointerStruct := by
    repeat' constructor
  have hfault : (readTokens ⟨false, false, false⟩ pointerStruct).fault =
      some ⟨.pointerMember, ascii "int * p", ⟨12, 1, 13⟩⟩ := by
    decide +kernel
  have hsource : (tokenize (ascii "int f();\nstruct S\x7bint*p;\x7dt;\nint g();\nint h(")).map
        Token.spelling =
      (tokenize (ascii "int f();\n") ++ pointerStruct ++
        tokenize (ascii "\nint g();\nint h(")).map Token.spelling := by
    decide +kernel
  obtain ⟨hdeclarations, hdiagnostics, hstopped⟩ :=
    readHeader_recovers false false hfront hnewline standalone_pointerStruct hplaced hfault hsource
  refine ⟨hdeclarations.trans ?_, hdiagnostics.trans ?_, hstopped.trans ?_⟩
  · decide +kernel
  · decide +kernel
  · decide +kernel

end HeaderBinding
