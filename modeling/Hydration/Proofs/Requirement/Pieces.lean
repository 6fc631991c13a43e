import Hydration.Proofs.Requirement.Scan

/-!
# What stands in the pieces of a text

A text is cut into pieces, and each piece shows what its token was made of: a single `&` stands for
no token, and any other piece is the **spelling** of its token with blanks around it, or between a
name and its argument (`shows_firstPiece`).  A token is spelled as it is written, apart from the
old spellings `|` and `immediate`.  So nothing of a text is lost on the way to its tokens but
blanks and single `&` (`scan_pieces`).

Conversely tokens may be written with any blanks around them.  The text is scanned back to the same
tokens, as long as no condition without argument takes in what follows it (`scan_spaced`).
-/

namespace Hydration

open Text

/-! ## Blanks -/

/-- The characters of `cs` that are not blank. -/
def Text.strip (cs : List Char) : List Char :=
  cs.filter (!isBlank ·)

theorem Text.strip_append (xs ys : List Char) : strip (xs ++ ys) = strip xs ++ strip ys :=
  List.filter_append ..

theorem Text.strip_blanks {cs : List Char} (h : ∀ x ∈ cs, isBlank x = true) : strip cs = [] :=
  List.filter_eq_nil_iff.mpr fun x hx => by simp [h x hx]

/-- Trimming cuts off blanks at both ends. -/
theorem exists_blanks_trimChars (cs : List Char) : ∃ before after,
    cs = before ++ (trimChars cs ++ after) ∧ ∀ x ∈ before ++ after, isBlank x = true := by
  have hfront := List.takeWhile_append_dropWhile (p := isBlank) (l := cs)
  have hback := List.takeWhile_append_dropWhile (p := isBlank) (l := (cs.dropWhile isBlank).reverse)
  refine ⟨cs.takeWhile isBlank, ((cs.dropWhile isBlank).reverse.takeWhile isBlank).reverse, ?_, ?_⟩
  · rw [trimChars, ← List.reverse_append, hback, List.reverse_reverse, hfront]
  · intro x hx
    rcases List.mem_append.mp hx with hx | hx
    · exact List.mem_takeWhile_imp hx
    · exact List.mem_takeWhile_imp (List.mem_reverse.mp hx)

namespace Token

/-! ## Spellings -/

/-- What can be written for a token. -/
inductive Spelling where
  /-- The written form of a token; `immediate` is the old name of `eager`. -/
  | written (t : Token)
  /-- A single `|`. -/
  | bar

namespace Spelling

/-- What stands in the text. -/
def chars : Spelling → List Char
  | written t => t.chars
  | bar => ['|']

/-- The token that is meant. -/
def token : Spelling → Token
  | written (.condition c) =>
    .condition { c with name := if c.name = "immediate" then "eager" else c.name }
  | written t => t
  | bar => .operator .and

/-- **A spelling fills a piece** if nothing else is in it but blanks, which stand around it or in
front of the parenthesis of an argument. -/
structure Fills (w : Spelling) (text : List Char) : Prop where
  layout : ∃ before name between group after,
    text = before ++ (name ++ (between ++ (group ++ after))) ∧ w.chars = name ++ group ∧
      (∀ x ∈ before ++ (between ++ after), isBlank x = true) ∧ ∀ x ∈ group.head?, x = '('
  plain : ∀ c, w = written (.condition c) → ∀ x ∈ c.name.toList, isSpecial x = false

/-- What fills a piece is the piece without its blanks. -/
theorem Fills.strip_eq {w : Spelling} {text : List Char} (h : w.Fills text) :
    strip text = strip w.chars := by
  obtain ⟨before, name, between, group, after, rfl, hchars, hblanks, -⟩ := h.layout
  rw [List.forall_mem_append, List.forall_mem_append] at hblanks
  obtain ⟨hbefore, hbetween, hafter⟩ := hblanks
  rw [hchars]
  simp only [strip_append, strip_blanks hbefore, strip_blanks hbetween, strip_blanks hafter,
    List.nil_append, List.append_nil]

/-- A parenthesis or an operator with blanks around it. -/
theorem fills_symbol {w : Spelling} (hw : ∀ c, w ≠ written (.condition c))
    {before after : List Char} (hblanks : ∀ x ∈ before ++ after, isBlank x = true) :
    w.Fills (before ++ w.chars ++ after) where
  layout := ⟨before, w.chars, [], [], after, by simp, by simp, by simpa using hblanks, nofun⟩
  plain c h := absurd h (hw c)

/-- A segment with blanks around it. -/
theorem fills_segment (before run after : List Char) (argument : Option (List Char))
    (hrun : ∀ x ∈ run, isSpecial x = false)
    (hblanks : ∀ x ∈ before ++ after, isBlank x = true) :
    ∃ w : Spelling, w.token = .condition (segmentCondition run argument) ∧
      w.Fills
        (before ++ run ++ (argument.elim [] fun inner => '(' :: (inner ++ [')'])) ++ after) := by
  obtain ⟨front, back, hsplit, hends⟩ := exists_blanks_trimChars run
  rw [List.forall_mem_append] at hblanks hends
  refine ⟨written (.condition ⟨String.ofList (trimChars run), argument.map String.ofList⟩), rfl,
    ⟨⟨before ++ front, trimChars run, back, argument.elim [] fun inner => '(' :: (inner ++ [')']),
      after, ?_, ?_, ?_, ?_⟩, ?_⟩⟩
  · -- The blanks at the end of the run stand between the name and the argument.
    nth_rewrite 1 [hsplit]
    simp only [List.append_assoc]
  · cases argument <;> simp [chars, Token.chars, Condition.chars]
  · simp only [List.forall_mem_append]
    exact ⟨⟨hblanks.1, hends.1⟩, hends.2, hblanks.2⟩
  · cases argument with
    | none => exact fun x hx => by cases hx
    | some inner => exact fun x hx => (Option.some.inj hx).symm
  · rintro c ⟨⟩ x hx
    rw [String.toList_ofList] at hx
    exact hrun x (mem_of_mem_trimChars hx)

end Spelling

/-! ## Pieces -/

/-- **What stands in a piece** in front of `rest`: a single `&` or the spelling of its token. -/
def Piece.Shows (p : Piece) (rest : List Char) : Prop :=
  p = ⟨['&'], none⟩ ∧ rest.head? ≠ some '&' ∨
    ∃ w : Spelling, p.token = some w.token ∧ w.Fills p.text

theorem shows_symbol {w : Spelling} (hw : ∀ c, w ≠ .written (.condition c)) {blanks r : List Char}
    (hblanks : ∀ x ∈ blanks, isBlank x = true) :
    (piece (blanks ++ w.chars) r w.token).1.Shows (piece (blanks ++ w.chars) r w.token).2 := by
  refine .inr ⟨w, rfl, Spelling.fills_symbol hw ?_⟩
  rw [List.forall_mem_append]
  exact ⟨hblanks, fun x hx => List.mem_takeWhile_imp hx⟩

theorem shows_nameless {blanks rest : List Char} (hblanks : ∀ x ∈ blanks, isBlank x = true) :
    Piece.Shows ⟨blanks, some (.condition (segmentCondition blanks none))⟩ rest := by
  obtain ⟨w, hw, hfills⟩ := Spelling.fills_segment [] blanks [] none
    (fun x hx => isSpecial_of_isBlank (hblanks x hx)) nofun
  refine .inr ⟨w, congrArg some hw.symm, ?_⟩
  simpa using hfills

/-- The first piece shows what its token was made of. -/
theorem shows_firstPiece (cs : List Char) : (firstPiece cs).1.Shows (firstPiece cs).2 := by
  have hblanks : ∀ x ∈ cs.takeWhile isBlank, isBlank x = true := fun x hx =>
    List.mem_takeWhile_imp hx
  unfold firstPiece
  simp only
  split
  · exact shows_nameless hblanks
  · exact shows_symbol (w := .written (.paren .opening)) nofun hblanks
  · exact shows_symbol (w := .written (.paren .closing)) nofun hblanks
  · exact shows_symbol (w := .written (.operator .or)) nofun hblanks
  · exact shows_symbol (w := .bar) nofun hblanks
  · exact shows_symbol (w := .written (.operator .and)) nofun hblanks
  · -- A `&` that nothing stands in front of; a second one would have made an operator.
    next r hsecond _ =>
    split
    · refine .inl ⟨rfl, fun hr => ?_⟩
      cases r with
      | nil => cases hr
      | cons c r =>
        obtain rfl := Option.some.inj hr
        exact hsecond _ rfl
    · exact shows_nameless hblanks
  · next c r _ _ _ _ _ _ _ =>
    have hrun : ∀ x ∈ (c :: r).takeWhile (!isSpecial ·), isSpecial x = false := fun x hx => by
      simpa using List.mem_takeWhile_imp hx
    split
    · next inner after _ =>
      obtain ⟨w, hw, hfills⟩ := Spelling.fills_segment (cs.takeWhile isBlank) _
        (after.takeWhile isBlank) (some inner) hrun
        (List.forall_mem_append.mpr ⟨hblanks, fun x hx => List.mem_takeWhile_imp hx⟩)
      exact .inr ⟨w, congrArg some hw.symm, hfills⟩
    · obtain ⟨w, hw, hfills⟩ := Spelling.fills_segment (cs.takeWhile isBlank) _ [] none hrun
        (by simpa using hblanks)
      refine .inr ⟨w, congrArg some hw.symm, ?_⟩
      simpa using hfills

/-- Every piece of a text shows what its token was made of. -/
theorem shows_cut {cs : List Char} {before after : List Piece} {p : Piece}
    (h : cut cs = before ++ p :: after) : p.Shows (after.flatMap Piece.text) := by
  fun_induction cut cs generalizing before with
  | case1 => simp at h
  | case2 c cs ih =>
    cases before with
    | nil =>
      obtain ⟨rfl, rfl⟩ := List.cons.inj h
      rw [flatMap_text_cut]
      exact shows_firstPiece (c :: cs)
    | cons q before => exact ih (List.cons.inj h).2

/-- The spellings of some pieces, one for each token. -/
theorem exists_spellings {ps : List Piece}
    (h : ∀ p ∈ ps, p.token.isSome → ∃ w : Spelling, p.token = some w.token ∧ w.Fills p.text) :
    ∃ ws : List Spelling, ps.filterMap Piece.token = ws.map Spelling.token ∧
      strip ((ps.filter (·.token.isSome)).flatMap Piece.text) =
        strip (ws.flatMap Spelling.chars) := by
  induction ps with
  | nil => exact ⟨[], rfl, rfl⟩
  | cons p ps ih =>
    obtain ⟨ws, htokens, htext⟩ := ih fun q hq => h q (List.mem_cons_of_mem _ hq)
    cases htoken : p.token with
    | none =>
      refine ⟨ws, ?_, ?_⟩
      · rw [List.filterMap_cons_none htoken, htokens]
      · rw [List.filter_cons_of_neg (by simp [htoken]), htext]
    | some t =>
      obtain ⟨w, hw, hfills⟩ := h p List.mem_cons_self (by simp [htoken])
      refine ⟨w :: ws, ?_, ?_⟩
      · rw [List.filterMap_cons_some hw, htokens, List.map_cons]
      · rw [List.filter_cons_of_pos (by simp [htoken]), List.flatMap_cons, List.flatMap_cons,
          strip_append, strip_append, htext, hfills.strip_eq]

/-- **Nothing of a text is lost** in its tokens but blanks and single `&`.

* The pieces of a text, put together, are the text, and its tokens are those of its pieces.
* A piece is a single `&`, which no second one follows, or it is filled by the spelling of its
  token, and without blanks it is the same.
* So the text without single `&` and without blanks is that of its tokens, each in its spelling. -/
theorem scan_pieces (s : String) :
    (cut s.toList).flatMap Piece.text = s.toList ∧
    scan s = (cut s.toList).filterMap Piece.token ∧
    (∀ before p after, cut s.toList = before ++ p :: after →
      p = ⟨['&'], none⟩ ∧ (after.flatMap Piece.text).head? ≠ some '&' ∨
      ∃ w : Spelling, p.token = some w.token ∧ w.Fills p.text ∧ strip p.text = strip w.chars) ∧
    ∃ ws : List Spelling, scan s = ws.map Spelling.token ∧
      strip (((cut s.toList).filter (·.token.isSome)).flatMap Piece.text) =
        strip (ws.flatMap Spelling.chars) := by
  refine ⟨flatMap_text_cut s.toList, rfl, fun before p after h => ?_, ?_⟩
  · refine (shows_cut h).imp_right ?_
    rintro ⟨w, hw, hfills⟩
    exact ⟨w, hw, hfills, hfills.strip_eq⟩
  · refine exists_spellings fun p hp hsome => ?_
    obtain ⟨before, after, hcut⟩ := List.append_of_mem hp
    rcases shows_cut hcut with ⟨rfl, -⟩ | hspelling
    · cases hsome
    · exact hspelling

example : (cut "(a & b ( x ))&&& | immediate".toList).map Piece.text =
    [['('], ['a', ' '], ['&'], " b ( x )".toList, [')'], ['&', '&'], ['&'], [' ', '|', ' '],
      "immediate".toList] := by
  decide +kernel

/-! ## Tokens with blanks between them -/

/-- Tokens that are written one after the other, with `start` before the first and a text of its own
after each. -/
def spaced (start : String) (tokens : List (Token × String)) : String :=
  start ++ String.join (tokens.map fun p => p.1.text ++ p.2)

/-- The layout of spaced tokens. -/
def spacedLexemes (start : String) (tokens : List (Token × String)) : List Lexeme :=
  start.toList.map .blank ++ tokens.flatMap fun p => .token p.1 :: p.2.toList.map .blank

theorem layout_blanks (cs : List Char) : layout (cs.map .blank) = cs := by
  induction cs with
  | nil => rfl
  | cons c cs ih =>
    rw [List.map_cons, layout, List.flatMap_cons]
    exact congrArg (c :: ·) ih

theorem layout_spacedLexemes (start : String) (tokens : List (Token × String)) :
    String.ofList (layout (spacedLexemes start tokens)) = spaced start tokens := by
  have htokens : layout (tokens.flatMap fun p => .token p.1 :: p.2.toList.map .blank) =
      tokens.flatMap fun p => (p.1.text ++ p.2).toList := by
    rw [layout, List.flatMap_assoc]
    refine List.flatMap_congr fun p _ => ?_
    have hblanks := layout_blanks p.2.toList
    rw [layout] at hblanks
    rw [List.flatMap_cons, hblanks, String.toList_append, text, String.toList_ofList]
    rfl
  rw [spacedLexemes, layout, List.flatMap_append, ← layout, ← layout, layout_blanks, htokens,
    String.ofList_append, String.ofList_toList, spaced]
  congr 1
  rw [← String.ofList_toList (s := String.join _), String.toList_join, List.flatMap_map]

theorem tokens_spacedLexemes (start : String) (tokens : List (Token × String)) :
    (spacedLexemes start tokens).filterMap Lexeme.token? = tokens.map (·.1) := by
  have hblanks : ∀ cs : List Char, (cs.map Lexeme.blank).filterMap Lexeme.token? = [] := fun cs =>
    List.filterMap_eq_nil_iff.mpr fun l hl => by
      obtain ⟨c, -, rfl⟩ := List.mem_map.mp hl
      rfl
  rw [spacedLexemes, List.filterMap_append, hblanks, List.nil_append]
  induction tokens with
  | nil => rfl
  | cons p tokens ih =>
    rw [List.flatMap_cons, List.cons_append, List.filterMap_cons, List.filterMap_append, hblanks,
      ih]
    rfl

/-- **Blanks around tokens do not matter, and writing tokens loses nothing.**  Tokens with clean
names, among which no condition without argument stands directly before a condition or an opening
parenthesis, are scanned back from their written forms with any blanks before, between and
after them. -/
theorem scan_spaced {start : String} {tokens : List (Token × String)} (hne : tokens ≠ [])
    (hstart : isBlankText start = true) (hblanks : ∀ p ∈ tokens, isBlankText p.2 = true)
    (hconditions : ∀ c, .condition c ∈ tokens.map (·.1) → c.Clean ∧ c.name ≠ "")
    (hapart : (tokens.map (·.1)).IsChain Apart) :
    scan (spaced start tokens) = tokens.map (·.1) := by
  have hlegible : ∀ l ∈ spacedLexemes start tokens, l.Legible := by
    have hblank : ∀ s : String, isBlankText s = true →
        ∀ l ∈ s.toList.map Lexeme.blank, l.Legible := by
      intro s hs l hl
      obtain ⟨c, hc, rfl⟩ := List.mem_map.mp hl
      exact List.all_eq_true.mp hs c hc
    intro l hl
    rcases List.mem_append.mp hl with hl | hl
    · exact hblank start hstart l hl
    · obtain ⟨⟨t, gap⟩, hp, hl⟩ := List.mem_flatMap.mp hl
      rcases List.mem_cons.mp hl with rfl | hl
      · cases t with
        | condition c => exact hconditions c (List.mem_map.mpr ⟨_, hp, rfl⟩)
        | paren side => trivial
        | operator op => trivial
      · exact hblank gap (hblanks _ hp) l hl
  have htokens := tokens_spacedLexemes start tokens
  rw [← layout_spacedLexemes, scan_layout hlegible (htokens ▸ hapart), htokens]
  rw [htokens]
  simpa using hne

/-- A name with a blank in it, an argument that looks like an operator, and a condition directly
behind it, with line feeds, blanks or nothing in between. -/
theorem scan_spaced_mixed :
    let tokens : List (Token × String) :=
      [(.paren .opening, ""), (.condition ⟨"a b", none⟩, " "), (.operator .or, "\n"),
        (.condition ⟨"c", some "&&"⟩, ""), (.condition ⟨"d", none⟩, "  "), (.paren .closing, "\t")]
    ((∀ c, .condition c ∈ tokens.map (·.1) → c.Clean ∧ c.name ≠ "") ∧
      (tokens.map (·.1)).IsChain Apart) ∧
    spaced "\n" tokens = "\n(a b ||\nc(&&)d  )\t" ∧
    scan (spaced "\n" tokens) = tokens.map (·.1) := by
  intro tokens
  have hconditions : ∀ c, .condition c ∈ tokens.map (·.1) → c.Clean ∧ c.name ≠ "" := by
    -- The same conditions stand in a text, and whatever is scanned from a text is clean.
    have hscan : ∀ t ∈ tokens.map (·.1), ∀ c, t = .condition c →
        .condition c ∈ scan "a b || c(&&) || d" ∧ c.name ≠ "" := by
      simp only [tokens, List.map_cons, List.map_nil, List.forall_mem_cons]
      refine ⟨nofun, ?_, nofun, ?_, ?_, nofun, nofun⟩
      all_goals
        rintro c ⟨⟩
        decide +kernel
    intro c hc
    exact ⟨clean_of_mem_scan (hscan _ hc c rfl).1, (hscan _ hc c rfl).2⟩
  have hapart : (tokens.map (·.1)).IsChain Apart := by
    simp [tokens, Apart]
  exact ⟨⟨hconditions, hapart⟩, by decide +kernel,
    scan_spaced (by simp [tokens]) (by decide +kernel) (by decide +kernel) hconditions hapart⟩

end Token

end Hydration
