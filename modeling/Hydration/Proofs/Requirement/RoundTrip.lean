import Hydration.Proofs.Requirement.Reading

/-!
# Writing and reading again

A requirement that was read can be written and read again.  If each of its
conditions has a name the same requirement comes back, so writing and reading
reach a fixed text after one round; if some condition has none, its text cannot be
read at all (`parse_text_of_parse`).

The result rests on two facts about what is read: its conditions are clean, and it
is folded, which is the shape that reading a written requirement gives
(`parse_text`).
-/

namespace Hydration.Requirement

open Formula (Filled)

theorem ofTokens_nil : ofTokens [] = .error (.unexpectedEnd 0) := rfl

/-- Reading a text is reading its tokens, except that a blank text is refused. -/
theorem parse_of_ofTokens {s : String} {t : Requirement} (left : List Token)
    (hs : Text.isBlankText s = false) (h : ofTokens (Token.scan s) = .ok (t, left)) :
    parse s = .ok t.wrap := by
  rw [parse, if_neg (by simp [hs])]
  split
  · next hnil => rw [hnil, ofTokens_nil] at h; cases h
  · rw [h]; rfl

theorem parse_error_of_ofTokens {s : String} {e : ParseError}
    (h : ofTokens (Token.scan s) = .error e) : ∃ e, parse s = .error e := by
  rw [parse]
  split
  · exact ⟨_, rfl⟩
  · split
    · exact ⟨_, rfl⟩
    · rw [h]; exact ⟨_, rfl⟩

theorem ofTokens_of_parse {s : String} {t : Requirement} (h : parse s = .ok t) :
    ∃ u left, ofTokens (Token.scan s) = .ok (u, left) ∧ t = u.wrap := by
  rw [parse] at h
  split at h
  · cases h
  · split at h
    · cases h
    · cases hread : ofTokens (Token.scan s) with
      | error e => rw [hread] at h; cases h
      | ok result =>
        rw [hread] at h
        cases h
        exact ⟨result.1, result.2, rfl, rfl⟩

/-- The conditions of a requirement that was read are clean. -/
theorem clean_of_parse {s : String} {t : Requirement} (h : parse s = .ok t) :
    ∀ c ∈ t.leaves, c.Clean := by
  obtain ⟨u, left, hu, rfl⟩ := ofTokens_of_parse h
  intro c hc
  rw [Formula.leaves_wrap] at hc
  exact Token.clean_of_mem_scan (mem_of_ofTokens hu c hc)

/-! ## Reading what is written -/

theorem ofTokens_lexemes {t : Requirement} (ht : t.Filled) (hn : ∀ c ∈ t.leaves, c.name ≠ "") :
    ofTokens (tokensOf t.lexemes) = .ok (t.normal, []) := by
  cases ht with
  | leaf c =>
    obtain ⟨position, h⟩ := readsNormal (.leaf c) hn none [] 0 []
    rw [List.append_nil] at h
    exact h
  | @node op first others hf ho =>
    have hnamed : ∀ x ∈ first :: others, ∀ c ∈ Formula.leaves x, c.name ≠ "" :=
      fun x hx c hc => hn c (Formula.mem_leaves_node.mpr ⟨x, hx, hc⟩)
    obtain ⟨position, h⟩ := readTerm_operandsLexemes op
      (readsNormal hf (hnamed first List.mem_cons_self))
      (fun x hx => readsNormal (ho x hx) (hnamed x (List.mem_cons_of_mem _ hx))) none [] 0 []
    rw [List.append_nil] at h
    exact h

theorem ofTokens_lexemes_nameless {t : Requirement} (ht : t.Filled)
    (hn : ∃ c ∈ t.leaves, c.name = "") : ∃ e, ofTokens (tokensOf t.lexemes) = .error e := by
  have hend : NoTerm [] := by rintro t ⟨⟩
  cases ht with
  | leaf c =>
    obtain ⟨e, h⟩ := readsError (.leaf c) hn none [] 0 [] hend
    rw [List.append_nil] at h
    exact ⟨e, h⟩
  | @node op first others hf ho =>
    have hfilled : ∀ x ∈ first :: others, x.Filled := by
      intro x hx
      rcases List.mem_cons.mp hx with rfl | hx
      · exact hf
      · exact ho x hx
    obtain ⟨c, hc, hname⟩ := hn
    obtain ⟨x, hx, hcx⟩ := Formula.mem_leaves_node.mp hc
    obtain ⟨e, h⟩ := readTerm_operands_nameless op
      (fun y hy => readsNormal (hfilled y hy)) (fun y hy => readsError (hfilled y hy))
      ⟨x, hx, c, hcx, hname⟩ none [] 0 hend
    rw [List.append_nil] at h
    exact ⟨e, h⟩

theorem text_eq_layout {t : Requirement} (hc : ∀ c ∈ t.leaves, c.Clean) :
    t.text = String.ofList (Token.layout t.lexemes) := by
  rw [text, layout_lexemes hc]

/-- **Reading a written requirement folds it.** -/
theorem parse_text {t : Requirement} (ht : t.Filled) (hc : ∀ c ∈ t.leaves, c.Clean)
    (hn : ∀ c ∈ t.leaves, c.name ≠ "") : parse t.text = .ok t.normal.wrap := by
  have hread := ofTokens_lexemes ht hn
  have hne : tokensOf t.lexemes ≠ [] := by
    intro hnil
    rw [hnil, ofTokens_nil] at hread
    cases hread
  rw [text_eq_layout hc]
  refine parse_of_ofTokens []
    (Token.not_isBlankText_layout (legible_lexemes hc) hne) ?_
  rw [Token.scan_layout (legible_lexemes hc) (isChain_lexemes t) hne]
  exact hread

/-- A written requirement that lacks a name cannot be read. -/
theorem parse_text_nameless {t : Requirement} (ht : t.Filled) (hc : ∀ c ∈ t.leaves, c.Clean)
    (hn : ∃ c ∈ t.leaves, c.name = "") : ∃ e, parse t.text = .error e := by
  obtain ⟨e, he⟩ := ofTokens_lexemes_nameless ht hn
  rw [text_eq_layout hc]
  by_cases hne : tokensOf t.lexemes = []
  · exact ⟨.empty, by rw [parse, if_pos (Token.isBlankText_layout (legible_lexemes hc) hne)]⟩
  · refine parse_error_of_ofTokens (e := e) ?_
    rw [Token.scan_layout (legible_lexemes hc) (isChain_lexemes t) hne]
    exact he

/-! ## One round -/

theorem Folded.normal_wrap {t : Requirement} (h : t.Folded) : t.wrap.normal.wrap = t.wrap := by
  cases t with
  | leaf c => rfl
  | node op operands =>
    have hwrap : Formula.wrap (.node op operands) = .node op operands := rfl
    rw [hwrap, h.normal_eq, hwrap]

theorem filled_wrap {t : Requirement} (h : t.Filled) : t.wrap.Filled := by
  cases h with
  | leaf c => exact .node .and (.leaf c) (by simp)
  | node op hf ho => exact .node op hf ho

/-- **Writing and reading again.**  A requirement that was read is read back identically from
its written form if all its conditions have names, and otherwise its written form
cannot be read. -/
theorem parse_text_of_parse {s : String} {t : Requirement} (h : parse s = .ok t) :
    ((∀ c ∈ t.leaves, c.name ≠ "") → parse t.text = .ok t) ∧
      ((∃ c ∈ t.leaves, c.name = "") → ∃ e, parse t.text = .error e) := by
  have hclean := clean_of_parse h
  obtain ⟨u, left, hu, rfl⟩ := ofTokens_of_parse h
  have hfolded := folded_of_ofTokens hu
  have hfilled := filled_wrap hfolded.filled
  constructor
  · intro hn
    rw [parse_text hfilled hclean hn, Folded.normal_wrap hfolded]
  · exact parse_text_nameless hfilled hclean

/-- A group that is never closed, an argument with an operator in it, the old spellings, and
what stands behind a lone `&`; and a text with a condition that has no name. -/
theorem parse_text_of_parse_open_group :
    (∃ t, parse "(a || b(x&&y)) | (immediate || c & d" = .ok t ∧
      (∀ c ∈ t.leaves, c.name ≠ "") ∧ parse t.text = .ok t) ∧
    ∃ t, parse "& & || (a && b" = .ok t ∧
      (∃ c ∈ t.leaves, c.name = "") ∧ ∃ e, parse t.text = .error e := by
  have hscan₁ : Token.scan "(a || b(x&&y)) | (immediate || c & d" =
      [.paren .opening, .condition ⟨"a", none⟩, .operator .or, .condition ⟨"b", some "x&&y"⟩,
        .paren .closing, .operator .and, .paren .opening, .condition ⟨"eager", none⟩,
        .operator .or, .condition ⟨"c", none⟩, .condition ⟨"d", none⟩] := by decide +kernel
  have hread₁ : ofTokens (Token.scan "(a || b(x&&y)) | (immediate || c & d") =
      .ok (.node .and [.node .or [condition "a", condition "b" "x&&y"],
        .node .or [condition "eager", condition "c"]], [.condition ⟨"d", none⟩]) := by
    rw [hscan₁]; rfl
  have hparse₁ := parse_of_ofTokens _ (by decide +kernel) hread₁
  have hscan₂ : Token.scan "& & || (a && b" =
      [.condition ⟨"", none⟩, .operator .or, .paren .opening, .condition ⟨"a", none⟩,
        .operator .and, .condition ⟨"b", none⟩] := by decide +kernel
  have hread₂ : ofTokens (Token.scan "& & || (a && b") =
      .ok (.node .or [condition "", .node .and [condition "a", condition "b"]], []) := by
    rw [hscan₂]; rfl
  have hparse₂ := parse_of_ofTokens _ (by decide +kernel) hread₂
  have hnamed : ∀ c ∈ Formula.leaves (Formula.wrap (.node .and [.node .or [condition "a",
      condition "b" "x&&y"], .node .or [condition "eager", condition "c"]])), c.name ≠ "" := by
    decide
  have hnameless : ∃ c ∈ Formula.leaves (Formula.wrap (.node .or [condition "", .node .and
      [condition "a", condition "b"]])), c.name = "" := by
    decide
  exact ⟨⟨_, hparse₁, hnamed, (parse_text_of_parse hparse₁).1 hnamed⟩,
    ⟨_, hparse₂, hnameless, (parse_text_of_parse hparse₂).2 hnameless⟩⟩

end Hydration.Requirement
