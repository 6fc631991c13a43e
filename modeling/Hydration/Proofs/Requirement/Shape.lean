import Hydration.Proofs.Requirement.RoundTrip

/-!
# The shape of a requirement

What every requirement that has been read looks like, whatever text it has been read from.
Reading folds operands from the left and wraps a lone condition, which fixes the nodes; its
conditions come from a scan, which fixes their names and arguments (`shape_of_parse`).
-/

namespace Hydration

open Text

/-- A text without blanks at its ends is left as it is by trimming. -/
theorem trim_of_trimmed {s : String} (h : Trimmed s.toList) : trim s = s := by
  have hchars : trimChars (s.toList ++ []) = s.toList := trimChars_append_blanks h nofun
  rw [List.append_nil] at hchars
  rw [trim, hchars, String.ofList_toList]

theorem Token.isSpecial_eq_false {c : Char} :
    isSpecial c = false ↔ c ≠ '(' ∧ c ≠ ')' ∧ c ≠ '&' ∧ c ≠ '|' := by
  simp [isSpecial, and_assoc]

theorem Token.isParen_eq_false {c : Char} : isParen c = false ↔ c ≠ '(' ∧ c ≠ ')' := by
  simp [isParen]

namespace Formula

variable {α : Type} {op : Operator} {operands : List (Formula α)} {t : Formula α}

/-- A node of a folded formula has two operands, and the first has not the same operator. -/
theorem Folded.node_part (h : t.Folded) (hpart : (Formula.node op operands).Part t) :
    2 ≤ operands.length ∧ ∀ first ∈ operands.head?, first.operator? ≠ some op := by
  cases h.part hpart with
  | node _ _ hfirst _ _ =>
    refine ⟨by simp, fun first hmem => ?_⟩
    obtain rfl := Option.some.inj hmem
    exact hfirst

/-- The only node of a lone leaf that has been wrapped. -/
theorem node_part_wrap_leaf {a : α} (h : (node op operands).Part (wrap (leaf a))) :
    op = .and ∧ operands = [leaf a] := by
  cases h with
  | refl => exact ⟨rfl, rfl⟩
  | operand hx hpart =>
    obtain rfl := List.mem_singleton.mp hx
    cases hpart

end Formula

namespace Requirement

open Formula (Part node leaf)

/-- **The shape of what is read.**

* At the root is a node; it is an AND over one condition, or else every node has at least two
  operands.
* The first operand of a node is not a node with the same operator.
* A name has no blanks at its ends and no special characters and is not `immediate`; an argument
  is not empty, holds no parentheses and follows a name. -/
theorem shape_of_parse {s : String} {t : Requirement} (h : parse s = .ok t) :
    (∃ op operands, t = node op operands) ∧
    ((∃ c, t = node .and [leaf c]) ∨
      ∀ op operands, (node op operands).Part t → 2 ≤ operands.length) ∧
    (∀ op operands, (node op operands).Part t →
      ∀ first ∈ operands.head?, first.operator? ≠ some op) ∧
    ∀ c ∈ t.leaves,
      (trim c.name = c.name ∧ (∀ x ∈ c.name.toList, x ≠ '(' ∧ x ≠ ')' ∧ x ≠ '&' ∧ x ≠ '|') ∧
        c.name ≠ "immediate") ∧
      ∀ a, c.argument = some a →
        c.name ≠ "" ∧ a ≠ "" ∧ ∀ x ∈ a.toList, x ≠ '(' ∧ x ≠ ')' := by
  have hleaves : ∀ c ∈ t.leaves,
      (trim c.name = c.name ∧ (∀ x ∈ c.name.toList, x ≠ '(' ∧ x ≠ ')' ∧ x ≠ '&' ∧ x ≠ '|') ∧
        c.name ≠ "immediate") ∧
      ∀ a, c.argument = some a →
        c.name ≠ "" ∧ a ≠ "" ∧ ∀ x ∈ a.toList, x ≠ '(' ∧ x ≠ ')' := by
    intro c hc
    have hclean := clean_of_parse h c hc
    refine ⟨⟨trim_of_trimmed hclean.trimmed, ?_, hclean.current⟩, fun a ha => ?_⟩
    · exact fun x hx => Token.isSpecial_eq_false.mp (hclean.plain x hx)
    · obtain ⟨hname, hargument, hparens⟩ := hclean.argument a ha
      exact ⟨hname, hargument, fun x hx => Token.isParen_eq_false.mp (hparens x hx)⟩
  obtain ⟨u, left, hu, rfl⟩ := ofTokens_of_parse h
  have hfolded := folded_of_ofTokens hu
  cases u with
  | leaf c =>
    -- A lone condition is wrapped, and the AND around it is the only node.
    refine ⟨⟨.and, [leaf c], rfl⟩, .inl ⟨c, rfl⟩, fun op operands hpart first hfirst => ?_, hleaves⟩
    obtain ⟨-, rfl⟩ := Formula.node_part_wrap_leaf hpart
    obtain rfl := Option.some.inj hfirst
    exact nofun
  | node op operands =>
    exact ⟨⟨op, operands, rfl⟩, .inr fun _ _ hpart => (hfolded.node_part hpart).1,
      fun _ _ hpart => (hfolded.node_part hpart).2, hleaves⟩

/-- A group that is extended by its own operator, one that is not, and a lone condition with
blanks around its name. -/
theorem shape_of_parse_extended_group :
    ∃ t, parse "(a && b( 1px )) && (c | immediate) || d" = .ok t ∧
      (∀ op operands, (node op operands).Part t → 2 ≤ operands.length) ∧
      ∃ u, parse " ( visible ) x" = .ok u ∧ u = node .and [leaf ⟨"visible", none⟩] ∧
        ∀ c ∈ u.leaves, c.name ≠ "immediate" := by
  have hscan : Token.scan "(a && b( 1px )) && (c | immediate) || d" =
      [.paren .opening, .condition ⟨"a", none⟩, .operator .and, .condition ⟨"b", some " 1px "⟩,
        .paren .closing, .operator .and, .paren .opening, .condition ⟨"c", none⟩, .operator .and,
        .condition ⟨"eager", none⟩, .paren .closing, .operator .or, .condition ⟨"d", none⟩] := by
    decide +kernel
  have hread : ofTokens (Token.scan "(a && b( 1px )) && (c | immediate) || d") =
      .ok (node .or [node .and [condition "a", condition "b" " 1px ",
        node .and [condition "c", condition "eager"]], condition "d"], []) := by
    rw [hscan]
    rfl
  have hparse := parse_of_ofTokens _ (by decide +kernel) hread
  have hscan' : Token.scan " ( visible ) x" =
      [.paren .opening, .condition ⟨"visible", none⟩, .paren .closing,
        .condition ⟨"x", none⟩] := by
    decide +kernel
  have hread' : ofTokens (Token.scan " ( visible ) x") =
      .ok (condition "visible", [.condition ⟨"x", none⟩]) := by
    rw [hscan']
    rfl
  have hparse' := parse_of_ofTokens _ (by decide +kernel) hread'
  obtain ⟨-, hnodes, -, -⟩ := shape_of_parse hparse
  refine ⟨_, hparse, hnodes.resolve_left ?_, _, hparse', rfl, fun c hc => ?_⟩
  · rintro ⟨c, hc⟩
    cases hc
  · exact ((shape_of_parse hparse').2.2.2 c hc).1.2.2

end Requirement

end Hydration
