import Mathlib.Data.List.Chain
import Mathlib.Data.List.TakeWhile
import Hydration.Requirement.Parse

/-!
# Scanning written tokens

What a scan can give, and which texts give a wanted list of tokens.

**Clean conditions.**  A segment is cut at parentheses, `&` and `|`, its name is
trimmed and `immediate` is replaced, so every condition of a scan is `Clean`
(`clean_of_mem_scan`).  The name may still be empty: blanks before a lone `&` are
a condition as well.

**Written texts.**  A text can be laid out as *lexemes*, the written forms of
tokens and single blanks in any number between them.  If every condition of the
layout is clean and has a name, and no condition without argument stands directly
before a condition or an opening parenthesis, the scan gives exactly the tokens of
the layout (`scan_lexemes`).
-/

namespace Hydration

open Text

/-! ## Trimming -/

section Trimming

theorem takeWhile_append_stop {α : Type} {p : α → Bool} {xs ys : List α}
    (hxs : ∀ a ∈ xs, p a = true) (hys : ∀ a ∈ ys.head?, p a = false) :
    (xs ++ ys).takeWhile p = xs := by
  rw [List.takeWhile_append_of_pos hxs]
  cases ys with
  | nil => simp
  | cons y ys => simp [hys y (by simp)]

theorem dropWhile_append_stop {α : Type} {p : α → Bool} {xs ys : List α}
    (hxs : ∀ a ∈ xs, p a = true) (hys : ∀ a ∈ ys.head?, p a = false) :
    (xs ++ ys).dropWhile p = ys := by
  rw [List.dropWhile_append_of_pos hxs]
  cases ys with
  | nil => rfl
  | cons y ys => simp [hys y (by simp)]

/-- No character of `cs` at either end is blank. -/
def Trimmed (cs : List Char) : Prop :=
  (∀ c ∈ cs.head?, isBlank c = false) ∧ ∀ c ∈ cs.getLast?, isBlank c = false

theorem head?_dropWhile_isBlank (cs : List Char) :
    ∀ c ∈ (cs.dropWhile isBlank).head?, isBlank c = false := by
  intro c hc
  have h := List.head?_dropWhile_not isBlank cs
  rw [Option.mem_def.mp hc] at h
  exact h

theorem trimmed_trimChars (cs : List Char) : Trimmed (trimChars cs) := by
  have hlast : ∀ c ∈ (trimChars cs).getLast?, isBlank c = false := by
    rw [trimChars, List.getLast?_reverse]
    exact head?_dropWhile_isBlank _
  refine ⟨?_, hlast⟩
  -- what is cut off at the end is a suffix, so the head is that of `cs.dropWhile isBlank`
  intro c hc
  have hsuffix : (((cs.dropWhile isBlank).reverse.dropWhile isBlank).reverse) <+:
      cs.dropWhile isBlank := by
    have h := List.dropWhile_suffix isBlank (l := (cs.dropWhile isBlank).reverse)
    simpa using List.reverse_prefix.mpr h
  obtain ⟨rest, hrest⟩ := hsuffix
  refine head?_dropWhile_isBlank cs c ?_
  rw [← hrest]
  rw [trimChars] at hc
  exact List.mem_head?_append_of_mem_head? hc

theorem trimChars_append_blanks {cs blanks : List Char} (h : Trimmed cs)
    (hb : ∀ c ∈ blanks, isBlank c = true) : trimChars (cs ++ blanks) = cs := by
  cases cs with
  | nil =>
    have hdrop : blanks.dropWhile isBlank = [] := List.dropWhile_eq_nil_iff.mpr hb
    simp [trimChars, hdrop]
  | cons c cs =>
    have hc : isBlank c = false := h.1 c (by simp)
    have hfront : ((c :: cs) ++ blanks).dropWhile isBlank = (c :: cs) ++ blanks := by
      rw [List.cons_append, List.dropWhile_cons_of_neg (by simp [hc])]
    have hback : ((c :: cs) ++ blanks).reverse.dropWhile isBlank = (c :: cs).reverse := by
      rw [List.reverse_append]
      refine dropWhile_append_stop (fun a ha => hb a (List.mem_reverse.mp ha)) ?_
      rw [List.head?_reverse]
      exact h.2
    rw [trimChars, hfront, hback, List.reverse_reverse]

theorem mem_of_mem_trimChars {c : Char} {cs : List Char} (h : c ∈ trimChars cs) : c ∈ cs := by
  rw [trimChars, List.mem_reverse] at h
  have h1 := (List.dropWhile_sublist isBlank).mem h
  exact (List.dropWhile_sublist isBlank).mem (List.mem_reverse.mp h1)

end Trimming

/-! ## Clean conditions -/

/-- **What a scan makes of a condition.**  The name is trimmed and free of special
characters, the old spelling is gone, and an argument is not empty, holds no
parenthesis and follows a name. -/
structure Condition.Clean (c : Condition) : Prop where
  trimmed : Trimmed c.name.toList
  plain : ∀ x ∈ c.name.toList, Token.isSpecial x = false
  current : c.name ≠ "immediate"
  argument : ∀ a, c.argument = some a →
    c.name ≠ "" ∧ a ≠ "" ∧ ∀ x ∈ a.toList, Token.isParen x = false

/-- A condition whose name is empty. -/
abbrev Condition.Nameless (c : Condition) : Prop := c.name = ""

theorem Condition.Clean.argument_none {c : Condition} (h : c.Clean) (hn : c.Nameless) :
    c.argument = none := by
  cases ha : c.argument with
  | none => rfl
  | some a => exact absurd hn (h.argument a ha).1

namespace Token

theorem argument?_spec {cs inner after : List Char} (h : argument? cs = some (inner, after)) :
    inner ≠ [] ∧ ∀ x ∈ inner, isParen x = false := by
  unfold argument? at h
  split at h
  · next r =>
    split at h
    · cases h
    · next hne =>
      simp only [Option.some.injEq, Prod.mk.injEq] at h
      obtain ⟨rfl, rfl⟩ := h
      exact ⟨hne, fun x hx => by simpa using List.mem_takeWhile_imp hx⟩
    · cases h
  · cases h

/-- A segment gives a clean condition. -/
theorem clean_segmentCondition {run : List Char} {argument : Option (List Char)}
    (hrun : ∀ x ∈ run, isSpecial x = false)
    (harg : ∀ inner, argument = some inner →
      trimChars run ≠ [] ∧ inner ≠ [] ∧ ∀ x ∈ inner, isParen x = false) :
    (segmentCondition run argument).Clean := by
  have hname : ∀ inner, argument = some inner → (segmentCondition run argument).name ≠ "" := by
    intro inner hi
    by_cases h : String.ofList (trimChars run) = "immediate"
    · simp [segmentCondition, h]
    · simpa [segmentCondition, h] using (harg inner hi).1
  have hargument : ∀ a, (segmentCondition run argument).argument = some a →
      (segmentCondition run argument).name ≠ "" ∧ a ≠ "" ∧ ∀ x ∈ a.toList, isParen x = false := by
    intro a ha
    obtain ⟨inner, hi, rfl⟩ := Option.map_eq_some_iff.mp ha
    exact ⟨hname inner hi, by simpa using (harg inner hi).2.1,
      by simpa using (harg inner hi).2.2⟩
  by_cases h : String.ofList (trimChars run) = "immediate"
  · -- the old spelling becomes `eager`, which is as clean as any name
    have he : (segmentCondition run argument).name = "eager" := by simp [segmentCondition, h]
    have htrimmed : Trimmed "eager".toList := by
      refine ⟨fun c hc => ?_, fun c hc => ?_⟩
      · obtain rfl : 'e' = c := Option.some.inj hc
        rfl
      · obtain rfl : 'r' = c := Option.some.inj hc
        rfl
    rw [← he] at htrimmed
    refine ⟨htrimmed, ?_, ?_, hargument⟩
    · rw [he]
      simp [isSpecial]
    · rw [he]
      decide
  · have he : (segmentCondition run argument).name = String.ofList (trimChars run) := by
      simp [segmentCondition, h]
    refine ⟨?_, ?_, by rw [he]; exact h, hargument⟩
    · rw [he, String.toList_ofList]
      exact trimmed_trimChars run
    · intro x hx
      rw [he, String.toList_ofList] at hx
      exact hrun x (mem_of_mem_trimChars hx)

theorem isSpecial_of_isBlank {c : Char} (h : isBlank c = true) : isSpecial c = false := by
  by_contra hs
  simp only [isSpecial, Bool.not_eq_false, Bool.or_eq_true, beq_iff_eq] at hs
  rcases hs with ((rfl | rfl) | rfl) | rfl <;> revert h <;> decide

theorem trimChars_ne_nil {c : Char} {cs : List Char} (h : isBlank c = false) :
    trimChars (c :: cs) ≠ [] := by
  rw [trimChars, List.dropWhile_cons_of_neg (by simp [h]), ne_eq, List.reverse_eq_nil_iff]
  intro hnil
  have hall := List.dropWhile_eq_nil_iff.mp hnil c (by simp)
  rw [h] at hall
  cases hall

/-- The condition of a first piece is clean. -/
theorem clean_of_firstPiece {cs : List Char} {c : Condition}
    (h : (firstPiece cs).1.token = some (.condition c)) : c.Clean := by
  have hnameless : (segmentCondition (cs.takeWhile isBlank) none).Clean :=
    clean_segmentCondition (fun x hx => isSpecial_of_isBlank (List.mem_takeWhile_imp hx))
      (by simp)
  have hnonblank := head?_dropWhile_isBlank cs
  unfold firstPiece at h
  simp only at h
  split at h
  all_goals try (simp [piece] at h; done)
  · simp only [Option.some.injEq, Token.condition.injEq] at h
    exact h ▸ hnameless
  · split at h
    · cases h
    · simp only [Option.some.injEq, Token.condition.injEq] at h
      exact h ▸ hnameless
  · -- the run begins with a character that is neither blank nor special, so its name is not empty
    next d r _ _ _ _ _ _ heq =>
    have hd : isBlank d = false := hnonblank d (by rw [heq]; rfl)
    have hrun : ∀ x ∈ (d :: r).takeWhile (!isSpecial ·), isSpecial x = false :=
      fun x hx => by simpa using List.mem_takeWhile_imp hx
    split at h
    · next inner after ha =>
      simp only [piece, Option.some.injEq, Token.condition.injEq] at h
      subst h
      refine clean_segmentCondition hrun fun inner' hi => ?_
      obtain rfl := Option.some.inj hi
      refine ⟨?_, argument?_spec ha⟩
      have hspecial : isSpecial d = false := by simp_all [isSpecial]
      rw [List.takeWhile_cons_of_pos (by simp [hspecial])]
      exact trimChars_ne_nil hd
    · simp only [Option.some.injEq, Token.condition.injEq] at h
      subst h
      exact clean_segmentCondition hrun (by simp)

/-- Every condition of a scan is clean. -/
theorem clean_of_mem_scan {s : String} {c : Condition} (h : .condition c ∈ scan s) : c.Clean := by
  rw [scan] at h
  generalize s.toList = cs at h
  fun_induction cut cs with
  | case1 => simp at h
  | case2 x cs ih =>
    obtain ⟨p, hp, hc⟩ := List.mem_filterMap.mp h
    rcases List.mem_cons.mp hp with rfl | hp
    · exact clean_of_firstPiece hc
    · exact ih (List.mem_filterMap.mpr ⟨p, hp, hc⟩)

/-! ## Lexemes -/

/-- A part of a laid-out text: the written form of a token, or one blank. -/
inductive Lexeme where
  | token (t : Token)
  | blank (c : Char)

namespace Lexeme

/-- The characters of a lexeme. -/
def chars : Lexeme → List Char
  | token t => t.chars
  | blank c => [c]

/-- The token of a lexeme. -/
def token? : Lexeme → Option Token
  | token t => some t
  | blank _ => none

/-- A blank is blank, and a condition is clean and has a name. -/
def Legible : Lexeme → Prop
  | token (.condition c) => c.Clean ∧ c.name ≠ ""
  | token _ => True
  | blank c => isBlank c = true

end Lexeme

/-- The text of a layout. -/
def layout (ls : List Lexeme) : List Char :=
  ls.flatMap Lexeme.chars

/-- **Whether two tokens stay apart** when they are written one after the other.  A condition
without argument would take in the letters of a condition and the group of an
opening parenthesis. -/
def Apart : Token → Token → Prop
  | .condition ⟨_, none⟩, .condition _ => False
  | .condition ⟨_, none⟩, .paren .opening => False
  | _, _ => True

/-- What follows a name ends its run: nothing, or a special character that opens no group. -/
def EndsRun (cs : List Char) : Prop :=
  ∀ c ∈ (cs.dropWhile isBlank).head?, isSpecial c = true ∧ c ≠ '('

/-- The text behind a token leaves the token as it is. -/
def EndedBy (t : Token) (cs : List Char) : Prop :=
  ∀ name, t = .condition ⟨name, none⟩ → EndsRun cs

theorem name_toList_eq_cons {c : Condition} (h : c.Clean) (hn : c.name ≠ "") :
    ∃ x xs, c.name.toList = x :: xs ∧ isBlank x = false ∧ isSpecial x = false := by
  cases hl : c.name.toList with
  | nil => exact absurd (String.toList_eq_nil_iff.mp hl) hn
  | cons x xs =>
    exact ⟨x, xs, rfl, h.trimmed.1 x (by simp [hl]), h.plain x (by simp [hl])⟩

/-- A written token is not empty and begins with a character that is not blank. -/
theorem chars_eq_cons {t : Token} (h : (Lexeme.token t).Legible) :
    ∃ x xs, t.chars = x :: xs ∧ isBlank x = false := by
  match t, h with
  | .paren .opening, _ => exact ⟨_, _, rfl, by decide⟩
  | .paren .closing, _ => exact ⟨_, _, rfl, by decide⟩
  | .operator .and, _ => exact ⟨_, _, rfl, by decide⟩
  | .operator .or, _ => exact ⟨_, _, rfl, by decide⟩
  | .condition c, h =>
    obtain ⟨x, xs, hx, hb, -⟩ := name_toList_eq_cons h.1 h.2
    rcases ha : c.argument with _ | a
    · exact ⟨x, xs, by simp [Token.chars, Condition.chars, ha, hx], hb⟩
    · exact ⟨x, xs ++ '(' :: (a.toList ++ [')']),
        by simp [Token.chars, Condition.chars, ha, hx], hb⟩

/-- The condition that a clean run stands for. -/
theorem segmentCondition_clean {c : Condition} (h : c.Clean) (blanks : List Char)
    (hb : ∀ x ∈ blanks, isBlank x = true) :
    segmentCondition (c.name.toList ++ blanks) (c.argument.map String.toList) = c := by
  have htrim := trimChars_append_blanks h.trimmed hb
  have hname : String.ofList (trimChars (c.name.toList ++ blanks)) = c.name := by
    rw [htrim, String.ofList_toList]
  obtain ⟨name, argument⟩ := c
  simp only [segmentCondition, hname, if_neg h.current]
  cases argument <;> simp

theorem firstPiece_paren_operator {t : Token} (ht : ∀ c, t ≠ .condition c) {blanks rest : List Char}
    (hb : ∀ x ∈ blanks, isBlank x = true) :
    (firstPiece (blanks ++ (t.chars ++ rest))).1.token = some t ∧
      (firstPiece (blanks ++ (t.chars ++ rest))).2 = rest.dropWhile isBlank := by
  have hl : (Lexeme.token t).Legible := by
    cases t with
    | condition c => exact absurd rfl (ht c)
    | _ => trivial
  obtain ⟨x, xs, hx, hxb⟩ := chars_eq_cons hl
  have hdrop : (blanks ++ (t.chars ++ rest)).dropWhile isBlank = t.chars ++ rest :=
    dropWhile_append_stop hb (by simp [hx, hxb])
  unfold firstPiece
  rw [hdrop]
  match t, ht with
  | .paren .opening, _ => exact ⟨rfl, rfl⟩
  | .paren .closing, _ => exact ⟨rfl, rfl⟩
  | .operator .and, _ => exact ⟨rfl, rfl⟩
  | .operator .or, _ => exact ⟨rfl, rfl⟩
  | .condition c, ht => exact absurd rfl (ht c)

theorem argument?_group {a : String} (hne : a ≠ "") (ha : ∀ x ∈ a.toList, isParen x = false)
    (rest : List Char) :
    argument? ('(' :: (a.toList ++ ')' :: rest)) = some (a.toList, rest) := by
  have hstop : ∀ x ∈ (')' :: rest).head?, (!isParen x) = false := by simp [isParen]
  have hall : ∀ x ∈ a.toList, (!isParen x) = true := fun x hx => by simp [ha x hx]
  have htake := takeWhile_append_stop hall hstop
  have hdrop := dropWhile_append_stop hall hstop
  obtain ⟨y, ys, hy⟩ : ∃ y ys, a.toList = y :: ys := by
    cases hl : a.toList with
    | nil => exact absurd (String.toList_eq_nil_iff.mp hl) hne
    | cons y ys => exact ⟨y, ys, rfl⟩
  simp only [argument?]
  rw [htake, hdrop, hy]
  rfl

/-- The first piece of a text that begins with a name. -/
theorem firstPiece_name {x : Char} {xs blanks : List Char} (hb : ∀ c ∈ blanks, isBlank c = true)
    (hxb : isBlank x = false) (hxs : isSpecial x = false) :
    firstPiece (blanks ++ x :: xs) =
      match argument? ((x :: xs).dropWhile (!isSpecial ·)) with
      | some (inner, after) =>
        piece (blanks ++ (x :: xs).takeWhile (!isSpecial ·) ++ '(' :: (inner ++ [')'])) after
          (.condition (segmentCondition ((x :: xs).takeWhile (!isSpecial ·)) (some inner)))
      | none =>
        (⟨blanks ++ (x :: xs).takeWhile (!isSpecial ·),
          some (.condition (segmentCondition ((x :: xs).takeWhile (!isSpecial ·)) none))⟩,
          (x :: xs).dropWhile (!isSpecial ·)) := by
  have htake : (blanks ++ x :: xs).takeWhile isBlank = blanks :=
    takeWhile_append_stop hb (by simp [hxb])
  have hdrop : (blanks ++ x :: xs).dropWhile isBlank = x :: xs :=
    dropWhile_append_stop hb (by simp [hxb])
  unfold firstPiece
  rw [htake, hdrop]
  simp only [isSpecial, Bool.or_eq_false_iff, beq_eq_false_iff_ne, ne_eq] at hxs
  split
  all_goals try (exfalso; simp_all; done)
  next heq =>
    obtain ⟨rfl, rfl⟩ := List.cons.inj heq
    rfl

theorem firstPiece_argument {c : Condition} {a : String} (hc : c.Clean) (hn : c.name ≠ "")
    (ha : c.argument = some a) {blanks rest : List Char} (hb : ∀ x ∈ blanks, isBlank x = true) :
    (firstPiece (blanks ++ ((Token.condition c).chars ++ rest))).1.token = some (.condition c) ∧
      (firstPiece (blanks ++ ((Token.condition c).chars ++ rest))).2 =
        rest.dropWhile isBlank := by
  obtain ⟨x, xs, hx, hxb, hxs⟩ := name_toList_eq_cons hc hn
  obtain ⟨-, hane, hap⟩ := hc.argument a ha
  have hplain : ∀ y ∈ c.name.toList, (!isSpecial y) = true :=
    fun y hy => by simp [hc.plain y hy]
  have hchars : (Token.condition c).chars ++ rest =
      c.name.toList ++ '(' :: (a.toList ++ ')' :: rest) := by
    simp [Token.chars, Condition.chars, ha]
  -- the run is the name, cut at the parenthesis of the argument
  have hstop : ∀ y ∈ ('(' :: (a.toList ++ ')' :: rest)).head?, (!isSpecial y) = false := by
    simp [isSpecial]
  have htake := takeWhile_append_stop hplain hstop
  have hdrop := dropWhile_append_stop hplain hstop
  have hcond := segmentCondition_clean hc [] (by simp)
  rw [List.append_nil, ha, Option.map_some] at hcond
  rw [hchars]
  rw [hx, List.cons_append] at htake hdrop ⊢
  rw [firstPiece_name hb hxb hxs, htake, hdrop, argument?_group hane hap]
  rw [hx] at hcond
  simp [piece, hcond]

theorem firstPiece_bare {c : Condition} (hc : c.Clean) (hn : c.name ≠ "")
    (ha : c.argument = none) {blanks rest : List Char} (hb : ∀ x ∈ blanks, isBlank x = true)
    (hends : EndsRun rest) :
    (firstPiece (blanks ++ ((Token.condition c).chars ++ rest))).1.token = some (.condition c) ∧
      (firstPiece (blanks ++ ((Token.condition c).chars ++ rest))).2 =
        rest.dropWhile isBlank := by
  obtain ⟨x, xs, hx, hxb, hxs⟩ := name_toList_eq_cons hc hn
  have hrest := List.takeWhile_append_dropWhile (p := isBlank) (l := rest)
  -- the blanks behind the name belong to its run
  have hchars : (Token.condition c).chars ++ rest =
      (c.name.toList ++ rest.takeWhile isBlank) ++ rest.dropWhile isBlank := by
    simp [Token.chars, Condition.chars, ha]
  have hrun : ∀ y ∈ c.name.toList ++ rest.takeWhile isBlank, (!isSpecial y) = true := by
    intro y hy
    rcases List.mem_append.mp hy with hy | hy
    · simp [hc.plain y hy]
    · simp [isSpecial_of_isBlank (List.mem_takeWhile_imp hy)]
  have hstop : ∀ y ∈ (rest.dropWhile isBlank).head?, (!isSpecial y) = false :=
    fun y hy => by simp [(hends y hy).1]
  have htake := takeWhile_append_stop hrun hstop
  have hdrop := dropWhile_append_stop hrun hstop
  have hnone : argument? (rest.dropWhile isBlank) = none := by
    unfold argument?
    split
    · next r hr => exact absurd rfl (hends '(' (by rw [hr]; rfl)).2
    · rfl
  have hcond := segmentCondition_clean hc (rest.takeWhile isBlank)
    (fun y hy => List.mem_takeWhile_imp hy)
  rw [ha, Option.map_none] at hcond
  rw [hchars]
  rw [hx, List.cons_append, List.cons_append] at htake hdrop ⊢
  rw [firstPiece_name hb hxb hxs, htake, hdrop, hnone]
  rw [hx, List.cons_append] at hcond
  simp [hcond]

/-- **The first piece of a written token** is the token with the blanks around it. -/
theorem firstPiece_chars {t : Token} (h : (Lexeme.token t).Legible) (blanks : List Char)
    {rest : List Char} (hb : ∀ x ∈ blanks, isBlank x = true) (he : t.EndedBy rest) :
    (firstPiece (blanks ++ (t.chars ++ rest))).1.token = some t ∧
      (firstPiece (blanks ++ (t.chars ++ rest))).2 = rest.dropWhile isBlank := by
  cases t with
  | paren side => exact firstPiece_paren_operator (by simp) hb
  | operator op => exact firstPiece_paren_operator (by simp) hb
  | condition c =>
    cases ha : c.argument with
    | some a => exact firstPiece_argument h.1 h.2 ha hb
    | none =>
      have hends : EndsRun rest := he c.name (by cases c; simp_all)
      exact firstPiece_bare h.1 h.2 ha hb hends

/-! ## Scanning a layout -/

section Layout

variable {ls : List Lexeme}

theorem dropWhile_isBlank_chars {t : Token} (h : (Lexeme.token t).Legible) (rest : List Char) :
    (t.chars ++ rest).dropWhile isBlank = t.chars ++ rest := by
  obtain ⟨x, xs, hx, hxb⟩ := chars_eq_cons h
  rw [hx, List.cons_append, List.dropWhile_cons_of_neg (by simp [hxb])]

/-- A token that stays apart from the next one of a layout is ended by the layout. -/
theorem endedBy_layout {t : Token} (hl : ∀ l ∈ ls, l.Legible)
    (hc : (t :: ls.filterMap Lexeme.token?).IsChain Apart) : t.EndedBy (layout ls) := by
  rintro name rfl
  induction ls with
  | nil => intro x hx; cases hx
  | cons l ls ih =>
    have hl' : ∀ l ∈ ls, l.Legible := fun l h => hl l (List.mem_cons_of_mem _ h)
    have hlayout : layout (l :: ls) = l.chars ++ layout ls := rfl
    have hlegible := hl l List.mem_cons_self
    cases l with
    | blank c =>
      have hb : isBlank c = true := hlegible
      have hi := ih hl' hc
      rw [hlayout, EndsRun, Lexeme.chars, List.singleton_append,
        List.dropWhile_cons_of_pos (by simpa using hb)]
      exact hi
    | token t =>
      -- a token that may follow is an operator or a closing parenthesis
      have hapart : Apart (.condition ⟨name, none⟩) t := (List.isChain_cons_cons.mp hc).1
      rw [hlayout, EndsRun, Lexeme.chars, dropWhile_isBlank_chars hlegible]
      match t, hapart with
      | .paren .closing, _ => intro x hx; cases hx; exact ⟨by decide, by decide⟩
      | .operator .and, _ => intro x hx; cases hx; exact ⟨by decide, by decide⟩
      | .operator .or, _ => intro x hx; cases hx; exact ⟨by decide, by decide⟩

theorem cut_of_ne_nil {cs : List Char} (h : cs ≠ []) :
    cut cs = (firstPiece cs).1 :: cut (firstPiece cs).2 := by
  cases cs with
  | nil => exact absurd rfl h
  | cons c cs => rw [cut]

/-- A layout without the blanks before its first token is cut into its tokens. -/
theorem cut_layout (hl : ∀ l ∈ ls, l.Legible)
    (hc : (ls.filterMap Lexeme.token?).IsChain Apart) :
    (cut ((layout ls).dropWhile isBlank)).filterMap Piece.token =
      ls.filterMap Lexeme.token? := by
  induction ls with
  | nil => simp [layout, cut]
  | cons l ls ih =>
    have hl' : ∀ l ∈ ls, l.Legible := fun l h => hl l (List.mem_cons_of_mem _ h)
    have hlayout : layout (l :: ls) = l.chars ++ layout ls := rfl
    have hlegible := hl l List.mem_cons_self
    cases l with
    | blank c =>
      have hb : isBlank c = true := hlegible
      rw [hlayout, Lexeme.chars, List.singleton_append,
        List.dropWhile_cons_of_pos (by simpa using hb)]
      exact ih hl' hc
    | token t =>
      rw [hlayout, Lexeme.chars, dropWhile_isBlank_chars hlegible]
      have hne : t.chars ++ layout ls ≠ [] := by
        obtain ⟨x, xs, hx, -⟩ := chars_eq_cons hlegible
        simp [hx]
      obtain ⟨htoken, hrest⟩ := firstPiece_chars hlegible [] (by simp)
        (endedBy_layout hl' hc)
      rw [List.nil_append] at htoken hrest
      have hc' : (ls.filterMap Lexeme.token?).IsChain Apart := (List.isChain_cons.mp hc).2
      rw [cut_of_ne_nil hne, List.filterMap_cons, htoken, hrest, ih hl' hc']
      rfl

/-- Blanks before the first token are lost. -/
theorem cut_blanks_layout (blanks : List Char) (hb : ∀ x ∈ blanks, isBlank x = true)
    (hl : ∀ l ∈ ls, l.Legible) (hc : (ls.filterMap Lexeme.token?).IsChain Apart)
    (hne : ls.filterMap Lexeme.token? ≠ []) :
    (cut (blanks ++ layout ls)).filterMap Piece.token = ls.filterMap Lexeme.token? := by
  induction ls generalizing blanks with
  | nil => exact absurd rfl hne
  | cons l ls ih =>
    have hl' : ∀ l ∈ ls, l.Legible := fun l h => hl l (List.mem_cons_of_mem _ h)
    have hlegible := hl l List.mem_cons_self
    cases l with
    | blank c =>
      -- the blank joins those before it, and the scan still has its first piece to come
      have hbc : ∀ x ∈ blanks ++ [c], isBlank x = true := by
        intro x hx
        rcases List.mem_append.mp hx with hx | hx
        · exact hb x hx
        · rw [List.mem_singleton.mp hx]; exact hlegible
      have hi := ih (blanks ++ [c]) hbc hl' hc hne
      rw [List.append_assoc] at hi
      exact hi
    | token t =>
      have hlayout : layout (.token t :: ls) = t.chars ++ layout ls := rfl
      have hcs : blanks ++ layout (.token t :: ls) ≠ [] := by
        obtain ⟨x, xs, hx, -⟩ := chars_eq_cons hlegible
        simp [hlayout, hx]
      have hc' : (ls.filterMap Lexeme.token?).IsChain Apart := (List.isChain_cons.mp hc).2
      obtain ⟨htoken, hrest⟩ := firstPiece_chars hlegible blanks hb (endedBy_layout hl' hc)
      rw [← hlayout] at htoken hrest
      rw [cut_of_ne_nil hcs, List.filterMap_cons, htoken, hrest, cut_layout hl' hc']
      rfl

/-- **Scanning a layout gives its tokens.**  Blanks around tokens do not matter, and
writing tokens loses nothing. -/
theorem scan_layout (hl : ∀ l ∈ ls, l.Legible)
    (hc : (ls.filterMap Lexeme.token?).IsChain Apart)
    (hne : ls.filterMap Lexeme.token? ≠ []) :
    scan (String.ofList (layout ls)) = ls.filterMap Lexeme.token? := by
  rw [scan, String.toList_ofList]
  exact cut_blanks_layout [] (by simp) hl hc hne

/-- A layout without a token is blank. -/
theorem isBlankText_layout (hl : ∀ l ∈ ls, l.Legible) (hnil : ls.filterMap Lexeme.token? = []) :
    isBlankText (String.ofList (layout ls)) = true := by
  rw [isBlankText, String.toList_ofList]
  refine List.all_eq_true.mpr fun c hc => ?_
  obtain ⟨l, hmem, hcl⟩ := List.mem_flatMap.mp hc
  cases l with
  | token t => cases List.filterMap_eq_nil_iff.mp hnil _ hmem
  | blank b =>
    obtain rfl := List.mem_singleton.mp hcl
    exact hl _ hmem

/-- A layout with a token is not blank. -/
theorem not_isBlankText_layout (hl : ∀ l ∈ ls, l.Legible)
    (hne : ls.filterMap Lexeme.token? ≠ []) :
    isBlankText (String.ofList (layout ls)) = false := by
  obtain ⟨t, ht⟩ := List.exists_mem_of_ne_nil _ hne
  obtain ⟨l, hmem, hlt⟩ := List.mem_filterMap.mp ht
  cases l with
  | blank c => cases hlt
  | token t' =>
    obtain ⟨x, xs, hx, hxb⟩ := chars_eq_cons (hl _ hmem)
    have hin : x ∈ layout ls :=
      List.mem_flatMap.mpr ⟨_, hmem, by simp [Lexeme.chars, hx]⟩
    rw [isBlankText, String.toList_ofList]
    exact List.all_eq_false.mpr ⟨x, hin, by simp [hxb]⟩

end Layout

end Token
end Hydration
