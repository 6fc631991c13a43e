import Hydration.Proofs.Requirement.Counter
import Hydration.Proofs.Requirement.Meaning
import Hydration.Proofs.Requirement.Pieces

/-!
# Conditions without a name

Blanks belong to the token they stand beside, so as a rule they leave no trace.  The exception are
blanks that stand for themselves, a `Gap`: they are cut out as a condition whose name is empty.
This happens only next to a `&` that means nothing or at the ends of the text (`gap_borders`),
because whatever else is cut takes in the blanks behind it (`firstPiece_cases`).

Whether a gap gets into a requirement depends on where it stands.  Behind tokens that *lack* a
condition (`Lacking`) it is taken for the condition; everywhere else the reading has ended before.
So a requirement has a condition without a name exactly if some gap stands where a condition is
needed, and where nothing but single `&` stand there, the missing condition is reported
(`nameless_iff_gap`).
-/

namespace Hydration

open Text

namespace Token

/-! ## Gaps between pieces -/

/-- A piece that is nothing but blanks. -/
def Piece.Gap (p : Piece) : Prop :=
  ∀ x ∈ p.text, isBlank x = true

/-- A `&` that means nothing. -/
abbrev Piece.skip : Piece := ⟨['&'], none⟩

theorem segmentCondition_blanks {blanks : List Char} (h : ∀ x ∈ blanks, isBlank x = true) :
    segmentCondition blanks none = ⟨"", none⟩ := by
  have hdrop : blanks.dropWhile isBlank = [] := List.dropWhile_eq_nil_iff.mpr h
  simp [segmentCondition, trimChars, hdrop]

theorem name_segmentCondition_ne {x : Char} {run : List Char} (argument : Option (List Char))
    (h : isBlank x = false) : (segmentCondition (x :: run) argument).name ≠ "" := by
  have hne : trimChars (x :: run) ≠ [] := trimChars_ne_nil h
  by_cases hold : String.ofList (trimChars (x :: run)) = "immediate"
  · simp [segmentCondition, hold]
  · simpa [segmentCondition, hold] using hne

/-- A piece that is neither skipped nor a gap: no condition without a name, something that is not
blank is in it, and no blank is behind it. -/
structure Piece.Solid (p : Piece) (rest : List Char) : Prop where
  token : ∃ t, p.token = some t ∧ ∀ c, t = .condition c → c.name ≠ ""
  written : ∃ x ∈ p.text, isBlank x = false
  stop : ∀ x ∈ rest.head?, isBlank x = false

theorem Piece.Solid.not_gap {p : Piece} {rest : List Char} (h : p.Solid rest) : ¬ p.Gap := by
  intro hgap
  obtain ⟨x, hx, hnot⟩ := h.written
  rw [hgap x hx] at hnot
  cases hnot

theorem Piece.not_gap_skip : ¬ Piece.skip.Gap := fun h =>
  absurd (h '&' List.mem_cons_self) (by decide)

theorem solid_piece {read r : List Char} {t : Token} (ht : ∀ c, t = .condition c → c.name ≠ "")
    (hread : ∃ x ∈ read, isBlank x = false) : (piece read r t).1.Solid (piece read r t).2 where
  token := ⟨t, rfl, ht⟩
  written := by
    obtain ⟨x, hx, hnot⟩ := hread
    exact ⟨x, List.mem_append_left _ hx, hnot⟩
  stop := head?_dropWhile_isBlank r

/-- The piece that is cut out of blanks. -/
abbrev Piece.nameless (blanks : List Char) : Piece := ⟨blanks, some (.condition ⟨"", none⟩)⟩

/-- **What the first piece of a text is**: a `&` that is skipped, a gap in front of one or at the
end of the text, or a piece with no blanks behind it. -/
theorem firstPiece_cases (cs : List Char) :
    (firstPiece cs).1 = .skip ∨
    (∃ blanks, (firstPiece cs).1 = .nameless blanks ∧ (Piece.nameless blanks).Gap ∧
      ((firstPiece cs).2 = [] ∨ ∃ r, (firstPiece cs).2 = '&' :: r ∧ r.head? ≠ some '&')) ∨
    (firstPiece cs).1.Solid (firstPiece cs).2 := by
  have hblanks : ∀ x ∈ cs.takeWhile isBlank, isBlank x = true := fun x hx =>
    List.mem_takeWhile_imp hx
  have hnonblank := head?_dropWhile_isBlank cs
  unfold firstPiece
  simp only
  rw [segmentCondition_blanks hblanks]
  split
  · exact .inr (.inl ⟨_, rfl, hblanks, .inl rfl⟩)
  · exact .inr (.inr (solid_piece nofun ⟨'(', by simp, by decide⟩))
  · exact .inr (.inr (solid_piece nofun ⟨')', by simp, by decide⟩))
  · exact .inr (.inr (solid_piece nofun ⟨'|', by simp, by decide⟩))
  · exact .inr (.inr (solid_piece nofun ⟨'|', by simp, by decide⟩))
  · exact .inr (.inr (solid_piece nofun ⟨'&', by simp, by decide⟩))
  · next r hsecond _ =>
    split
    · exact .inl rfl
    · refine .inr (.inl ⟨_, rfl, hblanks, .inr ⟨r, rfl, fun hr => ?_⟩⟩)
      cases r with
      | nil => cases hr
      | cons c r =>
        obtain rfl := Option.some.inj hr
        exact hsecond _ rfl
  · next d r _ _ _ _ _ _ heq =>
    have hd : isBlank d = false := hnonblank d (by rw [heq]; rfl)
    have hspecial : isSpecial d = false := by simp_all [isSpecial]
    rw [List.takeWhile_cons_of_pos (by simp [hspecial])]
    refine .inr (.inr ?_)
    split
    · refine solid_piece ?_ ⟨d, by simp, hd⟩
      rintro c ⟨⟩
      exact name_segmentCondition_ne _ hd
    · refine ⟨⟨_, rfl, ?_⟩, ⟨d, by simp, hd⟩, ?_⟩
      · rintro c ⟨⟩
        exact name_segmentCondition_ne _ hd
      · -- The run ends at a special character, and no blank is special.
        intro x hx
        have hstop := List.head?_dropWhile_not (!isSpecial ·) (d :: r)
        rw [Option.mem_def.mp hx] at hstop
        by_contra hblank
        have hplain := isSpecial_of_isBlank (by simpa using hblank)
        simp [hplain] at hstop

theorem cut_eq_cons {cs : List Char} {p : Piece} {ps : List Piece} (h : cut cs = p :: ps) :
    cs ≠ [] ∧ (firstPiece cs).1 = p ∧ cut (firstPiece cs).2 = ps := by
  cases cs with
  | nil => rw [cut] at h; cases h
  | cons c cs =>
    rw [cut] at h
    exact ⟨List.cons_ne_nil c cs, List.cons.inj h⟩

/-- Behind its first pieces a text is cut as if it began there. -/
theorem cut_suffix {cs : List Char} {before after : List Piece} (h : cut cs = before ++ after) :
    ∃ rest, cut rest = after := by
  induction before generalizing cs with
  | nil => exact ⟨cs, h⟩
  | cons p before ih => exact ih (cut_eq_cons h).2.2

theorem firstPiece_skip {r : List Char} (h : r.head? ≠ some '&') :
    firstPiece ('&' :: r) = (.skip, r) := by
  unfold firstPiece
  have hblank : isBlank '&' = false := by decide
  rw [List.takeWhile_cons_of_neg (by simp [hblank]), List.dropWhile_cons_of_neg (by simp [hblank])]
  cases r with
  | nil => rfl
  | cons c r =>
    have hc : c ≠ '&' := fun hc => h (by rw [hc]; rfl)
    simp [hc]

/-- No piece is empty. -/
theorem exists_firstPiece_text {cs : List Char} (h : cs ≠ []) :
    ∃ x xs, (firstPiece cs).1.text = x :: xs ∧ cs.head? = some x := by
  obtain ⟨c, cs, rfl⟩ := List.exists_cons_of_ne_nil h
  have htext := text_firstPiece (c :: cs)
  cases hp : (firstPiece (c :: cs)).1.text with
  | nil =>
    have hlt : (firstPiece (c :: cs)).2.length < (c :: cs).length := length_firstPiece_lt
    rw [hp, List.nil_append] at htext
    rw [htext] at hlt
    exact absurd hlt (Nat.lt_irrefl _)
  | cons x xs =>
    rw [hp] at htext
    obtain ⟨rfl, -⟩ := List.cons.inj htext
    exact ⟨x, xs, rfl, rfl⟩

variable {cs : List Char} {before after : List Piece} {gap p : Piece}

theorem gap_behind (h : cut cs = gap :: after) (hgap : gap.Gap) :
    after = [] ∨ after.head? = some .skip := by
  obtain ⟨-, rfl, hafter⟩ := cut_eq_cons h
  rcases firstPiece_cases cs with hskip | ⟨-, -, -, hend | ⟨r, hr, hsingle⟩⟩ | hsolid
  · rw [hskip] at hgap
    exact absurd hgap Piece.not_gap_skip
  · rw [hend, cut] at hafter
    exact .inl hafter.symm
  · rw [hr, cut, firstPiece_skip hsingle] at hafter
    exact .inr (by rw [← hafter]; rfl)
  · exact absurd hgap hsolid.not_gap

theorem gap_before (h : cut cs = p :: gap :: after) (hgap : gap.Gap) : p = .skip := by
  obtain ⟨-, rfl, hrest⟩ := cut_eq_cons h
  obtain ⟨hne, hfirst, -⟩ := cut_eq_cons hrest
  obtain ⟨x, xs, htext, hhead⟩ := exists_firstPiece_text hne
  rw [hfirst] at htext
  have hx : isBlank x = true := hgap x (by rw [htext]; exact List.mem_cons_self)
  rcases firstPiece_cases cs with hskip | ⟨-, -, -, hend | ⟨r, hr, -⟩⟩ | hsolid
  · exact hskip
  · exact absurd hend hne
  · -- a gap in front of a gap would end at a `&`, with which no gap begins
    rw [hr] at hhead
    obtain rfl := Option.some.inj hhead
    exact absurd hx (by decide)
  · rw [hsolid.stop x hhead] at hx
    cases hx

/-- **Where gaps are**: between the ends of the text and `&` that mean nothing. -/
theorem gap_borders (h : cut cs = before ++ gap :: after) (hgap : gap.Gap) :
    (before = [] ∨ before.getLast? = some .skip) ∧ (after = [] ∨ after.head? = some .skip) := by
  constructor
  · rcases List.eq_nil_or_concat before with rfl | ⟨front, p, rfl⟩
    · exact .inl rfl
    · rw [List.concat_eq_append, List.append_assoc] at h
      obtain ⟨rest, hrest⟩ := cut_suffix h
      rw [gap_before hrest hgap]
      exact .inr (by simp)
  · obtain ⟨rest, hrest⟩ := cut_suffix h
    exact gap_behind hrest hgap

/-- **The gaps are the conditions without a name.** -/
theorem gap_iff_nameless (hp : p ∈ cut cs) :
    p.Gap ↔ ∃ c, p.token = some (.condition c) ∧ c.Nameless := by
  obtain ⟨before, after, h⟩ := List.append_of_mem hp
  obtain ⟨rest, hrest⟩ := cut_suffix h
  obtain ⟨-, rfl, -⟩ := cut_eq_cons hrest
  rcases firstPiece_cases rest with hskip | ⟨blanks, hnameless, hgap, -⟩ | hsolid
  · rw [hskip]
    exact iff_of_false Piece.not_gap_skip nofun
  · rw [hnameless]
    exact iff_of_true hgap ⟨_, rfl, rfl⟩
  · refine iff_of_false hsolid.not_gap ?_
    rintro ⟨c, hc, hnameless⟩
    obtain ⟨t, ht, hnamed⟩ := hsolid.token
    exact hnamed c (Option.some.inj (ht.symm.trans hc)) hnameless

/-- The tokens of some pieces. -/
def ofPieces (ps : List Piece) : List Token :=
  ps.filterMap Piece.token

theorem scan_eq (s : String) : scan s = ofPieces (cut s.toList) := rfl

theorem ofPieces_append (ps qs : List Piece) : ofPieces (ps ++ qs) = ofPieces ps ++ ofPieces qs :=
  List.filterMap_append

theorem ofPieces_cons {t : Token} (ps : List Piece) (h : p.token = some t) :
    ofPieces (p :: ps) = t :: ofPieces ps :=
  List.filterMap_cons_some h

theorem ofPieces_skip {ps : List Piece} (h : ∀ p ∈ ps, p = .skip) : ofPieces ps = [] :=
  List.filterMap_eq_nil_iff.mpr fun p hp => by rw [h p hp]

theorem mem_conditions {c : Condition} {ts : List Token} :
    c ∈ conditions ts ↔ .condition c ∈ ts := by
  rw [conditions, List.mem_filterMap]
  constructor
  · rintro ⟨t, ht, hc⟩
    cases t with
    | condition c' => exact Option.some.inj hc ▸ ht
    | paren side => cases hc
    | operator op => cases hc
  · exact fun h => ⟨_, h, rfl⟩

/-- A token of the text with the pieces before and behind it. -/
theorem exists_pieces {ps : List Piece} {front back : List Token} {t : Token}
    (h : ofPieces ps = front ++ t :: back) :
    ∃ before p after, ps = before ++ p :: after ∧ ofPieces before = front ∧ p.token = some t := by
  obtain ⟨before, rest, rfl, hfront, hrest⟩ := List.filterMap_eq_append_iff.mp h
  obtain ⟨skipped, p, after, rfl, hskipped, hp, -⟩ := List.filterMap_eq_cons_iff.mp hrest
  refine ⟨before ++ skipped, p, after, by simp, ?_, hp⟩
  have hnone : ofPieces skipped = [] := List.filterMap_eq_nil_iff.mpr hskipped
  rw [ofPieces_append, hnone, List.append_nil]
  exact hfront

theorem cut_blanks (hne : cs ≠ []) (h : ∀ x ∈ cs, isBlank x = true) :
    cut cs = [.nameless cs] := by
  have hfirst : firstPiece cs = (.nameless cs, []) := by
    unfold firstPiece
    simp only
    rw [List.dropWhile_eq_nil_iff.mpr h, List.takeWhile_eq_self_iff.mpr h,
      segmentCondition_blanks h]
  obtain ⟨c, cs, rfl⟩ := List.exists_cons_of_ne_nil hne
  rw [cut, hfirst, cut]

end Token

namespace Requirement

open Text
open Token (Piece cut ofPieces)

/-! ## Where a condition is needed -/

/-- **Tokens that lack a condition**: if nothing came behind them, the end of the tokens would be
reported as the place where a condition is missing. -/
def Lacking (front : List Token) : Prop :=
  ofTokens front = .error (.unexpectedEnd front.length)

namespace Counter

variable {m : Counter} {i k n : Nat} {front rest : List Token}

theorem scan_goOn {next : Counter} {token : Token} (h : m.move i (some token) = .goOn next) :
    m.scan i (token :: rest) = next.scan (i + 1) rest := by
  rw [scan, h]

theorem scan_condition (depth : Nat) (c : Condition) :
    scan ⟨depth, true⟩ i (.condition c :: rest) = scan ⟨depth, false⟩ (i + 1) rest := rfl

theorem scan_ge (h : m.scan i rest = .ok n) : i ≤ n := by
  induction rest generalizing m i with
  | nil =>
    rw [scan] at h
    split at h
    · cases h
    · exact (Except.ok.inj h).le
  | cons token rest ih =>
    rw [scan] at h
    split at h
    · exact (Nat.le_succ i).trans (ih h)
    · exact (Except.ok.inj h).le
    · cases h

/-- A token that is not a term is what an error at its place names. -/
theorem error_of_move {token : Token} {error : ParseError}
    (h : m.move i (some token) = .fail error) : error = .unexpectedToken token.text i := by
  unfold move at h
  split at h
  · split at h <;> cases h
    · next heq => rw [Option.some.inj heq]
    · next heq => cases heq
  · split at h
    · cases h
    · split at h <;> cases h
    · cases h

/-- What comes behind tokens that lack a condition is counted on from there. -/
theorem scan_append_of_end (h : m.scan i front = .error (.unexpectedEnd k)) :
    ∃ depth, ∀ rest, m.scan i (front ++ rest) = scan ⟨depth, true⟩ (i + front.length) rest := by
  induction front generalizing m i with
  | nil =>
    obtain ⟨depth, needs⟩ := m
    cases needs with
    | true => exact ⟨depth, fun rest => rfl⟩
    | false => simp [scan, move] at h
  | cons token front ih =>
    rw [scan] at h
    split at h
    · next next hmove =>
      obtain ⟨depth, hdepth⟩ := ih h
      refine ⟨depth, fun rest => ?_⟩
      rw [List.cons_append, scan_goOn hmove, hdepth rest, List.length_cons, Nat.add_right_comm,
        Nat.add_assoc]
    · cases h
    · next error hmove =>
      rw [error_of_move hmove] at h
      cases h

/-- If a condition is counted, the ofPieces before it lack one. -/
theorem scan_end_of_counted {c : Condition}
    (h : m.scan i (front ++ .condition c :: rest) = .ok n) (hn : i + front.length < n) :
    m.scan i front = .error (.unexpectedEnd (i + front.length)) := by
  induction front generalizing m i with
  | nil =>
    obtain ⟨depth, needs⟩ := m
    cases needs with
    | true => rfl
    | false =>
      rw [List.length_nil] at hn
      obtain rfl : i = n := Except.ok.inj h
      exact absurd hn (Nat.lt_irrefl _)
  | cons token front ih =>
    rw [List.length_cons] at hn
    rw [List.cons_append, scan] at h
    split at h
    · next next hmove =>
      have hrec := ih h (by omega)
      rw [scan_goOn hmove, hrec, List.length_cons, Nat.add_right_comm, Nat.add_assoc]
    · obtain rfl := Except.ok.inj h
      omega
    · cases h

end Counter

variable {front rest left : List Token} {t : Requirement}

open Counter in
theorem count_of_lacking (h : Lacking front) :
    count front = .error (.unexpectedEnd front.length) := by
  cases hcount : count front with
  | ok n =>
    obtain ⟨-, t, ht⟩ := ofTokens_of_count hcount
    rw [Lacking, ht] at h
    cases h
  | error error =>
    rw [Lacking, ofTokens_of_count_error hcount] at h
    rw [Except.error.inj h]

/-- How many tokens a requirement has taken. -/
theorem count_of_ofTokens {tokens : List Token} (h : ofTokens tokens = .ok (t, left)) :
    ∃ n, Counter.count tokens = .ok n ∧ n ≤ tokens.length ∧ left = tokens.drop n := by
  cases hcount : Counter.count tokens with
  | ok n =>
    obtain ⟨hle, u, hu⟩ := ofTokens_of_count hcount
    rw [hu] at h
    cases h
    exact ⟨n, rfl, hle, rfl⟩
  | error error =>
    rw [ofTokens_of_count_error hcount] at h
    cases h

theorem lt_count_of_lacking {c : Condition} {n : Nat} (h : Lacking front)
    (hcount : Counter.count (front ++ .condition c :: rest) = .ok n) : front.length < n := by
  obtain ⟨depth, hdepth⟩ := Counter.scan_append_of_end (count_of_lacking h)
  rw [Counter.count, hdepth, Counter.scan_condition] at hcount
  have hge := Counter.scan_ge hcount
  omega

/-- **The conditions of a requirement are those that stand where a condition is lacking.** -/
theorem mem_leaves_iff_lacking {tokens : List Token} {c : Condition}
    (h : ofTokens tokens = .ok (t, left)) :
    c ∈ t.leaves ↔ ∃ front rest, tokens = front ++ .condition c :: rest ∧ Lacking front := by
  obtain ⟨n, hcount, hle, rfl⟩ := count_of_ofTokens h
  have htaken : t.leaves = Token.conditions (tokens.take n) :=
    leaves_of_ofTokens (by rw [List.take_append_drop]; exact h)
  rw [htaken, Token.mem_conditions]
  constructor
  · intro hc
    obtain ⟨front, back, hfront⟩ := List.append_of_mem hc
    have htokens : tokens = front ++ .condition c :: (back ++ tokens.drop n) := by
      rw [← List.cons_append, ← List.append_assoc, ← hfront, List.take_append_drop]
    have hlength := congrArg List.length hfront
    rw [List.length_take_of_le hle, List.length_append, List.length_cons] at hlength
    refine ⟨front, _, htokens, ?_⟩
    rw [htokens] at hcount
    have hend := Counter.scan_end_of_counted hcount (by omega)
    rw [Nat.zero_add] at hend
    exact ofTokens_of_count_error hend
  · rintro ⟨front, rest, rfl, hlacking⟩
    have hlt := lt_count_of_lacking hlacking hcount
    rw [List.take_append, List.take_cons (by omega)]
    simp

/-- A token that is no term is reported where a condition is lacking. -/
theorem ofTokens_of_lacking {token : Token}
    (htoken : token = .paren .closing ∨ ∃ op, token = .operator op) (h : Lacking front) :
    ofTokens (front ++ token :: rest) = .error (.unexpectedToken token.text front.length) := by
  obtain ⟨depth, hdepth⟩ := Counter.scan_append_of_end (count_of_lacking h)
  refine ofTokens_of_count_error ?_
  rw [Counter.count, hdepth, Nat.zero_add]
  rcases htoken with rfl | ⟨op, rfl⟩ <;> rfl

/-! ## Gaps in a text -/

variable {s : String} {before after skipped : List Piece} {gap p : Piece}

/-- Text that has tokens fails to be read as they do, since blanks alone are read. -/
theorem parse_of_error {error : ParseError} (hne : Token.scan s ≠ [])
    (h : ofTokens (Token.scan s) = .error error) : parse s = .error error := by
  have hblank : Text.isBlankText s = false := by
    by_contra hs
    rw [Bool.not_eq_false] at hs
    have hall : ∀ x ∈ s.toList, isBlank x = true := List.all_eq_true.mp hs
    have hs : s.toList ≠ [] := fun hnil => hne (by rw [Token.scan, hnil, cut]; rfl)
    rw [Token.scan, Token.cut_blanks hs hall] at h
    cases h
  rw [parse_eq_ofTokens hblank hne, h]
  rfl

/-- Nothing but `&` that mean nothing at the end of a text, where a condition is lacking. -/
theorem parse_of_lacking_end (hcut : cut s.toList = before ++ skipped)
    (hskipped : ∀ p ∈ skipped, p = .skip) (h : Lacking (ofPieces before)) :
    parse s = .error (if ofPieces before = [] then .empty
      else .unexpectedEnd (ofPieces before).length) := by
  have hscan : Token.scan s = ofPieces before := by
    rw [Token.scan_eq, hcut, Token.ofPieces_append, Token.ofPieces_skip hskipped, List.append_nil]
  split
  · next hnil =>
    rw [hnil] at hscan
    rw [parse]
    split
    · rfl
    · rw [hscan]
  · next hne =>
    exact parse_of_error (by rwa [hscan]) (by rw [hscan]; exact h)

/-- Nothing but `&` that mean nothing before an operator or a closing parenthesis, where a
condition is lacking. -/
theorem parse_of_lacking_token {token : Token}
    (hcut : cut s.toList = before ++ skipped ++ p :: after)
    (hskipped : ∀ p ∈ skipped, p = .skip) (h : Lacking (ofPieces before))
    (hp : p.token = some token) (htoken : token = .paren .closing ∨ ∃ op, token = .operator op) :
    parse s = .error (.unexpectedToken token.text (ofPieces before).length) := by
  have hscan : Token.scan s = ofPieces before ++ token :: ofPieces after := by
    rw [Token.scan_eq, hcut, Token.ofPieces_append, Token.ofPieces_append,
      Token.ofPieces_skip hskipped, List.append_nil, Token.ofPieces_cons after hp]
  refine parse_of_error (by simp [hscan]) ?_
  rw [hscan]
  exact ofTokens_of_lacking htoken h

/-- A condition without a name that was read is a gap where a condition is lacking. -/
theorem nameless_mem_iff {t : Requirement} (h : parse s = .ok t) :
    (∃ c ∈ t.leaves, c.Nameless) ↔ ∃ before gap after,
      cut s.toList = before ++ gap :: after ∧ gap.Gap ∧ Lacking (ofPieces before) := by
  obtain ⟨u, left, hu, rfl⟩ := ofTokens_of_parse h
  rw [Formula.leaves_wrap]
  constructor
  · rintro ⟨c, hc, hnameless⟩
    obtain ⟨front, rest, htokens, hlacking⟩ := (mem_leaves_iff_lacking hu).mp hc
    obtain ⟨before, gap, after, hcut, rfl, hgap⟩ := Token.exists_pieces htokens
    have hmem : gap ∈ cut s.toList := by rw [hcut]; simp
    exact ⟨before, gap, after, hcut, (Token.gap_iff_nameless hmem).mpr ⟨c, hgap, hnameless⟩,
      hlacking⟩
  · rintro ⟨before, gap, after, hcut, hgap, hlacking⟩
    have hmem : gap ∈ cut s.toList := by rw [hcut]; simp
    obtain ⟨c, htoken, hnameless⟩ := (Token.gap_iff_nameless hmem).mp hgap
    refine ⟨c, (mem_leaves_iff_lacking hu).mpr ⟨ofPieces before, ofPieces after, ?_, hlacking⟩,
      hnameless⟩
    rw [Token.scan_eq, hcut, Token.ofPieces_append, Token.ofPieces_cons after htoken]

/-- **When a requirement has a condition without a name.**

* A requirement that was read has one exactly if some blanks that no token takes in stand where a
  condition is lacking.
* No token takes in blanks only if each side of them is an end of the text or a single `&`.
* Where a condition is lacking and nothing but such `&` stand before the end of the text, an
  operator or a closing parenthesis, that is what is reported, and a blank text is empty. -/
theorem nameless_iff_gap (s : String) :
    (∀ t, parse s = .ok t → ((∃ c ∈ t.leaves, c.Nameless) ↔ ∃ before gap after,
      cut s.toList = before ++ gap :: after ∧ gap.Gap ∧ Lacking (ofPieces before))) ∧
    (∀ before gap after, cut s.toList = before ++ gap :: after → gap.Gap →
      (before = [] ∨ before.getLast? = some .skip) ∧ (after = [] ∨ after.head? = some .skip)) ∧
    (∀ before skipped, (∀ p ∈ skipped, p = .skip) → Lacking (ofPieces before) →
      (cut s.toList = before ++ skipped →
        parse s = .error (if ofPieces before = [] then .empty
          else .unexpectedEnd (ofPieces before).length)) ∧
      ∀ p after token, cut s.toList = before ++ skipped ++ p :: after → p.token = some token →
        (token = .paren .closing ∨ ∃ op, token = .operator op) →
        parse s = .error (.unexpectedToken token.text (ofPieces before).length)) ∧
    (Text.isBlankText s = true → parse s = .error .empty) := by
  refine ⟨fun t h => nameless_mem_iff h, fun before gap after h => Token.gap_borders h, ?_, ?_⟩
  · intro before skipped hskipped hlacking
    exact ⟨fun hcut => parse_of_lacking_end hcut hskipped hlacking,
      fun p after token hcut => parse_of_lacking_token hcut hskipped hlacking⟩
  · intro hblank
    rw [parse, if_pos hblank]

/-- A single `&` and an operator stand where a condition is lacking; and a gap is left over
behind a condition, so that it is no part of the requirement. -/
theorem nameless_iff_gap_left_over :
    parse "a && & | b" = .error (.unexpectedToken "&&" 2) ∧
    parse "a & & b" = .ok (.node .and [condition "a"]) ∧
      ¬ ∃ before gap after, cut "a & & b".toList = before ++ gap :: after ∧ gap.Gap ∧
        Lacking (ofPieces before) := by
  have hcut : cut "a && & | b".toList = [⟨['a', ' '], some (.condition ⟨"a", none⟩)⟩,
      ⟨['&', '&', ' '], some (.operator .and)⟩] ++ [.skip] ++
      ⟨[' ', '|', ' '], some (.operator .and)⟩ :: [⟨['b'], some (.condition ⟨"b", none⟩)⟩] := by
    decide +kernel
  have hscan : Token.scan "a & & b" =
      [.condition ⟨"a", none⟩, .condition ⟨"", none⟩, .condition ⟨"b", none⟩] := by
    decide +kernel
  have hread : ofTokens (Token.scan "a & & b") =
      .ok (condition "a", [.condition ⟨"", none⟩, .condition ⟨"b", none⟩]) := by
    rw [hscan]
    rfl
  have hparse := parse_of_ofTokens _ (by decide +kernel) hread
  refine ⟨?_, hparse, ?_⟩
  · have hlacking : Lacking (ofPieces [⟨['a', ' '], some (.condition ⟨"a", none⟩)⟩,
        ⟨['&', '&', ' '], some (.operator .and)⟩]) := rfl
    exact ((nameless_iff_gap "a && & | b").2.2.1 _ [.skip] (by simp) hlacking).2 _ _ _ hcut rfl
      (.inr ⟨.and, rfl⟩)
  · rw [← (nameless_iff_gap "a & & b").1 _ hparse]
    rintro ⟨c, hc, hnameless⟩
    obtain rfl := List.mem_singleton.mp hc
    exact absurd hnameless (by decide)

/-- **Blanks in front of a single `&` are read as a condition without a name.**  Nothing else is in
the text, so it should be reported as empty. -/
theorem nameless_of_blanks :
    parse " &" = .ok (.node .and [condition ""]) ∧
      ∃ c ∈ Formula.leaves (.node .and [condition ""]), c.Nameless := by
  have hscan : Token.scan " &" = [.condition ⟨"", none⟩] := by decide +kernel
  have hread : ofTokens (Token.scan " &") = .ok (condition "", []) := by
    rw [hscan]
    rfl
  exact ⟨parse_of_ofTokens _ (by decide +kernel) hread, ⟨"", none⟩, List.mem_cons_self, rfl⟩

end Requirement
end Hydration
