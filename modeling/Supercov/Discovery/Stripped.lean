import Supercov.Discovery.Jsonc

/-!
# What the passes leave

Of a text of a value with comments and trailing commas the two passes leave a JSON text of that
value, and a JSON text they leave alone.
-/

namespace Supercov.Discovery

open JsonSyntax

section Comments

theorem strung_stripComments : Strung fun escaped => stripComments (.string escaped) := by
  intro escaped escaped' c rest goesOn
  simp only [stripComments_inString, goesOn, Option.elim_some]

theorem stripComments_code {c : Char} (no_quote : c ≠ '"') (no_slash : c ≠ '/') :
    Passes (stripComments .code) [c] [c] := by
  intro rest
  simp [stripComments, no_quote, no_slash]

theorem stripComments_string {text meant : List Char} (body : Body text meant) :
    Passes (stripComments .code) ('"' :: (text ++ ['"'])) ('"' :: (text ++ ['"'])) :=
  passes_string strung_stripComments stripComments_quote (stripComments_inString '"' · false) body

theorem stripComments_plain {text : List Char} (plain : ∀ c ∈ text, isPlain c = true) :
    Passes (stripComments .code) text text := by
  induction text with
  | nil => exact Passes.nil _
  | cons c text inductionHypothesis =>
    obtain ⟨isPlain, plain⟩ := List.forall_mem_cons.mp plain
    have other := (isPlain_spec isPlain).2
    refine (stripComments_code ?_ ?_).cons (inductionHypothesis plain)
    · rintro rfl
      exact other (by decide)
    · rintro rfl
      exact other (by decide)

theorem stripComments_line {body : List Char} (within : '\n' ∉ body) (rest : List Char) :
    stripComments .line (body ++ '\n' :: rest) = '\n' :: stripComments .code rest := by
  induction body with
  | nil => exact stripComments_inLine '\n' rest
  | cons c body inductionHypothesis =>
    obtain ⟨other, within⟩ := List.ne_and_not_mem_of_not_mem_cons within
    simpa [stripComments_inLine, Ne.symm other] using inductionHypothesis within

theorem stripComments_lastLine {body : List Char} (within : '\n' ∉ body) :
    stripComments .line body = [] := by
  induction body with
  | nil => rfl
  | cons c body inductionHypothesis =>
    obtain ⟨other, within⟩ := List.ne_and_not_mem_of_not_mem_cons within
    simpa [stripComments_inLine, Ne.symm other] using inductionHypothesis within

theorem stripComments_block {previous : Char} {body : List Char}
    (within : ¬['*', '/'] <:+: previous :: body) (rest : List Char) :
    stripComments (.block previous) (body ++ '*' :: '/' :: rest) = stripComments .code rest := by
  induction body generalizing previous with
  | nil => simp [stripComments_inBlock]
  | cons c body inductionHypothesis =>
    have opened : ¬(previous = '*' ∧ c = '/') := by
      rintro ⟨rfl, rfl⟩
      exact within ⟨[], body, rfl⟩
    have within : ¬['*', '/'] <:+: c :: body :=
      fun inside => within (inside.trans (List.suffix_cons _ _).isInfix)
    rw [List.cons_append, stripComments_inBlock, if_neg opened]
    exact inductionHypothesis within

theorem stripComments_gap {comments : Bool} {text : List Char} (gap : Gap comments text) :
    ∃ kept, Gap false kept ∧ Passes (stripComments .code) text kept ∧
      (comments = false → kept = text) := by
  induction gap with
  | nil => exact ⟨[], .nil, Passes.nil _, fun _ => rfl⟩
  | @blank c rest blank _ inductionHypothesis =>
    obtain ⟨kept, gap, passes, same⟩ := inductionHypothesis
    have no_quote : c ≠ '"' := by
      rintro rfl
      exact absurd blank (by decide)
    have no_slash : c ≠ '/' := by
      rintro rfl
      exact absurd blank (by decide)
    exact ⟨c :: kept, .blank blank gap, (stripComments_code no_quote no_slash).cons passes,
      fun none => congrArg _ (same none)⟩
  | @line body rest allowed within _ inductionHypothesis =>
    obtain ⟨kept, gap, passes, -⟩ := inductionHypothesis
    refine ⟨'\n' :: kept, .blank rfl gap, fun more => ?_, fun none => ?_⟩
    · rw [List.cons_append, List.cons_append, List.append_assoc, List.cons_append,
        stripComments_opensLine, stripComments_line within, passes, List.cons_append]
    · exact absurd (allowed.symm.trans none) Bool.noConfusion
  | @block body rest allowed within _ inductionHypothesis =>
    obtain ⟨kept, gap, passes, -⟩ := inductionHypothesis
    have within : ¬['*', '/'] <:+: '\x00' :: body := by
      intro inside
      rcases List.infix_cons_iff.mp inside with first | inside
      · exact absurd (List.cons_prefix_cons.mp first).1 (by decide)
      · exact within inside
    refine ⟨kept, gap, fun more => ?_, fun none => ?_⟩
    · rw [List.cons_append, List.cons_append, List.append_assoc, List.cons_append,
        List.cons_append, stripComments_opensBlock, stripComments_block within, passes]
    · exact absurd (allowed.symm.trans none) Bool.noConfusion

theorem stripComments_ending {comments : Bool} {text : List Char} (ending : Ending comments text) :
    ∃ kept, Gap false kept ∧ stripComments .code text = kept ∧
      (comments = false → kept = text) := by
  cases ending with
  | gap gap =>
    obtain ⟨kept, gap, passes, same⟩ := stripComments_gap gap
    have whole := passes []
    rw [List.append_nil, stripComments_nil, List.append_nil] at whole
    exact ⟨kept, gap, whole, same⟩
  | @line before body allowed gap within =>
    obtain ⟨kept, gap, passes, -⟩ := stripComments_gap gap
    refine ⟨kept, gap, ?_, fun none => absurd (allowed.symm.trans none) Bool.noConfusion⟩
    rw [passes, stripComments_opensLine, stripComments_lastLine within, List.append_nil]

theorem stripComments_spells {grammar : Grammar} {part : Part} {text : List Char}
    (spelled : Spells grammar part text) :
    ∃ kept, Spells ⟨false, grammar.trailingCommas⟩ part kept ∧
      Passes (stripComments .code) text kept ∧ (grammar.comments = false → kept = text) := by
  have mark : ∀ c ∈ ['[', ']', '\x7b', '\x7d', ',', ':'], Passes (stripComments .code) [c] [c] := by
    intro c member
    refine stripComments_code ?_ ?_
    · rintro rfl
      exact absurd member (by decide)
    · rintro rfl
      exact absurd member (by decide)
  induction spelled with
  | null => exact ⟨_, .null, stripComments_plain (List.all_eq_true.mp rfl), fun _ => rfl⟩
  | yes => exact ⟨_, .yes, stripComments_plain (List.all_eq_true.mp rfl), fun _ => rfl⟩
  | no => exact ⟨_, .no, stripComments_plain (List.all_eq_true.mp rfl), fun _ => rfl⟩
  | number number =>
    exact ⟨_, .number number, stripComments_plain fun _ => isPlain_of_isNumber number,
      fun _ => rfl⟩
  | string body => exact ⟨_, .string body, stripComments_string body, fun _ => rfl⟩
  | array _ inductionHypothesis =>
    obtain ⟨kept, items, passes, same⟩ := inductionHypothesis
    refine ⟨_, .array items, (mark '[' (by decide)).cons (passes.append (mark ']' (by decide))),
      fun none => ?_⟩
    rw [same none]
  | object _ inductionHypothesis =>
    obtain ⟨kept, items, passes, same⟩ := inductionHypothesis
    refine ⟨_, .object items,
      (mark '\x7b' (by decide)).cons (passes.append (mark '\x7d' (by decide))), fun none => ?_⟩
    rw [same none]
  | element _ inductionHypothesis =>
    obtain ⟨kept, spelled, passes, same⟩ := inductionHypothesis
    exact ⟨kept, .element spelled, passes, same⟩
  | member body gap gap' _ inductionHypothesis =>
    obtain ⟨kept, spelled, passes, same⟩ := inductionHypothesis
    obtain ⟨before, gap, beforePasses, beforeSame⟩ := stripComments_gap gap
    obtain ⟨after, gap', afterPasses, afterSame⟩ := stripComments_gap gap'
    refine ⟨_, .member body gap gap' spelled, ?_, fun none => ?_⟩
    · have tail := (mark ':' (by decide)).cons (afterPasses.append passes)
      have all := (stripComments_string body).append (beforePasses.append tail)
      simpa only [List.cons_append, List.append_assoc, List.nil_append] using all
    · rw [same none, beforeSame none, afterSame none]
  | noItems gap =>
    obtain ⟨kept, gap, passes, same⟩ := stripComments_gap gap
    exact ⟨kept, .noItems gap, passes, same⟩
  | last gap _ gap' inductionHypothesis =>
    obtain ⟨kept, spelled, passes, same⟩ := inductionHypothesis
    obtain ⟨before, gap, beforePasses, beforeSame⟩ := stripComments_gap gap
    obtain ⟨after, gap', afterPasses, afterSame⟩ := stripComments_gap gap'
    refine ⟨_, .last gap spelled gap', beforePasses.append (passes.append afterPasses),
      fun none => ?_⟩
    rw [same none, beforeSame none, afterSame none]
  | next gap _ gap' goesOn _ inductionHypothesis inductionHypothesis' =>
    obtain ⟨kept, spelled, passes, same⟩ := inductionHypothesis
    obtain ⟨more, others, othersPass, othersSame⟩ := inductionHypothesis'
    obtain ⟨before, gap, beforePasses, beforeSame⟩ := stripComments_gap gap
    obtain ⟨after, gap', afterPasses, afterSame⟩ := stripComments_gap gap'
    refine ⟨_, .next gap spelled gap' goesOn others, beforePasses.append (passes.append
      (afterPasses.append ((mark ',' (by decide)).cons othersPass))), fun none => ?_⟩
    rw [same none, beforeSame none, afterSame none, othersSame none]

theorem stripJsoncComments_document {grammar : Grammar} {value : JsonValue} {text : List Char}
    (document : Document grammar value text) :
    Document ⟨false, grammar.trailingCommas⟩ value (stripJsoncComments text) ∧
      (grammar.comments = false → stripJsoncComments text = text) := by
  obtain ⟨before, body, after, gap, spelled, ending, rfl⟩ := document
  obtain ⟨kept, gap, passes, same⟩ := stripComments_gap gap
  obtain ⟨kept', spelled, passes', same'⟩ := stripComments_spells spelled
  obtain ⟨kept'', gap', stripped, same''⟩ := stripComments_ending ending
  have whole : stripJsoncComments (before ++ (body ++ after)) = kept ++ (kept' ++ kept'') := by
    unfold stripJsoncComments
    rw [passes, passes', stripped]
  rw [whole]
  refine ⟨⟨kept, kept', kept'', gap, spelled, .gap gap', rfl⟩, fun none => ?_⟩
  rw [same none, same' none, same'' none]

end Comments

section Commas

theorem strung_stripCommas : Strung fun escaped => stripCommas (.string escaped) := by
  intro escaped escaped' c rest goesOn
  simp only [stripCommas_inString, goesOn, Option.elim_some]

theorem stripCommas_code {c : Char} (no_quote : c ≠ '"') (no_comma : c ≠ ',') :
    Passes (stripCommas .code) [c] [c] := by
  intro rest
  simp [stripCommas_inCode, no_quote, no_comma]

theorem stripCommas_string {text meant : List Char} (body : Body text meant) :
    Passes (stripCommas .code) ('"' :: (text ++ ['"'])) ('"' :: (text ++ ['"'])) :=
  passes_string strung_stripCommas (stripCommas_inCode '"') (stripCommas_inString '"' · false) body

theorem stripCommas_plain {text : List Char} (plain : ∀ c ∈ text, isPlain c = true) :
    Passes (stripCommas .code) text text := by
  induction text with
  | nil => exact Passes.nil _
  | cons c text inductionHypothesis =>
    obtain ⟨isPlain, plain⟩ := List.forall_mem_cons.mp plain
    have other := (isPlain_spec isPlain).2
    refine (stripCommas_code ?_ ?_).cons (inductionHypothesis plain)
    · rintro rfl
      exact other (by decide)
    · rintro rfl
      exact other (by decide)

theorem isBlank_of_gap {text : List Char} (gap : Gap false text) : text.all isBlank = true := by
  induction gap with
  | nil => rfl
  | blank blank _ inductionHypothesis => rw [List.all_cons, blank, inductionHypothesis, Bool.and_self]
  | line allowed => exact absurd allowed Bool.noConfusion
  | block allowed => exact absurd allowed Bool.noConfusion

theorem gap_append {text other : List Char} (gap : Gap false text) (gap' : Gap false other) :
    Gap false (text ++ other) := by
  induction gap with
  | nil => exact gap'
  | blank blank _ inductionHypothesis => exact .blank blank inductionHypothesis
  | line allowed => exact absurd allowed Bool.noConfusion
  | block allowed => exact absurd allowed Bool.noConfusion

theorem isBlank_cases {c : Char} (blank : isBlank c = true) :
    c = ' ' ∨ c = '\t' ∨ c = '\n' ∨ c = '\r' := by
  simpa [isBlank, or_assoc] using blank

theorem stripCommas_gap {text : List Char} (gap : Gap false text) :
    Passes (stripCommas .code) text text := by
  have blank := isBlank_of_gap gap
  clear gap
  induction text with
  | nil => exact Passes.nil _
  | cons c text inductionHypothesis =>
    obtain ⟨isBlank, blank⟩ := Bool.and_eq_true_iff.mp blank
    refine (stripCommas_code ?_ ?_).cons (inductionHypothesis blank)
    · rintro rfl
      exact absurd isBlank (by decide)
    · rintro rfl
      exact absurd isBlank (by decide)

theorem closes_gap {text : List Char} (gap : Gap false text) {c : Char}
    (shown : Text.isWhitespace c = false) (rest : List Char) :
    closes (text ++ c :: rest) = decide (c = '\x7d' ∨ c = ']') := by
  have blank := isBlank_of_gap gap
  clear gap
  induction text with
  | nil => simp [closes, shown]
  | cons first text inductionHypothesis =>
    obtain ⟨isBlank, blank⟩ := Bool.and_eq_true_iff.mp blank
    have hidden : Text.isWhitespace first = true := by
      rcases isBlank_cases isBlank with rfl | rfl | rfl | rfl <;> rfl
    rw [← inductionHypothesis blank]
    simp [closes, hidden]

theorem closes_items {trailingCommas : Bool} {items : List Item} {text : List Char}
    (spelled : Spells ⟨false, trailingCommas⟩ (.items items) text) (some : items ≠ [])
    (rest : List Char) : closes (text ++ rest) = false := by
  have opens : ∀ {before piece : List Char} {item : Item} (more : List Char), Gap false before →
      Spells ⟨false, trailingCommas⟩ (.item item) piece →
        closes (before ++ (piece ++ more)) = false := by
    intro before piece item more gap spelled
    obtain ⟨c, others, rfl, shown, other⟩ := head_of_spells spelled nofun
    rw [List.cons_append, closes_gap gap shown, decide_eq_false_iff_not]
    rintro (rfl | rfl)
    · exact other (by decide)
    · exact other (by decide)
  cases spelled with
  | noItems => exact absurd rfl some
  | last gap spelled _ =>
    rw [List.append_assoc, List.append_assoc]
    exact opens _ gap spelled
  | next gap spelled _ _ _ =>
    rw [List.append_assoc, List.append_assoc]
    exact opens _ gap spelled

/-- What stands behind the items of an array or an object. -/
def Closed (part : Part) (rest : List Char) : Prop :=
  ∀ items, part = .items items → ∃ c more, rest = c :: more ∧ (c = ']' ∨ c = '\x7d')

theorem stripCommas_bracketed {first last : Char} {items : List Item} {text kept : List Char}
    (opens : Passes (stripCommas .code) [first] [first])
    (shuts : Passes (stripCommas .code) [last] [last]) (closer : last = ']' ∨ last = '\x7d')
    (passes : ∀ rest, Closed (.items items) rest →
      stripCommas .code (text ++ rest) = kept ++ stripCommas .code rest) :
    Passes (stripCommas .code) (first :: (text ++ [last])) (first :: (kept ++ [last])) := by
  refine opens.cons fun rest => ?_
  have inside := passes (last :: rest) fun _ _ => ⟨last, rest, rfl, closer⟩
  have closed := shuts rest
  rw [List.singleton_append] at closed
  rw [List.append_assoc, List.singleton_append, inside, closed, List.append_assoc]

theorem closed_item {item : Item} {rest : List Char} : Closed (.item item) rest :=
  nofun

theorem closed_value {value : JsonValue} {rest : List Char} : Closed (.value value) rest :=
  nofun

theorem stripCommas_spells {trailingCommas : Bool} {part : Part} {text : List Char}
    (spelled : Spells ⟨false, trailingCommas⟩ part text) :
    ∃ kept, Spells json part kept ∧
      (∀ rest, Closed part rest →
        stripCommas .code (text ++ rest) = kept ++ stripCommas .code rest) ∧
      (trailingCommas = false → kept = text) := by
  have mark : ∀ c ∈ ['[', ']', '\x7b', '\x7d', ':'], Passes (stripCommas .code) [c] [c] := by
    intro c member
    refine stripCommas_code ?_ ?_
    · rintro rfl
      exact absurd member (by decide)
    · rintro rfl
      exact absurd member (by decide)
  induction spelled with
  | null => exact ⟨_, .null, fun rest _ => stripCommas_plain (List.all_eq_true.mp rfl) rest, fun _ => rfl⟩
  | yes => exact ⟨_, .yes, fun rest _ => stripCommas_plain (List.all_eq_true.mp rfl) rest, fun _ => rfl⟩
  | no => exact ⟨_, .no, fun rest _ => stripCommas_plain (List.all_eq_true.mp rfl) rest, fun _ => rfl⟩
  | number number =>
    exact ⟨_, .number number,
      fun rest _ => stripCommas_plain (fun _ => isPlain_of_isNumber number) rest, fun _ => rfl⟩
  | string body =>
    exact ⟨_, .string body, fun rest _ => stripCommas_string body rest, fun _ => rfl⟩
  | array _ inductionHypothesis =>
    obtain ⟨kept, items, passes, same⟩ := inductionHypothesis
    refine ⟨_, .array items, fun rest _ => ?_, fun none => by rw [same none]⟩
    exact stripCommas_bracketed (mark '[' (by decide)) (mark ']' (by decide)) (Or.inl rfl) passes
      rest
  | object _ inductionHypothesis =>
    obtain ⟨kept, items, passes, same⟩ := inductionHypothesis
    refine ⟨_, .object items, fun rest _ => ?_, fun none => by rw [same none]⟩
    exact stripCommas_bracketed (mark '\x7b' (by decide)) (mark '\x7d' (by decide)) (Or.inr rfl)
      passes rest
  | element _ inductionHypothesis =>
    obtain ⟨kept, spelled, passes, same⟩ := inductionHypothesis
    exact ⟨kept, .element spelled, fun rest _ => passes rest closed_value, same⟩
  | member body gap gap' _ inductionHypothesis =>
    obtain ⟨kept, spelled, passes, same⟩ := inductionHypothesis
    refine ⟨_, .member body gap gap' spelled, fun rest _ => ?_, fun none => by rw [same none]⟩
    have value : Passes (stripCommas .code) _ kept := fun rest => passes rest closed_value
    have tail := (mark ':' (by decide)).cons ((stripCommas_gap gap').append value)
    have all := (stripCommas_string body).append ((stripCommas_gap gap).append tail)
    simpa only [List.cons_append, List.append_assoc, List.nil_append] using all rest
  | noItems gap =>
    exact ⟨_, .noItems gap, fun rest _ => stripCommas_gap gap rest, fun _ => rfl⟩
  | last gap _ gap' inductionHypothesis =>
    obtain ⟨kept, spelled, passes, same⟩ := inductionHypothesis
    refine ⟨_, .last gap spelled gap', fun rest _ => ?_, fun none => by rw [same none]⟩
    have item : Passes (stripCommas .code) _ kept := fun rest => passes rest closed_item
    exact (stripCommas_gap gap).append (item.append (stripCommas_gap gap')) rest
  | @next before text after more _ items gap _ gap' goesOn others inductionHypothesis
      inductionHypothesis' =>
    obtain ⟨kept, spelled, passes, same⟩ := inductionHypothesis
    have item : Passes (stripCommas .code) _ kept := fun rest => passes rest closed_item
    have front := (stripCommas_gap gap).append (item.append (stripCommas_gap gap'))
    have split : ∀ rest, before ++ (text ++ (after ++ ',' :: more)) ++ rest =
        before ++ (text ++ after) ++ ',' :: (more ++ rest) := by
      intro rest
      simp only [List.append_assoc, List.cons_append]
    cases items with
    | nil =>
      -- The comma trails: the gap behind it joins the one before it.
      cases others with
      | noItems gap'' =>
        refine ⟨_, .last gap spelled (gap_append gap' gap''), fun rest closed => ?_, fun none => ?_⟩
        · obtain ⟨c, rest, rfl, closer⟩ := closed _ rfl
          have shown : Text.isWhitespace c = false := by
            rcases closer with rfl | rfl <;> rfl
          have closing : closes (more ++ c :: rest) = true := by
            rw [closes_gap gap'' shown]
            exact decide_eq_true closer.symm
          rw [split, front, stripCommas_inCode, if_neg (by decide), if_pos ⟨rfl, closing⟩,
            stripCommas_gap gap'']
          simp only [List.append_assoc]
        · exact absurd ((goesOn rfl).symm.trans none) Bool.noConfusion
    | cons other items =>
      obtain ⟨kept', others', passes', same'⟩ := inductionHypothesis'
      refine ⟨_, .next gap spelled gap' (fun none => absurd none (List.cons_ne_nil _ _)) others',
        fun rest closed => ?_, fun none => by rw [same none, same' none]⟩
      have open' : closes (more ++ rest) = false := closes_items others (List.cons_ne_nil _ _) rest
      have kept_comma : ¬(',' = ',' ∧ closes (more ++ rest) = true) := by
        rw [open']
        exact fun both => Bool.noConfusion both.2
      rw [split, front, stripCommas_inCode, if_neg (by decide), if_neg kept_comma,
        passes' rest fun _ _ => closed _ rfl]
      simp only [List.append_assoc, List.cons_append]

theorem stripTrailingCommas_document {trailingCommas : Bool} {value : JsonValue} {text : List Char}
    (document : Document ⟨false, trailingCommas⟩ value text) :
    Document json value (stripTrailingCommas text) ∧
      (trailingCommas = false → stripTrailingCommas text = text) := by
  obtain ⟨before, body, after, gap, spelled, ending, rfl⟩ := document
  obtain ⟨kept, spelled, passes, same⟩ := stripCommas_spells spelled
  have gap' : Gap false after := by
    cases ending with
    | gap gap => exact gap
    | line allowed => exact absurd allowed Bool.noConfusion
  have ended := stripCommas_gap gap' []
  rw [List.append_nil, stripCommas_nil, List.append_nil] at ended
  have whole : stripTrailingCommas (before ++ (body ++ after)) = before ++ (kept ++ after) := by
    unfold stripTrailingCommas
    rw [stripCommas_gap gap, passes after closed_value, ended]
  rw [whole]
  exact ⟨⟨before, kept, after, gap, spelled, .gap gap', rfl⟩, fun none => by rw [same none]⟩

end Commas

/-- A text with comments and trailing commas is read as its value, and a JSON text is left as it
is. -/
theorem stripped_document :
    (∀ (value : JsonValue) (text : List Char), Document jsonc value text →
      Document json value (stripTrailingCommas (stripJsoncComments text))) ∧
    ∀ (value : JsonValue) (text : List Char), Document json value text →
      stripJsoncComments text = text ∧ stripTrailingCommas text = text := by
  constructor
  · intro value text document
    exact (stripTrailingCommas_document (stripJsoncComments_document document).1).1
  · intro value text document
    exact ⟨(stripJsoncComments_document document).2 rfl,
      (stripTrailingCommas_document document).2 rfl⟩

/-- A list with a trailing comma and a comment behind it. -/
theorem stripped_document_list :
    Document json (.array [.number (String.ofList ['1'])])
      (stripTrailingCommas (stripJsoncComments "[1, // one, \"]\n]".toList)) := by
  apply stripped_document.1
  have one : IsNumber ['1'] :=
    ⟨[], ['1'], [], [], rfl, Or.inl rfl, Or.inr ⟨⟨List.cons_ne_nil _ _, rfl⟩, by decide⟩,
      Or.inl rfl, Or.inl rfl⟩
  have gap : Gap jsonc.comments (' ' :: '/' :: '/' :: (" one, \"]".toList ++ ['\n'])) :=
    .blank rfl (.line rfl (by decide) .nil)
  exact ⟨[], _, [], .nil,
    .array (.next .nil (.element (.number one)) .nil (fun _ => rfl) (.noItems gap)), .gap .nil, rfl⟩

end Supercov.Discovery
