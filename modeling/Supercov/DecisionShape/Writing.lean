import Supercov.DecisionShape.Parsing
import Mathlib.Data.List.TakeWhile

/-!
# Reading a written decision

A decision's text is its lexemes, each behind blanks.  Where no condition's text stands
at an operator or parenthesis in front of it, the text's tokens are the lexemes'.  Where
one does, what is left cannot be read as a decision.
-/

namespace Supercov.DecisionShape

open Request (isWhitespace)

/-- Made of what may stand in front of a decision's first condition, and of nothing else. -/
inductive Openings : List Char → Prop where
  | nil : Openings []
  | blank {c : Char} {rest : List Char} : isWhitespace c → Openings rest → Openings (c :: rest)
  | opening {rest : List Char} : Openings rest → Openings ('(' :: rest)
  | bang {rest : List Char} : Openings rest → Openings ('!' :: rest)
  | not {rest : List Char} : Openings rest → Openings ('n' :: 'o' :: 't' :: rest)

/-- A condition's text begins where its first character stands, and is no mere operator. -/
structure Readable (text : List Char) : Prop where
  trimmed : ∃ first rest, text = first :: rest ∧ isWhitespace first = false
  expression : ¬Openings text

abbrev Piece := List Char × Lexeme

section Text

variable (isAlphanumeric : Char → Bool) (texts : List (List Char)) (trailing : List Char)

def Lexeme.text : Lexeme → List Char
  | condition index => texts.getD index []
  | not .symbol => ['!']
  | not _ => "not".toList
  | join true .symbol => "&&".toList
  | join true _ => "and".toList
  | join false .symbol => "||".toList
  | join false _ => "or".toList
  | opening => ['(']
  | closing => [')']

/-- What a lexeme needs behind it to be read as itself. -/
def Lexeme.Ends : Lexeme → List Char → Prop
  | not .symbol, after => after.head? ≠ some '='
  | not .word, after => endsWord isAlphanumeric after ∧ after.head? ≠ some '('
  | not .call, after => endsWord isAlphanumeric after ∧ after.head? = some '('
  | join _ .symbol, _ => True
  | join _ _, after => endsWord isAlphanumeric after
  | _, _ => True

def render : List Piece → List Char
  | [] => trailing
  | (blanks, lexeme) :: rest => blanks ++ (lexeme.text texts ++ render rest)

/-- Only blanks stand between the lexemes, and each is read as itself. -/
def Spaced : List Piece → Prop
  | [] => trailing.all isWhitespace
  | (blanks, lexeme) :: rest => blanks.all isWhitespace ∧
    lexeme.Ends isAlphanumeric (render texts trailing rest) ∧ Spaced rest

instance decidableEnds (after : List Char) :
    DecidablePred fun lexeme : Lexeme => lexeme.Ends isAlphanumeric after
  | .not .symbol => inferInstanceAs (Decidable (_ ≠ _))
  | .not .word | .not .call => inferInstanceAs (Decidable (_ ∧ _))
  | .join _ .word | .join _ .call => inferInstanceAs (Decidable (_ = true))
  | .join _ .symbol | .condition _ | .opening | .closing => inferInstanceAs (Decidable True)

instance decidableSpaced : DecidablePred (Spaced isAlphanumeric texts trailing)
  | [] => inferInstanceAs (Decidable (_ = true))
  | (_, lexeme) :: rest =>
    have := decidableSpaced rest
    have := decidableEnds isAlphanumeric (render texts trailing rest) lexeme
    inferInstanceAs (Decidable (_ ∧ _ ∧ _))

/-- No condition's text stands at an operator or parenthesis in front of it. -/
def Found : Nat → List Piece → Prop
  | _, [] => True
  | next, (_, .condition _) :: rest => Found (next + 1) rest
  | next, (_, lexeme) :: rest =>
    nextCondition texts next (lexeme.text texts ++ render texts trailing rest) = none ∧ Found next rest

end Text

/-- Operands and what joins them take turns: `behind` says whether an operand has just ended. -/
def Alternates : Bool → List Lexeme → Prop
  | behind, [] => behind = true
  | behind, .condition _ :: rest => behind = false ∧ Alternates true rest
  | behind, .closing :: rest => behind = true ∧ Alternates true rest
  | behind, .join _ _ :: rest => behind = true ∧ Alternates false rest
  | behind, _ :: rest => behind = false ∧ Alternates false rest

theorem Decision.alternates (decision : Decision) {rest : List Lexeme} (after : Alternates true rest) :
    Alternates false (decision.lexemes ++ rest) := by
  induction decision generalizing rest with
  | condition index => exact ⟨rfl, after⟩
  | group inner ih =>
    simp only [lexemes, List.cons_append, List.append_assoc, List.nil_append]
    exact ⟨rfl, ih ⟨rfl, after⟩⟩
  | not spelling inner ih => exact ⟨rfl, ih after⟩
  | join isAnd spelling left right ihLeft ihRight =>
    rw [lexemes, List.append_assoc]
    exact ihLeft ⟨rfl, ihRight after⟩

section StripPrefix

theorem stripPrefix_eq_some {keyword rest after : List Char} :
    stripPrefix keyword rest = some after ↔ rest = keyword ++ after := by
  fun_induction stripPrefix keyword rest with
  | case1 rest => simp
  | case2 first keyword => simp
  | case3 first keyword rest ih => simpa using ih
  | case4 first keyword c rest other => simp [Ne.symm other]

end StripPrefix

section Operator

variable {isAlphanumeric : Char → Bool} {texts : List (List Char)} {lexeme : Lexeme} {after : List Char}

theorem operator_text (other : lexeme.index? = none) (ends : lexeme.Ends isAlphanumeric after) :
    operator isAlphanumeric (lexeme.text texts ++ after) = some (lexeme.token, after) := by
  cases lexeme with
  | condition index => cases other
  | not spelling => cases spelling <;> simp_all [Lexeme.Ends, Lexeme.text, operator, stripPrefix, word, Lexeme.token]
  | join isAnd spelling =>
    cases isAnd <;> cases spelling <;>
      simp_all [Lexeme.Ends, Lexeme.text, operator, stripPrefix, word, Lexeme.token]
  | opening => simp [Lexeme.text, operator, stripPrefix, word, Lexeme.token]
  | closing => simp [Lexeme.text, operator, stripPrefix, word, Lexeme.token]

theorem text_trimmed (texts : List (List Char)) (other : lexeme.index? = none) :
    ∃ first rest, lexeme.text texts = first :: rest ∧ isWhitespace first = false := by
  cases lexeme with
  | condition index => cases other
  | not spelling => cases spelling <;> exact ⟨_, _, rfl, by decide⟩
  | join isAnd spelling => cases isAnd <;> cases spelling <;> exact ⟨_, _, rfl, by decide⟩
  | opening => exact ⟨_, _, rfl, by decide⟩
  | closing => exact ⟨_, _, rfl, by decide⟩

end Operator

section Openings

variable {first last text after rest : List Char}

theorem Openings.append (front : Openings first) (back : Openings last) : Openings (first ++ last) := by
  induction front with
  | nil => exact back
  | blank white _ ih => exact .blank white ih
  | opening _ ih => exact .opening ih
  | bang _ ih => exact .bang ih
  | not _ ih => exact .not ih

theorem Openings.of_blanks (blanks : first.all isWhitespace) : Openings first := by
  induction first with
  | nil => exact .nil
  | cons c rest ih =>
    rw [List.all_cons, Bool.and_eq_true] at blanks
    exact .blank blanks.1 (ih blanks.2)

theorem readable_of_head {first : Char} (shown : isWhitespace first = false)
    (other : first ∉ ['(', '!', 'n']) : Readable (first :: rest) where
  trimmed := ⟨first, rest, rfl, shown⟩
  expression := by
    rintro (_ | ⟨white, -⟩ | _ | _ | _)
    · rw [shown] at white
      cases white
    all_goals exact other (by decide)

/-- What stands behind the first characters of a `not`. -/
def Amid (after : List Char) : Prop := ∃ rest, after = 'o' :: 't' :: rest ∨ after = 't' :: rest

/-- Openings are cut between two of them, or amid a `not`. -/
theorem Openings.cut (openings : Openings (first ++ last)) : Openings first ∨ Amid last := by
  generalize whole : first ++ last = text at openings
  induction openings generalizing first with
  | nil =>
    obtain ⟨rfl, -⟩ := List.append_eq_nil_iff.mp whole
    exact .inl .nil
  | blank white _ ih =>
    cases first with
    | nil => exact .inl .nil
    | cons c first =>
      obtain ⟨rfl, more⟩ := List.cons_eq_cons.mp whole
      exact (ih more).imp_left (.blank white)
  | opening _ ih =>
    cases first with
    | nil => exact .inl .nil
    | cons c first =>
      obtain ⟨rfl, more⟩ := List.cons_eq_cons.mp whole
      exact (ih more).imp_left .opening
  | bang _ ih =>
    cases first with
    | nil => exact .inl .nil
    | cons c first =>
      obtain ⟨rfl, more⟩ := List.cons_eq_cons.mp whole
      exact (ih more).imp_left .bang
  | not _ ih =>
    match first, whole with
    | [], _ => exact .inl .nil
    | [_], whole => exact .inr ⟨_, .inl (List.cons_eq_cons.mp whole).2⟩
    | [_, _], whole => exact .inr ⟨_, .inr (List.cons_eq_cons.mp (List.cons_eq_cons.mp whole).2).2⟩
    | _ :: _ :: _ :: first, whole =>
      simp only [List.cons_append, List.cons.injEq] at whole
      obtain ⟨rfl, rfl, rfl, more⟩ := whole
      exact (ih more).imp_left .not

/-- A condition that stands already at the openings in front of it ends amid a `not`. -/
theorem Openings.amid (openings : Openings first) (front : first ≠ []) (expression : ¬Openings text)
    (early : text ++ after = first ++ (text ++ rest)) : Amid after := by
  induction length : text.length using Nat.strong_induction_on generalizing text with
  | _ size ih =>
    rcases List.append_eq_append_iff.mp early with ⟨more, whole, same⟩ | ⟨more, whole, same⟩
    · -- The text ends within the openings.
      rw [whole] at openings
      rcases openings.cut with opens | ⟨tail, cut⟩
      · exact absurd opens expression
      · refine ⟨tail ++ (text ++ rest), ?_⟩
        rw [same]
        rcases cut with rfl | rfl
        · exact .inl rfl
        · exact .inr rfl
    · -- The text begins with the openings, and so does what is behind them.
      rw [whole] at expression length
      have less : more.length < size := by
        have := List.length_pos_iff.mpr front
        rw [← length, List.length_append]
        omega
      have again : more ++ after = first ++ (more ++ rest) := by
        rw [← same, whole, List.append_assoc]
      exact ih _ less (fun opens => expression (openings.append opens)) again rfl

end Openings

section Tokens

variable {isAlphanumeric : Char → Bool} {texts : List (List Char)} {trailing : List Char}
  {pieces : List Piece} {after : List Char} {fuel next : Nat}

/-- No tokens of a decision begin amid a `not`, right behind an operand. -/
theorem not_separated_of_amid (amid : Amid after) {tokens : List Token}
    (read : tokensFrom isAlphanumeric texts fuel after next = some tokens) : ¬Separated true tokens := by
  have trimmed : after.dropWhile isWhitespace = after := by
    obtain ⟨rest, rfl | rfl⟩ := amid <;> rfl
  have none : operator isAlphanumeric after = none := by
    obtain ⟨rest, rfl | rfl⟩ := amid <;> simp [operator, stripPrefix, word]
  have some : after ≠ [] := by
    obtain ⟨rest, rfl | rfl⟩ := amid <;> simp
  cases fuel with
  | zero => cases read
  | succ fuel =>
    rw [tokensFrom, trimmed, if_neg some, none] at read
    split at read
    · obtain ⟨more, _, rfl⟩ := Option.map_eq_some_iff.mp read
      exact fun separated => Bool.noConfusion separated.1
    · cases read

theorem openings_text (texts : List (List Char)) {lexeme : Lexeme} {rest : List Lexeme} (other : lexeme.index? = none)
    (operand : Alternates false (lexeme :: rest)) :
    Openings (lexeme.text texts) ∧ Alternates false rest := by
  cases lexeme with
  | condition index => cases other
  | not spelling =>
    refine ⟨?_, operand.2⟩
    cases spelling with
    | symbol => exact .bang .nil
    | _ => exact .not .nil
  | opening => exact ⟨.opening .nil, operand.2⟩
  | join isAnd spelling => cases operand.1
  | closing => cases operand.1

theorem exists_openings (spaced : Spaced isAlphanumeric texts trailing pieces)
    (operand : Alternates false (pieces.map Prod.snd)) : ∃ openings index rest,
      Openings openings ∧ ((pieces.map Prod.snd).filterMap Lexeme.index?).head? = some index ∧
        render texts trailing pieces = openings ++ (texts.getD index [] ++ rest) := by
  induction pieces with
  | nil => cases operand
  | cons piece pieces ih =>
    obtain ⟨blanks, lexeme⟩ := piece
    obtain ⟨white, -, later⟩ := spaced
    have front := Openings.of_blanks white
    cases kind : lexeme.index? with
    | some index =>
      cases lexeme with
      | condition other =>
        cases kind
        exact ⟨blanks, index, render texts trailing pieces, front, rfl, rfl⟩
      | _ => cases kind
    | none =>
      obtain ⟨opens, operand⟩ := openings_text texts kind operand
      obtain ⟨openings, index, rest, more, first, same⟩ := ih later operand
      refine ⟨blanks ++ lexeme.text texts ++ openings, index, rest, (front.append opens).append more, ?_, ?_⟩
      · rw [List.map_cons, List.filterMap_cons_none kind, first]
      · simp only [render, same, List.append_assoc]

theorem nextCondition_eq_some {rest : List Char} :
    nextCondition texts next rest = some after ↔
      ∃ text, texts[next]? = some text ∧ text ≠ [] ∧ rest = text ++ after := by
  simp only [nextCondition, Option.bind_eq_some_iff, Option.filter_eq_some_iff, stripPrefix_eq_some,
    decide_eq_true_eq, and_assoc]

/-- Where the next condition's text stands already at an opening in front of it, what is left
begins amid a `not`. -/
theorem amid_of_early (readable : ∀ text ∈ texts, Readable text)
    (spaced : Spaced isAlphanumeric texts trailing pieces) {lexeme : Lexeme}
    (other : lexeme.index? = none) (operand : Alternates false (lexeme :: pieces.map Prod.snd))
    {count : Nat} (numbered : (pieces.map Prod.snd).filterMap Lexeme.index? = List.range' next count)
    (early : nextCondition texts next (lexeme.text texts ++ render texts trailing pieces) = some after) :
    Amid after := by
  obtain ⟨opens, operand⟩ := openings_text texts other operand
  obtain ⟨openings, index, rest, more, first, same⟩ := exists_openings spaced operand
  obtain ⟨text, found, -, stands⟩ := nextCondition_eq_some.mp early
  have here : index = next := by
    rw [numbered, List.head?_range'] at first
    split at first
    · cases first
    · exact (Option.some.inj first).symm
  have own : texts.getD index [] = text := by
    rw [here, List.getD_eq_getElem?_getD, found]
    rfl
  have front : lexeme.text texts ++ openings ≠ [] := by
    obtain ⟨c, tail, spelled, -⟩ := text_trimmed texts other
    simp [spelled]
  have stood : text ++ after = lexeme.text texts ++ openings ++ (text ++ rest) := by
    rw [← stands, same, own, List.append_assoc]
  exact (opens.append more).amid front (readable text (List.mem_of_getElem? found)).expression stood

theorem dropWhile_render {blanks text : List Char} (after : List Char) (white : blanks.all isWhitespace)
    (trimmed : ∃ first rest, text = first :: rest ∧ isWhitespace first = false) :
    (blanks ++ (text ++ after)).dropWhile isWhitespace = text ++ after := by
  obtain ⟨first, rest, rfl, other⟩ := trimmed
  rw [List.dropWhile_append_of_pos (List.all_eq_true.mp white), List.cons_append,
    List.dropWhile_cons_of_neg (by simp [other])]

theorem found_cons {lexeme : Lexeme} {blanks : List Char} (other : lexeme.index? = none) :
    Found texts trailing next ((blanks, lexeme) :: pieces) ↔
      nextCondition texts next (lexeme.text texts ++ render texts trailing pieces) = none ∧
        Found texts trailing next pieces := by
  cases lexeme with
  | condition index => cases other
  | _ => rfl

theorem alternates_tail {lexeme : Lexeme} {rest : List Lexeme} {behind : Bool}
    (other : lexeme.index? = none) (alternates : Alternates behind (lexeme :: rest)) :
    ∃ behind', Alternates behind' rest ∧
      ∀ tokens, Separated behind (lexeme.token :: tokens) → Separated behind' tokens := by
  cases lexeme with
  | condition index => cases other
  | closing => exact ⟨true, alternates.2, fun tokens separated => separated⟩
  | join isAnd spelling =>
    refine ⟨false, alternates.2, fun tokens separated => ?_⟩
    cases isAnd <;> exact separated
  | _ => exact ⟨false, alternates.2, fun tokens separated => separated⟩

theorem tokensFrom_render (readable : ∀ text ∈ texts, Readable text)
    (spaced : Spaced isAlphanumeric texts trailing pieces) {behind : Bool}
    (alternates : Alternates behind (pieces.map Prod.snd)) {count : Nat}
    (numbered : (pieces.map Prod.snd).filterMap Lexeme.index? = List.range' next count)
    (all : next + count = texts.length) (enough : (render texts trailing pieces).length < fuel) :
    (Found texts trailing next pieces →
      tokensFrom isAlphanumeric texts fuel (render texts trailing pieces) next =
        some (pieces.map fun piece => piece.2.token)) ∧
    ∀ tokens, tokensFrom isAlphanumeric texts fuel (render texts trailing pieces) next = some tokens →
      Separated behind tokens → Found texts trailing next pieces := by
  induction pieces generalizing fuel next behind count with
  | nil =>
    obtain ⟨fuel, rfl⟩ := Nat.exists_eq_succ_of_ne_zero (Nat.ne_of_gt (Nat.zero_lt_of_lt enough))
    refine ⟨fun _ => ?_, fun _ _ _ => trivial⟩
    have ends : next = texts.length := by
      cases count with
      | zero => exact all
      | succ count => cases numbered
    have blank : trailing.dropWhile isWhitespace = [] :=
      List.dropWhile_eq_nil_iff.mpr (List.all_eq_true.mp spaced)
    rw [render, tokensFrom, blank, if_pos rfl, if_pos ends]
    rfl
  | cons piece pieces ih =>
    obtain ⟨fuel, rfl⟩ := Nat.exists_eq_succ_of_ne_zero (Nat.ne_of_gt (Nat.zero_lt_of_lt enough))
    obtain ⟨blanks, lexeme⟩ := piece
    obtain ⟨white, ends, later⟩ := spaced
    cases kind : lexeme.index? with
    | some index =>
      cases lexeme with
      | condition other =>
        cases kind
        obtain ⟨rfl, alternates⟩ := alternates
        have listed : List.range' next count =
            index :: (pieces.map Prod.snd).filterMap Lexeme.index? := numbered.symm
        obtain ⟨rfl, more, rest⟩ := List.range'_eq_cons_iff.mp listed
        have inside : next < texts.length := by omega
        have found : texts[next]? = some texts[next] := List.getElem?_eq_getElem inside
        have text : (Lexeme.condition next).text texts = texts[next] := by
          rw [Lexeme.text, List.getD_eq_getElem?_getD, found]
          rfl
        have trimmed := (readable texts[next] (List.getElem_mem inside)).trimmed
        have drop := dropWhile_render (render texts trailing pieces) white trimmed
        obtain ⟨first, tail, spelled, -⟩ := trimmed
        have filled : texts[next] ++ render texts trailing pieces ≠ [] := by simp [spelled]
        have less : (render texts trailing pieces).length < fuel := by
          simp [render, text, spelled] at enough
          omega
        have here : nextCondition texts next (texts[next] ++ render texts trailing pieces) =
            some (render texts trailing pieces) :=
          nextCondition_eq_some.mpr ⟨_, found, by simp [spelled], rfl⟩
        obtain ⟨forth, back⟩ := ih later alternates rest (by omega) less
        rw [Found, render, text, tokensFrom, drop, if_neg filled, here]
        dsimp only
        refine ⟨fun found => by rw [forth found]; rfl, fun tokens read separated => ?_⟩
        obtain ⟨others, among, rfl⟩ := Option.map_eq_some_iff.mp read
        exact back others among separated.2
      | _ => cases kind
    | none =>
      have trimmed := text_trimmed texts kind
      have drop := dropWhile_render (render texts trailing pieces) white trimmed
      have filled : lexeme.text texts ++ render texts trailing pieces ≠ [] := by
        obtain ⟨first, rest, spelled, -⟩ := trimmed
        simp [spelled]
      have less : (render texts trailing pieces).length < fuel := by
        obtain ⟨first, rest, spelled, -⟩ := trimmed
        simp [render, spelled] at enough
        omega
      obtain ⟨behind', alternates', separated'⟩ := alternates_tail kind alternates
      rw [List.map_cons, List.filterMap_cons_none kind] at numbered
      obtain ⟨forth, back⟩ := ih later alternates' numbered all less
      rw [found_cons kind, render, tokensFrom, drop, if_neg filled]
      cases early : nextCondition texts next (lexeme.text texts ++ render texts trailing pieces) with
      | none =>
        rw [operator_text kind ends]
        dsimp only
        refine ⟨fun found => by rw [forth found.2]; rfl, fun tokens read separated => ⟨rfl, ?_⟩⟩
        obtain ⟨more, rest, rfl⟩ := Option.map_eq_some_iff.mp read
        exact back more rest (separated' more separated)
      | some after =>
        refine ⟨fun found => (by cases found.1), fun tokens read separated => ?_⟩
        obtain ⟨more, rest, rfl⟩ := Option.map_eq_some_iff.mp read
        obtain ⟨rfl, separated⟩ := separated
        have amid := amid_of_early readable later kind alternates numbered early
        exact (not_separated_of_amid amid rest separated).elim

end Tokens

end Supercov.DecisionShape
