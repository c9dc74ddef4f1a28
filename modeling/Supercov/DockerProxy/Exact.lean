import Supercov.DockerProxy.Relayed

/-!
# When a body is relayed as it is framed

With peers that never fail, a size too large is a panic and a stream that ends in the trailers a
success; every other body is relayed as it is framed, whatever the peers do.
-/

namespace Supercov.DockerProxy

def steady : Peers where
  fails := fun _ => false
  most := fun _ => 0

section Steady

variable {link : Link} {fuel : Nat}

theorem operate_steady : operate steady link = .ok { link with operations := link.operations + 1 } :=
  rfl

theorem writeAll_steady {bytes : List UInt8} : writeAll steady bytes link =
    .ok { link with output := link.output ++ bytes, operations := link.operations + 1 } := rfl

theorem readLine_steady {line rest : List UInt8} {text : List Char}
    (first : takeLine link.input = (line, rest)) (read : JsonText.readUtf8 line = some text) :
    readLine steady link =
      .ok (line, text, { link with input := rest, operations := link.operations + 1 }) := by
  rw [readLine, operate_steady, Outcome.ok_bind]
  simp only [first, read]

theorem copyExact_steady {remaining : Nat} (enough : link.input.length < fuel)
    (held : remaining ≤ link.input.length) :
    ∃ next, copyExact steady fuel remaining link = .ok next := by
  induction fuel generalizing link remaining with
  | zero => omega
  | succ fuel ih =>
    rw [copyExact]
    by_cases none : remaining = 0
    · exact ⟨link, if_pos none⟩
    · rw [if_neg none]
      dsimp only
      rw [checkRange_of_le (Nat.min_le_left _ _), Outcome.ok_bind, operate_steady, Outcome.ok_bind]
      have one : min (min (min bufferSize remaining) (steady.most (link.operations + 1) + 1))
          link.input.length = 1 := by
        have most : steady.most (link.operations + 1) = 0 := rfl
        have buffer : bufferSize = 65536 := rfl
        omega
      dsimp only
      rw [one, if_neg Nat.one_ne_zero, checkRange_of_le (by decide), Outcome.ok_bind,
        writeAll_steady, Outcome.ok_bind]
      have less : (Checked.sub remaining 1 : Outcome RelayError Nat) = .ok (remaining - 1) :=
        if_pos (Nat.one_le_iff_ne_zero.mpr none)
      rw [less, Outcome.ok_bind]
      apply ih <;> rw [List.length_drop] <;> omega

theorem readUtf8_nil : JsonText.readUtf8 [] = some [] := JsonText.readUtf8_utf8 []

theorem relayTrailers_steady (enough : link.input.length < fuel) (cut : CutTrailers link.input) :
    ∃ next, relayTrailers steady fuel link = .ok next := by
  have empty {link : Link} {fuel : Nat} (none : link.input = []) (more : 0 < fuel) :
      ∃ next, relayTrailers steady fuel link = .ok next := by
    obtain ⟨fuel, rfl⟩ := Nat.exists_eq_succ_of_ne_zero (Nat.pos_iff_ne_zero.mp more)
    rw [relayTrailers, readLine_steady (by rw [none]; rfl) readUtf8_nil,
      Outcome.ok_bind]
    exact ⟨_, if_pos rfl⟩
  generalize whole : link.input = bytes at cut
  induction cut generalizing link fuel with
  | ended => exact empty whole (by omega)
  | @within line text open_ begun read =>
    cases fuel with
    | zero => omega
    | succ fuel =>
      rw [relayTrailers, readLine_steady (by rw [whole]; exact takeLine_of_not_mem open_) read,
        Outcome.ok_bind]
      dsimp only
      rw [if_neg begun, writeAll_steady, Outcome.ok_bind]
      by_cases blank : Text.trim text = []
      · exact ⟨_, if_pos blank⟩
      · rw [if_neg blank]
        have length := List.length_pos_of_ne_nil begun
        rw [whole] at enough
        exact empty rfl (by omega)
  | @field line text rest ended read shown _ ih =>
    cases fuel with
    | zero => omega
    | succ fuel =>
      rw [relayTrailers, readLine_steady (by rw [whole]; exact takeLine_of_isLine ended _) read,
        Outcome.ok_bind]
      dsimp only
      have begun := ne_nil_of_isLine ended
      have length := List.length_pos_of_ne_nil begun
      rw [if_neg begun, writeAll_steady, Outcome.ok_bind, if_neg shown]
      rw [whole, List.length_append] at enough
      exact ih (by dsimp only; omega) rfl

theorem relayChunks_line {line rest : List UInt8} {size : Nat}
    (first : takeLine link.input = (line, rest)) (sized : sizeIn line = some size) :
    ∃ next : Link, next.input = rest ∧ relayChunks steady (fuel + 1) link =
      (if size = 0 then do
        let link ← relayTrailers steady (next.input.length + 1) next
        operate steady link
      else do
        let total ← Checked.add 64 size 2
        let link ← copyExact steady (next.input.length + 1) total next
        let link ← operate steady link
        relayChunks steady fuel link) := by
  obtain ⟨text, read, sized'⟩ := Option.bind_eq_some_iff.mp sized
  have begun : line ≠ [] := by
    rintro rfl
    cases sized
  rw [relayChunks, readLine_steady first read, Outcome.ok_bind]
  dsimp only
  rw [if_neg begun, writeAll_steady, Outcome.ok_bind, sized']
  exact ⟨_, rfl, rfl⟩

theorem relayChunks_chunk {line chunk rest : List UInt8} {size : Nat} (ended : IsLine line)
    (sized : sizeIn line = some size) (nonzero : size ≠ 0) (length : chunk.length = size + 2)
    (fits : size + 2 < 2 ^ 64) (whole : link.input = line ++ (chunk ++ rest)) :
    ∃ next : Link, next.input = rest ∧
      relayChunks steady (fuel + 1) link = relayChunks steady fuel next := by
  obtain ⟨next, left, relayed⟩ := relayChunks_line
    (by rw [whole]; exact takeLine_of_isLine ended _) sized
  rw [relayed, if_neg nonzero, Checked.add_eq_ok fits, Outcome.ok_bind]
  have held : size + 2 ≤ next.input.length := by
    rw [left, List.length_append, length]
    omega
  obtain ⟨copied, done⟩ := copyExact_steady (Nat.lt_succ_self _) held
  obtain ⟨-, after, -⟩ := (copyExact_yields (Nat.lt_succ_self _)).of_ok done
  rw [done, Outcome.ok_bind, operate_steady, Outcome.ok_bind]
  refine ⟨_, ?_, rfl⟩
  dsimp only
  rw [after, left, List.drop_left' length]

theorem relayChunks_cut (enough : link.input.length < fuel) (small : ¬ Oversized link.input)
    (cut : Cut link.input) : ∃ next, relayChunks steady fuel link = .ok next := by
  have trailers {next : Link} (cut : CutTrailers next.input) :
      ∃ last, (relayTrailers steady (next.input.length + 1) next >>= operate steady) = .ok last := by
    obtain ⟨trailed, done⟩ := relayTrailers_steady (Nat.lt_succ_self _) cut
    exact ⟨_, by rw [done, Outcome.ok_bind, operate_steady]⟩
  generalize whole : link.input = bytes at cut
  induction cut generalizing link fuel with
  | @within line open_ zero =>
    cases fuel with
    | zero => omega
    | succ fuel =>
      obtain ⟨next, left, relayed⟩ := relayChunks_line
        (by rw [whole]; exact takeLine_of_not_mem open_) zero
      rw [relayed, if_pos rfl]
      exact trailers (left ▸ .ended)
  | @last line rest ended zero more =>
    cases fuel with
    | zero => omega
    | succ fuel =>
      obtain ⟨next, left, relayed⟩ := relayChunks_line
        (by rw [whole]; exact takeLine_of_isLine ended _) zero
      rw [relayed, if_pos rfl]
      exact trailers (left ▸ more)
  | @behind line chunk rest size ended sized nonzero length _ ih =>
    cases fuel with
    | zero => omega
    | succ fuel =>
      rw [whole] at small enough
      have ⟨fits, small⟩ := not_oversized_behind ended sized nonzero length small
      obtain ⟨next, left, relayed⟩ :=
        relayChunks_chunk ended sized nonzero length fits whole
      rw [relayed]
      rw [List.length_append, List.length_append] at enough
      exact ih (by rw [left]; omega) (left ▸ small) left

theorem relayChunks_oversized (enough : link.input.length < fuel) (large : Oversized link.input) :
    relayChunks steady fuel link = .crashed := by
  have overflow {size : Nat} (large : 2 ^ 64 ≤ size + 2) :
      (Checked.add 64 size 2 : Outcome RelayError Nat) = .crashed := if_neg (Nat.not_lt.mpr large)
  generalize whole : link.input = bytes at large
  induction large generalizing link fuel with
  | @here bytes line rest size first sized large =>
    cases fuel with
    | zero => omega
    | succ fuel =>
      obtain ⟨next, -, relayed⟩ := relayChunks_line (whole ▸ first) sized
      rw [relayed, if_neg (by omega), overflow large]
      rfl
  | @behind line chunk rest size ended sized nonzero length _ ih =>
    cases fuel with
    | zero => omega
    | succ fuel =>
      by_cases fits : size + 2 < 2 ^ 64
      · obtain ⟨next, left, relayed⟩ :=
          relayChunks_chunk ended sized nonzero length fits whole
        rw [whole, List.length_append, List.length_append] at enough
        rw [relayed]
        exact ih (by rw [left]; omega) left
      · obtain ⟨next, -, relayed⟩ := relayChunks_line
          (by rw [whole]; exact takeLine_of_isLine ended _) sized
        rw [relayed, if_neg nonzero, overflow (Nat.not_lt.mp fits)]
        rfl

end Steady

section Apart

theorem lines_eq {line line' rest rest' : List UInt8} (ended : IsLine line) (ended' : IsLine line')
    (same : line ++ rest = line' ++ rest') : line = line' ∧ rest = rest' := by
  have first := takeLine_of_isLine ended rest
  rw [same, takeLine_of_isLine ended'] at first
  exact ⟨(Prod.mk.inj first).1.symm, (Prod.mk.inj first).2.symm⟩

theorem not_open_of_isLine {line rest : List UInt8} (ended : IsLine line) :
    newline ∈ line ++ rest := by
  obtain ⟨content, rfl, -⟩ := ended
  simp

theorem Trailers.not_cut {bytes : List UInt8} (trail : Trailers bytes) (rest : List UInt8) :
    ¬ CutTrailers (bytes ++ rest) := by
  intro cut
  generalize whole : bytes ++ rest = all at cut
  induction trail generalizing all with
  | @blank line text ended read blank =>
    cases cut with
    | ended => exact ne_nil_of_isLine ended (List.append_eq_nil_iff.mp whole).1
    | within open_ => exact open_ (whole ▸ not_open_of_isLine ended)
    | field ended' read' shown' =>
      obtain ⟨rfl, -⟩ := lines_eq ended ended' whole
      rw [read, Option.some.injEq] at read'
      exact shown' (read' ▸ blank)
  | @field line text more ended read shown _ ih =>
    rw [List.append_assoc] at whole
    cases cut with
    | ended => exact ne_nil_of_isLine ended (List.append_eq_nil_iff.mp whole).1
    | within open_ => exact open_ (whole ▸ not_open_of_isLine ended)
    | field ended' _ _ cut =>
      obtain ⟨-, rest_eq⟩ := lines_eq ended ended' whole
      exact ih _ rest_eq cut

theorem Body.not_cut {bytes payload : List UInt8} (body : Body bytes payload) (rest : List UInt8) :
    ¬ Cut (bytes ++ rest) := by
  intro cut
  generalize whole : bytes ++ rest = all at cut
  induction body generalizing all with
  | @last line trailers ended zero trail =>
    rw [List.append_assoc] at whole
    cases cut with
    | within open_ => exact open_ (whole ▸ not_open_of_isLine ended)
    | last ended' _ cut =>
      obtain ⟨-, rest_eq⟩ := lines_eq ended ended' whole
      exact trail.not_cut rest (rest_eq ▸ cut)
    | behind ended' sized' nonzero' =>
      obtain ⟨rfl, -⟩ := lines_eq ended ended' whole
      rw [zero, Option.some.injEq] at sized'
      exact nonzero' sized'.symm
  | @chunk line payload ending more payloads size ended sized nonzero payload_length ending_length _
      ih =>
    have length : (payload ++ ending).length = size + 2 := by
      rw [List.length_append, payload_length, ending_length]
    rw [List.append_assoc, List.append_assoc] at whole
    cases cut with
    | within open_ => exact open_ (whole ▸ not_open_of_isLine ended)
    | last ended' zero' =>
      obtain ⟨rfl, -⟩ := lines_eq ended ended' whole
      rw [sized, Option.some.injEq] at zero'
      exact nonzero zero'
    | behind ended' sized' _ length' cut =>
      obtain ⟨rfl, rest_eq⟩ := lines_eq ended ended' whole
      rw [sized, Option.some.injEq] at sized'
      obtain ⟨-, rest_eq⟩ := List.append_inj rest_eq (by rw [length, length', sized'])
      exact ih _ rest_eq cut

end Apart

/-- A body is relayed and read as it is framed if and only if it is not chunked, or no chunk that
is reached is too large and the stream does not end in the trailers. -/
theorem relays_iff (head : Head) (input : List UInt8) :
    Relays head input ↔ (head.chunked = true → ¬ Oversized input ∧ ¬ Cut input) := by
  constructor
  · intro relays chunked
    have relayed := (relays steady [] 0).1
    rw [relayBody, if_pos chunked] at relayed
    have small : ¬ Oversized input := by
      intro large
      rw [relayChunks_oversized (Nat.lt_succ_self _) large] at relayed
      exact relayed
    refine ⟨small, ?_⟩
    intro cut
    have start : ∃ next, relayChunks steady (input.length + 1)
        { input, output := [], operations := 0 } = .ok next :=
      relayChunks_cut (Nat.lt_succ_self _) small cut
    obtain ⟨next, done⟩ := start
    obtain ⟨body, payload, framed, whole, -⟩ := relayed.of_ok done
    rw [Framed, if_pos chunked] at framed
    exact framed.not_cut next.input (whole ▸ cut)
  · intro allowed peers output operations
    by_cases chunked : head.chunked = true
    · obtain ⟨small, uncut⟩ := allowed chunked
      have relayed (link : Link) (whole : link.input = input) :
          (relayChunks peers (link.input.length + 1) link).Yields _ :=
        relayChunks_yields (Nat.lt_succ_self _) (whole ▸ small)
      have body {bytes payload : List UInt8} {next : Link} (whole : input = bytes ++ next.input)
          (kind : Body bytes payload ∨ (Cut bytes ∧ next.input = [])) : Body bytes payload := by
        apply kind.resolve_right
        rintro ⟨cut, done⟩
        rw [done, List.append_nil] at whole
        exact uncut (whole ▸ cut)
      constructor
      · rw [relayBody, if_pos chunked]
        apply (relayed _ rfl).mono
        rintro next ⟨bytes, payload, whole, out, -, kind⟩
        refine ⟨bytes, payload, ?_, whole, out⟩
        rw [Framed, if_pos chunked]
        exact body whole kind
      · rw [readBody, relayBody, if_pos chunked]
        apply Outcome.Yields.bind (relayed _ rfl)
        rintro next ⟨bytes, payload, whole, out, decodes, kind⟩
        rw [if_pos chunked, out, List.nil_append, decodes _ _ (Nat.lt_succ_self _)]
        refine ⟨bytes, ?_, whole⟩
        rw [Framed, if_pos chunked]
        exact body whole kind
    · have copied (link : Link) : (relayBody peers head link).Yields fun next =>
          ∃ bytes, bytes.length = head.contentLength.getD 0 ∧ link.input = bytes ++ next.input ∧
            next.output = link.output ++ bytes := by
        rw [relayBody, if_neg chunked]
        cases head.contentLength with
        | none => exact ⟨[], rfl, rfl, (List.append_nil _).symm⟩
        | some length =>
          apply Outcome.Yields.bind (copyExact_yields (Nat.lt_succ_self _))
          rintro next ⟨held, after, out⟩
          apply operate_yields.mono
          rintro last ⟨left, out'⟩
          refine ⟨link.input.take length, List.length_take_of_le held, ?_, out'.trans out⟩
          rw [left, after, List.take_append_drop]
      constructor
      · apply (copied _).mono
        rintro next ⟨bytes, length, whole, out⟩
        refine ⟨bytes, bytes, ?_, whole, out⟩
        rw [Framed, if_neg chunked]
        exact ⟨rfl, length⟩
      · apply Outcome.Yields.bind (copied _)
        rintro next ⟨bytes, length, whole, out⟩
        rw [if_neg chunked, out]
        refine ⟨bytes, ?_, whole⟩
        rw [Framed, if_neg chunked]
        exact ⟨rfl, length⟩

def inChunks : Head where
  headers := [("Transfer-Encoding".toList, "chunked".toList)]

/-- The largest size that a number of 64 bits holds is a panic. -/
theorem oversized_crashes :
    relayBody steady inChunks
      { input := JsonText.utf8 "ffffffffffffffff\r\n".toList, output := [], operations := 0 } =
        .crashed ∧
      ¬ Relays inChunks (JsonText.utf8 "ffffffffffffffff\r\n".toList) := by
  have large : Oversized (JsonText.utf8 "ffffffffffffffff\r\n".toList) := by
    have whole : takeLine (JsonText.utf8 "ffffffffffffffff\r\n".toList) =
        (JsonText.utf8 "ffffffffffffffff\r\n".toList, []) := by decide
    have sized : sizeIn (JsonText.utf8 "ffffffffffffffff\r\n".toList) = some (2 ^ 64 - 1) := by
      rw [sizeIn, JsonText.readUtf8_utf8]
      decide
    exact .here whole sized (by decide)
  constructor
  · exact relayChunks_oversized (Nat.lt_succ_self _) large
  · exact fun relays => ((relays_iff _ _).mp relays (by decide)).1 large

end Supercov.DockerProxy
