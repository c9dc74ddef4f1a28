import Supercov.DockerProxy.Relay

/-!
# What a relay relays

One lemma for each operation says what it takes from the input and adds to the output; those of
the loops are their inductions.
-/

namespace Supercov.DockerProxy

section Operations

variable {peers : Peers} {link : Link} {fuel : Nat}

theorem operate_yields : (operate peers link).Yields fun next =>
    next.input = link.input ∧ next.output = link.output := by
  rw [operate]
  split
  · trivial
  · exact ⟨rfl, rfl⟩

theorem readLine_yields : (readLine peers link).Yields fun (line, text, next) =>
    takeLine link.input = (line, next.input) ∧ next.output = link.output ∧
      JsonText.readUtf8 line = some text := by
  apply Outcome.Yields.bind operate_yields
  rintro next ⟨input, output⟩
  dsimp only
  split
  · trivial
  · next text read =>
    refine ⟨?_, output, read⟩
    rw [← input]

theorem writeAll_yields {bytes : List UInt8} : (writeAll peers bytes link).Yields fun next =>
    next.input = link.input ∧ next.output = link.output ++ bytes := by
  apply Outcome.Yields.bind operate_yields
  rintro next ⟨input, output⟩
  exact ⟨input, congrArg (· ++ bytes) output⟩

theorem checkRange_of_le {stop length : Nat} (inside : stop ≤ length) :
    checkRange stop length = .ok ⟨⟩ := if_pos inside

theorem copyExact_yields {remaining : Nat} (enough : link.input.length < fuel) :
    (copyExact peers fuel remaining link).Yields fun next => remaining ≤ link.input.length ∧
      next.input = link.input.drop remaining ∧
      next.output = link.output ++ link.input.take remaining := by
  induction fuel generalizing link remaining with
  | zero => omega
  | succ fuel ih =>
    rw [copyExact]
    split_ifs with none
    · subst none
      simp
    · dsimp only
      rw [checkRange_of_le (Nat.min_le_left _ _), Outcome.ok_bind]
      apply Outcome.Yields.bind operate_yields
      rintro next ⟨input, output⟩
      generalize reads : min (min (min bufferSize remaining) (peers.most next.operations + 1))
        next.input.length = read
      by_cases empty : read = 0
      · rw [if_pos empty]
        trivial
      · rw [if_neg empty]
        have short : read ≤ remaining := by omega
        have held : read ≤ link.input.length := by rw [← input]; omega
        have buffered : read ≤ bufferSize := by omega
        rw [checkRange_of_le buffered, Outcome.ok_bind]
        apply Outcome.Yields.bind writeAll_yields
        rintro written ⟨left, wrote⟩
        rw [input] at left wrote
        rw [output] at wrote
        apply Outcome.Yields.bind (Checked.sub_yields short)
        rintro _ rfl
        have shorter : written.input.length < fuel := by
          rw [left, List.length_drop]
          omega
        apply (ih shorter).mono
        rintro last ⟨enough, after, out⟩
        rw [left] at enough after out
        rw [List.length_drop] at enough
        refine ⟨by omega, ?_, ?_⟩
        · rw [after, List.drop_drop]
          congr 1
          omega
        · rw [out, wrote, List.append_assoc, ← List.take_add]
          congr 2
          omega

theorem relayTrailers_yields (enough : link.input.length < fuel) :
    (relayTrailers peers fuel link).Yields fun next => ∃ bytes,
      link.input = bytes ++ next.input ∧ next.output = link.output ++ bytes ∧
        (Trailers bytes ∨ (CutTrailers bytes ∧ next.input = [])) := by
  induction fuel generalizing link with
  | zero => omega
  | succ fuel ih =>
    rw [relayTrailers]
    apply Outcome.Yields.bind readLine_yields
    rintro ⟨line, text, next⟩ ⟨first, output, read⟩
    obtain ⟨whole, kind⟩ := takeLine_cases first
    dsimp only
    by_cases empty : line = []
    · rw [if_pos empty]
      subst empty
      have left : next.input = [] := by
        rcases kind with ended | ⟨-, left⟩
        · exact absurd rfl (ne_nil_of_isLine ended)
        · exact left
      exact ⟨[], whole, by rw [output, List.append_nil], Or.inr ⟨.ended, left⟩⟩
    · rw [if_neg empty]
      apply Outcome.Yields.bind writeAll_yields
      rintro written ⟨left, wrote⟩
      rw [output] at wrote
      by_cases blank : Text.trim text = []
      · rw [if_pos blank]
        refine ⟨line, by rw [left, whole], wrote, ?_⟩
        rcases kind with ended | ⟨open_, rest⟩
        · exact Or.inl (.blank ended read blank)
        · exact Or.inr ⟨.within open_ empty read, by rw [left, rest]⟩
      · rw [if_neg blank]
        have shorter : written.input.length < fuel := by
          have length := congrArg List.length whole
          have begun : 0 < line.length := List.length_pos_of_ne_nil empty
          rw [List.length_append] at length
          rw [left]
          omega
        apply (ih shorter).mono
        rintro last ⟨bytes, rest, out, kind'⟩
        rw [left] at rest
        refine ⟨line ++ bytes, by rw [whole, rest, List.append_assoc],
          by rw [out, wrote, List.append_assoc], ?_⟩
        rcases kind with ended | ⟨open_, none⟩
        · rcases kind' with trail | ⟨cut, done⟩
          · exact Or.inl (.field ended read blank trail)
          · exact Or.inr ⟨.field ended read blank cut, done⟩
        · rw [none] at rest
          obtain ⟨rfl, done⟩ := List.append_eq_nil_iff.mp rest.symm
          rw [List.append_nil]
          exact Or.inr ⟨.within open_ empty read, done⟩

end Operations

section Chunks

variable {peers : Peers} {link : Link} {fuel : Nat}

def Decodes (bytes payload : List UInt8) : Prop :=
  ∀ (fuel : Nat) (decoded : List UInt8), bytes.length < fuel →
    decodeChunks fuel bytes decoded = .ok (decoded ++ payload)

theorem decodes_last {bytes line rest : List UInt8} (first : takeLine bytes = (line, rest))
    (zero : sizeIn line = some 0) : Decodes bytes [] := by
  intro fuel decoded enough
  cases fuel with
  | zero => omega
  | succ fuel =>
    rw [sizeIn] at zero
    simp only [decodeChunks, first, zero, ↓reduceIte, List.append_nil]

theorem decodes_chunk {line payload ending rest payloads : List UInt8} {size : Nat}
    (ended : IsLine line) (sized : sizeIn line = some size) (nonzero : size ≠ 0)
    (fits : size + 2 < 2 ^ 64) (payload_length : payload.length = size)
    (ending_length : ending.length = 2) (more : Decodes rest payloads) :
    Decodes (line ++ ((payload ++ ending) ++ rest)) (payload ++ payloads) := by
  intro fuel decoded enough
  have length : (payload ++ ending).length = size + 2 := by
    rw [List.length_append, payload_length, ending_length]
  cases fuel with
  | zero => omega
  | succ fuel =>
    have total : (Checked.add 64 size 2 : Outcome RelayError Nat) = .ok (size + 2) :=
      Checked.add_eq_ok fits
    have taken : ((payload ++ ending) ++ rest).take (size + 2) = payload ++ ending :=
      List.take_left' length
    have left : ((payload ++ ending) ++ rest).drop (size + 2) = rest := List.drop_left' length
    have whole : size + 2 ≤ ((payload ++ ending) ++ rest).length := by
      rw [List.length_append, length]
      omega
    have inside : (Checked.slice (payload ++ ending) 0 size : Outcome RelayError (List UInt8)) =
        .ok payload := by
      rw [Checked.slice, if_pos ⟨Nat.zero_le _, by omega⟩, List.drop_zero,
        List.take_left' payload_length]
    have shorter : rest.length < fuel := by
      have begun := List.length_pos_of_ne_nil (ne_nil_of_isLine ended)
      rw [List.length_append, List.length_append] at enough
      omega
    rw [sizeIn] at sized
    simp only [decodeChunks, takeLine_of_isLine ended, sized, if_neg nonzero, total,
      Outcome.ok_bind, checkRange_of_le whole, taken, left, inside]
    rw [more fuel _ shorter, List.append_assoc]

theorem not_oversized_behind {line chunk rest : List UInt8} {size : Nat} (ended : IsLine line)
    (sized : sizeIn line = some size) (nonzero : size ≠ 0) (length : chunk.length = size + 2)
    (small : ¬ Oversized (line ++ (chunk ++ rest))) : size + 2 < 2 ^ 64 ∧ ¬ Oversized rest := by
  constructor
  · by_contra large
    exact small (.here (takeLine_of_isLine ended _) sized (Nat.not_lt.mp large))
  · exact fun more => small (.behind ended sized nonzero length more)

theorem relayChunks_yields (enough : link.input.length < fuel) (small : ¬ Oversized link.input) :
    (relayChunks peers fuel link).Yields fun next => ∃ bytes payload,
      link.input = bytes ++ next.input ∧ next.output = link.output ++ bytes ∧
        Decodes bytes payload ∧ (Body bytes payload ∨ (Cut bytes ∧ next.input = [])) := by
  induction fuel generalizing link with
  | zero => omega
  | succ fuel ih =>
    rw [relayChunks]
    apply Outcome.Yields.bind readLine_yields
    rintro ⟨line, text, next⟩ ⟨first, output, read⟩
    obtain ⟨whole, kind⟩ := takeLine_cases first
    dsimp only
    by_cases empty : line = []
    · rw [if_pos empty]
      trivial
    · rw [if_neg empty]
      apply Outcome.Yields.bind writeAll_yields
      rintro written ⟨left, wrote⟩
      rw [output] at wrote
      have sized : sizeIn line = chunkSize text := by rw [sizeIn, read, Option.bind_some]
      split
      · trivial
      · next size of =>
        rw [of] at sized
        by_cases zero : size = 0
        · rw [if_pos zero]
          subst zero
          apply Outcome.Yields.bind (relayTrailers_yields (Nat.lt_succ_self _))
          rintro trailed ⟨bytes, rest, out, kind'⟩
          apply operate_yields.mono
          rintro last ⟨input, output'⟩
          rw [left, ← input] at rest
          have all : link.input = (line ++ bytes) ++ last.input := by
            rw [whole, rest, List.append_assoc]
          refine ⟨line ++ bytes, [], all, by rw [output', out, wrote, List.append_assoc], ?_⟩
          rcases kind with ended | ⟨open_, none⟩
          · refine ⟨decodes_last (takeLine_of_isLine ended _) sized, ?_⟩
            rcases kind' with trail | ⟨cut, done⟩
            · exact Or.inl (.last ended sized trail)
            · exact Or.inr ⟨.last ended sized cut, by rw [input, done]⟩
          · rw [none] at rest
            obtain ⟨rfl, done⟩ := List.append_eq_nil_iff.mp rest.symm
            rw [List.append_nil]
            exact ⟨decodes_last (takeLine_of_not_mem open_) sized, Or.inr ⟨.within open_ sized, done⟩⟩
        · rw [if_neg zero]
          have fits : size + 2 < 2 ^ 64 := by
            by_contra large
            exact small (.here first sized (Nat.not_lt.mp large))
          rw [Checked.add_eq_ok fits, Outcome.ok_bind]
          apply Outcome.Yields.bind (copyExact_yields (Nat.lt_succ_self _))
          rintro copied ⟨held, after, out⟩
          rw [left] at held after out
          apply Outcome.Yields.bind operate_yields
          rintro flushed ⟨input, output'⟩
          have ended : IsLine line := by
            rcases kind with ended | ⟨-, none⟩
            · exact ended
            · rw [none] at held
              exact absurd held (by simp)
          have chunk : next.input = next.input.take (size + 2) ++ flushed.input := by
            rw [input, after, List.take_append_drop]
          have length : (next.input.take (size + 2)).length = size + 2 := by
            rw [List.length_take]
            omega
          have behind : link.input = line ++ (next.input.take (size + 2) ++ flushed.input) := by
            rw [← chunk, whole]
          rw [behind] at small
          have ⟨_, small⟩ := not_oversized_behind ended sized zero length small
          have shorter : flushed.input.length < fuel := by
            have lengths := congrArg List.length behind
            rw [List.length_append, List.length_append] at lengths
            omega
          apply (ih shorter small).mono
          rintro last ⟨bytes, payload, rest, out', decodes, kind'⟩
          have split_ : next.input.take (size + 2) =
              next.input.take size ++ (next.input.drop size).take 2 := List.take_add ..
          have payload_length : (next.input.take size).length = size := by
            rw [List.length_take]
            omega
          have ending_length : ((next.input.drop size).take 2).length = 2 := by
            rw [List.length_take, List.length_drop]
            omega
          refine ⟨line ++ (next.input.take (size + 2) ++ bytes), next.input.take size ++ payload,
            ?_, ?_, ?_, ?_⟩
          · rw [behind, rest]
            simp only [List.append_assoc]
          · rw [out', output', out, wrote]
            simp only [List.append_assoc]
          · rw [split_]
            exact decodes_chunk ended sized zero fits payload_length ending_length decodes
          · rcases kind' with body | ⟨cut, done⟩
            · rw [split_]
              exact Or.inl (.chunk ended sized zero payload_length ending_length body)
            · exact Or.inr ⟨.behind ended sized zero length cut, done⟩

end Chunks

end Supercov.DockerProxy
