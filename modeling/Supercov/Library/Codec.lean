import Supercov.Library.Outcome

/-!
# Readers that take exact bytes off the front

A reader takes what a writer put down for a value when it takes just that off the
front of any input that begins so, and refuses an input that ends inside it.  Such
readers compose, also in loops whose length was itself read.
-/

namespace Codec

universe u v w x

variable {σ : Type u} {ε : Type w} {β : Type x}

/-- A computation that reads from a state that holds what is left of the input. -/
abbrev Reader (σ : Type u) (ε : Type w) (α : Type u) : Type (max u w) := StateT σ (Outcome ε) α

structure Takes {α : Type u} (rest : σ → List β) (read : Reader σ ε α) (front : List β)
    (value : α) : Prop where
  whole : ∀ state tail, rest state = front ++ tail →
    ∃ after, rest after = tail ∧ read state = .ok (value, after)
  cut : ∀ state, rest state <+: front → rest state ≠ front →
    ∃ error, read state = .refused error

/-- The reader ends with a value or an error, whatever it is given. -/
def Safe {α : Type u} (read : Reader σ ε α) : Prop := ∀ state, read state ≠ .crashed

section Compose

variable {rest : σ → List β} {α γ : Type u} {read : Reader σ ε α} {next : α → Reader σ ε γ}

theorem bind_of_ok {state after : σ} {value : α} (taken : read state = .ok (value, after)) :
    (read >>= next) state = next value after := by
  change (read state >>= fun pair => next pair.1 pair.2) = _
  rw [taken, Outcome.ok_bind]

theorem bind_of_refused {state : σ} {error : ε} (stops : read state = .refused error) :
    (read >>= next) state = .refused error := by
  change (read state >>= fun pair => next pair.1 pair.2) = _
  rw [stops, Outcome.refused_bind]

theorem Takes.pure (value : α) : Takes rest (Pure.pure value : Reader σ ε α) [] value where
  whole := fun state _ held => ⟨state, held, rfl⟩
  cut := fun _ front short => absurd (List.prefix_nil.mp front) short

theorem Takes.bind {front back : List β} {value : α} {result : γ}
    (first : Takes rest read front value) (second : Takes rest (next value) back result) :
    Takes rest (read >>= next) (front ++ back) result where
  whole := by
    intro state tail held
    rw [List.append_assoc] at held
    obtain ⟨between, left, taken⟩ := first.whole state (back ++ tail) held
    obtain ⟨after, done, ends⟩ := second.whole between tail left
    exact ⟨after, done, (bind_of_ok taken).trans ends⟩
  cut := by
    intro state ahead short
    -- The input ends inside the first part, or after it and inside the second.
    rcases List.prefix_or_prefix_of_prefix ahead (List.prefix_append front back) with inside | past
    · by_cases same : rest state = front
      · obtain ⟨between, left, taken⟩ := first.whole state [] (same.trans (List.append_nil _).symm)
        have missing : rest between ≠ back := by
          intro full
          apply short
          rw [same, ← full, left, List.append_nil]
        obtain ⟨error, stops⟩ := second.cut between (left ▸ List.nil_prefix) missing
        exact ⟨error, (bind_of_ok taken).trans stops⟩
      · obtain ⟨error, stops⟩ := first.cut state inside same
        exact ⟨error, bind_of_refused stops⟩
    · obtain ⟨tail, held⟩ := past
      obtain ⟨between, left, taken⟩ := first.whole state tail held.symm
      have ahead' : tail <+: back := by
        rwa [← held, List.prefix_append_right_inj] at ahead
      have missing : tail ≠ back := by
        rintro rfl
        exact short held.symm
      obtain ⟨error, stops⟩ := second.cut between (left ▸ ahead') (left ▸ missing)
      exact ⟨error, (bind_of_ok taken).trans stops⟩

theorem Takes.bind_pure {front : List β} {value : α} {result : γ}
    (first : Takes rest read front value) (ends : next value = Pure.pure result) :
    Takes rest (read >>= next) front result := by
  have both : Takes rest (read >>= next) (front ++ []) result := first.bind (ends ▸ Takes.pure result)
  rwa [List.append_nil] at both

theorem Safe.pure (value : α) : Safe (Pure.pure value : Reader σ ε α) := fun _ crash => by cases crash

theorem Safe.bind (first : Safe read) (second : ∀ value, Safe (next value)) :
    Safe (read >>= next) := by
  intro state
  change (read state >>= fun pair => next pair.1 pair.2) ≠ _
  cases taken : read state with
  | ok pair => exact second pair.1 pair.2
  | refused error => exact fun crash => by cases crash
  | crashed => exact absurd taken (first state)

end Compose

section Loop

variable {rest : σ → List β} {α γ : Type u} (read : Reader σ ε α) (step : γ → α → γ)

def loop : Nat → γ → Reader σ ε γ
  | 0, made => pure made
  | count + 1, made => do
    let item ← read
    loop count (step made item)

variable {read step}

theorem Takes.loop {ι : Type v} {items : List ι} {write : ι → List β} {value : ι → α}
    (each : ∀ item ∈ items, Takes rest read (write item) (value item)) (made : γ) :
    Takes rest (loop read step items.length made) (items.flatMap write)
      (items.foldl (fun made item => step made (value item)) made) := by
  induction items generalizing made with
  | nil => exact Takes.pure made
  | cons item items ih =>
    apply (each item List.mem_cons_self).bind
    exact ih (fun other member => each other (List.mem_cons_of_mem _ member)) (step made (value item))

theorem Safe.loop (each : Safe read) (count : Nat) (made : γ) :
    Safe (loop read step count made) := by
  induction count generalizing made with
  | zero => exact Safe.pure made
  | succ count ih => exact each.bind fun item => ih (step made item)

end Loop

end Codec
