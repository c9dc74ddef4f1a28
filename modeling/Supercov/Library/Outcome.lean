import Mathlib

/-!
# Computations that may refuse or crash

A computation over untrusted input ends in one of three ways: with a value,
with an error it chose to report, or in a crash: an overflowing operation or an
access out of bounds.  `Yields` is the postcondition that rules the crash out,
and the rules below derive it step by step.
-/

universe u v

inductive Outcome (ε : Type u) (α : Type v) where
  | ok (value : α)
  | refused (error : ε)
  | crashed
  deriving DecidableEq, Repr

namespace Outcome

variable {ε : Type u} {α β σ : Type v}

protected def bind : Outcome ε α → (α → Outcome ε β) → Outcome ε β
  | ok value, next => next value
  | refused error, _ => refused error
  | crashed, _ => crashed

instance : Monad (Outcome ε) where
  pure := ok
  bind := Outcome.bind

@[simp]
theorem pure_eq (value : α) : (pure value : Outcome ε α) = ok value := rfl

@[simp]
theorem ok_bind (value : α) (next : α → Outcome ε β) : ok value >>= next = next value := rfl

@[simp]
theorem refused_bind (error : ε) (next : α → Outcome ε β) :
    refused error >>= next = refused error := rfl

@[simp]
theorem crashed_bind (next : α → Outcome ε β) :
    (crashed : Outcome ε α) >>= next = crashed := rfl

theorem bind_eq_ok {outcome : Outcome ε α} {next : α → Outcome ε β} {value : β} :
    outcome >>= next = ok value ↔ ∃ first, outcome = ok first ∧ next first = ok value := by
  cases outcome <;> simp

theorem bind_of_eq_ok {outcome : Outcome ε α} {next : α → Outcome ε β} {first : α}
    {result : Outcome ε β} (ends : outcome = ok first) (rest : next first = result) :
    outcome >>= next = result := by
  rw [ends]
  exact rest

def isOk : Outcome ε α → Bool
  | ok _ => true
  | _ => false

theorem isOk_iff {outcome : Outcome ε α} : outcome.isOk = true ↔ ∃ value, outcome = ok value := by
  cases outcome <;> simp [isOk]

def get : (outcome : Outcome ε α) → outcome.isOk = true → α
  | ok value, _ => value

theorem eq_ok_get (outcome : Outcome ε α) (ends : outcome.isOk = true) :
    outcome = ok (outcome.get ends) := by
  cases outcome with
  | ok value => rfl
  | refused error => cases ends
  | crashed => cases ends

def crashes : Outcome ε α → Bool
  | crashed => true
  | _ => false

theorem crashes_iff {outcome : Outcome ε α} : outcome.crashes = true ↔ outcome = crashed := by
  cases outcome <;> simp [crashes]

/-- The computation does not crash, and a value it ends with satisfies `P`. -/
def Yields (P : α → Prop) : Outcome ε α → Prop
  | ok value => P value
  | refused _ => True
  | crashed => False

instance {P : α → Prop} [DecidablePred P] (outcome : Outcome ε α) : Decidable (outcome.Yields P) :=
  match outcome with
  | ok value => inferInstanceAs (Decidable (P value))
  | refused _ => isTrue trivial
  | crashed => isFalse id

@[simp]
theorem yields_ok {P : α → Prop} {value : α} : (ok value : Outcome ε α).Yields P ↔ P value :=
  Iff.rfl

@[simp]
theorem yields_refused {P : α → Prop} {error : ε} :
    (refused error : Outcome ε α).Yields P :=
  trivial

@[simp]
theorem not_yields_crashed {P : α → Prop} : ¬ (crashed : Outcome ε α).Yields P :=
  fun impossible => impossible

theorem Yields.mono {P Q : α → Prop} {outcome : Outcome ε α} (h : outcome.Yields P)
    (weaker : ∀ value, P value → Q value) : outcome.Yields Q := by
  cases outcome with
  | ok value => exact weaker value h
  | refused error => trivial
  | crashed => exact h

theorem Yields.of_ok {P : α → Prop} {outcome : Outcome ε α} (h : outcome.Yields P)
    {value : α} (ends : outcome = ok value) : P value := by
  subst ends
  exact h

/-- The rule of sequence. -/
theorem Yields.bind {P : α → Prop} {Q : β → Prop} {outcome : Outcome ε α}
    {next : α → Outcome ε β} (h : outcome.Yields P)
    (then_ : ∀ value, P value → (next value).Yields Q) :
    (outcome >>= next).Yields Q := by
  cases outcome with
  | ok value => exact then_ value h
  | refused error => trivial
  | crashed => exact h

theorem Yields.bind_eq {P : β → Prop} {outcome : Outcome ε α} {value : α}
    {next : α → Outcome ε β} (h : outcome.Yields (· = value)) (then_ : (next value).Yields P) :
    (outcome >>= next).Yields P := by
  apply Yields.bind h
  intro value' same
  rw [same]
  exact then_

def refuseIf (condition : Prop) [Decidable condition] (error : ε) : Outcome ε PUnit :=
  if condition then refused error else ok ⟨⟩

@[simp]
theorem refuseIf_eq_ok {condition : Prop} [Decidable condition] {error : ε} {done : PUnit} :
    refuseIf condition error = ok done ↔ ¬ condition := by
  by_cases holds : condition <;> simp [refuseIf, holds]

theorem refuseIf_pos {condition : Prop} [Decidable condition] {error : ε} (holds : condition) :
    refuseIf condition error = refused error :=
  if_pos holds

theorem refuseIf_neg {condition : Prop} [Decidable condition] {error : ε} (fails : ¬ condition) :
    refuseIf condition error = ok ⟨⟩ :=
  if_neg fails

/-- The computations end alike, and values they end with are related. -/
def Agrees (R : α → β → Prop) : Outcome ε α → Outcome ε β → Prop
  | ok value, ok value' => R value value'
  | refused error, refused error' => error = error'
  | crashed, crashed => True
  | _, _ => False

theorem Agrees.bind {γ δ : Type v} {R : α → β → Prop} {S : γ → δ → Prop}
    {outcome : Outcome ε α} {outcome' : Outcome ε β} {next : α → Outcome ε γ}
    {next' : β → Outcome ε δ} (agree : outcome.Agrees R outcome')
    (then_ : ∀ value value', R value value' → (next value).Agrees S (next' value')) :
    (outcome >>= next).Agrees S (outcome' >>= next') := by
  match outcome, outcome', agree with
  | ok value, ok value', related => exact then_ value value' related
  | refused _, refused _, same => exact same
  | crashed, crashed, _ => trivial

/-- What follows one computation in both. -/
theorem Agrees.bind_left {γ δ : Type v} {S : γ → δ → Prop} (outcome : Outcome ε α)
    {next : α → Outcome ε γ} {next' : α → Outcome ε δ}
    (then_ : ∀ value, outcome = ok value → (next value).Agrees S (next' value)) :
    (outcome >>= next).Agrees S (outcome >>= next') := by
  cases outcome with
  | ok value => exact then_ value rfl
  | refused error => exact rfl
  | crashed => trivial

/-- The first one's value changed. -/
theorem Agrees.change {γ : Type v} {R : α → β → Prop} {S : γ → β → Prop} {outcome : Outcome ε α}
    {outcome' : Outcome ε β} (agree : outcome.Agrees R outcome') {change : α → γ}
    (then_ : ∀ value value', R value value' → S (change value) value') :
    (outcome >>= fun value => ok (change value)).Agrees S outcome' := by
  match outcome, outcome', agree with
  | ok value, ok value', related => exact then_ value value' related
  | refused _, refused _, same => exact same
  | crashed, crashed, _ => trivial

theorem Agrees.eq_bind {outcome : Outcome ε α} {outcome' : Outcome ε β} {change : α → β}
    (agree : outcome.Agrees (fun value value' => value' = change value) outcome') :
    outcome' = outcome >>= fun value => ok (change value) := by
  match outcome, outcome', agree with
  | ok _, ok _, same => exact congrArg ok same
  | refused _, refused _, same => exact congrArg refused (Eq.symm same)
  | crashed, crashed, _ => rfl

theorem Yields.refuseIf {condition : Prop} [Decidable condition] {error : ε} {P : α → Prop}
    {rest : PUnit → Outcome ε α} (passes : ¬ condition → (rest ⟨⟩).Yields P) :
    (refuseIf condition error >>= rest).Yields P := by
  by_cases holds : condition
  · simp [Outcome.refuseIf, holds]
  · simpa [Outcome.refuseIf, holds] using passes holds

/-- The rule of a loop over a list: what every step preserves, the loop does. -/
theorem Yields.foldlM {inv : σ → Prop} {step : σ → α → Outcome ε σ} {items : List α} {init : σ}
    (start : inv init)
    (preserved : ∀ state, inv state → ∀ item ∈ items, (step state item).Yields inv) :
    (items.foldlM step init).Yields inv := by
  induction items generalizing init with
  | nil => exact start
  | cons item items ih =>
    rw [List.foldlM_cons]
    apply Yields.bind (preserved init start item (by simp))
    intro state holds
    exact ih holds fun state' holds' item' member =>
      preserved state' holds' item' (List.mem_cons_of_mem _ member)

theorem foldlM_append_bind {step : σ → α → Outcome ε σ} {items others : List α} {init : σ} :
    (items ++ others).foldlM step init =
      items.foldlM step init >>= fun between => others.foldlM step between := by
  induction items generalizing init with
  | nil => rfl
  | cons item items ih =>
    rw [List.cons_append, List.foldlM_cons, List.foldlM_cons]
    cases stepped : step init item with
    | ok state => exact ih
    | refused error => rfl
    | crashed => rfl

theorem foldlM_append {step : σ → α → Outcome ε σ} {items others : List α} {init between : σ}
    (first : items.foldlM step init = ok between) :
    (items ++ others).foldlM step init = others.foldlM step between := by
  rw [foldlM_append_bind, first, ok_bind]

theorem step_of_foldlM {step : σ → α → Outcome ε σ} {items : List α} {init result : σ}
    (ends : items.foldlM step init = ok result) {item : α} (member : item ∈ items) :
    ∃ before after, step before item = ok after := by
  induction items generalizing init with
  | nil => cases member
  | cons first rest ih =>
    rw [List.foldlM_cons] at ends
    obtain ⟨next, taken, others⟩ := bind_eq_ok.mp ends
    rcases List.mem_cons.mp member with rfl | later
    · exact ⟨init, next, taken⟩
    · exact ih others later

def forEach (check : α → Outcome ε PUnit) : List α → Outcome ε PUnit
  | [] => ok ⟨⟩
  | item :: items => check item >>= fun _ => forEach check items

theorem forEach_eq_ok {check : α → Outcome ε PUnit} {items : List α} {done : PUnit} :
    forEach check items = ok done ↔ ∀ item ∈ items, check item = ok ⟨⟩ := by
  induction items with
  | nil => simp [forEach]
  | cons item items ih =>
    rw [forEach, bind_eq_ok, List.forall_mem_cons]
    constructor
    · intro ⟨_, checked, others⟩
      exact ⟨checked, ih.mp others⟩
    · intro ⟨checked, others⟩
      exact ⟨⟨⟩, checked, ih.mpr others⟩

/-- What each item gives, up to the first one that refuses. -/
def collect (make : α → Outcome ε β) : List α → Outcome ε (List β)
  | [] => ok []
  | item :: items => do
    let made ← make item
    let others ← collect make items
    return made :: others

theorem collect_eq_ok {make : α → Outcome ε β} {items : List α} {results : List β} :
    collect make items = ok results ↔
      List.Forall₂ (fun item result => make item = ok result) items results := by
  induction items generalizing results with
  | nil => simp [collect, List.forall₂_nil_left_iff, eq_comm]
  | cons item items ih =>
    simp only [collect, bind_eq_ok, pure_eq, ok.injEq]
    constructor
    · intro ⟨made, first, others, rest, same⟩
      rw [← same]
      exact List.Forall₂.cons first (ih.mp rest)
    · intro all
      cases all with
      | cons first rest => exact ⟨_, first, _, ih.mpr rest, rfl⟩

theorem collect_isOk {make : α → Outcome ε β} {items : List α}
    (each : ∀ item ∈ items, ∃ result, make item = ok result) :
    ∃ results, collect make items = ok results := by
  induction items with
  | nil => exact ⟨[], rfl⟩
  | cons item items ih =>
    obtain ⟨first, others⟩ := List.forall_mem_cons.mp each
    obtain ⟨result, made⟩ := first
    obtain ⟨results, collected⟩ := ih others
    exact ⟨result :: results, bind_of_eq_ok made (bind_of_eq_ok collected rfl)⟩

theorem collect_eq_crashed_iff {make : α → Outcome ε β} {items : List α}
    (accepts : ∀ item error, make item ≠ refused error) :
    collect make items = crashed ↔ ∃ item ∈ items, make item = crashed := by
  induction items with
  | nil => simp [collect]
  | cons item items ih =>
    rw [List.exists_mem_cons_iff, ← ih, collect]
    cases made : make item with
    | refused error => exact absurd made (accepts item error)
    | crashed => simp
    | ok result =>
      rw [ok_bind]
      cases collect make items <;> simp

/-- The computation reports no error: it ends with a value or crashes. -/
def Accepts (outcome : Outcome ε α) : Prop := ∀ error, outcome ≠ refused error

namespace Accepts

variable {outcome : Outcome ε α} {next : α → Outcome ε β}

theorem ok (value : α) : (Outcome.ok value : Outcome ε α).Accepts := nofun

theorem crashed : (Outcome.crashed : Outcome ε α).Accepts := nofun

theorem bind (first : outcome.Accepts) (rest : ∀ value, (next value).Accepts) :
    (outcome >>= next).Accepts := by
  intro error
  cases outcome with
  | ok value => exact rest value error
  | refused other => exact absurd rfl (first other)
  | crashed => nofun

theorem collect {make : α → Outcome ε β} (each : ∀ item, (make item).Accepts) (items : List α) :
    (Outcome.collect make items).Accepts := by
  induction items with
  | nil => exact ok []
  | cons item items ih => exact (each item).bind fun _ => ih.bind fun _ => ok _

theorem bind_eq_crashed_iff (first : outcome.Accepts) {fails : Prop}
    (rest : ∀ value, next value = Outcome.crashed ↔ fails) :
    outcome >>= next = Outcome.crashed ↔ outcome = Outcome.crashed ∨ fails := by
  cases outcome with
  | ok value => simp [rest]
  | refused error => exact absurd rfl (first error)
  | crashed => simp

end Accepts

/-- The result at an index is the item's there. -/
theorem collect_getElem? {make : α → Outcome ε β} {items : List α} {results : List β}
    (collected : collect make items = ok results) {index : Nat} {item : α}
    (known : items[index]? = some item) :
    ∃ result, results[index]? = some result ∧ make item = ok result := by
  have all := collect_eq_ok.mp collected
  clear collected
  induction all generalizing index with
  | nil => cases known
  | cons first _ ih =>
    cases index with
    | zero =>
      cases known
      exact ⟨_, rfl, first⟩
    | succ index => exact ih known

theorem mem_of_collect {make : α → Outcome ε β} {items : List α} {results : List β}
    (collected : collect make items = ok results) {result : β} (member : result ∈ results) :
    ∃ item ∈ items, make item = ok result := by
  have all := collect_eq_ok.mp collected
  clear collected
  induction all with
  | nil => cases member
  | cons first _ ih =>
    rcases List.mem_cons.mp member with rfl | later
    · exact ⟨_, List.mem_cons_self, first⟩
    · obtain ⟨item, among, made⟩ := ih later
      exact ⟨item, List.mem_cons_of_mem _ among, made⟩

theorem eq_map_of_collect {make : α → Outcome ε β} {items : List α} {results : List β}
    {known : α → β} (gives : ∀ item result, make item = ok result → result = known item)
    (collected : collect make items = ok results) : results = items.map known := by
  have all := collect_eq_ok.mp collected
  clear collected
  induction all with
  | nil => rfl
  | cons first _ ih => rw [List.map_cons, gives _ _ first, ih]

section Ends

variable {P : α → Prop} {E : ε → Prop}

/-- A value that the computation ends with satisfies `P`, and an error `E`. -/
def Ends (P : α → Prop) (E : ε → Prop) : Outcome ε α → Prop
  | ok value => P value
  | refused error => E error
  | crashed => True

theorem Ends.mono {Q : α → Prop} {F : ε → Prop} {outcome : Outcome ε α} (h : outcome.Ends P E)
    (values : ∀ value, P value → Q value) (errors : ∀ error, E error → F error) :
    outcome.Ends Q F := by
  cases outcome with
  | ok value => exact values value h
  | refused error => exact errors error h
  | crashed => trivial

theorem Ends.bind {Q : β → Prop} {outcome : Outcome ε α} {next : α → Outcome ε β}
    (h : outcome.Ends P E) (then_ : ∀ value, P value → (next value).Ends Q E) :
    (outcome >>= next).Ends Q E := by
  cases outcome with
  | ok value => exact then_ value h
  | refused error => exact h
  | crashed => trivial

theorem ends_refuseIf {condition : Prop} [Decidable condition] {error : ε}
    (refuses : condition → E error) : (refuseIf condition error).Ends (fun _ => True) E := by
  unfold refuseIf
  split
  · exact refuses ‹_›
  · trivial

theorem Ends.refuseIf {condition : Prop} [Decidable condition] {error : ε}
    {rest : PUnit → Outcome ε α} (refuses : condition → E error)
    (passes : ¬ condition → (rest ⟨⟩).Ends P E) :
    (Outcome.refuseIf condition error >>= rest).Ends P E := by
  by_cases holds : condition
  · rw [refuseIf_pos holds]
    exact refuses holds
  · rw [refuseIf_neg holds]
    exact passes holds

theorem Ends.forEach {check : α → Outcome ε PUnit} {items : List α}
    (each : ∀ item ∈ items, (check item).Ends (fun _ => True) E) :
    (forEach check items).Ends (fun _ => True) E := by
  induction items with
  | nil => trivial
  | cons item items ih =>
    rw [List.forall_mem_cons] at each
    exact each.1.bind fun _ _ => ih each.2

/-- The rule of a loop with an invariant of the items it has taken. -/
theorem Ends.foldlM (inv : List α → σ → Prop) {step : σ → α → Outcome ε σ} {items : List α}
    {init : σ} (start : inv [] init)
    (preserved : ∀ before item after, items = before ++ item :: after →
      ∀ state, inv before state → (step state item).Ends (inv (before ++ [item])) E) :
    (items.foldlM step init).Ends (inv items) E := by
  suffices ∀ before rest state, items = before ++ rest → inv before state →
      (rest.foldlM step state).Ends (inv items) E from this [] items init rfl start
  intro before rest
  induction rest generalizing before with
  | nil =>
    intro state same holds
    rw [List.append_nil] at same
    exact same ▸ holds
  | cons item rest ih =>
    intro state same holds
    rw [List.foldlM_cons]
    exact (preserved before item rest same state holds).bind fun state' holds' =>
      ih (before ++ [item]) state' (by rw [same, List.append_assoc, List.singleton_append]) holds'

end Ends

end Outcome

/-- A computation over a state, which a refusal leaves as it stands then. -/
def Session (σ ε : Type u) (α : Type v) := σ → Outcome ε α × σ

namespace Session

variable {σ ε : Type u} {α β ι : Type v}

protected def bind (session : Session σ ε α) (next : α → Session σ ε β) : Session σ ε β :=
  fun state =>
    match session state with
    | (.ok value, state') => next value state'
    | (.refused error, state') => (.refused error, state')
    | (.crashed, state') => (.crashed, state')

instance : Monad (Session σ ε) where
  pure value := fun state => (.ok value, state)
  bind := Session.bind

def lift (outcome : Outcome ε α) : Session σ ε α := fun state => (outcome, state)

def read (next : σ → Session σ ε α) : Session σ ε α := fun state => next state state

def update (change : σ → σ) : Session σ ε PUnit := fun state => (.ok ⟨⟩, change state)

def forEach (action : ι → Session σ ε PUnit) : List ι → Session σ ε PUnit
  | [] => pure ⟨⟩
  | item :: items => action item >>= fun _ => forEach action items

/-- From a state with `inv` the computation ends in one with `inv`, however it
ends; it does not crash, and its value satisfies `P`. -/
def Ensures (inv : σ → Prop) (P : α → Prop) (session : Session σ ε α) : Prop :=
  ∀ state, inv state → (session state).1.Yields P ∧ inv (session state).2

variable {inv : σ → Prop}

theorem Ensures.mono {P Q : α → Prop} {session : Session σ ε α}
    (h : session.Ensures inv P) (weaker : ∀ value, P value → Q value) :
    session.Ensures inv Q := by
  intro state holds
  obtain ⟨yields, kept⟩ := h state holds
  exact ⟨yields.mono weaker, kept⟩

theorem Ensures.pure {P : α → Prop} {value : α} (holds : P value) :
    (pure value : Session σ ε α).Ensures inv P :=
  fun _ kept => ⟨holds, kept⟩

theorem Ensures.lift {P : α → Prop} {outcome : Outcome ε α} (h : outcome.Yields P) :
    (lift outcome : Session σ ε α).Ensures inv P :=
  fun _ kept => ⟨h, kept⟩

theorem Ensures.bind {P : α → Prop} {Q : β → Prop} {session : Session σ ε α}
    {next : α → Session σ ε β} (h : session.Ensures inv P)
    (then_ : ∀ value, P value → (next value).Ensures inv Q) :
    (session >>= next).Ensures inv Q := by
  intro state holds
  obtain ⟨yields, kept⟩ := h state holds
  change (Session.bind session next state).1.Yields Q ∧ inv (Session.bind session next state).2
  unfold Session.bind
  cases ends : session state with
  | mk outcome state' =>
    rw [ends] at yields kept
    cases outcome with
    | ok value => exact then_ value yields state' kept
    | refused error => exact ⟨trivial, kept⟩
    | crashed => exact ⟨yields, kept⟩

theorem Ensures.bind_lift {P : α → Prop} {Q : β → Prop} {outcome : Outcome ε α}
    {next : α → Session σ ε β} (h : outcome.Yields P)
    (then_ : ∀ value, P value → (next value).Ensures inv Q) :
    (Session.lift outcome >>= next).Ensures inv Q :=
  Ensures.bind (Ensures.lift h) then_

theorem Ensures.bind_eq {P : β → Prop} {outcome : Outcome ε α} {value : α}
    {next : α → Session σ ε β} (h : outcome.Yields (· = value))
    (then_ : (next value).Ensures inv P) :
    (Session.lift outcome >>= next).Ensures inv P := by
  apply Ensures.bind_lift h
  intro value' same
  rw [same]
  exact then_

theorem Ensures.refuseIf {condition : Prop} [Decidable condition] {error : ε} {P : β → Prop}
    {next : PUnit → Session σ ε β} (passes : ¬ condition → (next ⟨⟩).Ensures inv P) :
    (Session.lift (Outcome.refuseIf condition error) >>= next).Ensures inv P := by
  apply Ensures.bind_lift (P := fun _ => ¬ condition)
  · unfold Outcome.refuseIf
    split
    · trivial
    · assumption
  · intro _ passed
    exact passes passed

/-- A continuation of the state may use the invariant of that state. -/
theorem Ensures.read {P : α → Prop} {next : σ → Session σ ε α}
    (h : ∀ state, inv state →
      (next state state).1.Yields P ∧ inv (next state state).2) :
    (Session.read next).Ensures inv P :=
  h

theorem Ensures.update {P : PUnit → Prop} {change : σ → σ}
    (kept : ∀ state, inv state → inv (change state)) (holds : P ⟨⟩) :
    (Session.update change : Session σ ε PUnit).Ensures inv P :=
  fun state before => ⟨holds, kept state before⟩

theorem Ensures.forEach {P : ι → Prop} {action : ι → Session σ ε PUnit} {items : List ι}
    (each : ∀ item ∈ items, (action item).Ensures inv fun _ => P item) :
    (Session.forEach action items).Ensures inv fun _ => ∀ item ∈ items, P item := by
  induction items with
  | nil => exact Ensures.pure (by simp)
  | cons item items ih =>
    apply Ensures.bind (each item (by simp))
    intro _ first
    apply Ensures.mono (ih fun item' member => each item' (List.mem_cons_of_mem _ member))
    intro _ others
    simpa [first] using others

/-- From any state the computation ends with a value, and the value satisfies `P`. -/
def Succeeds (P : α → Prop) (session : Session σ ε α) : Prop :=
  ∀ state, ∃ value state', session state = (.ok value, state') ∧ P value

theorem Succeeds.pure {P : α → Prop} {value : α} (holds : P value) :
    (pure value : Session σ ε α).Succeeds P :=
  fun state => ⟨value, state, rfl, holds⟩

theorem Succeeds.bind {P : α → Prop} {Q : β → Prop} {session : Session σ ε α}
    {next : α → Session σ ε β} (h : session.Succeeds P)
    (then_ : ∀ value, P value → (next value).Succeeds Q) : (session >>= next).Succeeds Q := by
  intro state
  obtain ⟨value, between, ends, holds⟩ := h state
  obtain ⟨result, after, ends', holds'⟩ := then_ value holds between
  refine ⟨result, after, ?_, holds'⟩
  change Session.bind session next state = _
  unfold Session.bind
  rw [ends]
  exact ends'

theorem Succeeds.bind_lift {Q : β → Prop} {outcome : Outcome ε α} {value : α}
    {next : α → Session σ ε β} (ends : outcome = .ok value) (then_ : (next value).Succeeds Q) :
    (Session.lift outcome >>= next).Succeeds Q := by
  subst ends
  exact then_

theorem Succeeds.read {P : α → Prop} {next : σ → Session σ ε α}
    (h : ∀ state, ∃ value state', next state state = (.ok value, state') ∧ P value) :
    (Session.read next).Succeeds P :=
  h

theorem Succeeds.forEach {action : ι → Session σ ε PUnit} {items : List ι}
    (each : ∀ item ∈ items, (action item).Succeeds fun _ => True) :
    (Session.forEach action items).Succeeds fun _ => True := by
  induction items with
  | nil => exact Succeeds.pure trivial
  | cons item items ih =>
    rw [List.forall_mem_cons] at each
    exact Succeeds.bind each.1 fun _ _ => ih each.2

end Session

/-!
Unsigned arithmetic of `bits` bits that crashes where it would overflow, and
access to a sequence that crashes out of its bounds.
-/

namespace Checked

variable {ε : Type u} {α : Type v}

def add (bits a b : Nat) : Outcome ε Nat :=
  if a + b < 2 ^ bits then .ok (a + b) else .crashed

def mul (bits a b : Nat) : Outcome ε Nat :=
  if a * b < 2 ^ bits then .ok (a * b) else .crashed

def sub (a b : Nat) : Outcome ε Nat :=
  if b ≤ a then .ok (a - b) else .crashed

/-- The items from `start` up to `stop`. -/
def slice (items : List α) (start stop : Nat) : Outcome ε (List α) :=
  if start ≤ stop ∧ stop ≤ items.length then .ok ((items.take stop).drop start) else .crashed

variable {bits a b : Nat}

theorem add_yields (fits : a + b < 2 ^ bits) :
    (add bits a b : Outcome ε Nat).Yields (· = a + b) := by
  simp [add, fits]

theorem mul_yields (fits : a * b < 2 ^ bits) :
    (mul bits a b : Outcome ε Nat).Yields (· = a * b) := by
  simp [mul, fits]

theorem sub_yields (fits : b ≤ a) : (sub a b : Outcome ε Nat).Yields (· = a - b) := by
  simp [sub, fits]

theorem slice_yields {items : List α} {start stop : Nat} (ordered : start ≤ stop)
    (inside : stop ≤ items.length) :
    (slice items start stop : Outcome ε (List α)).Yields (· = (items.take stop).drop start) := by
  simp [slice, ordered, inside]

theorem add_eq_ok (fits : a + b < 2 ^ bits) : (add bits a b : Outcome ε Nat) = .ok (a + b) :=
  if_pos fits

theorem mul_eq_ok (fits : a * b < 2 ^ bits) : (mul bits a b : Outcome ε Nat) = .ok (a * b) :=
  if_pos fits

theorem sub_eq_ok (fits : b ≤ a) : (sub a b : Outcome ε Nat) = .ok (a - b) :=
  if_pos fits

theorem slice_eq_ok {items : List α} {start stop : Nat} (ordered : start ≤ stop)
    (inside : stop ≤ items.length) :
    (slice items start stop : Outcome ε (List α)) = .ok ((items.take stop).drop start) :=
  if_pos ⟨ordered, inside⟩

theorem add_accepts (bits a b : Nat) : (add bits a b : Outcome ε Nat).Accepts := by
  unfold add
  split
  · exact Outcome.Accepts.ok _
  · exact Outcome.Accepts.crashed

theorem mul_accepts (bits a b : Nat) : (mul bits a b : Outcome ε Nat).Accepts := by
  unfold mul
  split
  · exact Outcome.Accepts.ok _
  · exact Outcome.Accepts.crashed

theorem sub_accepts (a b : Nat) : (sub a b : Outcome ε Nat).Accepts := by
  unfold sub
  split
  · exact Outcome.Accepts.ok _
  · exact Outcome.Accepts.crashed

end Checked
