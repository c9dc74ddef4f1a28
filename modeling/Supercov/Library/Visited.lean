import Supercov.Library.Outcome
import Mathlib.Data.Finset.Card
import Mathlib.Data.Finset.Insert

/-!
# Visits

A graph is walked with a set of the nodes visited so far.  Depth first, the set takes no more nodes
when it is full, and the stack is as deep as the walk may go: a deeper one crashes.  With a queue
the walk carries a state from node to node and goes on for as long as it is let.
-/

namespace Visited

universe u

variable {Node : Type u} [DecidableEq Node]

/-- The nodes one comes to from `starts`. -/
inductive Reached (next : Node → List Node) (starts : List Node) : Node → Prop where
  | start {node : Node} (first : node ∈ starts) : Reached next starts node
  | step {node other : Node} (here : Reached next starts node) (leads : other ∈ next node) :
      Reached next starts other

def visit (limit : Nat) (next : Node → List Node) :
    Nat → Node → Finset Node → Outcome Unit (Finset Node)
  | 0, _, _ => .crashed
  | stack + 1, node, seen =>
    if limit < seen.card ∨ node ∈ seen then .ok seen
    else (next node).foldlM (fun seen node => visit limit next stack node seen) (insert node seen)

def visitAll (limit : Nat) (next : Node → List Node) (stack : Nat) (nodes : List Node)
    (seen : Finset Node) : Outcome Unit (Finset Node) :=
  nodes.foldlM (fun seen node => visit limit next stack node seen) seen

section Reached

omit [DecidableEq Node]

variable {next : Node → List Node} {starts others : List Node} {node : Node}

theorem Reached.mono (more : starts ⊆ others) (reached : Reached next starts node) :
    Reached next others node := by
  induction reached with
  | start first => exact .start (more first)
  | step _ leads inductionHypothesis => exact .step inductionHypothesis leads

theorem Reached.within (closed : Node → Prop) (begins : ∀ start ∈ starts, closed start)
    (steps : ∀ node, closed node → ∀ other ∈ next node, closed other)
    (reached : Reached next starts node) : closed node := by
  induction reached with
  | start first => exact begins _ first
  | step _ leads inductionHypothesis => exact steps _ inductionHypothesis _ leads

end Reached

section Visits

variable {limit : Nat} {next : Node → List Node}

structure Visits (limit : Nat) (next : Node → List Node) (nodes : List Node)
    (seen after : Finset Node) : Prop where
  grown : seen ⊆ after
  bounded : after.card ≤ limit + 1
  sound : ∀ node ∈ after, node ∈ seen ∨ Reached next nodes node
  taken : ∀ node ∈ nodes, node ∈ after ∨ limit < after.card
  closed : ∀ node ∈ after, node ∉ seen → ∀ other ∈ next node, other ∈ after ∨ limit < after.card

omit [DecidableEq Node] in
theorem Visits.nil {seen : Finset Node} (bounded : seen.card ≤ limit + 1) :
    Visits limit next [] seen seen where
  grown := Finset.Subset.refl seen
  bounded := bounded
  sound := fun _ member => Or.inl member
  taken := fun _ member => absurd member List.not_mem_nil
  closed := fun _ member other => absurd member other

omit [DecidableEq Node] in
theorem full_mono {seen after : Finset Node} (grown : seen ⊆ after) {node : Node}
    (taken : node ∈ seen ∨ limit < seen.card) : node ∈ after ∨ limit < after.card := by
  rcases taken with member | full
  · exact Or.inl (grown member)
  · exact Or.inr (lt_of_lt_of_le full (Finset.card_le_card grown))

theorem Visits.cons {node : Node} {nodes : List Node} {seen between after : Finset Node}
    (first : Visits limit next [node] seen between)
    (rest : Visits limit next nodes between after) :
    Visits limit next (node :: nodes) seen after where
  grown := first.grown.trans rest.grown
  bounded := rest.bounded
  sound := by
    intro other member
    rcases rest.sound other member with member | reached
    · refine (first.sound other member).imp_right (Reached.mono ?_)
      exact List.cons_subset.mpr ⟨List.mem_cons_self, List.nil_subset _⟩
    · exact Or.inr (reached.mono (List.subset_cons_self _ _))
  taken := by
    intro other member
    rcases List.mem_cons.mp member with rfl | member
    · exact full_mono rest.grown (first.taken other List.mem_cons_self)
    · exact rest.taken other member
  closed := by
    intro other member unseen target leads
    by_cases early : other ∈ between
    · exact full_mono rest.grown (first.closed other early unseen target leads)
    · exact rest.closed other member early target leads

/-- A node that is new is put among the seen, and then its own are visited. -/
theorem Visits.insert {node : Node} {seen after : Finset Node}
    (rest : Visits limit next (next node) (insert node seen) after) :
    Visits limit next [node] seen after where
  grown := (Finset.subset_insert node seen).trans rest.grown
  bounded := rest.bounded
  sound := by
    intro other member
    have self : Reached next [node] node := .start List.mem_cons_self
    rcases rest.sound other member with member | reached
    · rcases Finset.mem_insert.mp member with rfl | member
      · exact Or.inr self
      · exact Or.inl member
    · right
      exact reached.within (Reached next [node]) (fun start leads => self.step leads)
        fun _ here _ leads => here.step leads
  taken := by
    intro other member
    rw [List.mem_singleton.mp member]
    exact Or.inl (rest.grown (Finset.mem_insert_self node seen))
  closed := by
    intro other member unseen target leads
    by_cases same : other = node
    · rw [same] at leads
      exact rest.taken target leads
    · refine rest.closed other member ?_ target leads
      rw [Finset.mem_insert, not_or]
      exact ⟨same, unseen⟩

theorem visitAll_visits {stack : Nat}
    (each : ∀ node seen, seen.card ≤ limit + 1 → limit + 2 ≤ stack + seen.card →
      ∃ after, visit limit next stack node seen = .ok after ∧ Visits limit next [node] seen after)
    (nodes : List Node) (seen : Finset Node) (bounded : seen.card ≤ limit + 1)
    (deep : limit + 2 ≤ stack + seen.card) :
    ∃ after, visitAll limit next stack nodes seen = .ok after ∧
      Visits limit next nodes seen after := by
  induction nodes generalizing seen with
  | nil => exact ⟨seen, rfl, .nil bounded⟩
  | cons node nodes inductionHypothesis =>
    obtain ⟨between, visited, first⟩ := each node seen bounded deep
    have more := Finset.card_le_card first.grown
    obtain ⟨after, others, rest⟩ := inductionHypothesis between first.bounded (by omega)
    refine ⟨after, ?_, first.cons rest⟩
    rw [visitAll, List.foldlM_cons, visited]
    exact others

/-- A stack that has room for every node the set may take is deep enough. -/
theorem visit_visits (stack : Nat) (node : Node) (seen : Finset Node)
    (bounded : seen.card ≤ limit + 1) (deep : limit + 2 ≤ stack + seen.card) :
    ∃ after, visit limit next stack node seen = .ok after ∧
      Visits limit next [node] seen after := by
  induction stack generalizing node seen with
  | zero => omega
  | succ stack inductionHypothesis =>
    by_cases stops : limit < seen.card ∨ node ∈ seen
    · refine ⟨seen, by rw [visit, if_pos stops], Finset.Subset.refl seen, bounded,
        fun _ member => Or.inl member, ?_, fun _ member other => absurd member other⟩
      intro other member
      rw [List.mem_singleton.mp member]
      exact stops.symm
    · have fresh : node ∉ seen := fun member => stops (Or.inr member)
      have room : ¬limit < seen.card := fun full => stops (Or.inl full)
      have card := Finset.card_insert_of_notMem fresh
      obtain ⟨after, visited, rest⟩ := visitAll_visits inductionHypothesis (next node)
        (insert node seen) (by omega) (by omega)
      refine ⟨after, ?_, rest.insert⟩
      rw [visit, if_neg stops]
      exact visited

end Visits

section All

def Few (limit : Nat) (next : Node → List Node) (starts : List Node) : Prop :=
  ∀ nodes : Finset Node, (∀ node ∈ nodes, Reached next starts node) → nodes.card ≤ limit + 1

/-- All that is reached is visited where it is no more than the set takes. -/
theorem visitAll_reached (limit : Nat) (next : Node → List Node) {stack : Nat}
    (deep : limit + 2 ≤ stack) (starts : List Node) :
    ∃ after, visitAll limit next stack starts ∅ = .ok after ∧
      (∀ node ∈ after, Reached next starts node) ∧
      (Few limit next starts → ∀ node, Reached next starts node → node ∈ after) := by
  have each : ∀ node (seen : Finset Node), seen.card ≤ limit + 1 → limit + 2 ≤ stack + seen.card →
      ∃ after, visit limit next stack node seen = .ok after ∧ Visits limit next [node] seen after :=
    visit_visits stack
  obtain ⟨after, visited, visits⟩ := visitAll_visits each starts ∅ (Nat.zero_le _) deep
  have sound : ∀ node ∈ after, Reached next starts node := fun node member =>
    (visits.sound node member).resolve_left (Finset.notMem_empty node)
  refine ⟨after, visited, sound, fun few node reached => ?_⟩
  have full {other : Node} (here : Reached next starts other)
      (taken : other ∈ after ∨ limit < after.card) : other ∈ after := by
    by_contra fresh
    have card := Finset.card_insert_of_notMem fresh
    have bound := few (insert other after) fun node member =>
      (Finset.mem_insert.mp member).elim (fun same => same ▸ here) (sound node)
    have room := taken.resolve_left fresh
    omega
  induction reached with
  | start first => exact full (.start first) (visits.taken _ first)
  | @step node other here leads inductionHypothesis =>
    exact full (here.step leads)
      (visits.closed node inductionHypothesis (Finset.notMem_empty node) other leads)

end All

section Queue

variable {State : Type*}

/-- A walk by a queue: each node is followed once, when it is first met. -/
def follow (step : Node → State → List Node × State) :
    Nat → List Node → Finset Node → State → Option (Finset Node × State)
  | _, [], seen, state => some (seen, state)
  | 0, _ :: _, _, _ => none
  | fuel + 1, node :: queue, seen, state =>
    if node ∈ seen then follow step fuel queue seen state
    else
      let (found, state) := step node state
      follow step fuel (queue ++ found) (insert node seen) state

variable {step : Node → State → List Node × State} {next : Node → List Node}
  {Inv : State → Prop}

/-- The step finds what is next of a node, whatever state it is in, and keeps the invariant. -/
def Finds (step : Node → State → List Node × State) (next : Node → List Node)
    (Inv : State → Prop) : Prop :=
  ∀ node state, Inv state → (step node state).1 = next node ∧ Inv (step node state).2

/-- Letting a walk go on changes nothing where it has ended. -/
theorem follow_mono {fuel more : Nat} (less : fuel ≤ more) {queue : List Node} {seen : Finset Node}
    {state : State} {result : Finset Node × State}
    (ended : follow step fuel queue seen state = some result) :
    follow step more queue seen state = some result := by
  induction more generalizing fuel queue seen state with
  | zero =>
    rw [Nat.le_zero.mp less] at ended
    exact ended
  | succ more inductionHypothesis =>
    cases queue with
    | nil => simpa [follow] using ended
    | cons node queue =>
      cases fuel with
      | zero => cases ended
      | succ fuel =>
        rw [follow] at ended ⊢
        split at ended
        · next old =>
          rw [if_pos old]
          exact inductionHypothesis (Nat.le_of_succ_le_succ less) ended
        · next new =>
          rw [if_neg new]
          exact inductionHypothesis (Nat.le_of_succ_le_succ less) ended

/-- Walks whose states stay alike meet the same nodes. -/
theorem follow_alike {Alike : State → State → Prop}
    (steps : ∀ node state other, Alike state other →
      (step node state).1 = (step node other).1 ∧ Alike (step node state).2 (step node other).2)
    {fuel : Nat} {queue : List Node} {seen : Finset Node} {state other : State}
    (alike : Alike state other) {after : Finset Node} {last : State}
    (ended : follow step fuel queue seen state = some (after, last)) :
    ∃ last', follow step fuel queue seen other = some (after, last') ∧ Alike last last' := by
  induction fuel generalizing queue seen state other with
  | zero =>
    cases queue with
    | nil =>
      obtain ⟨rfl, rfl⟩ := Prod.mk.inj (Option.some.inj ended)
      exact ⟨other, rfl, alike⟩
    | cons node queue => cases ended
  | succ fuel inductionHypothesis =>
    cases queue with
    | nil =>
      rw [follow] at ended
      obtain ⟨rfl, rfl⟩ := Prod.mk.inj (Option.some.inj ended)
      exact ⟨other, by rw [follow], alike⟩
    | cons node queue =>
      rw [follow] at ended ⊢
      split at ended
      · next old =>
        rw [if_pos old]
        exact inductionHypothesis alike ended
      · next new =>
        rw [if_neg new]
        obtain ⟨found, later⟩ := steps node state other alike
        dsimp only at ended ⊢
        rw [found] at ended
        exact inductionHypothesis later ended

/-- A walk within finitely many nodes ends. -/
theorem follow_ends (finds : Finds step next Inv) {all : Finset Node}
    (within : ∀ node ∈ all, ∀ other ∈ next node, other ∈ all) (queue : List Node)
    (starts : ∀ node ∈ queue, node ∈ all) {seen : Finset Node} (among : seen ⊆ all) {state : State}
    (inv : Inv state) : ∃ fuel result, follow step fuel queue seen state = some result := by
  induction left : (all \ seen).card using Nat.strong_induction_on
    generalizing queue seen state with
  | _ count fewer =>
    induction queue with
    | nil => exact ⟨0, _, rfl⟩
    | cons node queue inductionHypothesis =>
      have ⟨first, rest⟩ := List.forall_mem_cons.mp starts
      by_cases old : node ∈ seen
      · obtain ⟨fuel, result, ended⟩ := inductionHypothesis rest
        refine ⟨fuel + 1, result, ?_⟩
        rw [follow, if_pos old]
        exact ended
      · obtain ⟨found, kept⟩ := finds node state inv
        have grown : insert node seen ⊆ all := Finset.insert_subset first among
        have less : (all \ insert node seen).card < count := by
          rw [← left]
          apply Finset.card_lt_card
          rw [Finset.ssubset_iff_of_subset (Finset.sdiff_subset_sdiff le_rfl (Finset.subset_insert _ _))]
          exact ⟨node, Finset.mem_sdiff.mpr ⟨first, old⟩, by simp⟩
        have queued : ∀ other ∈ queue ++ (step node state).1, other ∈ all := by
          intro other member
          rcases List.mem_append.mp member with earlier | later
          · exact rest other earlier
          · rw [found] at later
            exact within node first other later
        obtain ⟨fuel, result, ended⟩ := fewer _ less _ queued grown kept rfl
        refine ⟨fuel + 1, result, ?_⟩
        rw [follow, if_neg old]
        exact ended

omit [DecidableEq Node] in
theorem follow_reached_nil {Said : State → Prop} {Tells : Node → Prop} {seen after : Finset Node}
    {state last : State} (told : ∀ node ∈ seen, Tells node → Said state) (inv : Inv state)
    (ended : some (seen, state) = some (after, last)) :
    (∀ node, node ∈ after ↔ node ∈ seen ∨ Reached next [] node) ∧ Inv last ∧
      (Said last ↔ Said state ∨ ∃ node ∈ after, Tells node) := by
  obtain ⟨rfl, rfl⟩ := Prod.mk.inj (Option.some.inj ended)
  have unreached (node : Node) : ¬ Reached next [] node := fun reached =>
    reached.within (fun _ => False) nofun nofun
  refine ⟨fun node => (or_iff_left (unreached node)).symm, inv, ?_⟩
  refine (or_iff_left_of_imp ?_).symm
  rintro ⟨node, member, tells⟩
  exact told node member tells

/-- The nodes met are those seen before and those that one comes to, and what the state says of
itself at the end it said at the beginning or learned of a node that was met. -/
theorem follow_reached (finds : Finds step next Inv) {Said : State → Prop} {Tells : Node → Prop}
    (learns : ∀ node state, Inv state → (Said (step node state).2 ↔ Said state ∨ Tells node))
    {fuel : Nat} {queue : List Node} {seen : Finset Node} {state : State}
    (closed : ∀ node ∈ seen, ∀ other ∈ next node, other ∈ seen ∨ other ∈ queue)
    (told : ∀ node ∈ seen, Tells node → Said state)
    (inv : Inv state) {after : Finset Node} {last : State}
    (ended : follow step fuel queue seen state = some (after, last)) :
    (∀ node, node ∈ after ↔ node ∈ seen ∨ Reached next queue node) ∧ Inv last ∧
      (Said last ↔ Said state ∨ ∃ node ∈ after, Tells node) := by
  induction fuel generalizing queue seen state with
  | zero =>
    cases queue with
    | nil => exact follow_reached_nil told inv ended
    | cons node queue => cases ended
  | succ fuel inductionHypothesis =>
    cases queue with
    | nil =>
      rw [follow] at ended
      exact follow_reached_nil told inv ended
    | cons node queue =>
      rw [follow] at ended
      split at ended
      · next old =>
        have fewer : ∀ known ∈ seen, ∀ other ∈ next known, other ∈ seen ∨ other ∈ queue := by
          intro known member other leads
          rcases closed known member other leads with member | queued
          · exact .inl member
          · rcases List.mem_cons.mp queued with rfl | queued
            · exact .inl old
            · exact .inr queued
        obtain ⟨met, kept, saying⟩ := inductionHypothesis fewer told inv ended
        refine ⟨fun other => (met other).trans ?_, kept, saying⟩
        constructor
        · exact Or.imp_right (Reached.mono (List.subset_cons_self node queue))
        · rintro (member | reached)
          · exact .inl member
          · refine reached.within (fun other => other ∈ seen ∨ Reached next queue other) ?_ ?_
            · intro start first
              rcases List.mem_cons.mp first with rfl | queued
              · exact .inl old
              · exact .inr (.start queued)
            · rintro known (member | reached) other leads
              · exact (fewer known member other leads).imp_right .start
              · exact .inr (reached.step leads)
      · next new =>
        obtain ⟨found, kept⟩ := finds node state inv
        have more : ∀ known ∈ insert node seen, ∀ other ∈ next known,
            other ∈ insert node seen ∨ other ∈ queue ++ (step node state).1 := by
          intro known member other leads
          rcases Finset.mem_insert.mp member with rfl | member
          · rw [found]
            exact .inr (List.mem_append_right _ leads)
          · rcases closed known member other leads with member | queued
            · exact .inl (Finset.mem_insert_of_mem member)
            · rcases List.mem_cons.mp queued with rfl | queued
              · exact .inl (Finset.mem_insert_self _ _)
              · exact .inr (List.mem_append_left _ queued)
        have learned := learns node state inv
        have told' : ∀ known ∈ insert node seen, Tells known → Said (step node state).2 := by
          intro known member tells
          rcases Finset.mem_insert.mp member with rfl | member
          · exact learned.mpr (.inr tells)
          · exact learned.mpr (.inl (told known member tells))
        obtain ⟨met, held, saying⟩ := inductionHypothesis more told' kept ended
        have self : node ∈ after := (met node).mpr (.inl (Finset.mem_insert_self _ _))
        refine ⟨fun other => (met other).trans ?_, held, saying.trans ?_⟩
        · have start : Reached next (node :: queue) node := .start List.mem_cons_self
          constructor
          · rintro (member | reached)
            · rcases Finset.mem_insert.mp member with rfl | member
              · exact .inr start
              · exact .inl member
            · refine .inr (reached.within (Reached next (node :: queue)) ?_ ?_)
              · intro other first
                rcases List.mem_append.mp first with queued | leads
                · exact .start (List.mem_cons_of_mem node queued)
                · exact start.step (found ▸ leads)
              · exact fun _ here _ leads => here.step leads
          · rintro (member | reached)
            · exact .inl (Finset.mem_insert_of_mem member)
            · refine reached.within (fun other => other ∈ insert node seen ∨
                Reached next (queue ++ (step node state).1) other) ?_ ?_
              · intro other first
                rcases List.mem_cons.mp first with rfl | queued
                · exact .inl (Finset.mem_insert_self _ _)
                · exact .inr (.start (List.mem_append_left _ queued))
              · rintro known (member | reached) other leads
                · exact (more known member other leads).imp_right .start
                · exact .inr (reached.step leads)
        · rw [learned]
          constructor
          · rintro ((said | tells) | later)
            · exact .inl said
            · exact .inr ⟨node, self, tells⟩
            · exact .inr later
          · rintro (said | later)
            · exact .inl (.inl said)
            · exact .inr later

end Queue

end Visited
