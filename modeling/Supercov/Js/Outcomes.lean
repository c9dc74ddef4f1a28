import Supercov.Js.Extended

/-!
# What an instrumented construct records

The instrumented statement runs as the source does, and what it hits is told by what happens to the
constructs, one after another.  A flag is set where the body or the catch is entered and stands until
the construct is left, since what runs inside has flags of its own.
-/

namespace Supercov.Js.Extended

open Completions

variable {Code Value Memory : Type} {targets : ExtendedTargets}

section Recorded

/-- What is recorded of what happens: no body, no catch entered, and the flag is not set. -/
def recorded (targets : ExtendedTargets) : Event → List Nat
  | .entered span => ((targets.loops span).map (· + 1)).toList
  | .left span progress _ => if progress = .entered then [] else (targets.loops span).toList
  | .caught span => ((targets.tries span).map (· + 1)).toList
  | .unbound span | .completed span => (targets.tries span).toList

def outcomes (targets : ExtendedTargets) : Event → List Nat
  | .entered span => ((targets.loops span).map (· + 1)).toList
  | .left span progress threw =>
    if progress = .fresh ∧ threw = false then (targets.loops span).toList else []
  | .caught span | .unbound span => ((targets.tries span).map (· + 1)).toList
  | .completed span => (targets.tries span).toList

def hits (happenings : List Happening) : List Nat := happenings.filterMap Happening.point

def events (happenings : List Happening) : List Event := happenings.filterMap Happening.seen

@[simp] theorem hits_append (happenings more : List Happening) :
    hits (happenings ++ more) = hits happenings ++ hits more := List.filterMap_append ..

@[simp] theorem events_append (happenings more : List Happening) :
    events (happenings ++ more) = events happenings ++ events more := List.filterMap_append ..

@[simp] theorem hits_map_event (list : List Event) : hits (list.map .event) = [] := by
  simp [hits, Happening.point]

@[simp] theorem events_map_event (list : List Event) : events (list.map .event) = list := by
  simp [events, Happening.seen, List.filterMap_map, Function.comp_def]

def Told (targets : ExtendedTargets) (happenings : List Happening) : Prop :=
  hits happenings = (events happenings).flatMap (recorded targets)

theorem Told.append {happenings more : List Happening} (first : Told targets happenings)
    (second : Told targets more) : Told targets (happenings ++ more) := by
  unfold Told at *
  rw [hits_append, events_append, List.flatMap_append, first, second]

/-- The instrumented program is read as its source: its flags are left out, and its hits.  Flags
named earlier are left alone. -/
def reading (Memory : Type) (targets : ExtendedTargets) (names : Nat) :
    Reading Memory (Memory × Flags) Event Happening where
  state := Prod.fst
  seen := Happening.seen
  Good := fun state happenings after =>
    Told targets happenings ∧ ∀ flag < names, after.2 flag = state.2 flag
  refl := fun _ => ⟨rfl, fun _ _ => rfl⟩
  trans := fun first second =>
    ⟨first.1.append second.1, fun flag named => (second.2 flag named).trans (first.2 flag named)⟩

variable {source source' : Behaviour Label Value Memory Event}
  {target target' : Behaviour Label Value (Memory × Flags) Happening}

theorem simulates_weaken {names later : Nat} (within : names ≤ later)
    (simulates : Simulates (reading Memory targets later) source target) :
    Simulates (reading Memory targets names) source target where
  sound := fun runs =>
    ⟨(simulates.sound runs).1, (simulates.sound runs).2.1, fun flag named =>
      (simulates.sound runs).2.2 flag (Nat.lt_of_lt_of_le named within)⟩
  complete := simulates.complete

end Recorded

section Tracked

/-- What the end of a construct is to record still, by its flag. -/
def owed (flag first : Nat) (flags : Flags) : Ending Value → List Nat
  | .cut => []
  | _ => if flags flag then [] else [first]

/-- The target's runs from flags as given are the source's; behind them so much is owed. -/
structure Tracks (targets : ExtendedTargets) (names : Nat) (At : Flags → Prop)
    (owes : Flags → Ending Value → List Nat) (source : Behaviour Label Value Memory Event)
    (target : Behaviour Label Value (Memory × Flags) Happening) : Prop where
  sound {state after : Memory × Flags} {completion : Ending Value}
    {happenings : List Happening} : At state.2 → target state completion after happenings →
      source state.1 completion after.1 (events happenings) ∧
        hits happenings ++ owes after.2 completion =
          (events happenings).flatMap (recorded targets) ∧
        ∀ named < names, after.2 named = state.2 named
  complete (state : Memory × Flags) {after : Memory} {completion : Ending Value}
    {list : List Event} : source state.1 completion after list →
      ∃ after' happenings, target state completion after' happenings ∧ after'.1 = after ∧
        events happenings = list

variable {flag first names : Nat} {At : Flags → Prop} {owes : Flags → Ending Value → List Nat}
  {source source' : Behaviour Label Value Memory Event}
  {target target' : Behaviour Label Value (Memory × Flags) Happening}
  {language : Language Code Value Memory}

theorem Tracks.labelled (label : Label)
    (same : ∀ flags, owes flags (.broken (some label)) = owes flags .normal)
    (tracks : Tracks targets names At owes source target) :
    Tracks targets names At owes (Labelled label source) (Labelled label target) where
  sound := by
    intro state after completion happenings starts runs
    cases runs with
    | broken one =>
      obtain ⟨one, told, kept⟩ := tracks.sound starts one
      exact ⟨.broken one, same after.2 ▸ told, kept⟩
    | through one passes =>
      obtain ⟨one, told, kept⟩ := tracks.sound starts one
      exact ⟨.through one passes, told, kept⟩
  complete := by
    intro state after completion list runs
    cases runs with
    | broken one =>
      obtain ⟨last, happenings, did, rfl, rfl⟩ := tracks.complete _ one
      exact ⟨last, happenings, .broken did, rfl, rfl⟩
    | through one passes =>
      obtain ⟨last, happenings, did, rfl, rfl⟩ := tracks.complete _ one
      exact ⟨last, happenings, .through did passes, rfl, rfl⟩

theorem seq_probe {probe : ExtendedProbe} {body : Behaviour Label Value (Memory × Flags) Happening}
    {state after : Memory × Flags} {completion : Ending Value} {happenings : List Happening} :
    Seq (language.instrumented.probes probe) body state completion after happenings ↔
      ∃ more, body (state.1, (probe.step state.2).1) completion after more ∧
        happenings = (probe.step state.2).2 ++ more := by
  constructor
  · intro runs
    cases runs with
    | stop one abrupt => exact absurd one.1 abrupt
    | @next _ between _ _ _ more one two =>
      obtain ⟨-, same, step⟩ := one
      obtain ⟨flags, rfl⟩ := Prod.mk.inj step
      have here : between = (state.1, (probe.step state.2).1) := Prod.ext same flags
      exact ⟨more, here ▸ two, rfl⟩
  · rintro ⟨more, ran, rfl⟩
    have done_ : language.instrumented.probes probe state .normal
        (state.1, (probe.step state.2).1) (probe.step state.2).2 := ⟨rfl, rfl, rfl⟩
    exact .next done_ ran

/-- `T = 0` in front of a construct that owes nothing. -/
theorem Tracks.reset
    (tracks : Tracks targets flag (fun flags => flags flag = false) (fun _ _ => []) source target) :
    Simulates (reading Memory targets flag) source
      (Seq (language.instrumented.probes (.reset flag)) (Seq target Skip)) where
  sound := by
    intro state after completion happenings runs
    obtain ⟨more, ran, rfl⟩ := seq_probe.mp runs
    obtain ⟨ran, told, kept⟩ := tracks.sound (Function.update_self ..) (seq_skip target ▸ ran)
    rw [List.append_nil] at told
    refine ⟨ran, told, fun other named => ?_⟩
    exact (kept other named).trans (Function.update_of_ne (Nat.ne_of_lt named) ..)
  complete := by
    intro state after completion list runs
    obtain ⟨last, happenings, ran, rfl, rfl⟩ :=
      tracks.complete (state.1, Function.update state.2 flag false) runs
    exact ⟨last, happenings, seq_probe.mpr ⟨happenings, (seq_skip target).symm ▸ ran, rfl⟩, rfl, rfl⟩

theorem hits_otherwise {flags : Flags} {completion : Ending Value} (goes : completion ≠ .cut) :
    hits ((ExtendedProbe.otherwise flag first).step flags).2 = owed flag first flags completion := by
  have owes : owed flag first flags completion = if flags flag then [] else [first] := by
    cases completion with
    | cut => exact absurd rfl goes
    | _ => rfl
  rw [owes]
  unfold ExtendedProbe.step
  dsimp only
  split <;> rfl

theorem events_otherwise {flags : Flags} :
    events ((ExtendedProbe.otherwise flag first).step flags).2 = [] := by
  unfold ExtendedProbe.step
  dsimp only
  split <;> rfl

/-- What a construct owes is hit behind it, before what its `finally` had. -/
theorem Tracks.otherwise_sound
    (tracks : Tracks targets flag At (owed flag first) source target)
    (last : Simulates (reading Memory targets (flag + 1)) source' target')
    {state between after : Memory × Flags} {completion other : Ending Value}
    {happenings more : List Happening} (starts : At state.2)
    (one : target state completion between happenings) (goes : completion ≠ .cut)
    (two : Seq (language.instrumented.probes (.otherwise flag first)) target' between other after
      more) :
    source state.1 completion between.1 (events happenings) ∧
      source' between.1 other after.1 (events more) ∧ Told targets (happenings ++ more) ∧
      ∀ named < flag, after.2 named = state.2 named := by
  obtain ⟨one, told, kept⟩ := tracks.sound starts one
  obtain ⟨rest, ran, rfl⟩ := seq_probe.mp two
  obtain ⟨ran, later, kept'⟩ := last.sound ran
  refine ⟨one, ?_, ?_, ?_⟩
  · rw [events_append, events_otherwise, List.nil_append]
    exact ran
  · rw [← hits_otherwise goes] at told
    unfold Told at later ⊢
    simp only [hits_append, events_append, events_otherwise, List.nil_append, List.flatMap_append]
    rw [← List.append_assoc, told, later]
  · intro named below
    exact (kept' named (Nat.lt_succ_of_lt below)).trans (kept named below)

/-- `T || hit` behind a construct, before what its `finally` had. -/
theorem Tracks.otherwise
    (tracks : Tracks targets flag At (owed flag first) source target)
    (last : Simulates (reading Memory targets (flag + 1)) source' target') :
    Tracks targets flag At (fun _ _ => []) (Finally source source')
      (Finally target
        (Seq (language.instrumented.probes (.otherwise flag first)) target')) where
  sound := by
    intro state after completion happenings starts runs
    cases runs with
    | cut one =>
      obtain ⟨one, told, kept⟩ := tracks.sound starts one
      exact ⟨.cut one, told, kept⟩
    | normal one goes two =>
      obtain ⟨one, two, told, kept⟩ := tracks.otherwise_sound last starts one goes two
      rw [events_append, List.append_nil]
      exact ⟨.normal one goes two, events_append _ _ ▸ told, kept⟩
    | abrupt one goes two abrupt =>
      obtain ⟨one, two, told, kept⟩ := tracks.otherwise_sound last starts one goes two
      rw [events_append, List.append_nil]
      exact ⟨.abrupt one goes two abrupt, events_append _ _ ▸ told, kept⟩
  complete := by
    intro state after completion list runs
    cases runs with
    | cut one =>
      obtain ⟨end_, happenings, did, rfl, rfl⟩ := tracks.complete _ one
      exact ⟨end_, happenings, .cut did, rfl, rfl⟩
    | normal one goes two =>
      obtain ⟨between, happenings, did, rfl, rfl⟩ := tracks.complete _ one
      obtain ⟨end_, more, ran, rfl, rfl⟩ := last.complete between two
      refine ⟨end_, _, .normal did goes (seq_probe.mpr ⟨more, ran, rfl⟩), rfl, ?_⟩
      rw [events_append, events_append, events_otherwise, List.nil_append]
      rfl
    | abrupt one goes two abrupt =>
      obtain ⟨between, happenings, did, rfl, rfl⟩ := tracks.complete _ one
      obtain ⟨end_, more, ran, rfl, rfl⟩ := last.complete between two
      refine ⟨end_, _, .abrupt did goes (seq_probe.mpr ⟨more, ran, rfl⟩) abrupt, rfl, ?_⟩
      rw [events_append, events_append, events_otherwise, List.nil_append]
      rfl

/-- `finally { T || hit }` behind a construct that had none. -/
theorem Tracks.otherwise_alone (tracks : Tracks targets flag At (owed flag first) source target) :
    Tracks targets flag At (fun _ _ => []) source
      (Finally target (Seq (language.instrumented.probes (.otherwise flag first)) Skip)) := by
  rw [← finally_skip source]
  exact tracks.otherwise Simulates.skip

theorem simulates_iff_tracks :
    Simulates (reading Memory targets names) source target ↔
      Tracks targets names (fun _ => True) (fun _ _ => []) source target := by
  constructor
  · intro simulates
    refine ⟨fun _ runs => ?_, fun state => simulates.complete state⟩
    obtain ⟨ran, told, kept⟩ := simulates.sound runs
    exact ⟨ran, (List.append_nil _).trans told, kept⟩
  · intro tracks
    refine ⟨fun runs => ?_, fun state => tracks.complete state⟩
    obtain ⟨ran, told, kept⟩ := tracks.sound trivial runs
    exact ⟨ran, (List.append_nil _).symm.trans told, kept⟩

end Tracked

section Entered

variable {names inner : Nat} {At : Bool → Flags → Prop} {owes : Flags → Ending Value → List Nat}
  {source source' : Behaviour Label Value Memory Event}
  {target target' : Behaviour Label Value (Memory × Flags) Happening}
  {language : Language Code Value Memory} {span : Span} {head : Enumeration Code}
  {labels : List Label}

/-- A body that is entered says so the first time, and the flags stand accordingly. -/
structure Enters (targets : ExtendedTargets) (names : Nat) (At : Bool → Flags → Prop)
    (enters : Bool → List Event) (source : Behaviour Label Value Memory Event)
    (target : Behaviour Label Value (Memory × Flags) Happening) : Prop where
  sound {entered : Bool} {state after : Memory × Flags} {completion : Ending Value}
    {happenings : List Happening} : At entered state.2 → target state completion after happenings →
      source state.1 completion after.1 (events happenings) ∧
        hits happenings = (enters entered ++ events happenings).flatMap (recorded targets) ∧
        At true after.2 ∧ ∀ named < names, after.2 named = state.2 named
  complete (state : Memory × Flags) {after : Memory} {completion : Ending Value}
    {list : List Event} : source state.1 completion after list →
      ∃ after' happenings, target state completion after' happenings ∧ after'.1 = after ∧
        events happenings = list

theorem ends_unbroken (progress : Progress) (completion : Ending Value) :
    ends span progress completion.unbroken = ends span progress completion := by
  cases completion with
  | broken label => cases label <;> rfl
  | _ => rfl

theorem closes_iff {close : Code} {completion last : Ending Value}
    {state after : Memory × Flags} :
    Closes language.instrumented close completion state last after ↔
      Closes language.source close completion state.1 last after.1 ∧ after.2 = state.2 := by
  constructor
  · intro closes
    cases closes with
    | cut => exact ⟨.cut _, rfl⟩
    | close goes closed => exact ⟨.close goes closed.1, closed.2⟩
  · rintro ⟨closes, same⟩
    obtain ⟨memory, flags⟩ := after
    subst same
    generalize here : state.1 = begun at closes
    cases closes with
    | cut =>
      subst here
      exact .cut _
    | close goes closed =>
      subst here
      exact .close goes ⟨closed, rfl⟩

def Settles (targets : ExtendedTargets) (span : Span) (At : Bool → Flags → Prop)
    (owes : Flags → Ending Value → List Nat) : Prop :=
  ∀ entered begun flags completion, At entered flags →
    owes flags completion =
      (ends span (progress entered begun) completion).flatMap (recorded targets)

theorem events_map_emit (list : List Event) :
    events (list.map language.instrumented.emit) = list.map language.source.emit := by
  rw [show list.map language.source.emit = list from List.map_id list]
  exact events_map_event list

theorem hits_map_emit (list : List Event) : hits (list.map language.instrumented.emit) = [] :=
  hits_map_event list

theorem map_emit (list : List Event) : list.map language.source.emit = list := List.map_id list

theorem iterates_sound (settles : Settles targets span At owes)
    (body : Enters targets names At (enters span) source target) {entered : Bool}
    {state after : Memory × Flags} {completion : Ending Value} {happenings : List Happening}
    (starts : At entered state.2)
    (runs : Iterates language.instrumented labels span head target entered state completion after
      happenings) :
    Iterates language.source labels span head source entered state.1 completion after.1
        (events happenings) ∧
      hits happenings ++ owes after.2 completion =
        (events happenings).flatMap (recorded targets) ∧
      ∀ named < names, after.2 named = state.2 named := by
  induction runs with
  | @nextAbrupt entered state after completion asked =>
    obtain ⟨asked, same⟩ := asked
    have ran : Iterates language.source labels span head source entered state.1 completion after.1
        _ := .nextAbrupt asked
    rw [map_emit] at ran
    rw [events_map_emit, hits_map_emit, map_emit, same, settles _ false _ _ starts]
    exact ⟨ran, rfl, fun _ _ => rfl⟩
  | @done entered state after value asked none =>
    obtain ⟨asked, same⟩ := asked
    have owing := settles _ false _ .normal (same.symm ▸ starts)
    refine ⟨.done asked none, ?_, fun _ _ => congrFun same _⟩
    exact owing
  | @bindAbrupt entered state between later after value completion last asked item bound closes =>
    obtain ⟨closes, same⟩ := closes_iff.mp closes
    have flags : after.2 = state.2 := same.trans (bound.2.trans asked.2)
    have ran : Iterates language.source labels span head source entered state.1 last after.1 _ :=
      .bindAbrupt asked.1 item bound.1 closes
    rw [map_emit] at ran
    rw [events_map_emit, hits_map_emit, map_emit, flags, settles _ true _ _ starts]
    exact ⟨ran, rfl, fun _ _ => rfl⟩
  | @stop entered state between inside later after value bound_ completion last list asked item
      bound one leaves closes =>
    obtain ⟨closes, same⟩ := closes_iff.mp closes
    have flags : inside.2 = state.2 := bound.2.trans asked.2
    obtain ⟨one, told, entered_, kept⟩ := body.sound (flags.symm ▸ starts) one
    have owing := settles true false later.2 last.unbroken entered_
    rw [ends_unbroken] at owing
    simp only [events_append, hits_append, events_map_emit, hits_map_emit, map_emit,
      List.nil_append, List.append_nil, List.flatMap_append]
    refine ⟨?_, ?_, fun named below => ?_⟩
    · have ran : Iterates language.source labels span head source entered state.1 _ after.1 _ :=
        .stop asked.1 item bound.1 one leaves closes
      simpa only [map_emit] using ran
    · rw [same, owing, told, List.flatMap_append]
      rfl
    · rw [same, kept named below, flags]
  | @again entered state between inside later after value bound_ completion last list more asked
      item bound one stays rest ih =>
    have flags : inside.2 = state.2 := bound.2.trans asked.2
    obtain ⟨one, told, entered_, kept⟩ := body.sound (flags.symm ▸ starts) one
    obtain ⟨rest, later_, kept'⟩ := ih entered_
    simp only [events_append, hits_append, events_map_emit, hits_map_emit, map_emit,
      List.nil_append, List.flatMap_append]
    refine ⟨?_, ?_, fun named below => ?_⟩
    · have ran : Iterates language.source labels span head source entered state.1 _ after.1 _ :=
        .again asked.1 item bound.1 one stays rest
      simpa only [map_emit] using ran
    · rw [List.append_assoc, later_, told, List.flatMap_append]
    · rw [kept' named below, kept named below, flags]

theorem evaluates_instrumented {code : Code} {memory later : Memory} {result : Result Value}
    (evaluates : language.source.evaluates code memory result later) (flags : Flags) :
    language.instrumented.evaluates code (memory, flags) result (later, flags) :=
  ⟨evaluates, rfl⟩

theorem closes_instrumented {close : Code} {completion last : Ending Value}
    {memory later : Memory} (closes : Closes language.source close completion memory last later)
    (flags : Flags) :
    Closes language.instrumented close completion (memory, flags) last (later, flags) :=
  closes_iff.mpr ⟨closes, rfl⟩

theorem iterates_complete (body : Enters targets names At (enters span) source target)
    {entered : Bool} (flags : Flags) {memory after : Memory} {completion : Ending Value}
    {list : List Event}
    (runs : Iterates language.source labels span head source entered memory completion after
      list) :
    ∃ after' happenings,
      Iterates language.instrumented labels span head target entered (memory, flags) completion
        after' happenings ∧ after'.1 = after ∧ events happenings = list := by
  induction runs generalizing flags with
  | nextAbrupt asked =>
    exact ⟨_, _, .nextAbrupt (evaluates_instrumented asked flags), rfl, events_map_emit _⟩
  | done asked none =>
    exact ⟨_, _, .done (evaluates_instrumented asked flags) none, rfl, rfl⟩
  | bindAbrupt asked item bound closes =>
    exact ⟨_, _, .bindAbrupt (evaluates_instrumented asked flags) item
      (evaluates_instrumented bound flags) (closes_instrumented closes flags), rfl,
      events_map_emit _⟩
  | stop asked item bound one leaves closes =>
    obtain ⟨later, happenings, did, rfl, rfl⟩ := body.complete (_, flags) one
    refine ⟨_, _, .stop (evaluates_instrumented asked flags) item
      (evaluates_instrumented bound flags) did leaves (closes_instrumented closes later.2), rfl, ?_⟩
    rw [events_append, events_append, events_map_emit, events_map_emit]
  | again asked item bound one stays _ ih =>
    obtain ⟨later, happenings, did, rfl, rfl⟩ := body.complete (_, flags) one
    obtain ⟨last, more, ran, rfl, rfl⟩ := ih later.2
    refine ⟨last, _, .again (evaluates_instrumented asked flags) item
      (evaluates_instrumented bound flags) did stays ran, rfl, ?_⟩
    rw [events_append, events_append, events_map_emit]

theorem tracks_enumerates (settles : Settles targets span At owes)
    (body : Enters targets names At (enters span) source target) :
    Tracks targets names (At false) owes (Enumerates language.source labels span head source)
      (Enumerates language.instrumented labels span head target) where
  sound := by
    intro state after completion happenings starts runs
    cases runs with
    | abrupt started =>
      obtain ⟨started, same⟩ := started
      have ran : Enumerates language.source labels span head source state.1 completion after.1 _ :=
        .abrupt started
      rw [map_emit] at ran
      rw [events_map_emit, hits_map_emit, map_emit, same, settles _ false _ _ starts]
      exact ⟨ran, rfl, fun _ _ => rfl⟩
    | loop started rest =>
      obtain ⟨ran, told, kept⟩ := iterates_sound settles body (started.2.symm ▸ starts) rest
      exact ⟨.loop started.1 ran, told, fun named below =>
        (kept named below).trans (congrFun started.2 named)⟩
  complete := by
    intro state after completion list runs
    cases runs with
    | abrupt started =>
      exact ⟨_, _, .abrupt (evaluates_instrumented started state.2), rfl, events_map_emit _⟩
    | loop started rest =>
      obtain ⟨last, happenings, ran, rfl, rfl⟩ := iterates_complete body state.2 rest
      exact ⟨last, happenings, .loop (evaluates_instrumented started state.2) ran, rfl, rfl⟩

/-- What a try owes behind its catch is what is recorded of the exception that did not enter it. -/
def SettlesTry (targets : ExtendedTargets) (span : Span) (At : Bool → Flags → Prop)
    (owes : Flags → Ending Value → List Nat) : Prop :=
  ∀ entered flags completion event, At entered flags → event = .completed span ∨ event = .unbound span →
    owes flags completion =
      if entered then [] else (completes event completion).flatMap (recorded targets)

def catches (span : Span) (entered : Bool) : List Event := if entered then [] else [.caught span]

theorem tracks_catches {param : Value → Code} (settles : SettlesTry targets span At owes)
    (stands : ∀ entered flags later, (∀ named < inner, later named = flags named) →
      At entered flags → At entered later) (within : names ≤ inner)
    (block : Simulates (reading Memory targets inner) source target)
    (handler : Enters targets names At (catches span) source' target') :
    Tracks targets names (At false) owes
      (Catches language.source span source param source')
      (Catches language.instrumented span target param target') where
  sound := by
    intro state after completion happenings starts runs
    cases runs with
    | through one passes =>
      obtain ⟨one, told, kept⟩ := block.sound one
      have owing := settles false after.2 completion _ (stands _ _ _ kept starts) (.inl rfl)
      have ran : Catches language.source span source param source' state.1 completion after.1 _ :=
        .through one passes
      rw [events_append, hits_append, events_map_emit, hits_map_emit]
      refine ⟨ran, ?_, fun named below => kept named (Nat.lt_of_lt_of_le below within)⟩
      rw [map_emit, List.flatMap_append, List.append_nil, owing]
      exact congrArg (· ++ _) told
    | @unbound _ between _ value _ _ one bound =>
      obtain ⟨one, told, kept⟩ := block.sound one
      obtain ⟨bound, same⟩ := bound
      have owing := settles false between.2 completion _ (stands _ _ _ kept starts) (.inr rfl)
      have ran : Catches language.source span source param source' state.1 completion after.1 _ :=
        .unbound one bound
      rw [events_append, hits_append, events_map_emit, hits_map_emit, same]
      refine ⟨ran, ?_, fun named below => kept named (Nat.lt_of_lt_of_le below within)⟩
      rw [map_emit, List.flatMap_append, List.append_nil, owing]
      exact congrArg (· ++ _) told
    | @caught _ between inside _ value _ _ _ more one bound two =>
      obtain ⟨one, told, kept⟩ := block.sound one
      obtain ⟨bound, same⟩ := bound
      have here : At false inside.2 := same.symm ▸ stands _ _ _ kept starts
      obtain ⟨two, told', entered, kept'⟩ := handler.sound here two
      have owing := settles true after.2 completion _ entered (.inl rfl)
      refine ⟨?_, ?_, fun named below => ?_⟩
      · rw [events_append]
        exact .caught one bound two
      · have hit : hits (language.instrumented.emit (.caught span) :: more) = hits more := rfl
        have seen : events (language.instrumented.emit (.caught span) :: more) =
            catches span false ++ events more := rfl
        rw [hits_append, events_append, hit, seen, told', owing]
        simp only [if_true, List.append_nil, List.flatMap_append]
        exact congrArg (· ++ _) told
      · rw [kept' named below, same]
        exact kept named (Nat.lt_of_lt_of_le below within)
  complete := by
    intro state after completion list runs
    cases runs with
    | through one passes =>
      obtain ⟨last, happenings, did, rfl, rfl⟩ := block.complete state one
      refine ⟨last, _, .through did passes, rfl, ?_⟩
      rw [events_append, events_map_emit]
      rfl
    | unbound one bound =>
      obtain ⟨last, happenings, did, rfl, rfl⟩ := block.complete state one
      refine ⟨_, _, .unbound did (evaluates_instrumented bound last.2), rfl, ?_⟩
      rw [events_append, events_map_emit]
      rfl
    | caught one bound two =>
      obtain ⟨between, happenings, did, rfl, rfl⟩ := block.complete state one
      obtain ⟨last, more, ran, rfl, rfl⟩ := handler.complete (_, between.2) two
      refine ⟨last, _, .caught did (evaluates_instrumented bound between.2) ran, rfl, ?_⟩
      rw [events_append]
      rfl

theorem Enters.plain {enters : Bool → List Event}
    (silent : ∀ entered, (enters entered).flatMap (recorded targets) = [])
    (body : Simulates (reading Memory targets names) source target) :
    Enters targets names (fun _ _ => True) enters source target where
  sound := by
    intro entered state after completion happenings _ runs
    obtain ⟨ran, told, kept⟩ := body.sound runs
    refine ⟨ran, ?_, trivial, kept⟩
    rw [List.flatMap_append, silent]
    exact told
  complete := fun state => body.complete state

theorem hits_firstTime {flag index : Nat} {flags : Flags} :
    hits ((ExtendedProbe.firstTime flag index).step flags).2 =
      if flags flag then [] else [index] := by
  unfold ExtendedProbe.step
  dsimp only
  split <;> rfl

theorem events_firstTime {flag index : Nat} {flags : Flags} :
    events ((ExtendedProbe.firstTime flag index).step flags).2 = [] := by
  unfold ExtendedProbe.step
  dsimp only
  split <;> rfl

/-- `T || (T = 1, hit)` in front of a body. -/
theorem Enters.firstTime {flag index : Nat} {enters : Bool → List Event}
    (again : enters true = []) (first : (enters false).flatMap (recorded targets) = [index])
    (body : Simulates (reading Memory targets (flag + 1)) source target) :
    Enters targets flag (fun entered flags => flags flag = entered) enters source
      (Seq (language.instrumented.probes (.firstTime flag index)) target) where
  sound := by
    rintro entered state after completion happenings rfl runs
    obtain ⟨more, ran, rfl⟩ := seq_probe.mp runs
    obtain ⟨ran, told, kept⟩ := body.sound ran
    have hit : hits ((ExtendedProbe.firstTime flag index).step state.2).2 =
        (enters (state.2 flag)).flatMap (recorded targets) := by
      rw [hits_firstTime]
      cases state.2 flag with
      | true => simp [again]
      | false => simp [first]
    refine ⟨?_, ?_, ?_, fun named below => ?_⟩
    · rw [events_append, events_firstTime]
      exact ran
    · rw [hits_append, events_append, hit, events_firstTime, List.nil_append, List.flatMap_append]
      exact congrArg (_ ++ ·) told
    · exact (kept flag (Nat.lt_succ_self flag)).trans (Function.update_self ..)
    · exact (kept named (Nat.lt_succ_of_lt below)).trans
        (Function.update_of_ne (Nat.ne_of_lt below) ..)
  complete := by
    intro state after completion list runs
    obtain ⟨last, happenings, ran, rfl, rfl⟩ :=
      body.complete ((state.1, Function.update state.2 flag true) : Memory × Flags) runs
    refine ⟨last, _, seq_probe.mpr ⟨happenings, ran, rfl⟩, rfl, ?_⟩
    rw [events_append, events_firstTime]
    rfl

theorem settles_plain (none : targets.loops span = none) :
    Settles targets span (fun _ _ => True) fun _ (_ : Ending Value) => [] := by
  intro entered begun flags completion _
  cases completion <;> simp [ends, recorded, none]

theorem settles_owed {flag first : Nat} (some_ : targets.loops span = some first) :
    Settles targets span (fun entered flags => flags flag = entered)
      (owed flag first : Flags → Ending Value → List Nat) := by
  rintro _ begun flags completion rfl
  cases completion <;> cases stands : flags flag <;> cases begun <;>
    simp [ends, recorded, some_, owed, progress, stands]

theorem settlesTry_plain (none : targets.tries span = none) :
    SettlesTry targets span (fun _ _ => True) fun _ (_ : Ending Value) => [] := by
  rintro entered flags completion _ _ (rfl | rfl) <;>
    cases completion <;> simp [completes, recorded, none]

theorem settlesTry_owed {flag first : Nat} (some_ : targets.tries span = some first) :
    SettlesTry targets span (fun entered flags => flags flag = entered)
      (owed flag first : Flags → Ending Value → List Nat) := by
  rintro _ flags completion _ rfl (rfl | rfl) <;> cases completion <;>
    cases stands : flags flag <;> simp [completes, recorded, some_, owed, stands]

end Entered

section Walked

variable (targets) (language : Language Code Value Memory)

section Equations

variable (site : Option (Nat × Nat)) (names flag first : Nat) (code : Code) (span : Span)
  (label : Label) (head : Enumeration Code) (body : Source Code Value)
  (block handler finalizer parts : List (Source Code Value)) (param : Value → Code)

theorem walk_other : walk targets site (.other code parts) names =
    (.other code (walkAll targets parts names).1, (walkAll targets parts names).2) := rfl

theorem walk_block : walk targets site (.block block) names =
    (.block (walkAll targets block names).1, (walkAll targets block names).2) := rfl

theorem walk_labelled : walk targets site (.labelled label body) names =
    (.labelled label (walk targets site body names).1, (walk targets site body names).2) := rfl

theorem walk_enumeration : walk targets none (.enumeration span head body) names =
    (.enumeration span head (visitStatement targets body names).1,
      (visitStatement targets body names).2) := rfl

theorem walk_loop : walk targets (some (flag, first)) (.enumeration span head body) names =
    (.enumeration span head (prepend (.firstTime flag (first + 1)) (isBlock body)
      (visitStatement targets body names).1), (visitStatement targets body names).2) := rfl

theorem walk_tryCatch : walk targets none (.tryCatch span block param handler) names =
    (.tryCatch span (walkAll targets block names).1 param
      (walkAll targets handler (walkAll targets block names).2).1,
      (walkAll targets handler (walkAll targets block names).2).2) := rfl

theorem walk_try : walk targets (some (flag, first)) (.tryCatch span block param handler) names =
    (.tryCatchFinally span (walkAll targets block names).1 param
      (.probe (.firstTime flag (first + 1)) ::
        (walkAll targets handler (walkAll targets block names).2).1)
      [.probe (.otherwise flag first)],
      (walkAll targets handler (walkAll targets block names).2).2) := rfl

theorem walk_tryCatchFinally :
    walk targets none (.tryCatchFinally span block param handler finalizer) names =
    (.tryCatchFinally span (walkAll targets block names).1 param
      (walkAll targets handler (walkAll targets block names).2).1
      (walkAll targets finalizer (walkAll targets handler (walkAll targets block names).2).2).1,
      (walkAll targets finalizer
        (walkAll targets handler (walkAll targets block names).2).2).2) := rfl

theorem walk_tryWhole :
    walk targets (some (flag, first)) (.tryCatchFinally span block param handler finalizer) names =
    (.tryCatchFinally span (walkAll targets block names).1 param
      (.probe (.firstTime flag (first + 1)) ::
        (walkAll targets handler (walkAll targets block names).2).1)
      (.probe (.otherwise flag first) :: (walkAll targets finalizer
        (walkAll targets handler (walkAll targets block names).2).2).1),
      (walkAll targets finalizer
        (walkAll targets handler (walkAll targets block names).2).2).2) := rfl

theorem walk_tryFinally : walk targets site (.tryFinally block finalizer) names =
    (.tryFinally (walkAll targets block names).1
      (walkAll targets finalizer (walkAll targets block names).2).1,
      (walkAll targets finalizer (walkAll targets block names).2).2) := rfl

end Equations

theorem le_wrapped {wrap : Option Wrap} {names : Nat}
    {walk : Option (Nat × Nat) → Nat → Instrumented Code Value × Nat}
    (grows : ∀ site names, names ≤ (walk site names).2) :
    names ≤ (wrapped wrap names walk).2 := by
  cases wrap with
  | none => exact grows none names
  | some wrap =>
    cases wrap <;> exact Nat.le_of_succ_le (grows _ (names + 1))

mutual

theorem le_walk (site : Option (Nat × Nat)) : (statement : Source Code Value) → (names : Nat) →
    names ≤ (walk targets site statement names).2
  | .other code parts, names => by
    rw [walk_other]
    exact le_walkAll parts names
  | .block body, names => by
    rw [walk_block]
    exact le_walkAll body names
  | .labelled label body, names => by
    rw [walk_labelled]
    exact le_walk site body names
  | .enumeration span head body, names => by
    have grows : names ≤ (visitStatement targets body names).2 :=
      le_wrapped fun site names => le_walk site body names
    cases site with
    | none => rw [walk_enumeration]; exact grows
    | some site => rw [walk_loop]; exact grows
  | .tryCatch span block param handler, names => by
    have grows := Nat.le_trans (le_walkAll block names) (le_walkAll handler _)
    cases site with
    | none => rw [walk]; exact grows
    | some site => rw [walk]; exact grows
  | .tryCatchFinally span block param handler finalizer, names => by
    have grows := Nat.le_trans (Nat.le_trans (le_walkAll block names) (le_walkAll handler _))
      (le_walkAll finalizer _)
    cases site with
    | none => rw [walk]; exact grows
    | some site => rw [walk]; exact grows
  | .tryFinally block finalizer, names => by
    rw [walk_tryFinally]
    exact Nat.le_trans (le_walkAll block names) (le_walkAll finalizer _)

theorem le_walkAll : (statements : List (Source Code Value)) → (names : Nat) →
    names ≤ (walkAll targets statements names).2
  | [], names => by simp [walkAll]
  | statement :: statements, names => by
    rw [walkAll]
    have grows : names ≤ (visitStatement targets statement names).2 :=
      le_wrapped fun site names => le_walk site statement names
    exact Nat.le_trans grows (le_walkAll statements _)

end

/-- What a statement's walk leaves runs as the statement, in full or with its construct's outcome
owed. -/
def Walks (statement : Source Code Value) : Prop :=
  ∀ labels names,
    match wrapOf targets statement with
    | none => Simulates (reading Memory targets names) (runs language.source labels statement)
        (runs language.instrumented labels (walk targets none statement names).1)
    | some (.loop first) => Tracks targets names (fun flags => flags names = false)
        (owed names first) (runs language.source labels statement)
        (runs language.instrumented labels
          (walk targets (some (names, first)) statement (names + 1)).1)
    | some (.try first) => Tracks targets names (fun flags => flags names = false)
        (fun _ _ => []) (runs language.source labels statement)
        (runs language.instrumented labels
          (walk targets (some (names, first)) statement (names + 1)).1)

variable {targets language}

theorem simulates_visit {statement : Source Code Value} (walks : Walks targets language statement)
    (names : Nat) :
    Simulates (reading Memory targets names) (runs language.source [] statement)
      (runs language.instrumented [] (visitStatement targets statement names).1) := by
  have walked := walks [] names
  unfold visitStatement
  cases found : wrapOf targets statement with
  | none =>
    rw [found] at walked
    exact walked
  | some wrap =>
    rw [found] at walked
    cases wrap with
    | «try» first => exact walked.reset
    | loop first =>
      dsimp only at walked
      rw [← seq_skip (runs language.instrumented [] _)] at walked
      exact walked.otherwise_alone.reset

section Constructs

variable {labels : List Label} {span : Span} {head : Enumeration Code} {names : Nat}
  {body body' : Behaviour Label Value Memory Event}
  {walked walked' : Behaviour Label Value (Memory × Flags) Happening}

theorem simulates_enumerates (none : targets.loops span = none)
    (simulates : Simulates (reading Memory targets names) body walked) :
    Simulates (reading Memory targets names)
      (Enumerates language.source labels span head body)
      (Enumerates language.instrumented labels span head walked) := by
  apply simulates_iff_tracks.mpr
  apply tracks_enumerates (settles_plain none)
  apply Enters.plain _ simulates
  intro entered
  cases entered <;> simp [enters, recorded, none]

theorem tracks_loop {first : Nat} (some_ : targets.loops span = some first)
    (simulates : Simulates (reading Memory targets (names + 1)) body walked) :
    Tracks targets names (fun flags => flags names = false) (owed names first)
      (Enumerates language.source labels span head body)
      (Enumerates language.instrumented labels span head
        (Seq (language.instrumented.probes (.firstTime names (first + 1))) walked)) := by
  apply tracks_enumerates (settles_owed some_)
  apply Enters.firstTime rfl _ simulates
  simp [enters, recorded, some_]

theorem simulates_catches {param : Value → Code} (none : targets.tries span = none)
    (block : Simulates (reading Memory targets names) body walked)
    (handler : Simulates (reading Memory targets names) body' walked') :
    Simulates (reading Memory targets names)
      (Catches language.source span body param body')
      (Catches language.instrumented span walked param walked') := by
  apply simulates_iff_tracks.mpr
  apply tracks_catches (settlesTry_plain none) (fun _ _ _ _ _ => trivial) (Nat.le_refl names) block
  apply Enters.plain _ handler
  intro entered
  cases entered <;> simp [catches, recorded, none]

theorem tracks_try {param : Value → Code} {first : Nat} (some_ : targets.tries span = some first)
    (block : Simulates (reading Memory targets (names + 1)) body walked)
    (handler : Simulates (reading Memory targets (names + 1)) body' walked') :
    Tracks targets names (fun flags => flags names = false) (owed names first)
      (Catches language.source span body param body')
      (Catches language.instrumented span walked param
        (Seq (language.instrumented.probes (.firstTime names (first + 1))) walked')) := by
  have stands (entered : Bool) (flags later : Flags)
      (same : ∀ named < names + 1, later named = flags named) (here : flags names = entered) :
      later names = entered := (same names (Nat.lt_succ_self names)).trans here
  apply tracks_catches (settlesTry_owed some_) stands (Nat.le_succ names) block
  apply Enters.firstTime rfl _ handler
  simp [catches, recorded, some_]

theorem runs_prepend (entry : ExtendedProbe) (isBlock : Bool) (walked : Instrumented Code Value) :
    runs language.instrumented [] (prepend entry isBlock walked) =
      Seq (language.instrumented.probes entry) (runs language.instrumented [] walked) := by
  unfold prepend
  split
  · split
    · simp only [runs, runsAll]
    · simp only [runs, runsAll, seq_skip]
  · simp only [runs, runsAll, seq_skip]

end Constructs

mutual

theorem walks : (statement : Source Code Value) → Walks targets language statement
  | .other code parts => by
    intro labels names
    show Simulates _ _ _
    rw [walk_other]
    simp only [runs]
    apply Simulates.compound
    · rintro _ _ _ _ ⟨decided, same⟩
      exact ⟨decided, rfl, fun _ _ => congrFun same _⟩
    · intro _ state _ after decided
      exact ⟨(after, state.2), ⟨decided, rfl⟩, rfl⟩
    · exact simulates_each parts names
  | .block body => by
    intro labels names
    show Simulates _ _ _
    rw [walk_block]
    simp only [runs]
    exact simulates_all body names
  | .labelled label body => by
    intro labels names
    have walked := walks body (label :: labels) names
    rw [show wrapOf targets (.labelled label body) = wrapOf targets body from rfl]
    cases found : wrapOf targets body with
    | none =>
      rw [found] at walked
      simp only [walk_labelled, runs]
      exact walked.labelled label
    | some wrap =>
      rw [found] at walked
      cases wrap <;>
      · simp only [walk_labelled, runs]
        exact walked.labelled label fun _ => rfl
  | .enumeration span head body => by
    intro labels names
    rw [show wrapOf targets (.enumeration span head body) = (targets.loops span).map .loop from rfl]
    cases found : targets.loops span with
    | none =>
      simp only [Option.map_none, walk_enumeration, runs]
      exact simulates_enumerates found (simulates_visit (walks body) names)
    | some first =>
      simp only [Option.map_some, walk_loop, runs, runs_prepend]
      exact tracks_loop found (simulates_visit (walks body) (names + 1))
  | .tryCatch span block param handler => by
    intro labels names
    rw [show wrapOf targets (.tryCatch span block param handler) = (targets.tries span).map .try
      from rfl]
    cases found : targets.tries span with
    | none =>
      simp only [Option.map_none, walk_tryCatch, runs]
      exact simulates_catches found (simulates_all block names)
        (simulates_weaken (le_walkAll targets block names) (simulates_all handler _))
    | some first =>
      simp only [Option.map_some, walk_try, runs, runsAll]
      apply Tracks.otherwise_alone
      exact tracks_try found (simulates_all block (names + 1)) (simulates_weaken
        (le_walkAll targets block (names + 1)) (simulates_all handler _))
  | .tryCatchFinally span block param handler finalizer => by
    intro labels names
    rw [show wrapOf targets (.tryCatchFinally span block param handler finalizer) =
      (targets.tries span).map .try from rfl]
    have within (names : Nat) := Nat.le_trans (le_walkAll targets block names)
      (le_walkAll targets handler (walkAll targets block names).2)
    cases found : targets.tries span with
    | none =>
      simp only [Option.map_none, walk_tryCatchFinally, runs]
      exact (simulates_catches found (simulates_all block names) (simulates_weaken
        (le_walkAll targets block names) (simulates_all handler _))).finally
          (simulates_weaken (within names) (simulates_all finalizer _))
    | some first =>
      simp only [Option.map_some, walk_tryWhole, runs, runsAll]
      exact (tracks_try found (simulates_all block (names + 1)) (simulates_weaken
        (le_walkAll targets block (names + 1)) (simulates_all handler _))).otherwise
          (simulates_weaken (within (names + 1)) (simulates_all finalizer _))
  | .tryFinally block finalizer => by
    intro labels names
    show Simulates _ _ _
    rw [walk_tryFinally]
    simp only [runs]
    exact (simulates_all block names).finally
      (simulates_weaken (le_walkAll targets block names) (simulates_all finalizer _))

theorem simulates_all : (statements : List (Source Code Value)) → (names : Nat) →
    Simulates (reading Memory targets names) (runsAll language.source statements)
      (runsAll language.instrumented (walkAll targets statements names).1)
  | [], names => by
    rw [walkAll]
    simp only [runsAll]
    exact Simulates.skip
  | statement :: statements, names => by
    rw [walkAll]
    simp only [runsAll]
    have grows : names ≤ (visitStatement targets statement names).2 :=
      le_wrapped fun site names => le_walk targets site statement names
    exact (simulates_visit (walks statement) names).seq
      (simulates_weaken grows (simulates_all statements _))

theorem simulates_each : (statements : List (Source Code Value)) → (names index : Nat) →
    Simulates (reading Memory targets names)
      ((runsEach language.source statements).getD index Skip)
      ((runsEach language.instrumented (walkAll targets statements names).1).getD index Skip)
  | [], names, index => by
    rw [walkAll]
    simp only [runsEach]
    exact Simulates.skip
  | statement :: statements, names, 0 => by
    rw [walkAll]
    simp only [runsEach]
    exact simulates_visit (walks statement) names
  | statement :: statements, names, index + 1 => by
    rw [walkAll]
    simp only [runsEach]
    have grows : names ≤ (visitStatement targets statement names).2 :=
      le_wrapped fun site names => le_walk targets site statement names
    exact simulates_weaken grows (simulates_each statements _ index)

end

end Walked

section Outcomes

/-- A loop that is left had its body entered, or began no iteration and threw nothing; an exception
that reaches a catch enters its body. -/
def Meets (targets : ExtendedTargets) : Event → Prop
  | .left span progress threw =>
    targets.loops span = none ∨ progress = .entered ∨ progress = .fresh ∧ threw = false
  | .unbound span => targets.tries span = none
  | .entered _ | .caught _ | .completed _ => True

theorem recorded_eq_outcomes_iff (event : Event) :
    recorded targets event = outcomes targets event ↔ Meets targets event := by
  cases event with
  | left span progress threw =>
    cases found : targets.loops span <;> cases progress <;> cases threw <;>
      simp [recorded, outcomes, Meets, found]
  | unbound span => cases found : targets.tries span <;> simp [recorded, outcomes, Meets, found]
  | _ => exact iff_of_true rfl trivial

theorem length_outcomes_le (event : Event) :
    (outcomes targets event).length ≤ (recorded targets event).length := by
  cases event with
  | left span progress threw => cases progress <;> cases threw <;> simp [recorded, outcomes]
  | unbound span => cases found : targets.tries span <;> simp [recorded, outcomes, found]
  | _ => exact Nat.le_refl _

theorem length_flatMap_outcomes_le (list : List Event) :
    (list.flatMap (outcomes targets)).length ≤ (list.flatMap (recorded targets)).length := by
  induction list with
  | nil => exact Nat.le_refl _
  | cons event list ih =>
    simp only [List.flatMap_cons, List.length_append]
    exact Nat.add_le_add (length_outcomes_le event) ih

theorem flatMap_recorded_eq_iff (list : List Event) :
    list.flatMap (recorded targets) = list.flatMap (outcomes targets) ↔
      ∀ event ∈ list, Meets targets event := by
  induction list with
  | nil => exact iff_of_true rfl nofun
  | cons event list ih =>
    rw [List.flatMap_cons, List.flatMap_cons, List.forall_mem_cons, ← ih,
      ← recorded_eq_outcomes_iff]
    constructor
    · intro same
      have lengths := congrArg List.length same
      rw [List.length_append, List.length_append] at lengths
      have first : (outcomes targets event).length ≤ (recorded targets event).length :=
        length_outcomes_le event
      have rest : (list.flatMap (outcomes targets)).length ≤
          (list.flatMap (recorded targets)).length := length_flatMap_outcomes_le list
      exact List.append_inj same (by omega)
    · rintro ⟨first, rest⟩
      rw [first, rest]

/-- An instrumented program completes as its source does, and it hits what happens, exactly where
what happens is as it should be. -/
theorem instrumented_outcomes_iff (targets : ExtendedTargets)
    (language : Language Code Value Memory) (statements : List (Source Code Value)) (names : Nat)
    (memory : Memory) (flags : Flags) :
    (∀ completion after, (∃ list, runsAll language.source statements memory completion after list) ↔
      ∃ after' happenings, runsAll language.instrumented (walkAll targets statements names).1
        (memory, flags) completion after' happenings ∧ after'.1 = after) ∧
    ∀ completion after happenings, runsAll language.instrumented
        (walkAll targets statements names).1 (memory, flags) completion after happenings →
      runsAll language.source statements memory completion after.1 (events happenings) ∧
        (hits happenings = (events happenings).flatMap (outcomes targets) ↔
          ∀ event ∈ events happenings, Meets targets event) := by
  have simulates : Simulates (reading Memory targets names) (runsAll language.source statements)
    (runsAll language.instrumented (walkAll targets statements names).1) := simulates_all statements names
  refine ⟨fun completion after => ⟨?_, ?_⟩, fun completion after happenings ran => ?_⟩
  · rintro ⟨list, ran⟩
    obtain ⟨after', happenings, did, same, _⟩ := simulates.complete (memory, flags) ran
    exact ⟨after', happenings, did, same⟩
  · rintro ⟨after', happenings, did, rfl⟩
    exact ⟨_, (simulates.sound did).1⟩
  · obtain ⟨source, told, _⟩ := simulates.sound ran
    refine ⟨source, ?_⟩
    rw [show hits happenings = _ from told]
    exact flatMap_recorded_eq_iff _

end Outcomes

section Throwing

def immediate : Language (Result Unit) Unit Unit where
  evaluates := fun code _ result _ => result = code
  decides := fun _ _ _ _ _ => False
  truthy := fun _ => false

/-- `for (const item of undefined) {}` -/
def overUndefined : List (Source (Result Unit) Unit) :=
  [.enumeration (0, 33)
    ⟨.abrupt (.threw ()), .value (), .value (), .value ()⟩ (.block [])]

def firstLoop : ExtendedTargets where
  tries := fun _ => none
  loops := fun _ => some 0

/-- Zero iterations are recorded of a loop over what cannot be iterated, which throws. -/
theorem hits_overUndefined :
    ∃ after happenings, runsAll immediate.instrumented (walkAll firstLoop overUndefined 0).1
        ((), fun _ => false) (.threw ()) after happenings ∧
      hits happenings = [0] ∧ (events happenings).flatMap (outcomes firstLoop) = [] := by
  have simulates : Simulates (reading Unit firstLoop 0) (runsAll immediate.source overUndefined)
    (runsAll immediate.instrumented (walkAll firstLoop overUndefined 0).1) := simulates_all _ 0
  have ran : runsAll immediate.source overUndefined () (.threw ()) ()
      [.left (0, 33) .fresh true] := by
    unfold overUndefined
    simp only [runsAll, runs]
    exact .stop (.abrupt rfl) nofun
  obtain ⟨after, happenings, did, _, seen⟩ := simulates.complete ((), fun _ => false) ran
  obtain ⟨_, told, _⟩ := simulates.sound did
  have seen' : events happenings = [.left (0, 33) .fresh true] := seen
  unfold Told at told
  rw [seen'] at told
  exact ⟨after, happenings, did, told, seen' ▸ rfl⟩

end Throwing

end Supercov.Js.Extended
