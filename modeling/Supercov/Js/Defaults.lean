import Mathlib.Data.List.Nodup
import Mathlib.Tactic.Common

/-!
# The defaults of a JavaScript file

Defaults are collected from the function or the declaration that owns them, and instrumented where
the transformer meets them.  The transformer looks a default up by whether it is inside of a
parameter's pattern, which code inside of a parameter's pattern is as well and a rest parameter's
pattern is not.
-/

namespace Supercov.Js.Defaults

abbrev Span := Nat × Nat

scoped instance : LawfulBEq Span := inferInstance

section Syntax

mutual

/-- A pattern. A property's computed key is put before the pattern under it, and an array's rest
after its elements; an object's rest is a name. -/
inductive BindingPattern where
  | identifier
  | object (properties : List BindingPattern)
  | array (elements : List BindingPattern)
  | computed (key : Code) (value : BindingPattern)
  | assignment (span : Span) (left : BindingPattern) (right : Code)

inductive Parameter where
  | plain (pattern : BindingPattern)
  | initialized (span : Span) (pattern : BindingPattern) (initializer : Code)
  | rest (pattern : BindingPattern)

/-- Statements and expressions, as the transformer meets them: the statement probes have put a bare
body in a block. A function whose source is looked at and a `with` are untouched. -/
inductive Code where
  | other (parts : List Code)
  | statements (list : List Code)
  | variableDeclaration (span : Span) (ids : List BindingPattern) (inits : List Code)
  | exportNamed (declaration : Code)
  | forStatement (init : Code) (parts : List Code)
  | enumeration (left right body : Code)
  | catchParameter (pattern : BindingPattern)
  | function (span : Span) (params : List Parameter) (body : List Code)
  | signature (params : List Parameter)
  | untouched

end

/-- Where code stands. -/
inductive Position where
  | statement
  | loopLeft
  | forInit
  | elsewhere
  deriving DecidableEq

/-- What has entries put in it: a function's body, or what follows a declaration. -/
inductive Owner where
  | function (span : Span)
  | declaration (span : Span)
  deriving DecidableEq

def Owner.isFunction : Owner → Bool
  | .function _ => true
  | .declaration _ => false

end Syntax

section Collector

/-- A default of the manifest; its two alternatives are named by its span. -/
structure DefaultTarget where
  span : Span
  owner : Owner
  deriving DecidableEq

mutual

def collectBindingPattern (owner : Owner) : BindingPattern → List DefaultTarget
  | .identifier => []
  | .object properties => collectBindingPatterns owner properties
  | .array elements => collectBindingPatterns owner elements
  | .computed _ value => collectBindingPattern owner value
  | .assignment span left _ => ⟨span, owner⟩ :: collectBindingPattern owner left

def collectBindingPatterns (owner : Owner) : List BindingPattern → List DefaultTarget
  | [] => []
  | pattern :: patterns => collectBindingPattern owner pattern ++ collectBindingPatterns owner patterns

end

def collectParameter (owner : Owner) : Parameter → List DefaultTarget
  | .plain pattern => collectBindingPattern owner pattern
  | .initialized span pattern _ => ⟨span, owner⟩ :: collectBindingPattern owner pattern
  | .rest pattern => collectBindingPattern owner pattern

def collectParameters (owner : Owner) (params : List Parameter) : List DefaultTarget :=
  params.flatMap (collectParameter owner)

mutual

def hasBindingDefault : BindingPattern → Bool
  | .identifier => false
  | .object properties => haveBindingDefault properties
  | .array elements => haveBindingDefault elements
  | .computed _ value => hasBindingDefault value
  | .assignment .. => true

def haveBindingDefault : List BindingPattern → Bool
  | [] => false
  | pattern :: patterns => hasBindingDefault pattern || haveBindingDefault patterns

end

/-- A classic loop's initializer is a limitation of the manifest. -/
def collectDeclaration (position : Position) (span : Span) (ids : List BindingPattern) :
    List DefaultTarget :=
  if !haveBindingDefault ids || position = .forInit then []
  else collectBindingPatterns (.declaration span) ids

mutual

/-- The defaults collected in code. -/
def targets (position : Position) : Code → List DefaultTarget
  | .other parts => targetsAll .elsewhere parts
  | .statements list => targetsAll .statement list
  | .variableDeclaration span ids inits =>
    collectDeclaration position span ids ++ targetsPatterns ids ++ targetsAll .elsewhere inits
  | .exportNamed declaration => targets position declaration
  | .forStatement init parts => targets .forInit init ++ targetsAll .elsewhere parts
  | .enumeration left right body =>
    targets .loopLeft left ++ targets .elsewhere right ++ targets .elsewhere body
  | .catchParameter pattern => targetsPattern pattern
  | .function span params body =>
    collectParameters (.function span) params ++ targetsParameters params ++
      targetsAll .statement body
  | .signature params => targetsParameters params
  | .untouched => []

def targetsAll (position : Position) : List Code → List DefaultTarget
  | [] => []
  | code :: list => targets position code ++ targetsAll position list

def targetsPattern : BindingPattern → List DefaultTarget
  | .identifier => []
  | .object properties => targetsPatterns properties
  | .array elements => targetsPatterns elements
  | .computed key value => targets .elsewhere key ++ targetsPattern value
  | .assignment _ left right => targetsPattern left ++ targets .elsewhere right

def targetsPatterns : List BindingPattern → List DefaultTarget
  | [] => []
  | pattern :: patterns => targetsPattern pattern ++ targetsPatterns patterns

def targetsParameter : Parameter → List DefaultTarget
  | .plain pattern => targetsPattern pattern
  | .initialized _ pattern initializer => targetsPattern pattern ++ targets .elsewhere initializer
  | .rest pattern => targetsPattern pattern

def targetsParameters : List Parameter → List DefaultTarget
  | [] => []
  | param :: params => targetsParameter param ++ targetsParameters params

end

end Collector

section Transformer

/-- Where the transformer is: whether inside of a parameter's pattern, and the innermost function
and declaration, where the entries given to them are put somewhere. -/
structure Context where
  inside : Bool
  function : Option Span
  declaration : Option Span

/-- A default that is met, which of the two maps it is looked up in, and where its entry goes: a
parameter's to a function, any other to a declaration. -/
structure Visit where
  span : Span
  parameter : Bool
  owner : Option Owner
  sorted : ∀ kept, owner = some kept → kept.isFunction = parameter

namespace Context

/-- No function and no declaration is open. -/
def start : Context := ⟨false, none, none⟩

/-- Where the entry of a pattern's default goes. -/
def owner (context : Context) : Option Owner :=
  if context.inside then context.function.map .function else context.declaration.map .declaration

def visit (context : Context) (span : Span) : Visit where
  span
  parameter := context.inside
  owner := context.owner
  sorted kept owned := by
    unfold owner at owned
    split at owned <;> simp_all only [Option.map_eq_some_iff] <;> grind [Owner.isFunction]

def visitOwn (context : Context) (span : Span) : Visit where
  span
  parameter := true
  owner := context.function.map .function
  sorted kept owned := by
    obtain ⟨function, _, rfl⟩ := Option.map_eq_some_iff.mp owned
    rfl

def pattern (context : Context) : Context := { context with inside := true }

def enterFunction (context : Context) (span : Option Span) : Context :=
  { context with function := span }

/-- The entries of a declaration are taken by the statement list it stands in and by the loop it
heads. -/
def enterDeclaration (context : Context) (position : Position) (span : Span) : Context :=
  { context with
    declaration := if position = .statement ∨ position = .loopLeft then some span else none }

end Context

mutual

/-- The defaults met in code. -/
def visits (context : Context) (position : Position) : Code → List Visit
  | .other parts => visitsAll context .elsewhere parts
  | .statements list => visitsAll context .statement list
  | .variableDeclaration span ids inits =>
    visitsPatterns (context.enterDeclaration position span) ids ++
      visitsAll (context.enterDeclaration position span) .elsewhere inits
  | .exportNamed declaration => visits context position declaration
  | .forStatement init parts => visits context .forInit init ++ visitsAll context .elsewhere parts
  | .enumeration left right body =>
    visits context .loopLeft left ++ visits context .elsewhere right ++
      visits context .elsewhere body
  | .catchParameter pattern => visitsPattern context pattern
  | .function span params body =>
    visitsParameters (context.enterFunction (some span)) params ++
      visitsAll (context.enterFunction (some span)) .statement body
  | .signature params => visitsParameters (context.enterFunction none) params
  | .untouched => []

def visitsAll (context : Context) (position : Position) : List Code → List Visit
  | [] => []
  | code :: list => visits context position code ++ visitsAll context position list

def visitsPattern (context : Context) : BindingPattern → List Visit
  | .identifier => []
  | .object properties => visitsPatterns context properties
  | .array elements => visitsPatterns context elements
  | .computed key value => visits context .elsewhere key ++ visitsPattern context value
  | .assignment span left right =>
    context.visit span :: (visitsPattern context left ++ visits context .elsewhere right)

def visitsPatterns (context : Context) : List BindingPattern → List Visit
  | [] => []
  | pattern :: patterns => visitsPattern context pattern ++ visitsPatterns context patterns

/-- A parameter's own default is a parameter's wherever it is met. -/
def visitsParameter (context : Context) : Parameter → List Visit
  | .plain pattern => visitsPattern context.pattern pattern
  | .initialized span pattern initializer =>
    context.visitOwn span ::
      (visitsPattern context.pattern pattern ++ visits context .elsewhere initializer)
  | .rest pattern => visitsPattern context pattern

def visitsParameters (context : Context) : List Parameter → List Visit
  | [] => []
  | param :: params => visitsParameter context param ++ visitsParameters context params

end

/-- A file, whose defaults each have a span of their own, and the points that come before those of
its defaults. -/
structure Program where
  points : List String
  body : List Code
  distinct : ((visitsAll .start .statement body).map Visit.span).Nodup

namespace Program

variable (program : Program)

def targets : List DefaultTarget := targetsAll .statement program.body

def visits : List Visit := visitsAll .start .statement program.body

def parameterTargets : List Span := (program.targets.filter (·.owner.isFunction)).map (·.span)

def bindingTargets : List Span := (program.targets.filter (!·.owner.isFunction)).map (·.span)

def found (visit : Visit) : Bool :=
  if visit.parameter then visit.span ∈ program.parameterTargets
  else visit.span ∈ program.bindingTargets

/-- The defaults that count themselves. -/
def selected : List Span := (program.visits.filter program.found).map Visit.span

def entered (owner : Owner) : List Span :=
  (program.visits.filter fun visit => program.found visit && visit.owner = some owner).map Visit.span

/-- Every default of the manifest has its probes. -/
def Probed : Prop :=
  ∀ target ∈ program.targets,
    target.span ∈ program.selected ∧ target.span ∈ program.entered target.owner

end Program

end Transformer

section Reach

/-- A declaration with defaults stands where its entries are taken, outside of parameters'
patterns. -/
def declarationReached (inside : Bool) (position : Position) (ids : List BindingPattern) : Bool :=
  !haveBindingDefault ids || position = .forInit ||
    !inside && (position = .statement || position = .loopLeft)

/-- A rest parameter with defaults is a function's that stands inside of a parameter's pattern. -/
def restReached (inside : Bool) : Parameter → Bool
  | .rest pattern => !hasBindingDefault pattern || inside
  | _ => true

mutual

def reached (inside : Bool) (position : Position) : Code → Bool
  | .other parts => reachedAll inside .elsewhere parts
  | .statements list => reachedAll inside .statement list
  | .variableDeclaration _ ids inits =>
    declarationReached inside position ids && reachedPatterns inside ids &&
      reachedAll inside .elsewhere inits
  | .exportNamed declaration => reached inside position declaration
  | .forStatement init parts => reached inside .forInit init && reachedAll inside .elsewhere parts
  | .enumeration left right body =>
    reached inside .loopLeft left && reached inside .elsewhere right && reached inside .elsewhere body
  | .catchParameter pattern => reachedPattern inside pattern
  | .function _ params body =>
    params.all (restReached inside) && reachedParameters inside params &&
      reachedAll inside .statement body
  | .signature params => reachedParameters inside params
  | .untouched => true

def reachedAll (inside : Bool) (position : Position) : List Code → Bool
  | [] => true
  | code :: list => reached inside position code && reachedAll inside position list

def reachedPattern (inside : Bool) : BindingPattern → Bool
  | .identifier => true
  | .object properties => reachedPatterns inside properties
  | .array elements => reachedPatterns inside elements
  | .computed key value => reached inside .elsewhere key && reachedPattern inside value
  | .assignment _ left right => reachedPattern inside left && reached inside .elsewhere right

def reachedPatterns (inside : Bool) : List BindingPattern → Bool
  | [] => true
  | pattern :: patterns => reachedPattern inside pattern && reachedPatterns inside patterns

def reachedParameter (inside : Bool) : Parameter → Bool
  | .plain pattern => reachedPattern true pattern
  | .initialized _ pattern initializer =>
    reachedPattern true pattern && reached inside .elsewhere initializer
  | .rest pattern => reachedPattern inside pattern

def reachedParameters (inside : Bool) : List Parameter → Bool
  | [] => true
  | param :: params => reachedParameter inside param && reachedParameters inside params

end

def Program.reached (program : Program) : Bool := reachedAll false .statement program.body

end Reach

section Meetings

structure Visit.Serves (visit : Visit) (target : DefaultTarget) : Prop where
  span : visit.span = target.span
  owner : visit.owner = some target.owner

/-- Every default is met by a visit that serves it, or one is met by a visit that does not. -/
structure Meets (ok : Bool) (targets : List DefaultTarget) (visits : List Visit) : Prop where
  serves : ok = true → ∀ target ∈ targets, ∃ visit ∈ visits, visit.Serves target
  misses : ok = false →
    ∃ target ∈ targets, ∃ visit ∈ visits, visit.span = target.span ∧ ¬ visit.Serves target

namespace Meets

variable {one other : Bool} {targets others : List DefaultTarget} {visits more : List Visit}

theorem nil : Meets true [] visits where
  serves _ := nofun
  misses := nofun

theorem mono (meets : Meets one targets visits) (subset : visits ⊆ more) :
    Meets one targets more where
  serves ok target member :=
    have ⟨visit, met, serves⟩ := meets.serves ok target member
    ⟨visit, subset met, serves⟩
  misses fails :=
    have ⟨target, member, visit, met, misses⟩ := meets.misses fails
    ⟨target, member, visit, subset met, misses⟩

theorem both (first : Meets one targets visits) (second : Meets other others visits) :
    Meets (one && other) (targets ++ others) visits where
  serves ok target member := by
    obtain ⟨firstOk, secondOk⟩ := (Bool.and_eq_true _ _).mp ok
    cases List.mem_append.mp member with
    | inl member => exact first.serves firstOk target member
    | inr member => exact second.serves secondOk target member
  misses fails := by
    cases (Bool.and_eq_false_iff).mp fails with
    | inl fails =>
      obtain ⟨target, member, misses⟩ := first.misses fails
      exact ⟨target, List.mem_append_left _ member, misses⟩
    | inr fails =>
      obtain ⟨target, member, misses⟩ := second.misses fails
      exact ⟨target, List.mem_append_right _ member, misses⟩

theorem append (first : Meets one targets visits) (second : Meets other others more) :
    Meets (one && other) (targets ++ others) (visits ++ more) :=
  (first.mono (List.subset_append_left _ _)).both (second.mono (List.subset_append_right _ _))

end Meets

variable {context : Context} {owner : Owner}

mutual

theorem visit_mem_visitsPattern {target : DefaultTarget} : (pattern : BindingPattern) →
    target ∈ collectBindingPattern owner pattern →
      target.owner = owner ∧ context.visit target.span ∈ visitsPattern context pattern
  | .identifier, member => nomatch member
  | .object properties, member => visit_mem_visitsPatterns properties member
  | .array elements, member => visit_mem_visitsPatterns elements member
  | .computed _ value, member =>
    (visit_mem_visitsPattern value member).imp_right (List.mem_append_right _)
  | .assignment _ left _, member => by
    cases member with
    | head => exact ⟨rfl, List.mem_cons_self⟩
    | tail _ member =>
      exact (visit_mem_visitsPattern left member).imp_right fun met =>
        List.mem_cons_of_mem _ (List.mem_append_left _ met)

theorem visit_mem_visitsPatterns {target : DefaultTarget} : (patterns : List BindingPattern) →
    target ∈ collectBindingPatterns owner patterns →
      target.owner = owner ∧ context.visit target.span ∈ visitsPatterns context patterns
  | [], member => nomatch member
  | pattern :: patterns, member => by
    cases List.mem_append.mp member with
    | inl member =>
      exact (visit_mem_visitsPattern pattern member).imp_right (List.mem_append_left _)
    | inr member =>
      exact (visit_mem_visitsPatterns patterns member).imp_right (List.mem_append_right _)

end

mutual

theorem hasBindingDefault_iff : (pattern : BindingPattern) →
    (hasBindingDefault pattern = true ↔ ∃ target, target ∈ collectBindingPattern owner pattern)
  | .identifier => iff_of_false nofun nofun
  | .object properties => haveBindingDefault_iff properties
  | .array elements => haveBindingDefault_iff elements
  | .computed _ value => hasBindingDefault_iff value
  | .assignment .. => iff_of_true rfl ⟨_, List.mem_cons_self⟩

theorem haveBindingDefault_iff : (patterns : List BindingPattern) →
    (haveBindingDefault patterns = true ↔ ∃ target, target ∈ collectBindingPatterns owner patterns)
  | [] => iff_of_false nofun nofun
  | pattern :: patterns => by
    unfold haveBindingDefault collectBindingPatterns
    simp only [Bool.or_eq_true, List.mem_append, exists_or, hasBindingDefault_iff pattern,
      haveBindingDefault_iff patterns]

end

theorem meets_collected {ok default : Bool} {targets : List DefaultTarget} {visits : List Visit}
    (serves : ok = true ↔ context.owner = some owner)
    (defaults : default = true ↔ ∃ target, target ∈ targets)
    (met : ∀ target ∈ targets, target.owner = owner ∧ context.visit target.span ∈ visits) :
    Meets (!default || ok) targets visits where
  serves good target member := by
    obtain ⟨owned, visited⟩ := met target member
    have found : default = true := defaults.mpr ⟨target, member⟩
    rw [found, Bool.not_true, Bool.false_or, serves, ← owned] at good
    exact ⟨_, visited, rfl, good⟩
  misses fails := by
    obtain ⟨found, bad⟩ := Bool.or_eq_false_iff.mp fails
    obtain ⟨target, member⟩ := defaults.mp (by simpa using found)
    obtain ⟨owned, visited⟩ := met target member
    refine ⟨target, member, _, visited, rfl, fun good => ?_⟩
    have same : context.owner = some owner := good.owner.trans (congrArg some owned)
    rw [serves.mpr same] at bad
    cases bad

theorem serves_of_pattern {span : Span} {pattern : BindingPattern} {target : DefaultTarget}
    (member : target ∈ collectBindingPattern (.function span) pattern) :
    ∃ visit ∈ visitsPattern (context.enterFunction (some span)).pattern pattern,
      visit.Serves target :=
  have ⟨owned, met⟩ := visit_mem_visitsPattern pattern member
  ⟨_, met, rfl, congrArg some owned.symm⟩

theorem meets_collectDeclaration (position : Position) (span : Span) (ids : List BindingPattern) :
    Meets (declarationReached context.inside position ids) (collectDeclaration position span ids)
      (visitsPatterns (context.enterDeclaration position span) ids) := by
  unfold declarationReached collectDeclaration
  by_cases init : position = .forInit
  · simp only [init, decide_true, Bool.or_true, Bool.true_or, if_true]
    exact .nil
  · simp only [init, decide_false, Bool.or_false]
    by_cases default : haveBindingDefault ids = true
    · rw [if_neg (by simp [default])]
      refine meets_collected ?_ (haveBindingDefault_iff ids)
        fun target member => visit_mem_visitsPatterns ids member
      unfold Context.owner Context.enterDeclaration
      cases context.inside <;> cases position <;> simp
    · rw [if_pos (by simp [default])]
      simp only [default, Bool.not_false, Bool.true_or]
      exact .nil

theorem meets_collectParameter (span : Span) (param : Parameter) :
    Meets (restReached context.inside param) (collectParameter (.function span) param)
      (visitsParameter (context.enterFunction (some span)) param) := by
  cases param with
  | plain pattern => exact ⟨fun _ target member => serves_of_pattern member, nofun⟩
  | initialized outer pattern initializer =>
    refine ⟨fun _ target member => ?_, nofun⟩
    cases member with
    | head => exact ⟨_, List.mem_cons_self, rfl, rfl⟩
    | tail _ member =>
      obtain ⟨visit, met, serves⟩ := serves_of_pattern member
      exact ⟨visit, List.mem_cons_of_mem _ (List.mem_append_left _ met), serves⟩
  | rest pattern =>
    refine meets_collected ?_ (hasBindingDefault_iff pattern)
      fun target member => visit_mem_visitsPattern pattern member
    unfold Context.owner Context.enterFunction
    cases context.inside <;> simp

theorem meets_collectParameters (span : Span) (params : List Parameter) :
    Meets (params.all (restReached context.inside)) (collectParameters (.function span) params)
      (visitsParameters (context.enterFunction (some span)) params) := by
  induction params with
  | nil => exact .nil
  | cons param params ih => exact (meets_collectParameter span param).append ih

mutual

theorem meets_targets (context : Context) (position : Position) : (code : Code) →
    Meets (reached context.inside position code) (targets position code)
      (visits context position code)
  | .other parts => meets_targetsAll context .elsewhere parts
  | .statements list => meets_targetsAll context .statement list
  | .variableDeclaration span ids inits =>
    ((meets_collectDeclaration position span ids).both
      (meets_targetsPatterns (context.enterDeclaration position span) ids)).append
        (meets_targetsAll (context.enterDeclaration position span) .elsewhere inits)
  | .exportNamed declaration => meets_targets context position declaration
  | .forStatement init parts =>
    (meets_targets context .forInit init).append (meets_targetsAll context .elsewhere parts)
  | .enumeration left right body =>
    ((meets_targets context .loopLeft left).append (meets_targets context .elsewhere right)).append
      (meets_targets context .elsewhere body)
  | .catchParameter pattern => meets_targetsPattern context pattern
  | .function span params body =>
    ((meets_collectParameters span params).both
      (meets_targetsParameters (context.enterFunction (some span)) params)).append
        (meets_targetsAll (context.enterFunction (some span)) .statement body)
  | .signature params => meets_targetsParameters (context.enterFunction none) params
  | .untouched => .nil

theorem meets_targetsAll (context : Context) (position : Position) : (list : List Code) →
    Meets (reachedAll context.inside position list) (targetsAll position list)
      (visitsAll context position list)
  | [] => .nil
  | code :: list =>
    (meets_targets context position code).append (meets_targetsAll context position list)

theorem meets_targetsPattern (context : Context) : (pattern : BindingPattern) →
    Meets (reachedPattern context.inside pattern) (targetsPattern pattern)
      (visitsPattern context pattern)
  | .identifier => .nil
  | .object properties => meets_targetsPatterns context properties
  | .array elements => meets_targetsPatterns context elements
  | .computed key value =>
    (meets_targets context .elsewhere key).append (meets_targetsPattern context value)
  | .assignment _ left right =>
    ((meets_targetsPattern context left).append (meets_targets context .elsewhere right)).mono
      (List.subset_cons_self _ _)

theorem meets_targetsPatterns (context : Context) : (patterns : List BindingPattern) →
    Meets (reachedPatterns context.inside patterns) (targetsPatterns patterns)
      (visitsPatterns context patterns)
  | [] => .nil
  | pattern :: patterns =>
    (meets_targetsPattern context pattern).append (meets_targetsPatterns context patterns)

theorem meets_targetsParameter (context : Context) : (param : Parameter) →
    Meets (reachedParameter context.inside param) (targetsParameter param)
      (visitsParameter context param)
  | .plain pattern => meets_targetsPattern context.pattern pattern
  | .initialized _ pattern initializer =>
    ((meets_targetsPattern context.pattern pattern).append
      (meets_targets context .elsewhere initializer)).mono (List.subset_cons_self _ _)
  | .rest pattern => meets_targetsPattern context pattern

theorem meets_targetsParameters (context : Context) : (params : List Parameter) →
    Meets (reachedParameters context.inside params) (targetsParameters params)
      (visitsParameters context params)
  | [] => .nil
  | param :: params =>
    (meets_targetsParameter context param).append (meets_targetsParameters context params)

end

end Meetings

namespace Program

variable (program : Program)

theorem meets : Meets program.reached program.targets program.visits :=
  meets_targetsAll .start .statement program.body

variable {program}

theorem eq_of_span {one other : Visit} (first : one ∈ program.visits) (second : other ∈ program.visits)
    (same : one.span = other.span) : one = other :=
  List.inj_on_of_nodup_map program.distinct first second same

theorem found_of_serves {target : DefaultTarget} (member : target ∈ program.targets) {visit : Visit}
    (serves : visit.Serves target) : program.found visit = true := by
  unfold found
  rw [← visit.sorted _ serves.owner, serves.span]
  cases function : target.owner.isFunction with
  | true =>
    exact decide_eq_true
      (List.mem_map.mpr ⟨target, List.mem_filter.mpr ⟨member, function⟩, rfl⟩)
  | false =>
    exact decide_eq_true
      (List.mem_map.mpr ⟨target, List.mem_filter.mpr ⟨member, by rw [function]; rfl⟩, rfl⟩)

theorem mem_entered_iff {target : DefaultTarget} (member : target ∈ program.targets) :
    target.span ∈ program.entered target.owner ↔
      ∃ visit ∈ program.visits, visit.Serves target := by
  simp only [entered, List.mem_map, List.mem_filter, Bool.and_eq_true, decide_eq_true_eq]
  constructor
  · rintro ⟨visit, ⟨met, _, owned⟩, same⟩
    exact ⟨visit, met, same, owned⟩
  · rintro ⟨visit, met, serves⟩
    exact ⟨visit, ⟨met, found_of_serves member serves, serves.owner⟩, serves.span⟩

theorem mem_selected {target : DefaultTarget} (member : target ∈ program.targets) {visit : Visit}
    (met : visit ∈ program.visits) (serves : visit.Serves target) :
    target.span ∈ program.selected :=
  List.mem_map.mpr
    ⟨visit, List.mem_filter.mpr ⟨met, found_of_serves member serves⟩, serves.span⟩

theorem probed_iff_reached : program.Probed ↔ program.reached = true := by
  constructor
  · intro probed
    by_contra missed
    obtain ⟨target, member, visit, met, same, misses⟩ :=
      program.meets.misses (Bool.not_eq_true _ ▸ missed)
    obtain ⟨other, otherMet, serves⟩ := (mem_entered_iff member).mp (probed target member).2
    rw [eq_of_span met otherMet (same.trans serves.span.symm)] at misses
    exact misses serves
  · intro all target member
    obtain ⟨visit, met, serves⟩ := program.meets.serves all target member
    exact ⟨mem_selected member met serves, (mem_entered_iff member).mpr ⟨visit, met, serves⟩⟩

theorem mem_entered_iff_of_probed (probed : program.Probed) {owner : Owner} {span : Span} :
    span ∈ program.entered owner ↔ ⟨span, owner⟩ ∈ program.targets := by
  constructor
  · intro entry
    simp only [entered, List.mem_map, List.mem_filter, Bool.and_eq_true,
      decide_eq_true_eq] at entry
    obtain ⟨visit, ⟨met, found, owned⟩, rfl⟩ := entry
    have kept : visit.span ∈ program.targets.map (·.span) := by
      unfold Program.found parameterTargets bindingTargets at found
      split at found <;>
        exact List.map_subset _ (List.filter_subset_self _) (of_decide_eq_true found)
    obtain ⟨target, member, same⟩ := List.mem_map.mp kept
    obtain ⟨other, otherMet, serves⟩ := (mem_entered_iff member).mp (probed target member).2
    have one : other = visit := eq_of_span otherMet met (serves.span.trans same)
    have both : some target.owner = some owner := by rw [← serves.owner, one, owned]
    rw [← same, ← Option.some.inj both]
    exact member
  · intro member
    exact (probed _ member).2

theorem nodup_entered (owner : Owner) : (program.entered owner).Nodup :=
  program.distinct.sublist (List.filter_sublist.map _)

end Program

end Supercov.Js.Defaults
