import CxxDead.CacheKey
import CxxDead.Generic
import CxxDead.StableKey
/-!
# What a cache key is made from

The text that is hashed into a cache key is a list of components, a name and a value
each, and no two lists make one text (`components_inj`). Only the selectors of callback
rules are written in a way that two of them can share.

- `text_eq_iff`: when two calls hash the same text.
- `text_determines_iff`: when they must then agree on everything.
-/

namespace CxxDead

open Lib

namespace CacheKey

/-! ## Components as pairs -/

abbrev Component := Bytes × Bytes

def write (c : Component) : Bytes := appendComponent c.1 c.2

theorem write_eq (c : Component) (rest : Bytes) :
    write c ++ rest = prefixed decimal (ch ':') c.1 ++ (prefixed decimal (ch ':') c.2 ++ rest) := by
  simp only [write, appendComponent, prefixed, List.append_assoc, List.cons_append]

theorem write_append_inj {c c' : Component} {rest rest' : Bytes} :
    write c ++ rest = write c' ++ rest' ↔ c = c' ∧ rest = rest' := by
  rw [write_eq, write_eq, prefixed_inj decimal_injective colon_not_mem_decimal,
    prefixed_inj decimal_injective colon_not_mem_decimal, ← and_assoc, ← Prod.ext_iff]

theorem write_ne_nil (c : Component) (rest : Bytes) : write c ++ rest ≠ [] := by
  intro h
  have hlength := congrArg List.length h
  simp [write, appendComponent] at hlength

/-- A text is written from one list of components only. -/
theorem components_inj {l l' : List Component} : l.flatMap write = l'.flatMap write ↔ l = l' := by
  constructor
  · intro h
    induction l generalizing l' with
    | nil =>
      cases l' with
      | nil => rfl
      | cons c' l' => exact absurd h.symm (write_ne_nil c' _)
    | cons c l ih =>
      cases l' with
      | nil => exact absurd h (write_ne_nil c _)
      | cons c' l' =>
        rw [List.flatMap_cons, List.flatMap_cons, write_append_inj] at h
        rw [h.1, ih h.2]
  · rintro rfl
    rfl

/-- A list with its length. -/
def counted {α : Type} (name : Bytes) (component : α → Component) (l : List α) : List Component :=
  (name, decimal l.length) :: l.map component

def pathComponent (path : Path) : Component := (lit "path", path.genericString)

def valueComponent (value : Bytes) : Component := (lit "value", value)

def compilerList (host : Host) (options : IndexOptions) (frontend : IndexFrontend) :
    Except Exception (List Component) :=
  match frontend with
  | .libTooling => .ok []
  | .astJson => do
    match ← host.resolveExecutable options.clangExecutable with
    | none => pure []
    | some compiler =>
      pure [(lit "clang_path", compiler.genericString),
        (lit "clang_digest", fingerprintOr (host.fingerprint compiler))]

def inputList (host : Host) : List Path → Except Exception (List Component)
  | [] => .ok []
  | input :: rest => do
    let digest ← host.sha256File input
    let components ← inputList host rest
    pure ((lit "command_input_path", input.genericString) :: (lit "command_input_digest", digest) :: components)

def ruleList (rule : CallbackRegistrationRule) : List Component :=
  [(lit "callback", describe rule.callee), (lit "argument", decimal rule.argumentIndex.toNat),
   (lit "provider", rule.evidence.provider), (lit "reason", rule.evidence.reason)]

def environmentList (environment : Bytes → Option Bytes) (names : List Bytes) : List Component :=
  names.flatMap fun name =>
    match environment name with
    | some value => [(name, value)]
    | none => []

/-- The components in front of those of the compiler. -/
def headList (host : Host) (command : CompileCommand) (options : IndexOptions) (frontend : IndexFrontend) :
    List Component :=
  [(lit "cache_schema", decimal translationUnitCacheSchemaVersion), (lit "extractor", lit "cxx-dead-0.18"),
   (lit "cxx_dead_binary", fingerprintOr host.binary), (lit "frontend", frontend.toText),
   (lit "directory", command.directory.genericString), (lit "file", command.file.genericString),
   (lit "configuration", options.configurationId), (lit "project_root", options.projectRoot.genericString),
   (lit "clang", options.clangExecutable)]

def flagList (options : IndexOptions) : List Component :=
  [(lit "ast_filter", options.astFilter), (lit "verbose", flag options.verbose),
   (lit "infer_exports", flag options.inferSharedLibraryExports),
   (lit "require_api", flag options.requireLibraryApiPolicy)]

def tailList (host : Host) (options : IndexOptions) : List Component :=
  counted (lit "report_paths") pathComponent options.reportPaths ++
    (counted (lit "excluded_paths") pathComponent options.excludedPaths ++
    (counted (lit "selected_sources") pathComponent options.selectedTargetSources ++
    (counted (lit "public_headers") pathComponent options.publicHeaders ++
    (options.callbackRegistrationRules.flatMap ruleList ++ environmentList host.environment environmentNames))))

theorem compilerComponents_eq (host : Host) (options : IndexOptions) (frontend : IndexFrontend) :
    compilerComponents host options frontend = (compilerList host options frontend).map (·.flatMap write) := by
  cases frontend with
  | libTooling => rfl
  | astJson =>
    unfold compilerComponents compilerList
    cases host.resolveExecutable options.clangExecutable with
    | error e => rfl
    | ok found =>
      cases found with
      | none => rfl
      | some compiler => simp [Except.map, bind, Except.bind, pure, Except.pure, write]

theorem inputComponents_eq (host : Host) (inputs : List Path) :
    inputComponents host inputs = (inputList host inputs).map (·.flatMap write) := by
  induction inputs with
  | nil => rfl
  | cons input rest ih =>
    unfold inputComponents inputList
    rw [ih]
    cases host.sha256File input with
    | error e => rfl
    | ok digest =>
      cases inputList host rest with
      | error e => rfl
      | ok components => simp [Except.map, bind, Except.bind, pure, Except.pure, write]

/-- What is hashed, as a list. -/
theorem components_ok_iff {host : Host} {command : CompileCommand} {options : IndexOptions} {frontend : IndexFrontend}
    {text : Bytes} :
    components host command options frontend = .ok text ↔
      ∃ compiler inputs, compilerList host options frontend = .ok compiler ∧
        inputList host command.commandInputs = .ok inputs ∧
        text = (headList host command options frontend ++ (compiler ++ (flagList options ++
          (counted (lit "arguments") valueComponent command.arguments ++ (inputs ++ tailList host options))))).flatMap
            write := by
  unfold components
  rw [compilerComponents_eq, inputComponents_eq]
  cases compilerList host options frontend with
  | error e => exact iff_of_false (fun h => nomatch h) fun ⟨_, _, h, _⟩ => nomatch h
  | ok compiler =>
    cases inputList host command.commandInputs with
    | error e => exact iff_of_false (fun h => nomatch h) fun ⟨_, _, _, h, _⟩ => nomatch h
    | ok inputs =>
      simp only [Except.map, bind, Except.bind, pure, Except.pure, Except.ok.injEq]
      have henvironment : (environmentList host.environment environmentNames).flatMap write =
          environmentNames.flatMap fun name =>
            match host.environment name with
            | some value => appendComponent name value
            | none => [] := by
        unfold environmentList
        rw [List.flatMap_assoc]
        refine List.flatMap_congr fun name _ => ?_
        cases host.environment name with
        | none => rfl
        | some value => exact List.flatMap_singleton write _
      have hrules : (options.callbackRegistrationRules.flatMap ruleList).flatMap write =
          options.callbackRegistrationRules.flatMap ruleComponents := by
        rw [List.flatMap_assoc]
        refine List.flatMap_congr fun rule _ => ?_
        simp [ruleList, ruleComponents, write]
      have hcounted : ∀ {α : Type} (name : Bytes) (component : α → Component) (l : List α),
          (counted name component l).flatMap write =
            appendComponent name (decimal l.length) ++ l.flatMap fun a => write (component a) := by
        intro α name component l
        rw [counted, List.flatMap_cons, List.flatMap_map]
        rfl
      simp only [exists_and_left, exists_eq_left', tailList, List.flatMap_append, hcounted, henvironment, hrules]
      simp only [headList, flagList, appendPaths, appendValues, List.flatMap_cons, List.flatMap_nil, List.append_nil,
        List.append_assoc, write, valueComponent, pathComponent]
      exact eq_comm

/-! ## Parts of the list -/

theorem map_eq_map_iff {α β : Type} (f : α → β) {l l' : List α} :
    l.map f = l'.map f ↔ List.Forall₂ (fun a a' => f a = f a') l l' := by
  rw [← List.forall₂_eq_eq_eq, List.forall₂_map_left_iff, List.forall₂_map_right_iff]

theorem counted_inj {α : Type} {name : Bytes} {component : α → Component} {l l' : List α} {rest rest' : List Component} :
    counted name component l ++ rest = counted name component l' ++ rest' ↔
      l.map component = l'.map component ∧ rest = rest' := by
  constructor
  · intro h
    obtain ⟨hcount, htail⟩ := List.cons.inj h
    have hlength : l.length = l'.length := decimal_injective (Prod.ext_iff.1 hcount).2
    exact List.append_inj htail (by rw [List.length_map, List.length_map, hlength])
  · rintro ⟨hmap, rfl⟩
    have hlength : l.length = l'.length := by rw [← List.length_map component, hmap, List.length_map]
    rw [counted, counted, hmap, hlength]

theorem paths_eq_iff {paths paths' : List Path} :
    paths.map pathComponent = paths'.map pathComponent ↔ List.Forall₂ (fun p p' => p.same p' = true) paths paths' := by
  rw [map_eq_map_iff]
  simp only [pathComponent, Prod.mk.injEq, true_and, Path.same_iff, Path.generic, Path.mk.injEq]

theorem values_eq_iff {values values' : List Bytes} :
    values.map valueComponent = values'.map valueComponent ↔ values = values' := by
  refine List.map_inj_right fun a b h => ?_
  exact (Prod.ext_iff.1 h).2

/-- Components with known names end where another name starts. -/
theorem append_inj_of_names {names : List Bytes} {l l' rest rest' : List Component} (hl : ∀ c ∈ l, c.1 ∈ names)
    (hl' : ∀ c ∈ l', c.1 ∈ names) (hrest : ∀ c ∈ rest.head?, c.1 ∉ names) (hrest' : ∀ c ∈ rest'.head?, c.1 ∉ names) :
    l ++ rest = l' ++ rest' ↔ l = l' ∧ rest = rest' := by
  have htake : ∀ {l rest : List Component}, (∀ c ∈ l, c.1 ∈ names) → (∀ c ∈ rest.head?, c.1 ∉ names) →
      (l ++ rest).takeWhile (fun c => decide (c.1 ∈ names)) = l := by
    intro l rest hl hrest
    cases rest with
    | nil => rw [List.append_nil, List.takeWhile_eq_self_iff.2 fun c hc => decide_eq_true (hl c hc)]
    | cons c rest =>
      exact takeWhile_append_of_stop (fun c hc => decide_eq_true (hl c hc)) (decide_eq_false (hrest c rfl)) rest
  constructor
  · intro h
    have hfront : l = l' := by rw [← htake hl hrest, h, htake hl' hrest']
    subst hfront
    exact ⟨rfl, List.append_cancel_left h⟩
  · rintro ⟨rfl, rfl⟩
    rfl

/-! ### Command inputs -/

def inputNames : List Bytes := [lit "command_input_path", lit "command_input_digest"]

theorem inputList_cons_eq_ok {host : Host} {input : Path} {rest : List Path} {l : List Component} :
    inputList host (input :: rest) = .ok l ↔
      ∃ digest components, host.sha256File input = .ok digest ∧ inputList host rest = .ok components ∧
        l = (lit "command_input_path", input.genericString) :: (lit "command_input_digest", digest) :: components := by
  rw [inputList]
  cases host.sha256File input with
  | error e => exact iff_of_false (fun h => nomatch h) fun ⟨_, _, h, _⟩ => nomatch h
  | ok digest =>
    cases inputList host rest with
    | error e => exact iff_of_false (fun h => nomatch h) fun ⟨_, _, _, h, _⟩ => nomatch h
    | ok components =>
      simp only [bind, Except.bind, pure, Except.pure, Except.ok.injEq, exists_and_left, exists_eq_left', eq_comm]

theorem inputList_names {host : Host} {inputs : List Path} {l : List Component} (h : inputList host inputs = .ok l) :
    ∀ c ∈ l, c.1 ∈ inputNames := by
  induction inputs generalizing l with
  | nil =>
    cases h
    exact fun c hc => nomatch hc
  | cons input rest ih =>
    obtain ⟨digest, components, -, hrest, rfl⟩ := inputList_cons_eq_ok.1 h
    have hnames : lit "command_input_path" ∈ inputNames ∧ lit "command_input_digest" ∈ inputNames := by decide
    rw [List.forall_mem_cons, List.forall_mem_cons]
    exact ⟨hnames.1, hnames.2, ih hrest⟩

/-- Inputs with the same digest on both sides. -/
def InputSame (host host' : Host) (input input' : Path) : Prop :=
  input.same input' = true ∧ host.sha256File input = host'.sha256File input'

theorem inputList_eq_iff {host host' : Host} {inputs inputs' : List Path} {l l' : List Component}
    (h : inputList host inputs = .ok l) (h' : inputList host' inputs' = .ok l') :
    l = l' ↔ List.Forall₂ (InputSame host host') inputs inputs' := by
  induction inputs generalizing inputs' l l' with
  | nil =>
    cases h
    cases inputs' with
    | nil =>
      cases h'
      exact iff_of_true rfl .nil
    | cons input' rest' =>
      obtain ⟨digest', components', -, -, rfl⟩ := inputList_cons_eq_ok.1 h'
      exact iff_of_false (fun h => nomatch h) (fun h => nomatch h)
  | cons input rest ih =>
    obtain ⟨digest, components, hdigest, hrest, rfl⟩ := inputList_cons_eq_ok.1 h
    cases inputs' with
    | nil =>
      cases h'
      exact iff_of_false (fun h => nomatch h) (fun h => nomatch h)
    | cons input' rest' =>
      obtain ⟨digest', components', hdigest', hrest', rfl⟩ := inputList_cons_eq_ok.1 h'
      rw [List.forall₂_cons, ← ih hrest hrest', InputSame, hdigest, hdigest', Path.same_iff]
      simp only [List.cons.injEq, Prod.mk.injEq, true_and, Except.ok.injEq, Path.generic, Path.mk.injEq, and_assoc]

/-! ### Rules -/

def ruleNames : List Bytes := [lit "callback", lit "argument", lit "provider", lit "reason"]

theorem rules_names (rules : List CallbackRegistrationRule) : ∀ c ∈ rules.flatMap ruleList, c.1 ∈ ruleNames := by
  intro c hc
  obtain ⟨rule, -, hmem⟩ := List.mem_flatMap.1 hc
  simp only [ruleList, List.mem_cons, List.not_mem_nil, or_false] at hmem
  have hnames : ∀ {name value : Bytes}, name ∈ ruleNames → c = (name, value) → c.1 ∈ ruleNames := by
    rintro name value hname rfl
    exact hname
  rcases hmem with h | h | h | h
  all_goals exact hnames (by decide) h

/-- What a selector without an id and a linkage name is written as. -/
def spelled (selector : SymbolSelector) : Bytes :=
  selector.qualifiedName ++ if selector.signature = [] then [] else lit "' with signature '" ++ selector.signature

/-- Selectors that are written alike. -/
def Alike (s s' : SymbolSelector) : Prop :=
  if s.id ≠ [] ∨ s'.id ≠ [] then s.id = s'.id
  else if s.linkageName ≠ [] ∨ s'.linkageName ≠ [] then s.linkageName = s'.linkageName
  else spelled s = spelled s'

instance instDecidableAlike (s s' : SymbolSelector) : Decidable (Alike s s') := by
  unfold Alike
  infer_instance

theorem describe_id {s : SymbolSelector} (h : s.id ≠ []) : describe s = lit "id '" ++ (s.id ++ lit "'") := by
  rw [describe, if_pos (by simpa using h), List.append_assoc]

theorem describe_linkageName {s : SymbolSelector} (hid : s.id = []) (h : s.linkageName ≠ []) :
    describe s = lit "linkage_name '" ++ (s.linkageName ++ lit "'") := by
  rw [describe, if_neg (by simp [hid]), if_pos (by simpa using h), List.append_assoc]

theorem describe_spelled {s : SymbolSelector} (hid : s.id = []) (h : s.linkageName = []) :
    describe s = lit "qualified_name '" ++ (spelled s ++ lit "'") := by
  have hquote : lit "'" ++ lit " with signature '" = lit "' with signature '" := by decide
  rw [describe, if_neg (by simp [hid]), if_neg (by simp [h]), spelled]
  by_cases hsignature : s.signature = []
  · rw [if_neg (by simp [hsignature]), if_pos hsignature, List.append_nil, List.append_nil, List.append_assoc]
  · rw [if_pos (by simpa using hsignature), if_neg hsignature, ← hquote]
    simp only [List.append_assoc]

theorem describe_eq_iff {s s' : SymbolSelector} : describe s = describe s' ↔ Alike s s' := by
  -- the first letters differ
  have hapart : ∀ {a b : Bytes}, lit "id '" ++ a ≠ lit "linkage_name '" ++ b ∧
      lit "id '" ++ a ≠ lit "qualified_name '" ++ b ∧ lit "linkage_name '" ++ a ≠ lit "qualified_name '" ++ b :=
    fun {a b} => ⟨fun h => absurd (List.cons.inj h).1 (by decide), fun h => absurd (List.cons.inj h).1 (by decide),
      fun h => absurd (List.cons.inj h).1 (by decide)⟩
  unfold Alike
  by_cases hid : s.id = [] <;> by_cases hid' : s'.id = []
  · rw [if_neg (by simp [hid, hid'])]
    by_cases hlinkage : s.linkageName = [] <;> by_cases hlinkage' : s'.linkageName = []
    · rw [if_neg (by simp [hlinkage, hlinkage']), describe_spelled hid hlinkage, describe_spelled hid' hlinkage',
        List.append_cancel_left_eq, List.append_cancel_right_eq]
    · rw [if_pos (.inr hlinkage'), describe_spelled hid hlinkage, describe_linkageName hid' hlinkage', hlinkage]
      exact iff_of_false hapart.2.2.symm (Ne.symm hlinkage')
    · rw [if_pos (.inl hlinkage), describe_linkageName hid hlinkage, describe_spelled hid' hlinkage', hlinkage']
      exact iff_of_false hapart.2.2 hlinkage
    · rw [if_pos (.inl hlinkage), describe_linkageName hid hlinkage, describe_linkageName hid' hlinkage',
        List.append_cancel_left_eq, List.append_cancel_right_eq]
  · rw [if_pos (.inr hid'), describe_id hid', hid]
    refine iff_of_false (fun h => ?_) (Ne.symm hid')
    by_cases hlinkage : s.linkageName = []
    · rw [describe_spelled hid hlinkage] at h
      exact hapart.2.1 h.symm
    · rw [describe_linkageName hid hlinkage] at h
      exact hapart.1 h.symm
  · rw [if_pos (.inl hid), describe_id hid, hid']
    refine iff_of_false (fun h => ?_) hid
    by_cases hlinkage : s'.linkageName = []
    · rw [describe_spelled hid' hlinkage] at h
      exact hapart.2.1 h
    · rw [describe_linkageName hid' hlinkage] at h
      exact hapart.1 h
  · rw [if_pos (.inl hid), describe_id hid, describe_id hid', List.append_cancel_left_eq, List.append_cancel_right_eq]

/-- Rules that agree, their callees up to `callee`. -/
structure RuleSame (callee : SymbolSelector → SymbolSelector → Prop) (rule rule' : CallbackRegistrationRule) : Prop where
  callee : callee rule.callee rule'.callee
  argumentIndex : rule.argumentIndex = rule'.argumentIndex
  evidence : rule.evidence = rule'.evidence

theorem ruleList_eq_iff {rule rule' : CallbackRegistrationRule} :
    ruleList rule = ruleList rule' ↔ RuleSame Alike rule rule' := by
  have hindex : decimal rule.argumentIndex.toNat = decimal rule'.argumentIndex.toNat ↔
      rule.argumentIndex = rule'.argumentIndex := by
    rw [decimal_injective.eq_iff, UInt64.toNat_inj]
  have hevidence : rule.evidence = rule'.evidence ↔
      rule.evidence.provider = rule'.evidence.provider ∧ rule.evidence.reason = rule'.evidence.reason := by
    cases rule.evidence
    cases rule'.evidence
    simp
  simp only [ruleList, List.cons.injEq, Prod.mk.injEq, true_and, and_true, describe_eq_iff, hindex, ← hevidence]
  constructor
  · rintro ⟨hcallee, hargument, hrest⟩
    exact ⟨hcallee, hargument, hrest⟩
  · rintro ⟨hcallee, hargument, hrest⟩
    exact ⟨hcallee, hargument, hrest⟩

theorem rules_eq_iff {rules rules' : List CallbackRegistrationRule} :
    rules.flatMap ruleList = rules'.flatMap ruleList ↔ List.Forall₂ (RuleSame Alike) rules rules' := by
  induction rules generalizing rules' with
  | nil =>
    cases rules' with
    | nil => exact iff_of_true rfl .nil
    | cons rule' rules' => exact iff_of_false (fun h => nomatch h) (fun h => nomatch h)
  | cons rule rules ih =>
    cases rules' with
    | nil => exact iff_of_false (fun h => nomatch h) (fun h => nomatch h)
    | cons rule' rules' =>
      rw [List.forall₂_cons, ← ih, ← ruleList_eq_iff, List.flatMap_cons, List.flatMap_cons]
      constructor
      · intro h
        exact List.append_inj h rfl
      · rintro ⟨hrule, hrules⟩
        rw [hrule, hrules]

/-! ### The environment -/

theorem environmentList_names {environment : Bytes → Option Bytes} {names : List Bytes} :
    ∀ c ∈ environmentList environment names, c.1 ∈ names := by
  intro c hc
  obtain ⟨name, hname, hmem⟩ := List.mem_flatMap.1 hc
  cases hvalue : environment name with
  | none => simp [hvalue] at hmem
  | some value =>
    simp only [hvalue, List.mem_singleton] at hmem
    rw [hmem]
    exact hname

theorem environmentList_eq_iff {environment environment' : Bytes → Option Bytes} {names : List Bytes}
    (hnodup : names.Nodup) :
    environmentList environment names = environmentList environment' names ↔
      ∀ name ∈ names, environment name = environment' name := by
  induction names with
  | nil => exact iff_of_true rfl fun _ h => nomatch h
  | cons name names ih =>
    obtain ⟨hnew, hrest⟩ := List.nodup_cons.1 hnodup
    have hhead : ∀ (environment : Bytes → Option Bytes) (value : Bytes) (l : List Component),
        environmentList environment names ≠ (name, value) :: l := by
      intro environment value l h
      exact hnew (@environmentList_names environment _ (name, value) (by rw [h]; simp))
    have hcons : ∀ environment : Bytes → Option Bytes, environmentList environment (name :: names) =
        (match environment name with
          | some value => [(name, value)]
          | none => []) ++ environmentList environment names := fun _ => rfl
    rw [List.forall_mem_cons, ← ih hrest, hcons, hcons]
    cases environment name with
    | none =>
      cases environment' name with
      | none => simp
      | some value' => exact iff_of_false (hhead environment value' _) (fun h => nomatch h.1)
    | some value =>
      cases environment' name with
      | none => exact iff_of_false (Ne.symm (hhead environment' value _)) (fun h => nomatch h.1)
      | some value' => simp

/-! ## The whole text -/

/-- What a key is computed for. -/
structure Call where
  host : Host
  command : CompileCommand
  options : IndexOptions
  frontend : IndexFrontend

/-- The tool and the compiler are the same. -/
structure SameTools (c c' : Call) : Prop where
  binary : c.host.binary = c'.host.binary
  compiler : c.host.resolveExecutable c.options.clangExecutable = c'.host.resolveExecutable c'.options.clangExecutable
  fingerprint : c.host.fingerprint = c'.host.fingerprint

/-- Calls that agree on everything that a key depends on, the selectors of rules up to `callee`. -/
structure Agree (callee : SymbolSelector → SymbolSelector → Prop) (c c' : Call) : Prop where
  directory : c.command.directory.same c'.command.directory = true
  file : c.command.file.same c'.command.file = true
  arguments : c.command.arguments = c'.command.arguments
  commandInputs : List.Forall₂ (InputSame c.host c'.host) c.command.commandInputs c'.command.commandInputs
  frontend : c.frontend = c'.frontend
  configurationId : c.options.configurationId = c'.options.configurationId
  projectRoot : c.options.projectRoot.same c'.options.projectRoot = true
  clangExecutable : c.options.clangExecutable = c'.options.clangExecutable
  astFilter : c.options.astFilter = c'.options.astFilter
  verbose : c.options.verbose = c'.options.verbose
  inferSharedLibraryExports : c.options.inferSharedLibraryExports = c'.options.inferSharedLibraryExports
  requireLibraryApiPolicy : c.options.requireLibraryApiPolicy = c'.options.requireLibraryApiPolicy
  reportPaths : List.Forall₂ (fun p p' => p.same p' = true) c.options.reportPaths c'.options.reportPaths
  excludedPaths : List.Forall₂ (fun p p' => p.same p' = true) c.options.excludedPaths c'.options.excludedPaths
  selectedTargetSources :
    List.Forall₂ (fun p p' => p.same p' = true) c.options.selectedTargetSources c'.options.selectedTargetSources
  publicHeaders : List.Forall₂ (fun p p' => p.same p' = true) c.options.publicHeaders c'.options.publicHeaders
  rules :
    List.Forall₂ (RuleSame callee) c.options.callbackRegistrationRules c'.options.callbackRegistrationRules
  environment : ∀ name ∈ environmentNames, c.host.environment name = c'.host.environment name

/-- The text that is hashed. -/
def Call.text (c : Call) : Except Exception Bytes := components c.host c.command c.options c.frontend

theorem genericString_eq_iff {p p' : Path} : p.genericString = p'.genericString ↔ p.same p' = true := by
  rw [Path.same_iff, Path.generic, Path.generic, Path.mk.injEq]

theorem flag_injective : Function.Injective flag := by
  intro b b' h
  cases b <;> cases b' <;> first | rfl | exact absurd h (by decide)

theorem headList_eq_iff {c c' : Call} (htools : SameTools c c') :
    headList c.host c.command c.options c.frontend = headList c'.host c'.command c'.options c'.frontend ↔
      c.frontend = c'.frontend ∧ c.command.directory.same c'.command.directory = true ∧
        c.command.file.same c'.command.file = true ∧ c.options.configurationId = c'.options.configurationId ∧
        c.options.projectRoot.same c'.options.projectRoot = true ∧
        c.options.clangExecutable = c'.options.clangExecutable := by
  have hfrontend : c.frontend.toText = c'.frontend.toText ↔ c.frontend = c'.frontend := by
    cases c.frontend <;> cases c'.frontend <;> decide
  simp only [headList, htools.binary, List.cons.injEq, Prod.mk.injEq, true_and, and_true, hfrontend,
    genericString_eq_iff]

theorem flagList_eq_iff {options options' : IndexOptions} :
    flagList options = flagList options' ↔
      options.astFilter = options'.astFilter ∧ options.verbose = options'.verbose ∧
        options.inferSharedLibraryExports = options'.inferSharedLibraryExports ∧
        options.requireLibraryApiPolicy = options'.requireLibraryApiPolicy := by
  simp only [flagList, List.cons.injEq, Prod.mk.injEq, true_and, and_true, flag_injective.eq_iff]

theorem tailList_eq_iff {c c' : Call} :
    tailList c.host c.options = tailList c'.host c'.options ↔
      List.Forall₂ (fun p p' => p.same p' = true) c.options.reportPaths c'.options.reportPaths ∧
        List.Forall₂ (fun p p' => p.same p' = true) c.options.excludedPaths c'.options.excludedPaths ∧
        List.Forall₂ (fun p p' => p.same p' = true) c.options.selectedTargetSources c'.options.selectedTargetSources ∧
        List.Forall₂ (fun p p' => p.same p' = true) c.options.publicHeaders c'.options.publicHeaders ∧
        List.Forall₂ (RuleSame Alike) c.options.callbackRegistrationRules c'.options.callbackRegistrationRules ∧
        ∀ name ∈ environmentNames, c.host.environment name = c'.host.environment name := by
  have hnames : ∀ name ∈ environmentNames, name ∉ ruleNames := by decide
  have hstop : ∀ environment : Bytes → Option Bytes,
      ∀ d ∈ (environmentList environment environmentNames).head?, d.1 ∉ ruleNames :=
    fun environment d hd => hnames _ (environmentList_names d (List.mem_of_mem_head? hd))
  have hrules := append_inj_of_names (rules_names c.options.callbackRegistrationRules)
    (rules_names c'.options.callbackRegistrationRules) (hstop c.host.environment) (hstop c'.host.environment)
  simp only [tailList, counted_inj, paths_eq_iff, hrules, rules_eq_iff,
    environmentList_eq_iff (show environmentNames.Nodup by decide)]

/-- Two calls hash the same text if and only if they agree, selectors up to how they are written. -/
theorem text_eq_iff {c c' : Call} {text text' : Bytes} (h : c.text = .ok text) (h' : c'.text = .ok text')
    (htools : SameTools c c') : text = text' ↔ Agree Alike c c' := by
  obtain ⟨compiler, inputs, hcompiler, hinputs, rfl⟩ := components_ok_iff.1 h
  obtain ⟨compiler', inputs', hcompiler', hinputs', rfl⟩ := components_ok_iff.1 h'
  have hsame : c.frontend = c'.frontend → compiler = compiler' := by
    intro hfrontend
    have heq : compilerList c.host c.options c.frontend = compilerList c'.host c'.options c'.frontend := by
      rw [hfrontend]
      unfold compilerList
      rw [htools.compiler, htools.fingerprint]
    rw [hcompiler, hcompiler'] at heq
    exact Except.ok.inj heq
  have hstop : ∀ c : Call, ∀ d ∈ (tailList c.host c.options).head?, d.1 ∉ inputNames := by
    rintro c d hd
    obtain rfl : _ = d := Option.some.inj hd
    exact (by decide : lit "report_paths" ∉ inputNames)
  have hlast := append_inj_of_names (inputList_names hinputs) (inputList_names hinputs') (hstop c) (hstop c')
  rw [components_inj]
  constructor
  · intro heq
    obtain ⟨hhead, heq⟩ := List.append_inj heq rfl
    obtain ⟨hfrontend, hdirectory, hfile, hconfiguration, hroot, hclang⟩ := (headList_eq_iff htools).1 hhead
    rw [hsame hfrontend, List.append_cancel_left_eq] at heq
    obtain ⟨hflags, heq⟩ := List.append_inj heq rfl
    obtain ⟨hfilter, hverbose, hinfer, hrequire⟩ := flagList_eq_iff.1 hflags
    rw [counted_inj, values_eq_iff, hlast, inputList_eq_iff hinputs hinputs', tailList_eq_iff] at heq
    obtain ⟨harguments, hcommandInputs, hreport, hexcluded, hselected, hpublic, hrules, henvironment⟩ := heq
    exact ⟨hdirectory, hfile, harguments, hcommandInputs, hfrontend, hconfiguration, hroot, hclang, hfilter, hverbose,
      hinfer, hrequire, hreport, hexcluded, hselected, hpublic, hrules, henvironment⟩
  · intro hagree
    have hhead := (headList_eq_iff htools).2 ⟨hagree.frontend, hagree.directory, hagree.file, hagree.configurationId,
      hagree.projectRoot, hagree.clangExecutable⟩
    have hflags := flagList_eq_iff.2 ⟨hagree.astFilter, hagree.verbose, hagree.inferSharedLibraryExports,
      hagree.requireLibraryApiPolicy⟩
    have htail := tailList_eq_iff.2 ⟨hagree.reportPaths, hagree.excludedPaths, hagree.selectedTargetSources,
      hagree.publicHeaders, hagree.rules, hagree.environment⟩
    rw [hhead, hsame hagree.frontend, hflags, hagree.arguments,
      (inputList_eq_iff hinputs hinputs').2 hagree.commandInputs, htail]

theorem RuleSame.of_eq {rule rule' : CallbackRegistrationRule} (h : RuleSame Eq rule rule') :
    RuleSame Alike rule rule' :=
  ⟨describe_eq_iff.1 (congrArg describe h.callee), h.argumentIndex, h.evidence⟩

theorem rules_same_iff {rules rules' : List CallbackRegistrationRule} :
    List.Forall₂ (RuleSame Eq) rules rules' ↔
      List.Forall₂ (RuleSame Alike) rules rules' ∧ rules.map (·.callee) = rules'.map (·.callee) := by
  rw [map_eq_map_iff]
  constructor
  · intro h
    exact ⟨h.imp fun _ _ hsame => hsame.of_eq, h.imp fun _ _ hsame => hsame.callee⟩
  · rintro ⟨halike, hcallee⟩
    induction halike with
    | nil => exact .nil
    | cons hsame _ ih =>
      obtain ⟨hfirst, hrest⟩ := List.forall₂_cons.1 hcallee
      exact .cons ⟨hfirst, hsame.argumentIndex, hsame.evidence⟩ (ih hrest)

theorem agree_iff {c c' : Call} :
    Agree Eq c c' ↔ Agree Alike c c' ∧
      c.options.callbackRegistrationRules.map (·.callee) = c'.options.callbackRegistrationRules.map (·.callee) := by
  constructor
  · intro h
    obtain ⟨hrules, hcallee⟩ := rules_same_iff.1 h.rules
    exact ⟨{ h with rules := hrules }, hcallee⟩
  · rintro ⟨h, hcallee⟩
    exact { h with rules := rules_same_iff.2 ⟨h.rules, hcallee⟩ }

/-- Equal texts mean that the calls agree, except where they differ in nothing but selectors that
are written alike. -/
theorem text_determines_iff {c c' : Call} {text text' : Bytes} (h : c.text = .ok text) (h' : c'.text = .ok text')
    (htools : SameTools c c') :
    (text = text' → Agree Eq c c') ↔
      ¬ (Agree Alike c c' ∧
        c.options.callbackRegistrationRules.map (·.callee) ≠ c'.options.callbackRegistrationRules.map (·.callee)) := by
  rw [text_eq_iff h h' htools, agree_iff, not_and, not_not]
  exact ⟨fun h hagree => (h hagree).2, fun h hagree => ⟨hagree, h hagree⟩⟩

def bareHost : Host :=
  { currentPath := .ok ⟨lit "/"⟩, «exists» := fun _ => .ok false, binary := .ok (lit "1")
    fingerprint := fun _ => .ok (lit "2"), sha256File := fun _ => .ok (lit "3"), sha256 := id
    environment := fun _ => none }

/-- A call with one callback rule. -/
def ruleCall (callee : SymbolSelector) : Call :=
  { host := bareHost, frontend := .libTooling
    command := { directory := ⟨lit "/p"⟩, file := ⟨lit "/p/a.cpp"⟩, arguments := [lit "clang++", lit "a.cpp"] }
    options := { callbackRegistrationRules := [{ callee, requireUnique := true }] } }

/-- A name in quotes that looks like a name and a signature. -/
def quotedName : SymbolSelector := { qualifiedName := lit "a' with signature 'b" }

def nameAndSignature : SymbolSelector := { qualifiedName := lit "a", signature := lit "b" }

theorem ruleCall_text (callee : SymbolSelector) : ∃ text, (ruleCall callee).text = .ok text :=
  ⟨_, components_ok_iff.2 ⟨[], [], rfl, rfl, rfl⟩⟩

theorem ruleCall_alike {callee callee' : SymbolSelector} (h : Alike callee callee') :
    Agree Alike (ruleCall callee) (ruleCall callee') := by
  have hsame : ∀ p : Path, p.same p = true := fun p => Path.same_iff.2 rfl
  exact ⟨hsame _, hsame _, rfl, .nil, rfl, rfl, hsame _, rfl, rfl, rfl, rfl, rfl, .nil, .nil, .nil, .nil,
    .cons ⟨h, rfl, rfl⟩ .nil, fun _ _ => rfl⟩

theorem text_not_determining :
    ¬ ∀ (c c' : Call) (text : Bytes), c.text = .ok text → c'.text = .ok text → SameTools c c' → Agree Eq c c' := by
  intro hall
  obtain ⟨text, htext⟩ := ruleCall_text quotedName
  obtain ⟨text', htext'⟩ := ruleCall_text nameAndSignature
  have htools : SameTools (ruleCall quotedName) (ruleCall nameAndSignature) := ⟨rfl, rfl, rfl⟩
  obtain rfl : text = text' := (text_eq_iff htext htext' htools).2 (ruleCall_alike (by decide))
  have hcallee := (agree_iff.1 (hall _ _ text htext htext' htools)).2
  exact absurd hcallee (by decide)

theorem ruleCall_determines :
    ∃ text text', (ruleCall quotedName).text = .ok text ∧ (ruleCall nameAndSignature).text = .ok text' ∧
      ((text = text' → Agree Eq (ruleCall quotedName) (ruleCall nameAndSignature)) ↔
        ¬ (Agree Alike (ruleCall quotedName) (ruleCall nameAndSignature) ∧
          (ruleCall quotedName).options.callbackRegistrationRules.map (·.callee) ≠
            (ruleCall nameAndSignature).options.callbackRegistrationRules.map (·.callee))) := by
  obtain ⟨text, htext⟩ := ruleCall_text quotedName
  obtain ⟨text', htext'⟩ := ruleCall_text nameAndSignature
  exact ⟨text, text', htext, htext', text_determines_iff htext htext' ⟨rfl, rfl, rfl⟩⟩

end CacheKey

end CxxDead
