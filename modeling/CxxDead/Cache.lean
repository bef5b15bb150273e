import CxxDead.Graph
import CxxDead.Json
import CxxDead.Lib.Extract
/-!
# Cache entries

`writeEntry` stores the facts of a translation unit as text and `readEntry` reads
them back with formatted stream input, throwing when a field does not fit.
-/

namespace CxxDead

open Lib

structure CachedRecordHierarchy where
  name : Bytes := []
  bases : List Bytes := []
deriving DecidableEq

structure CacheDependency where
  path : Path := {}
  digest : Bytes := []
deriving DecidableEq

structure TranslationUnitCacheEntry where
  graph : Graph := {}
  diagnostics : List Bytes := []
  registrationRuleMatches : List Bool := []
  recordHierarchy : List CachedRecordHierarchy := []
  dependencies : List CacheDependency := []
  astBytes : UInt64 := 0
  factBytes : UInt64 := 0
deriving DecidableEq

def translationUnitCacheSchemaVersion : Nat := 1

/-! ## Writing -/

namespace Text

/-- A value and the character after it. -/
def put (text : Bytes) (after : Char) : Bytes := text ++ [ch after]

/-- `std::quoted`. -/
def quoted (s : Bytes) : Bytes :=
  ch '"' :: (s.flatMap fun c => if c = ch '"' ∨ c = ch '\\' then [ch '\\', c] else [c]) ++ [ch '"']

def putText (s : Bytes) (after : Char) : Bytes := put (quoted s) after

def putNumber (n : Nat) (after : Char) : Bytes := put (decimal n) after

def putFlag (b : Bool) (after : Char) : Bytes := putNumber b.toNat after

/-- A count and then the items. -/
def putList {α : Type} (item : α → Bytes) (l : List α) : Bytes := putNumber l.length '\n' ++ l.flatMap item

end Text

open Text

def writePoint (point : SourcePoint) : Bytes :=
  putText point.file.genericString ' ' ++ (putNumber point.line.toNat ' ' ++ (putNumber point.column.toNat ' ' ++
    (putNumber point.offset.toNat ' ' ++ putNumber point.tokenLength.toNat '\n')))

def writeExtent (extent : SourceExtent) : Bytes :=
  writePoint extent.location ++ (writePoint extent.begin ++ writePoint extent.end)

def writeEvidence (evidence : Evidence) : Bytes := putText evidence.provider ' ' ++ putText evidence.reason '\n'

def writeDependency (dependency : CacheDependency) : Bytes :=
  putText dependency.path.genericString ' ' ++ putText dependency.digest '\n'

def writeRecord (record : CachedRecordHierarchy) : Bytes :=
  putText record.name ' ' ++ putList (putText · '\n') record.bases

def writeExpansion (expansion : Option SourceExtent) : Bytes :=
  putFlag expansion.isSome '\n' ++
    match expansion with
    | some extent => writeExtent extent
    | none => []

def writeSymbol (symbol : Symbol) : Bytes :=
  putText symbol.key '\n' ++ (putText symbol.identity.configurationId '\n' ++ (putText symbol.identity.usr '\n' ++
  (putText symbol.identity.linkageName '\n' ++ (putText symbol.identity.translationUnit '\n' ++
  (putText symbol.identity.fallbackAnchor '\n' ++ (putNumber symbol.identity.quality.code '\n' ++
  (putText symbol.name '\n' ++ (putText symbol.qualifiedName '\n' ++ (putText symbol.className '\n' ++
  (putText symbol.signature '\n' ++ (putNumber symbol.kind.code ' ' ++ (putNumber symbol.scope.code ' ' ++
  (putFlag symbol.defined ' ' ++ (putFlag symbol.internalLinkage ' ' ++ (putFlag symbol.isVirtual '\n' ++
  (writeExtent symbol.source.spelling ++ writeExpansion symbol.source.expansion))))))))))))))))

def writeEdge (edge : Edge) : Bytes :=
  putNumber edge.from ' ' ++ (putNumber edge.to ' ' ++ (putNumber edge.kind.code '\n' ++ writeEvidence edge.evidence))

def writeRoot (root : Root) : Bytes :=
  putNumber root.symbol ' ' ++ (putNumber root.kind.code '\n' ++ writeEvidence root.evidence)

def writeEscape (escape : Escape) : Bytes :=
  putNumber escape.symbol ' ' ++ (putFlag escape.from.isSome ' ' ++ (putNumber (escape.from.getD 0) ' ' ++
    (putNumber escape.kind.code '\n' ++ writeEvidence escape.evidence)))

def writeSuppression (suppression : Suppression) : Bytes :=
  putNumber suppression.symbol '\n' ++ writeEvidence suppression.evidence

def writeHeader (key : Bytes) : Bytes :=
  put (lit "cxx-dead-tu-cache") ' ' ++ (putNumber translationUnitCacheSchemaVersion '\n' ++ putText key '\n')

def writeGraph (g : Graph) : Bytes :=
  putList writeSymbol g.symbols ++ (putList writeEdge g.edges ++ (putList writeRoot g.roots ++
    (putList writeEscape g.escapes ++ putList writeSuppression g.suppressions)))

def writeFacts (entry : TranslationUnitCacheEntry) : Bytes :=
  putNumber entry.astBytes.toNat ' ' ++ (putNumber entry.factBytes.toNat '\n' ++
  (putList writeDependency entry.dependencies ++ (putList (putFlag · '\n') entry.registrationRuleMatches ++
  (putList writeRecord entry.recordHierarchy ++ (putList (putText · '\n') entry.diagnostics ++
  writeGraph entry.graph)))))

def writeEntry (key : Bytes) (entry : TranslationUnitCacheEntry) : Bytes :=
  writeHeader key ++ writeFacts { entry with graph := entry.graph.canonicalize }

/-! ## Formatted input -/

namespace Text

/-- `isspace` in the C locale. -/
def isSpace (c : UInt8) : Bool := c == ch ' ' || (decide (9 ≤ c) && decide (c ≤ 13))

abbrev CacheReader := Reader UInt8 Exception

/-- `operator>>`, which skips white space; the message is thrown when it fails. -/
def extract {α : Type} (what : Bytes) (f : Bytes → Option (α × Bytes)) : CacheReader α := fun s =>
  match f (s.dropWhile isSpace) with
  | some p => .ok p
  | none => .error (.runtimeError what)

def word (s : Bytes) : Option (Bytes × Bytes) :=
  let w := s.takeWhile (!isSpace ·)
  if w = [] then none else some (w, s.drop w.length)

/-- What follows the opening quote; `escaped` says that a backslash came just before. -/
def quotedBody : Bool → Bytes → Option (Bytes × Bytes)
  | _, [] => none
  | true, c :: rest => (quotedBody false rest).map fun p => (c :: p.1, p.2)
  | false, c :: rest =>
    if c = ch '\\' then quotedBody true rest
    else if c = ch '"' then some ([], rest)
    else (quotedBody false rest).map fun p => (c :: p.1, p.2)

/-- Text that `std::quoted` reads; without a quote in front it is a word. -/
def text (s : Bytes) : Option (Bytes × Bytes) :=
  match s with
  | c :: rest => if c = ch '"' then quotedBody false rest else word s
  | [] => none

/-- A sign, and digits, at least one. -/
def signedDigits (s : Bytes) : Option ((Bool × Nat) × Bytes) :=
  let (negative, s) :=
    match s with
    | c :: rest => if c = ch '-' then (true, rest) else if c = ch '+' then (false, rest) else (false, s)
    | [] => (false, [])
  let digits := s.takeWhile Json.isDigit
  if digits = [] then none
  else some ((negative, digits.foldl (fun n c => 10 * n + (c.toNat - 48)) 0), s.drop digits.length)

/-- A `std::size_t`; a minus sign wraps around. -/
def size (s : Bytes) : Option (Nat × Bytes) := do
  let ((negative, n), rest) ← signedDigits s
  if n < 2 ^ 64 then some (if negative then (2 ^ 64 - n) % 2 ^ 64 else n, rest) else none

def int (s : Bytes) : Option (Int × Bytes) := do
  let ((negative, n), rest) ← signedDigits s
  if n < 2 ^ 31 ∨ (negative = true ∧ n = 2 ^ 31) then some (if negative then -n else n, rest) else none

def flag (s : Bytes) : Option (Bool × Bytes) := do
  let ((negative, n), rest) ← signedDigits s
  if n = 0 then some (false, rest) else if n = 1 ∧ negative = false then some (true, rest) else none

def word64 (what : Bytes) : CacheReader UInt64 := (·.toUInt64) <$> extract what size

end Text

/-! ## Reading -/

def readPoint : CacheReader SourcePoint := do
  let what := lit "invalid cached source point"
  let file ← extract what text
  let line ← word64 what
  let column ← word64 what
  let offset ← word64 what
  let tokenLength ← word64 what
  pure { file := ⟨file⟩, line, column, offset, tokenLength }

def readExtent : CacheReader SourceExtent := do
  let location ← readPoint
  let begin ← readPoint
  let «end» ← readPoint
  pure { location, begin, «end» }

def readEvidence : CacheReader Evidence := do
  let provider ← extract (lit "invalid cached evidence") text
  let reason ← extract (lit "invalid cached evidence") text
  pure { provider, reason }

def checkedCount (field : String) : CacheReader Nat := do
  let what := lit "invalid cached " ++ lit field ++ lit " count"
  let n ← extract what size
  if n > 10000000 then throw (.runtimeError what) else pure n

/-- The enumeration's value with this number; `values` are all of them. -/
def checkedEnum {α : Type} (values : List α) (field : String) (value : Int) : CacheReader α :=
  let what := Exception.runtimeError (lit "invalid cached " ++ lit field)
  if value < 0 then throw what
  else
    match values[value.toNat]? with
    | some a => pure a
    | none => throw what

/-- Read into the graph. -/
def modifyGraph {α : Type} (operation : GraphM α) (g : Graph) : CacheReader Graph :=
  match operation g with
  | .ok _ g' => pure g'
  | .error e _ => throw e

/-- A checked count, and then as many turns of the loop. -/
def readCounted {σ : Type} (field : String) (turn : σ → CacheReader σ) (s : σ) : CacheReader σ := do
  let n ← checkedCount field
  readLoop turn n s

def readDependency (l : List CacheDependency) : CacheReader (List CacheDependency) := do
  let path ← extract (lit "invalid cached dependency") text
  let digest ← extract (lit "invalid cached dependency") text
  pure (l ++ [⟨⟨path⟩, digest⟩])

def readMatch (l : List Bool) : CacheReader (List Bool) := do
  let matched ← extract (lit "invalid cached callback match") int
  if matched ≠ 0 ∧ matched ≠ 1 then throw (.runtimeError (lit "invalid cached callback match"))
  else pure (l ++ [decide (matched ≠ 0)])

def readBase (l : List Bytes) : CacheReader (List Bytes) := do
  let name ← extract (lit "invalid cached base record") text
  pure (l ++ [name])

def readRecord (l : List CachedRecordHierarchy) : CacheReader (List CachedRecordHierarchy) := do
  let what := lit "invalid cached record hierarchy"
  let name ← extract what text
  let count ← extract what size
  if count > 1000000 then throw (.runtimeError what)
  else
    let bases ← readLoop readBase count []
    pure (l ++ [⟨name, bases⟩])

def readDiagnostic (l : List Bytes) : CacheReader (List Bytes) := do
  let diagnostic ← extract (lit "invalid cached diagnostic") text
  pure (l ++ [diagnostic])

def readExpansion : CacheReader (Option SourceExtent) := do
  let hasExpansion ← extract (lit "invalid cached expansion marker") flag
  if hasExpansion then some <$> readExtent else pure none

def readSymbol (g : Graph) : CacheReader Graph := do
  let what := lit "invalid cached symbol"
  let key ← extract what text
  let configurationId ← extract what text
  let usr ← extract what text
  let linkageName ← extract what text
  let translationUnit ← extract what text
  let fallbackAnchor ← extract what text
  let quality ← extract what int
  let name ← extract what text
  let qualifiedName ← extract what text
  let className ← extract what text
  let signature ← extract what text
  let kind ← extract what int
  let scope ← extract what int
  let defined ← extract what flag
  let internalLinkage ← extract what flag
  let isVirtual ← extract what flag
  let quality ← checkedEnum [.stable, .fallback] "identity quality" quality
  let kind ← checkedEnum [.function, .method, .constructor, .destructor, .synthetic] "symbol kind" kind
  let scope ← checkedEnum [.reportable, .indexed, .externalOpaque, .excluded] "symbol scope" scope
  let spelling ← readExtent
  let expansion ← readExpansion
  modifyGraph (Graph.addOrMergeSymbol
    { key, name, qualifiedName, className, signature, kind, scope, defined, internalLinkage, isVirtual
      identity := { configurationId, usr, linkageName, translationUnit, fallbackAnchor, quality }
      source := { spelling, expansion } }) g

def readEdge (g : Graph) : CacheReader Graph := do
  let what := lit "invalid cached edge"
  let «from» ← extract what size
  let «to» ← extract what size
  let kind ← extract what int
  let kind ← checkedEnum [.directCall, .constructs, .virtualDispatch, .callbackRegistration, .provider]
    "edge kind" kind
  let evidence ← readEvidence
  modifyGraph (Graph.addEdge «from» «to» kind evidence) g

def readRoot (g : Graph) : CacheReader Graph := do
  let what := lit "invalid cached root"
  let symbol ← extract what size
  let kind ← extract what int
  let kind ← checkedEnum [.applicationEntryPoint, .globalInitializer, .manual, .callbackRegistration, .provider,
    .publicApi] "root kind" kind
  let evidence ← readEvidence
  modifyGraph (Graph.addRoot symbol kind evidence) g

def readEscape (g : Graph) : CacheReader Graph := do
  let what := lit "invalid cached escape"
  let symbol ← extract what size
  let hasFrom ← extract what flag
  let «from» ← extract what size
  let kind ← extract what int
  let kind ← checkedEnum [.addressTaken, .callableObject, .provider] "escape kind" kind
  let evidence ← readEvidence
  modifyGraph (Graph.addEscape symbol kind evidence (if hasFrom then some «from» else none)) g

def readSuppression (g : Graph) : CacheReader Graph := do
  let symbol ← extract (lit "invalid cached suppression") size
  let evidence ← readEvidence
  modifyGraph (Graph.addSuppression symbol evidence) g

def readHeader (expectedKey : Bytes) : CacheReader Unit := do
  let what := lit "cache header, schema, or key mismatch"
  let magic ← extract what word
  let schema ← extract what int
  let key ← extract what text
  if magic ≠ lit "cxx-dead-tu-cache" ∨ schema ≠ translationUnitCacheSchemaVersion ∨ key ≠ expectedKey then
    throw (.runtimeError what)
  else pure ()

def readGraph : CacheReader Graph := do
  let graph ← readCounted "symbol" readSymbol {}
  let graph ← readCounted "edge" readEdge graph
  let graph ← readCounted "root" readRoot graph
  let graph ← readCounted "escape" readEscape graph
  readCounted "suppression" readSuppression graph

def readFacts : CacheReader TranslationUnitCacheEntry := do
  let astBytes ← word64 (lit "invalid cached byte counters")
  let factBytes ← word64 (lit "invalid cached byte counters")
  let dependencies ← readCounted "dependency" readDependency []
  let registrationRuleMatches ← readCounted "callback match" readMatch []
  let recordHierarchy ← readCounted "record hierarchy" readRecord []
  let diagnostics ← readCounted "diagnostic" readDiagnostic []
  let graph ← readGraph
  pure { graph, diagnostics, registrationRuleMatches, recordHierarchy, dependencies, astBytes, factBytes }

def readEntry (expectedKey input : Bytes) : Except Exception TranslationUnitCacheEntry := do
  let (entry, rest) ← (do readHeader expectedKey; readFacts).run input
  if rest.dropWhile isSpace ≠ [] then throw (.runtimeError (lit "unexpected trailing cache data")) else pure entry

end CxxDead
