import CxxDead.Bytes
/-!
# File system paths

`std::filesystem::path` on POSIX, as far as the program uses it. A path stores
its text. `components` is what iterating it yields: the root directory if the
text starts with a slash, then the file names, where a trailing slash gives an
empty last name. Two paths are equal when their components are (`Path.same`),
so `a//b` equals `a/b` although their texts differ. `genericString` writes one
slash between names.
-/

namespace CxxDead

structure Path where
  text : Bytes := []
deriving DecidableEq, Inhabited

namespace Path

def slash : UInt8 := ch '/'
def dot : Bytes := lit "."
def dotDot : Bytes := lit ".."

def isEmpty (p : Path) : Bool := p.text.isEmpty

def isAbsolute (p : Path) : Bool := p.text.head? == some slash

/-- The file names of a text, leading slashes dropped. -/
def names (s : Bytes) : List Bytes :=
  let parts := (s.dropWhile (· == slash)).splitOn slash
  if parts = [[]] then [] else parts.dropLast.filter (· ≠ []) ++ [parts.getLast?.getD []]

/-- What iterating the path yields. -/
def components (p : Path) : List Bytes :=
  if p.isAbsolute then [slash] :: names p.text else names p.text

/-- `operator==`, which compares component by component. -/
def same (p q : Path) : Bool := p.components == q.components

/-- The text with one slash between names. -/
def joinNames (abs : Bool) (ns : List Bytes) : Bytes :=
  (if abs then [slash] else []) ++ [slash].intercalate ns

def genericString (p : Path) : Bytes := joinNames p.isAbsolute (names p.text)

/-- The same path, spelled generically. -/
def generic (p : Path) : Path := ⟨p.genericString⟩

/-- `operator/`. -/
def append (p q : Path) : Path :=
  if q.isAbsolute || p.isEmpty then q
  else if p.text.getLast? == some slash then ⟨p.text ++ q.text⟩
  else ⟨p.text ++ slash :: q.text⟩

theorem isEmpty_append (p : Path) {q : Path} (hq : q.isEmpty = false) : (p.append q).isEmpty = false := by
  unfold append
  split_ifs
  · exact hq
  · exact List.isEmpty_eq_false_iff.2 (List.append_ne_nil_of_right_ne_nil _ (List.isEmpty_eq_false_iff.1 hq))
  · exact List.isEmpty_eq_false_iff.2 (List.append_ne_nil_of_right_ne_nil _ (List.cons_ne_nil _ _))

/-- The names of `lexically_normal`, read left to right: `kept` holds the names
so far, last first, and `trail` says whether a separator ends the text. -/
def normalNames (abs : Bool) : List Bytes → List Bytes → Bool → List Bytes × Bool
  | [], kept, trail => (kept.reverse, trail)
  | n :: ns, kept, _ =>
    if n = [] ∨ n = dot then normalNames abs ns kept true
    else if n = dotDot then
      match kept with
      | k :: ks => if k = dotDot then normalNames abs ns (n :: kept) false else normalNames abs ns ks true
      | [] => if abs then normalNames abs ns [] true else normalNames abs ns [n] false
    else normalNames abs ns (n :: kept) false

def lexicallyNormal (p : Path) : Path :=
  if p.isEmpty then p
  else
    let (kept, trail) := normalNames p.isAbsolute (names p.text) [] false
    if kept = [] then ⟨if p.isAbsolute then [slash] else dot⟩
    else if trail ∧ kept.getLast? ≠ some dotDot then ⟨joinNames p.isAbsolute (kept ++ [[]])⟩
    else ⟨joinNames p.isAbsolute kept⟩

/-- Drop the longest common prefix. -/
def mismatch : List Bytes → List Bytes → List Bytes × List Bytes
  | a :: as, b :: bs => if a = b then mismatch as bs else (a :: as, b :: bs)
  | as, bs => (as, bs)

def lexicallyRelative (p base : Path) : Path :=
  if p.isAbsolute ≠ base.isAbsolute then ⟨[]⟩
  else
    let (a, b) := mismatch p.components base.components
    let ups := b.countP (· = dotDot)
    let downs := b.countP (fun n => n ≠ [] ∧ n ≠ dot ∧ n ≠ dotDot)
    if a = [] ∧ b = [] then ⟨dot⟩
    else if downs < ups then ⟨[]⟩
    else if downs = ups ∧ (a = [] ∨ a.head? = some []) then ⟨dot⟩
    else ⟨joinNames false (List.replicate (downs - ups) dotDot ++ a)⟩

/-- `parent_path`, spelled generically. -/
def parentPath (p : Path) : Path :=
  if names p.text = [] then p else ⟨joinNames p.isAbsolute (names p.text).dropLast⟩

example : (lexicallyNormal ⟨lit "/p//a/./b/../c/"⟩).text = lit "/p/a/c/" := by decide
example : (lexicallyRelative ⟨lit "/p/src2"⟩ ⟨lit "/p/src"⟩).text = lit "../src2" := by decide

end Path

end CxxDead
