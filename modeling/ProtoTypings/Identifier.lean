/-!
# Identifiers

The names that TypeScript accepts unquoted, restricted to ASCII, and the words among them that
cannot name an interface or an enum.
-/

namespace ProtoTypings.Identifier

def isStart (c : Char) : Bool := c.isAlpha || c == '_' || c == '$'

def isPart (c : Char) : Bool := c.isAlphanum || c == '_' || c == '$'

def isValid (s : String) : Bool :=
  match s.toList with
  | [] => false
  | c :: cs => isStart c && cs.all isPart

theorem isValid_iff {s : String} :
    isValid s = true ↔
      ∃ c cs, s.toList = c :: cs ∧ isStart c = true ∧ ∀ d ∈ cs, isPart d = true := by
  unfold isValid
  cases s.toList with
  | nil => simp
  | cons c cs =>
    simp only [Bool.and_eq_true, List.all_eq_true]
    constructor
    · rintro ⟨hc, hcs⟩
      exact ⟨c, cs, rfl, hc, hcs⟩
    · rintro ⟨_, _, ⟨⟩, hc, hcs⟩
      exact ⟨hc, hcs⟩

theorem isValid_append {s t : String} (hs : isValid s = true)
    (ht : ∀ c ∈ t.toList, isPart c = true) : isValid (s ++ t) = true := by
  obtain ⟨c, cs, hcs, hc, hpart⟩ := isValid_iff.mp hs
  refine isValid_iff.mpr ⟨c, cs ++ t.toList, by rw [String.toList_append, hcs]; rfl, hc, ?_⟩
  exact fun d hd => (List.mem_append.mp hd).elim (hpart d) (ht d)

theorem isPart_of_isDigit {c : Char} (h : c.isDigit = true) : isPart c = true := by
  simp [isPart, Char.isAlphanum, h]

theorem isStart_of_isPart {c : Char} (h : isPart c = true) (hd : c.isDigit = false) :
    isStart c = true := by
  simpa [isStart, isPart, Char.isAlphanum, hd] using h

/-- The reserved words of ECMAScript, those of its strict mode, and the built-in types of
TypeScript. -/
def reserved : List String := [
  "await", "break", "case", "catch", "class", "const", "continue", "debugger", "default", "delete",
  "do", "else", "enum", "export", "extends", "false", "finally", "for", "function", "if", "import",
  "in", "instanceof", "new", "null", "return", "super", "switch", "this", "throw", "true", "try",
  "typeof", "var", "void", "while", "with", "yield",
  "implements", "interface", "let", "package", "private", "protected", "public", "static",
  "any", "bigint", "boolean", "never", "number", "object", "string", "symbol", "undefined",
  "unknown"]

/-- `class` becomes `class$`; no reserved word has a `$`. -/
def avoidReserved (s : String) : String := if s ∈ reserved then s ++ "$" else s

end ProtoTypings.Identifier
