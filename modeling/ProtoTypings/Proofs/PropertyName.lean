import ProtoTypings.PropertyName

/-!
# Property names keep the name of the field

A name that is no identifier is written as a string literal. `Inside s cs` says that between two
quotes `cs` makes a literal for the text `s`: no quote ends it early, and `unescape` gives `s` back.
So fields share a property name only if they share the name that is written
(`ofField_loses_nothing`).
-/

namespace ProtoTypings.PropertyName

/-! ## Literals -/

/-- A backslash before a quote or a backslash is taken out, and the character behind it stays. -/
def unescape : List Char → List Char
  | [] => []
  | '\\' :: c :: cs =>
    if c = '"' ∨ c = '\\' then c :: unescape cs else '\\' :: unescape (c :: cs)
  | c :: cs => c :: unescape cs

/-- The number of backslashes at the end. -/
def backslashes (cs : List Char) : Nat := (cs.reverse.takeWhile (· = '\\')).length

/-- The character behind the text is escaped: of the backslashes before it, which escape one another
in pairs, one is left. -/
def Escapes (cs : List Char) : Prop := backslashes cs % 2 = 1

instance : DecidablePred Escapes := fun _ => inferInstanceAs (Decidable (_ = _))

structure Inside (s cs : List Char) : Prop where
  /-- A quote within the text does not end the literal. -/
  escapes_of_quote : ∀ before after, cs = before ++ '"' :: after → Escapes before
  /-- The quote behind the text does. -/
  not_escapes : ¬ Escapes cs
  unescape_eq : unescape cs = s

theorem backslashes_concat (cs : List Char) (c : Char) :
    backslashes (cs ++ [c]) = if c = '\\' then backslashes cs + 1 else 0 := by
  unfold backslashes
  rw [List.reverse_append, List.reverse_singleton, List.singleton_append, List.takeWhile_cons]
  by_cases h : c = '\\' <;> simp [h]

theorem escapes_backslash {cs : List Char} (h : ¬ Escapes cs) : Escapes (cs ++ ['\\']) := by
  unfold Escapes at h ⊢
  rw [backslashes_concat, if_pos rfl]
  omega

theorem not_escapes_concat (cs : List Char) {c : Char} (hc : c ≠ '\\') :
    ¬ Escapes (cs ++ [c]) := by
  rw [Escapes, backslashes_concat, if_neg hc]
  decide

theorem not_escapes_pair {cs : List Char} (h : ¬ Escapes cs) (c : Char) :
    ¬ Escapes (cs ++ ['\\'] ++ [c]) := by
  by_cases hc : c = '\\'
  · unfold Escapes at h ⊢
    rw [backslashes_concat, backslashes_concat, if_pos hc, if_pos rfl]
    omega
  · exact not_escapes_concat _ hc

/-- The text before is what has been written so far; it leaves no backslash open. -/
theorem escapes_of_escape (cs : List Char) : ∀ written, ¬ Escapes written →
    (∀ before after, escape cs = before ++ '"' :: after → Escapes (written ++ before)) ∧
      ¬ Escapes (written ++ escape cs) := by
  induction cs with
  | nil =>
    intro written h
    refine ⟨fun before after heq => ?_, by rwa [escape, List.append_nil]⟩
    exact absurd heq.symm (List.append_ne_nil_of_right_ne_nil _ (List.cons_ne_nil _ _))
  | cons c cs ih =>
    intro written h
    rw [escape]
    split
    · obtain ⟨hquotes, hclosing⟩ := ih _ (not_escapes_pair h c)
      refine ⟨fun before after heq => ?_, by simpa using hclosing⟩
      match before with
      | [] => exact absurd (List.cons.inj heq).1 (by decide)
      | [d] =>
        rw [← (List.cons.inj heq).1]
        exact escapes_backslash h
      | d :: e :: before =>
        simp only [List.cons_append, List.cons.injEq] at heq
        obtain ⟨rfl, rfl, heq⟩ := heq
        simpa using hquotes before after heq
    · next hc =>
      rw [not_or] at hc
      obtain ⟨hquotes, hclosing⟩ := ih _ (not_escapes_concat written hc.2)
      refine ⟨fun before after heq => ?_, by simpa using hclosing⟩
      match before with
      | [] => exact absurd (List.cons.inj heq).1 hc.1
      | d :: before =>
        simp only [List.cons_append, List.cons.injEq] at heq
        obtain ⟨rfl, heq⟩ := heq
        simpa using hquotes before after heq

theorem unescape_cons {c : Char} (h : c ≠ '\\') (cs : List Char) :
    unescape (c :: cs) = c :: unescape cs := by
  cases cs <;> simp [unescape, h]

theorem unescape_escape (cs : List Char) : unescape (escape cs) = cs := by
  induction cs with
  | nil => rfl
  | cons c cs ih =>
    rw [escape]
    split
    · next hc => rw [unescape, if_pos hc, ih]
    · next hc => rw [unescape_cons (not_or.mp hc).2, ih]

theorem inside_escape (s : List Char) : Inside s (escape s) := by
  obtain ⟨hquotes, hclosing⟩ := escapes_of_escape s [] (by decide)
  exact ⟨hquotes, hclosing, unescape_escape s⟩

/-! ## Names and literals -/

theorem quote_inj {s t : String} : quote s = quote t ↔ s = t := by
  refine ⟨fun h => ?_, fun h => h ▸ rfl⟩
  have hchars := List.append_cancel_right (List.cons.inj (String.ofList_injective h)).2
  rw [← String.toList_inj, ← unescape_escape s.toList, hchars, unescape_escape]

theorem isValid_quote (s : String) : Identifier.isValid (quote s) = false := by
  rw [Identifier.isValid, quote, String.toList_ofList]
  rfl

section

variable {fieldName fieldName' : String} {jsonName jsonName' : Option String}

theorem ofField_of_isValid (h : Identifier.isValid (unquoted fieldName jsonName) = true) :
    ofField fieldName jsonName = unquoted fieldName jsonName := if_pos h

theorem ofField_of_not_isValid (h : Identifier.isValid (unquoted fieldName jsonName) = false) :
    ofField fieldName jsonName = quote (unquoted fieldName jsonName) :=
  if_neg (Bool.eq_false_iff.mp h)

theorem ofField_eq_iff : ofField fieldName jsonName = ofField fieldName' jsonName' ↔
    unquoted fieldName jsonName = unquoted fieldName' jsonName' := by
  -- an identifier is no literal, and no name is both valid and not
  have hapart {s t : String} (hs : Identifier.isValid s = true)
      (ht : Identifier.isValid t = false) : s ≠ quote t ∧ s ≠ t := by
    constructor
    · rintro rfl
      exact Bool.false_ne_true ((isValid_quote t).symm.trans hs)
    · rintro rfl
      exact Bool.false_ne_true (ht.symm.trans hs)
  cases h : Identifier.isValid (unquoted fieldName jsonName) with
  | false =>
    rw [ofField_of_not_isValid h]
    cases h' : Identifier.isValid (unquoted fieldName' jsonName') with
    | false => rw [ofField_of_not_isValid h', quote_inj]
    | true =>
      rw [ofField_of_isValid h']
      exact iff_of_false (hapart h' h).1.symm (hapart h' h).2.symm
  | true =>
    rw [ofField_of_isValid h]
    cases h' : Identifier.isValid (unquoted fieldName' jsonName') with
    | false =>
      rw [ofField_of_not_isValid h']
      exact iff_of_false (hapart h h').1 (hapart h h').2
    | true => rw [ofField_of_isValid h']

end

/-- The name that is kept is the JSON name, if there is one to speak of, or the camel case. -/
theorem ofField_loses_nothing :
    (∀ fieldName json, json ≠ "" → unquoted fieldName (some json) = json) ∧
    (∀ fieldName jsonName, (∀ json, jsonName = some json → json = "") →
      unquoted fieldName jsonName = lowerCamel fieldName) ∧
    (∀ fieldName jsonName,
      (Identifier.isValid (unquoted fieldName jsonName) = true →
        ofField fieldName jsonName = unquoted fieldName jsonName) ∧
      (Identifier.isValid (unquoted fieldName jsonName) = false →
        ∃ inside, (ofField fieldName jsonName).toList = '"' :: inside ++ ['"'] ∧
          Inside (unquoted fieldName jsonName).toList inside)) ∧
    ∀ fieldName jsonName fieldName' jsonName',
      ofField fieldName jsonName = ofField fieldName' jsonName' ↔
        unquoted fieldName jsonName = unquoted fieldName' jsonName' := by
  refine ⟨fun fieldName _ h => unquoted_of_ne h fieldName,
    fun fieldName _ h => unquoted_of_eq_empty h fieldName,
    fun fieldName jsonName => ⟨ofField_of_isValid, fun h => ?_⟩, fun _ _ _ _ => ofField_eq_iff⟩
  refine ⟨_, ?_, inside_escape _⟩
  rw [ofField_of_not_isValid h, quote, String.toList_ofList]

/-- A quote, and a backslash in front of the quote that closes the literal. -/
theorem measure_is_quoted :
    "5\" wide\\" ≠ "" ∧ unquoted "width" (some "5\" wide\\") = "5\" wide\\" ∧
    unquoted "max_width" (some "") = lowerCamel "max_width" ∧
    Identifier.isValid "5\" wide\\" = false ∧
    (∃ inside, (ofField "width" (some "5\" wide\\")).toList = '"' :: inside ++ ['"'] ∧
      Inside "5\" wide\\".toList inside) ∧
    Identifier.isValid (unquoted "max_width" (some "")) = true ∧
    ofField "max_width" (some "") = unquoted "max_width" (some "") ∧
    ofField "max_width" (some "") = ofField "width" (some "maxWidth") := by
  have hne : "5\" wide\\" ≠ "" := by decide
  have hinvalid : Identifier.isValid "5\" wide\\" = false := by decide
  have hvalid : Identifier.isValid (unquoted "max_width" (some "")) = true := by decide
  obtain ⟨hjson, hcamel, hnames, hiff⟩ := ofField_loses_nothing
  have hraw : unquoted "width" (some "5\" wide\\") = "5\" wide\\" := hjson _ _ hne
  have hempty : unquoted "max_width" (some "") = lowerCamel "max_width" :=
    hcamel _ _ fun _ h => (Option.some.inj h).symm
  refine ⟨hne, hraw, hempty, hinvalid, ?_, hvalid, (hnames _ _).1 hvalid,
    (hiff _ _ _ _).mpr (by decide)⟩
  have hquoted := (hnames "width" (some "5\" wide\\")).2
  rw [hraw] at hquoted
  exact hquoted hinvalid

end ProtoTypings.PropertyName
