import Metrology.Proofs.Expression.Scanning

/-!
# Kinds of characters

The characters of symbols, those of exponents, white space and operators are told apart: no character
is of two of these kinds. Each kind is a set of ranges of code points, so the ranges are compared.
-/
namespace Metrology.Scanner

/-- No code point is in a range of both sets. -/
def areApart (ranges others : List (Nat × Nat)) : Bool :=
  ranges.all fun r => others.all fun q => r.2.blt q.1 || q.2.blt r.1

/-- Kinds of characters within ranges that are apart exclude each other. -/
theorem excludes_of_areApart {ranges others : List (Nat × Nat)} {kind kind' : Char → Bool}
    (apart : areApart ranges others = true)
    (within : ∀ c, kind c = true → Text.inRanges ranges c = true)
    (within' : ∀ c, kind' c = true → Text.inRanges others c = true) {c : Char}
    (own : kind c = true) : kind' c = false := by
  rw [Bool.eq_false_iff]
  intro other
  obtain ⟨r, mem, low, high⟩ := Text.inRanges_iff.mp (within c own)
  obtain ⟨q, mem', low', high'⟩ := Text.inRanges_iff.mp (within' c other)
  have disjoint := List.all_eq_true.mp (List.all_eq_true.mp apart r mem) q mem'
  simp only [Bool.or_eq_true, Nat.blt_eq] at disjoint
  omega

theorem excludes_symm {kind kind' : Char → Bool} {c : Char}
    (excludes : kind c = true → kind' c = false) (other : kind' c = true) : kind c = false := by
  rw [Bool.eq_false_iff]
  intro own
  rw [excludes own] at other
  cases other

/-- The range of a single character. -/
def singleRange (c : Char) : Nat × Nat := (c.toNat, c.toNat)

theorem inRanges_singleRange {cs : List Char} {c : Char} (mem : c ∈ cs) :
    Text.inRanges (cs.map singleRange) c = true :=
  Text.inRanges_iff.mpr ⟨singleRange c, List.mem_map_of_mem mem, Nat.le_refl _, Nat.le_refl _⟩

theorem inRanges_append {ranges others : List (Nat × Nat)} {c : Char} :
    Text.inRanges (ranges ++ others) c = (Text.inRanges ranges c || Text.inRanges others c) :=
  List.any_append

/-! ### Symbols -/

def symbolRanges : List (Nat × Nat) :=
  [(0x41, 0x5a), (0x61, 0x7a)] ++ Text.wideLetters ++ symbolSigns.map singleRange

theorem inRanges_of_isSymbolChar {c : Char} (char : isSymbolChar c = true) :
    Text.inRanges symbolRanges c = true := by
  simp only [symbolRanges, inRanges_append, Bool.or_eq_true]
  rcases Bool.or_eq_true_iff.mp char with letter | sign
  · left
    unfold Text.isLetter at letter
    split at letter
    next =>
      left
      simp only [Text.isAsciiLetter, Bool.or_eq_true, Bool.and_eq_true, decide_eq_true_eq,
        Char.le_def, UInt32.le_iff_toNat_le] at letter
      refine Text.inRanges_iff.mpr ?_
      rcases letter with small | capital
      · exact ⟨(0x61, 0x7a), by simp, small⟩
      · exact ⟨(0x41, 0x5a), by simp, capital⟩
    next => exact .inr letter
  · exact .inr (inRanges_singleRange (List.contains_iff_mem.mp sign))

/-! ### Exponents -/

/-- Characters that may stand in an exponent, or that must not stand behind one. -/
def isExponentChar (c : Char) : Bool :=
  Text.isDigit c || Text.isSuperscript c || exponentSigns.contains c

def exponentRanges : List (Nat × Nat) :=
  Text.scriptZeros.map (fun z => (z, z + 9)) ++ Text.digitSigns
    ++ (Text.superscripts.map (·.2)).map singleRange ++ exponentSigns.map singleRange

theorem inRanges_of_isDecimal {c : Char} (decimal : Text.isDecimal c = true) :
    Text.inRanges (Text.scriptZeros.map fun z => (z, z + 9)) c = true := by
  obtain ⟨n, value⟩ := Option.isSome_iff_exists.mp decimal
  obtain ⟨z, found, _⟩ := Option.map_eq_some_iff.mp value
  have inside := List.find?_some found
  simp only [Bool.and_eq_true, decide_eq_true_eq] at inside
  exact Text.inRanges_iff.mpr
    ⟨(z, z + 9), List.mem_map.mpr ⟨z, List.mem_of_find?_eq_some found, rfl⟩, inside⟩

theorem inRanges_of_isExponentChar {c : Char} (char : isExponentChar c = true) :
    Text.inRanges exponentRanges c = true := by
  simp only [exponentRanges, inRanges_append, Bool.or_eq_true]
  simp only [isExponentChar, Text.isDigit, Bool.or_eq_true] at char
  rcases char with ((decimal | sign) | raised) | announces
  · exact .inl (.inl (.inl (inRanges_of_isDecimal decimal)))
  · exact .inl (.inl (.inr sign))
  · obtain ⟨p, mem, same⟩ := List.any_eq_true.mp raised
    obtain rfl := of_decide_eq_true same
    exact .inl (.inr (inRanges_singleRange (List.mem_map_of_mem mem)))
  · exact .inr (inRanges_singleRange (List.contains_iff_mem.mp announces))

/-! ### Telling them apart -/

theorem areApart_symbols_exponents : areApart symbolRanges exponentRanges = true := by
  decide +kernel

theorem areApart_blanks_symbols : areApart Text.blanks symbolRanges = true := by decide +kernel

theorem areApart_blanks_exponents : areApart Text.blanks exponentRanges = true := by decide +kernel

variable {c : Char}

theorem not_isExponentChar_of_isSymbolChar :
    isSymbolChar c = true → isExponentChar c = false :=
  excludes_of_areApart areApart_symbols_exponents (fun _ => inRanges_of_isSymbolChar)
    fun _ => inRanges_of_isExponentChar

theorem not_isSymbolChar_of_isExponentChar :
    isExponentChar c = true → isSymbolChar c = false :=
  excludes_symm not_isExponentChar_of_isSymbolChar

theorem not_isSymbolChar_of_isBlank : Text.isBlank c = true → isSymbolChar c = false :=
  excludes_of_areApart areApart_blanks_symbols (fun _ blank => blank)
    fun _ => inRanges_of_isSymbolChar

theorem not_isExponentChar_of_isBlank : Text.isBlank c = true → isExponentChar c = false :=
  excludes_of_areApart areApart_blanks_exponents (fun _ blank => blank)
    fun _ => inRanges_of_isExponentChar

theorem not_isBlank_of_isExponentChar : isExponentChar c = true → Text.isBlank c = false :=
  excludes_symm not_isExponentChar_of_isBlank

/-- An operator is none of the others. -/
theorem kinds_of_operator (sign : c ∈ operators) :
    Text.isBlank c = false ∧ isSymbolChar c = false ∧ isExponentChar c = false ∧ c ≠ ' ' :=
  forall_operators (P := fun c => Text.isBlank c = false ∧ isSymbolChar c = false ∧
    isExponentChar c = false ∧ c ≠ ' ') (by decide +kernel) sign

theorem mem_operators_of_operator? {lexeme : Lexeme} (sign : operator? c = some lexeme) :
    c ∈ operators := by
  unfold operator? at sign
  split at sign
  next times => exact List.mem_append_left ['/', '(', ')'] (List.contains_iff_mem.mp times)
  next =>
    split at sign
    next slash => exact slash ▸ by decide
    next =>
      split at sign
      next opening => exact opening ▸ by decide
      next =>
        split at sign
        next closing => exact closing ▸ by decide
        next => cases sign

theorem operator?_of_isExponentChar (char : isExponentChar c = true) : operator? c = none := by
  rw [Option.eq_none_iff_forall_ne_some]
  intro lexeme sign
  rw [(kinds_of_operator (mem_operators_of_operator? sign)).2.2.1] at char
  cases char

end Metrology.Scanner
