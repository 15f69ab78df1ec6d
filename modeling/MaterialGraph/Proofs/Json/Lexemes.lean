import MaterialGraph.Json.Parser

/-!
# Lexemes

Which characters may stand between the quotes of a string, and which make a numeral, said without the scanners that
find them.

* `IsText`, `IsNumeral` : the lexemes of strings and of numbers.
* `scanString_of_isText`, `scanNumber_of_isNumeral` : the scanners find them.
* `isText_of_scanString`, `isNumeral_of_scanNumber` : they find nothing else.
* `unescape?_escape` : a text is read back from its lexeme.
-/

namespace MaterialGraph.Json

set_option autoImplicit false

/-! ## Strings -/

/-- What may stand between the quotes of a string. -/
inductive IsText : List Char → Prop
  | nil : IsText []
  | plain {c : Char} {cs : List Char} (printable : 0x20 ≤ c.toNat) (noQuote : c ≠ '"') (noBackslash : c ≠ '\\')
      (rest : IsText cs) : IsText (c :: cs)
  | escape {c : Char} {cs : List Char} (known : (unescapeChar? c).isSome) (rest : IsText cs) : IsText ('\\' :: c :: cs)
  | unit {a b c d : Char} {cs : List Char} (hex : (hexUnit? a b c d).isSome) (rest : IsText cs) :
      IsText ('\\' :: 'u' :: a :: b :: c :: d :: cs)

theorem IsText.append {cs ds : List Char} (h : IsText cs) (h' : IsText ds) : IsText (cs ++ ds) := by
  induction h with
  | nil => exact h'
  | plain printable noQuote noBackslash _ ih => exact .plain printable noQuote noBackslash ih
  | escape known _ ih => exact .escape known ih
  | unit hex _ ih => exact .unit hex ih

variable {acc lexeme rest cs : List Char}

theorem scanString_plain {c : Char} (printable : 0x20 ≤ c.toNat) (noQuote : c ≠ '"') (noBackslash : c ≠ '\\') :
    scanString acc (c :: cs) = scanString (c :: acc) cs := by
  rw [scanString, if_neg (by simp [noBackslash]; omega)]
  · exact noQuote
  · exact fun _ _ _ _ _ same _ => noBackslash same
  · exact fun _ _ same _ => noBackslash same

theorem scanString_escape {c : Char} (known : (unescapeChar? c).isSome) :
    scanString acc ('\\' :: c :: cs) = scanString (c :: '\\' :: acc) cs := by
  rw [scanString, if_pos known]
  rintro a b c d rest rfl rfl
  cases known

/-- The scanner of strings finds a lexeme up to the closing quote. -/
theorem scanString_of_isText (text : IsText lexeme) :
    scanString acc (lexeme ++ '"' :: rest) = some (acc.reverse ++ lexeme, rest) := by
  induction text generalizing acc with
  | nil => rw [List.nil_append, scanString, List.append_nil]
  | plain printable noQuote noBackslash _ ih =>
      rw [List.cons_append, scanString_plain printable noQuote noBackslash, ih]
      simp
  | escape known _ ih =>
      rw [List.cons_append, List.cons_append, scanString_escape known, ih]
      simp
  | unit hex _ ih =>
      simp only [List.cons_append]
      rw [scanString, if_pos hex, ih]
      simp

/-- It finds nothing else. -/
theorem isText_of_scanString {found : List Char} (scanned : scanString acc cs = some (found, rest)) :
    ∃ lexeme, IsText lexeme ∧ cs = lexeme ++ '"' :: rest ∧ found = acc.reverse ++ lexeme := by
  fun_induction scanString acc cs with
  | case1 => cases scanned
  | case2 acc cs =>
      cases scanned
      exact ⟨[], .nil, rfl, (List.append_nil _).symm⟩
  | case3 acc a b c d cs hex ih =>
      obtain ⟨lexeme, text, rfl, rfl⟩ := ih scanned
      exact ⟨_, .unit hex text, rfl, by simp⟩
  | case4 => cases scanned
  | case5 acc c cs _ known ih =>
      obtain ⟨lexeme, text, rfl, rfl⟩ := ih scanned
      exact ⟨_, .escape known text, rfl, by simp⟩
  | case6 => cases scanned
  | case7 => cases scanned
  | case8 acc c cs noQuote _ _ plain ih =>
      obtain ⟨lexeme, text, rfl, rfl⟩ := ih scanned
      rw [not_or] at plain
      exact ⟨_, .plain (Nat.le_of_not_lt plain.1) noQuote plain.2 text, rfl, by simp⟩

/-! ## Reading back what has been written -/

theorem hexUnit?_control : ∀ n < 0x20, hexUnit? '0' '0' (hexDigit (n / 16)) (hexDigit (n % 16)) = some n := by
  decide

/-- One character as it is written: behind a backslash, as a code unit, or as it is. -/
theorem escapeChar_cases (c : Char) :
    (∃ mark, unescapeChar? mark = some c ∧ escapeChar c = ['\\', mark]) ∨
    (∃ a b, hexUnit? '0' '0' a b = some c.toNat ∧ c.toNat < 0x20 ∧ escapeChar c = ['\\', 'u', '0', '0', a, b]) ∨
    (0x20 ≤ c.toNat ∧ c ≠ '"' ∧ c ≠ '\\' ∧ escapeChar c = [c]) := by
  have marked {d mark : Char} (known : unescapeChar? mark = some d) (same : c = d)
      (written : escapeChar d = ['\\', mark]) : ∃ mark, unescapeChar? mark = some c ∧ escapeChar c = ['\\', mark] :=
    same ▸ ⟨mark, known, written⟩
  by_cases quote : c = '"'
  · exact .inl (marked rfl quote rfl)
  by_cases backslash : c = '\\'
  · exact .inl (marked rfl backslash rfl)
  by_cases newline : c = '\n'
  · exact .inl (marked rfl newline rfl)
  by_cases carriage : c = '\r'
  · exact .inl (marked rfl carriage rfl)
  by_cases tab : c = '\t'
  · exact .inl (marked rfl tab rfl)
  by_cases backspace : c = '\x08'
  · exact .inl (marked rfl backspace rfl)
  by_cases feed : c = '\x0c'
  · exact .inl (marked rfl feed rfl)
  by_cases control : c.toNat < 0x20
  · exact .inr (.inl ⟨_, _, hexUnit?_control _ control, control, by simp [escapeChar, *]⟩)
  · exact .inr (.inr ⟨Nat.le_of_not_lt control, quote, backslash, by simp [escapeChar, *]⟩)

theorem isText_escapeChar (c : Char) : IsText (escapeChar c) := by
  obtain ⟨mark, known, written⟩ | ⟨a, b, hex, _, written⟩ | ⟨printable, noQuote, noBackslash, written⟩ :=
    escapeChar_cases c
  · rw [written]
    exact .escape (by rw [known]; rfl) .nil
  · rw [written]
    exact .unit (by rw [hex]; rfl) .nil
  · rw [written]
    exact .plain printable noQuote noBackslash .nil

theorem isText_escape (s : String) : IsText (escape s) := by
  unfold escape
  induction s.toList with
  | nil => exact .nil
  | cons c cs ih => exact (isText_escapeChar c).append ih

/-- A code unit that is no half of a surrogate pair stands for its character, whatever follows. -/
theorem unescapeChars?_unit {a b c d : Char} {unit : Nat} (hex : hexUnit? a b c d = some unit) (low : unit < 0xd800)
    (cs : List Char) :
    unescapeChars? ('\\' :: 'u' :: a :: b :: c :: d :: cs) = (unescapeChars? cs).map (Char.ofNat unit :: ·) := by
  rw [unescapeChars?.eq_def]
  split
  · cases ‹_ :: _ = []›
  · next same =>
    cases same
    rw [hex, Option.bind_eq_bind, Option.bind_some, if_pos (.inl low), Option.bind_eq_bind, Option.map_eq_bind]
    rfl
  · next same =>
    cases same
    rw [hex, Option.bind_eq_bind, Option.bind_some, if_pos (.inl low), Option.bind_eq_bind, Option.map_eq_bind]
    rfl
  · next other same =>
    cases same
    exact (other _ _ _ _ _ rfl rfl).elim
  · next same => cases same
  · next simple _ same =>
    cases same
    exact (simple _ _ rfl rfl).elim

theorem unescapeChars?_escape {c c' : Char} (known : unescapeChar? c = some c') (cs : List Char) :
    unescapeChars? ('\\' :: c :: cs) = (unescapeChars? cs).map (c' :: ·) := by
  rw [unescapeChars?.eq_def]
  split
  · cases ‹_ :: _ = []›
  · next same =>
    cases same
    cases known
  · next same =>
    cases same
    cases known
  · next same =>
    cases same
    rw [known, Option.bind_eq_bind, Option.bind_some, Option.bind_eq_bind, Option.map_eq_bind]
    rfl
  · next same => cases same
  · next simple _ same =>
    cases same
    exact (simple _ _ rfl rfl).elim

theorem unescapeChars?_plain {c : Char} (noBackslash : c ≠ '\\') (cs : List Char) :
    unescapeChars? (c :: cs) = (unescapeChars? cs).map (c :: ·) := by
  rw [unescapeChars?.eq_def]
  split
  · cases ‹_ :: _ = []›
  · next same => exact (noBackslash (List.cons.inj same).1).elim
  · next same => exact (noBackslash (List.cons.inj same).1).elim
  · next same => exact (noBackslash (List.cons.inj same).1).elim
  · next same => exact (noBackslash (List.cons.inj same).1).elim
  · next same =>
    cases same
    rw [Option.bind_eq_bind, Option.map_eq_bind]
    rfl

/-- One character is read back, whatever follows. -/
theorem unescapeChars?_escapeChar (c : Char) (cs : List Char) :
    unescapeChars? (escapeChar c ++ cs) = (unescapeChars? cs).map (c :: ·) := by
  obtain ⟨mark, known, written⟩ | ⟨a, b, hex, control, written⟩ | ⟨_, _, noBackslash, written⟩ := escapeChar_cases c
  · rw [written]
    exact unescapeChars?_escape known cs
  · rw [written]
    have unit := unescapeChars?_unit hex (by omega) cs
    rwa [Char.ofNat_toNat] at unit
  · rw [written]
    exact unescapeChars?_plain noBackslash cs

theorem unescape?_escape (s : String) : unescape? (escape s) = some s := by
  have all (cs : List Char) : unescapeChars? (cs.flatMap escapeChar) = some cs := by
    induction cs with
    | nil => rfl
    | cons c cs ih => rw [List.flatMap_cons, unescapeChars?_escapeChar, ih, Option.map_some]
  rw [unescape?, escape, all, Option.map_some, String.ofList_toList]

/-! ## Numbers -/

def IsDigits (cs : List Char) : Prop := cs ≠ [] ∧ ∀ c ∈ cs, c.isDigit

def IsWhole (cs : List Char) : Prop := IsDigits cs ∧ ¬ (cs.head? = some '0' ∧ 1 < cs.length)

/-- The point and the digits behind it, or nothing. -/
inductive IsFraction : List Char → Prop
  | none : IsFraction []
  | point {digits : List Char} (some : IsDigits digits) : IsFraction ('.' :: digits)

/-- The exponent with its mark, or nothing. -/
inductive IsExponent : List Char → Prop
  | none : IsExponent []
  | unsigned {e : Char} {digits : List Char} (mark : e = 'e' ∨ e = 'E') (some : IsDigits digits) :
      IsExponent (e :: digits)
  | plus {e : Char} {digits : List Char} (mark : e = 'e' ∨ e = 'E') (some : IsDigits digits) :
      IsExponent (e :: '+' :: digits)
  | minus {e : Char} {digits : List Char} (mark : e = 'e' ∨ e = 'E') (some : IsDigits digits) :
      IsExponent (e :: '-' :: digits)

/-- A numeral without sign. -/
inductive IsUnsigned : List Char → Prop
  | intro {whole fraction exponent : List Char} (isWhole : IsWhole whole) (isFraction : IsFraction fraction)
      (isExponent : IsExponent exponent) : IsUnsigned (whole ++ fraction ++ exponent)

/-- A numeral. -/
inductive IsNumeral : List Char → Prop
  | positive {cs : List Char} (unsigned : IsUnsigned cs) : IsNumeral cs
  | negative {cs : List Char} (unsigned : IsUnsigned cs) : IsNumeral ('-' :: cs)

def Lengthens (c : Char) : Prop := c.isDigit ∨ c = '.' ∨ c = 'e' ∨ c = 'E'

def EndsNumeral (cs : List Char) : Prop := ∀ c ∈ cs.head?, ¬ Lengthens c

variable {digits fraction exponent : List Char}

/-- The scanner of digits takes all of them. -/
theorem scanDigits_of_isDigits (some : IsDigits digits) (ends : ∀ c ∈ rest.head?, ¬ c.isDigit) :
    scanDigits (digits ++ rest) = .some (digits, rest) := by
  have taken : rest.takeWhile Char.isDigit = [] ∧ rest.dropWhile Char.isDigit = rest := by
    cases rest with
    | nil => exact ⟨rfl, rfl⟩
    | cons c rest => exact ⟨List.takeWhile_cons_of_neg (ends c rfl), List.dropWhile_cons_of_neg (ends c rfl)⟩
  rw [scanDigits, List.takeWhile_append_of_pos some.2, List.dropWhile_append_of_pos some.2, taken.1, taken.2,
    List.append_nil]
  simp [some.1]

theorem isDigits_of_scanDigits (scanned : scanDigits cs = some (digits, rest)) :
    IsDigits digits ∧ cs = digits ++ rest := by
  simp only [scanDigits] at scanned
  split at scanned
  · cases scanned
  · next any =>
    cases scanned
    refine ⟨⟨by simpa using any, fun c mem => ?_⟩, List.takeWhile_append_dropWhile.symm⟩
    exact List.all_eq_true.1 List.all_takeWhile c mem

theorem scanWhole_of_isWhole (isWhole : IsWhole digits) (ends : ∀ c ∈ rest.head?, ¬ c.isDigit) :
    scanWhole (digits ++ rest) = some (digits, rest) := by
  rw [scanWhole, scanDigits_of_isDigits isWhole.1 ends]
  exact if_neg isWhole.2

theorem isWhole_of_scanWhole (scanned : scanWhole cs = some (digits, rest)) :
    IsWhole digits ∧ cs = digits ++ rest := by
  obtain ⟨⟨found, later⟩, scan, read⟩ := Option.bind_eq_some_iff.1 scanned
  obtain ⟨all, rfl⟩ := isDigits_of_scanDigits scan
  dsimp only at read
  split at read
  · cases read
  · next single =>
    cases read
    exact ⟨⟨all, single⟩, rfl⟩

theorem scanFraction_of_isFraction (isFraction : IsFraction fraction)
    (ends : ∀ c ∈ rest.head?, ¬ (c.isDigit ∨ c = '.')) : scanFraction (fraction ++ rest) = some (fraction, rest) := by
  cases isFraction with
  | none =>
      rw [List.nil_append]
      unfold scanFraction
      split
      · exact (ends '.' rfl (.inr rfl)).elim
      · rfl
  | point all =>
      rw [List.cons_append, scanFraction, scanDigits_of_isDigits all fun c mem isDigit => ends c mem (.inl isDigit)]
      rfl

theorem isFraction_of_scanFraction (scanned : scanFraction cs = some (fraction, rest)) :
    IsFraction fraction ∧ cs = fraction ++ rest := by
  unfold scanFraction at scanned
  split at scanned
  · obtain ⟨⟨found, later⟩, scan, read⟩ := Option.bind_eq_some_iff.1 scanned
    obtain ⟨all, rfl⟩ := isDigits_of_scanDigits scan
    cases read
    exact ⟨.point all, rfl⟩
  · cases scanned
    exact ⟨.none, rfl⟩

theorem scanExponent_of_isExponent (isExponent : IsExponent exponent) (ends : EndsNumeral rest) :
    scanExponent (exponent ++ rest) = some (exponent, rest) := by
  have noDigit (c : Char) (mem : c ∈ rest.head?) : ¬ c.isDigit := fun isDigit => ends c mem (.inl isDigit)
  cases isExponent with
  | none =>
      rw [List.nil_append]
      cases rest with
      | nil => rfl
      | cons c rest =>
          unfold scanExponent
          exact if_neg fun mark => ends c rfl (.inr (.inr mark))
  | unsigned mark all =>
      obtain ⟨c, cs, rfl⟩ := List.exists_cons_of_ne_nil all.1
      have isDigit : c.isDigit := all.2 c List.mem_cons_self
      rw [List.cons_append]
      unfold scanExponent
      dsimp only
      rw [if_pos mark]
      split
      · next same =>
        cases same
        cases isDigit
      · next same =>
        cases same
        cases isDigit
      · rw [scanDigits_of_isDigits all noDigit]
        rfl
  | plus mark all =>
      rw [List.cons_append, List.cons_append]
      unfold scanExponent
      dsimp only
      rw [if_pos mark]
      change scanDigits (_ ++ rest) >>= _ = _
      rw [scanDigits_of_isDigits all noDigit]
      rfl
  | minus mark all =>
      rw [List.cons_append, List.cons_append]
      unfold scanExponent
      dsimp only
      rw [if_pos mark]
      change scanDigits (_ ++ rest) >>= _ = _
      rw [scanDigits_of_isDigits all noDigit]
      rfl

theorem isExponent_of_scanExponent (scanned : scanExponent cs = some (exponent, rest)) :
    IsExponent exponent ∧ cs = exponent ++ rest := by
  unfold scanExponent at scanned
  split at scanned
  · cases scanned
    exact ⟨.none, rfl⟩
  · split at scanned
    · next mark =>
      split at scanned
      · obtain ⟨⟨found, later⟩, scan, read⟩ := Option.bind_eq_some_iff.1 scanned
        obtain ⟨all, rfl⟩ := isDigits_of_scanDigits scan
        cases read
        exact ⟨.plus mark all, rfl⟩
      · obtain ⟨⟨found, later⟩, scan, read⟩ := Option.bind_eq_some_iff.1 scanned
        obtain ⟨all, rfl⟩ := isDigits_of_scanDigits scan
        cases read
        exact ⟨.minus mark all, rfl⟩
      · obtain ⟨⟨found, later⟩, scan, read⟩ := Option.bind_eq_some_iff.1 scanned
        obtain ⟨all, rfl⟩ := isDigits_of_scanDigits scan
        cases read
        exact ⟨.unsigned mark all, rfl⟩
    · cases scanned
      exact ⟨.none, rfl⟩

theorem scanUnsigned_of_isUnsigned (unsigned : IsUnsigned lexeme) (ends : EndsNumeral rest) :
    scanUnsigned (lexeme ++ rest) = some (lexeme, rest) := by
  obtain ⟨isWhole, isFraction, isExponent⟩ := unsigned
  rename_i whole fraction exponent
  -- Each part ends where the next one begins with a mark of its own, or where the numeral ends.
  have afterFraction : ∀ c ∈ (exponent ++ rest).head?, ¬ (c.isDigit ∨ c = '.') := by
    have marked {e : Char} (mark : e = 'e' ∨ e = 'E') : ¬ (e.isDigit ∨ e = '.') := by
      rcases mark with rfl | rfl <;> decide
    rintro c mem
    cases isExponent with
    | none => exact fun longer => ends c mem (longer.elim .inl (.inr ∘ .inl))
    | unsigned mark _ =>
        cases mem
        exact marked mark
    | plus mark _ =>
        cases mem
        exact marked mark
    | minus mark _ =>
        cases mem
        exact marked mark
  have afterWhole : ∀ c ∈ (fraction ++ (exponent ++ rest)).head?, ¬ c.isDigit := by
    rintro c mem isDigit
    cases isFraction with
    | none => exact afterFraction c mem (.inl isDigit)
    | point _ =>
        cases mem
        cases isDigit
  rw [scanUnsigned, List.append_assoc, List.append_assoc, scanWhole_of_isWhole isWhole afterWhole,
    Option.bind_eq_bind, Option.bind_some]
  dsimp only
  rw [scanFraction_of_isFraction isFraction afterFraction, Option.bind_some, scanExponent_of_isExponent isExponent ends]
  rfl

theorem isUnsigned_of_scanUnsigned (scanned : scanUnsigned cs = some (lexeme, rest)) :
    IsUnsigned lexeme ∧ cs = lexeme ++ rest := by
  obtain ⟨⟨whole, _⟩, scanWhole, afterWhole⟩ := Option.bind_eq_some_iff.1 scanned
  obtain ⟨isWhole, rfl⟩ := isWhole_of_scanWhole scanWhole
  obtain ⟨⟨fraction, _⟩, scanFraction, afterFraction⟩ := Option.bind_eq_some_iff.1 afterWhole
  obtain ⟨isFraction, rfl⟩ := isFraction_of_scanFraction scanFraction
  obtain ⟨⟨exponent, _⟩, scanExponent, found⟩ := Option.bind_eq_some_iff.1 afterFraction
  obtain ⟨isExponent, rfl⟩ := isExponent_of_scanExponent scanExponent
  cases found
  exact ⟨.intro isWhole isFraction isExponent, by simp⟩

theorem IsUnsigned.head (unsigned : IsUnsigned lexeme) : ∃ c cs, lexeme = c :: cs ∧ c.isDigit := by
  obtain ⟨isWhole, _, _⟩ := unsigned
  rename_i whole fraction exponent
  obtain ⟨c, cs, rfl⟩ := List.exists_cons_of_ne_nil isWhole.1.1
  exact ⟨c, _, rfl, isWhole.1.2 c List.mem_cons_self⟩

/-- The scanner of numbers finds a numeral up to a character that would not lengthen it. -/
theorem scanNumber_of_isNumeral (numeral : IsNumeral lexeme) (ends : EndsNumeral rest) :
    scanNumber (lexeme ++ rest) = some (lexeme, rest) := by
  cases numeral with
  | positive unsigned =>
      obtain ⟨c, cs, rfl, isDigit⟩ := unsigned.head
      rw [List.cons_append]
      unfold scanNumber
      split
      · next same =>
        cases same
        cases isDigit
      · exact scanUnsigned_of_isUnsigned unsigned ends
  | negative unsigned =>
      rw [List.cons_append, scanNumber, scanUnsigned_of_isUnsigned unsigned ends]
      rfl

/-- It finds nothing else. -/
theorem isNumeral_of_scanNumber (scanned : scanNumber cs = some (lexeme, rest)) :
    IsNumeral lexeme ∧ cs = lexeme ++ rest := by
  unfold scanNumber at scanned
  split at scanned
  · obtain ⟨⟨unsigned, later⟩, scan, read⟩ := Option.bind_eq_some_iff.1 scanned
    obtain ⟨isUnsigned, rfl⟩ := isUnsigned_of_scanUnsigned scan
    cases read
    exact ⟨.negative isUnsigned, rfl⟩
  · obtain ⟨isUnsigned, same⟩ := isUnsigned_of_scanUnsigned scanned
    exact ⟨.positive isUnsigned, same⟩

theorem IsNumeral.head (numeral : IsNumeral lexeme) : ∃ c cs, lexeme = c :: cs ∧ (c.isDigit ∨ c = '-') := by
  cases numeral with
  | positive unsigned =>
      obtain ⟨c, cs, same, isDigit⟩ := unsigned.head
      exact ⟨c, cs, same, .inl isDigit⟩
  | negative unsigned => exact ⟨_, _, rfl, .inr rfl⟩

end MaterialGraph.Json
