import Mathlib.Data.List.TakeWhile
import MaterialGraph.Proofs.Json.Lexemes

/-!
# Texts of trees

Which texts spell a tree, said without the parser: the words, lexemes and brackets of the tree with blanks between them.

* `Spells` : the texts of a tree.
* `parse?_eq_some_iff` : the parser finds the tree that a text spells, and nothing in other texts.
* `Lexed.parse?_render` : a tree whose lexemes are in order is read back from the text that is written of it.
-/

namespace MaterialGraph.Json

set_option autoImplicit false

def IsBlank (cs : List Char) : Prop := ∀ c ∈ cs, isSpace c

mutual

/-- A text of a tree. -/
inductive Spells : Json → List Char → Prop
  | null : Spells null ['n', 'u', 'l', 'l']
  | true : Spells (bool true) ['t', 'r', 'u', 'e']
  | false : Spells (bool false) ['f', 'a', 'l', 's', 'e']
  | number {lexeme : List Char} (numeral : IsNumeral lexeme) : Spells (number lexeme) lexeme
  | string {lexeme : List Char} (text : IsText lexeme) : Spells (string lexeme) ('"' :: (lexeme ++ ['"']))
  | noItems {blank : List Char} (isBlank : IsBlank blank) : Spells (array []) ('[' :: (blank ++ [']']))
  | array {items : List Json} {cs : List Char} (spelled : SpellsItems items cs) :
      Spells (array items) ('[' :: (cs ++ [']']))
  | noMembers {blank : List Char} (isBlank : IsBlank blank) : Spells (object []) ('\x7b' :: (blank ++ ['\x7d']))
  | object {members : List (List Char × Json)} {cs : List Char} (spelled : SpellsMembers members cs) :
      Spells (object members) ('\x7b' :: (cs ++ ['\x7d']))
  | padded {j : Json} {before cs after : List Char} (isBefore : IsBlank before) (spelled : Spells j cs)
      (isAfter : IsBlank after) : Spells j (before ++ cs ++ after)

/-- A text of the items of an array, with commas between them. -/
inductive SpellsItems : List Json → List Char → Prop
  | last {item : Json} {cs : List Char} (spelled : Spells item cs) : SpellsItems [item] cs
  | more {item : Json} {items : List Json} {cs later : List Char} (spelled : Spells item cs)
      (others : SpellsItems items later) : SpellsItems (item :: items) (cs ++ ',' :: later)

/-- A text of a member: its name, a colon, its value. -/
inductive SpellsMember : List Char × Json → List Char → Prop
  | intro {name before after cs : List Char} {value : Json} (isBefore : IsBlank before) (text : IsText name)
      (isAfter : IsBlank after) (spelled : Spells value cs) :
      SpellsMember (name, value) (before ++ '"' :: (name ++ '"' :: (after ++ ':' :: cs)))

/-- A text of the members of an object, with commas between them. -/
inductive SpellsMembers : List (List Char × Json) → List Char → Prop
  | last {member : List Char × Json} {cs : List Char} (spelled : SpellsMember member cs) : SpellsMembers [member] cs
  | more {member : List Char × Json} {members : List (List Char × Json)} {cs later : List Char}
      (spelled : SpellsMember member cs) (others : SpellsMembers members later) :
      SpellsMembers (member :: members) (cs ++ ',' :: later)

end

/-! ## Blanks -/

variable {fuel : Nat} {cs rest before after : List Char} {j : Json}

theorem skipSpace_append (isBlank : IsBlank before) : skipSpace (before ++ cs) = skipSpace cs :=
  List.dropWhile_append_of_pos isBlank

@[simp]
theorem skipSpace_skipSpace : skipSpace (skipSpace cs) = skipSpace cs := by
  unfold skipSpace
  induction cs with
  | nil => rfl
  | cons c cs ih =>
      rw [List.dropWhile_cons]
      split
      · exact ih
      · next visible => rw [List.dropWhile_cons_of_neg visible]

theorem skipSpace_cons {c : Char} (visible : isSpace c = false) : skipSpace (c :: cs) = c :: cs :=
  List.dropWhile_cons_of_neg (by simp [visible])

theorem skipSpace_eq_nil_iff : skipSpace cs = [] ↔ IsBlank cs :=
  List.dropWhile_eq_nil_iff

/-- What is skipped is blank. -/
theorem exists_blank (cs : List Char) : ∃ blank, IsBlank blank ∧ cs = blank ++ skipSpace cs :=
  ⟨cs.takeWhile isSpace, fun c mem => List.all_eq_true.1 List.all_takeWhile c mem,
    List.takeWhile_append_dropWhile.symm⟩

theorem parseValue_skipSpace : parseValue fuel (skipSpace cs) = parseValue fuel cs := by
  cases fuel with
  | zero => rw [parseValue, parseValue]
  | succ fuel => rw [parseValue, parseValue, skipSpace_skipSpace]

theorem parseItems_skipSpace : parseItems fuel (skipSpace cs) = parseItems fuel cs := by
  cases fuel with
  | zero => rw [parseItems, parseItems]
  | succ fuel => rw [parseItems, parseItems, parseValue_skipSpace]

theorem parseMembers_skipSpace : parseMembers fuel (skipSpace cs) = parseMembers fuel cs := by
  cases fuel with
  | zero => rw [parseMembers, parseMembers]
  | succ fuel => rw [parseMembers, parseMembers, skipSpace_skipSpace]

/-! ## The parser finds what is spelled -/

/-- The parser finds a value in front of every text that does not lengthen it, up to blanks. -/
def Found (j : Json) (cs : List Char) : Prop :=
  ∀ fuel rest, cs.length ≤ fuel → EndsNumeral rest →
    ∃ left, parseValue fuel (cs ++ rest) = some (j, left) ∧ skipSpace left = skipSpace rest

/-- The parser finds the items of an array up to its closing bracket. -/
def ItemsFound (items : List Json) (cs : List Char) : Prop :=
  ∀ fuel rest, cs.length < fuel → parseItems fuel (cs ++ ']' :: rest) = some (items, rest)

/-- The parser finds a member up to a brace or to a comma, where it goes on with the others. -/
structure MemberFound (member : List Char × Json) (cs : List Char) : Prop where
  last : ∀ fuel rest, cs.length ≤ fuel → parseMembers (fuel + 1) (cs ++ '\x7d' :: rest) = some ([member], rest)
  more : ∀ fuel rest, cs.length ≤ fuel → parseMembers (fuel + 1) (cs ++ ',' :: rest) =
    (parseMembers fuel rest).map fun (members, rest) => (member :: members, rest)

/-- The parser finds the members of an object up to its closing brace. -/
def MembersFound (members : List (List Char × Json)) (cs : List Char) : Prop :=
  ∀ fuel rest, cs.length < fuel → parseMembers fuel (cs ++ '\x7d' :: rest) = some (members, rest)

theorem endsNumeral_cons {c : Char} (ends : ¬ Lengthens c) : EndsNumeral (c :: rest) := by
  rintro _ ⟨⟩
  exact ends

instance (c : Char) : Decidable (Lengthens c) :=
  inferInstanceAs (Decidable (c.isDigit ∨ c = '.' ∨ c = 'e' ∨ c = 'E'))

theorem EndsNumeral.blank_append (isBlank : IsBlank before) (ends : EndsNumeral rest) :
    EndsNumeral (before ++ rest) := by
  cases before with
  | nil => exact ends
  | cons c before =>
      have space : isSpace c := isBlank c List.mem_cons_self
      refine endsNumeral_cons ?_
      simp only [isSpace, Bool.or_eq_true, decide_eq_true_eq, or_assoc] at space
      rcases space with rfl | rfl | rfl | rfl <;> decide

/-- A closing bracket is no item. -/
theorem parseItems_closing (closing : skipSpace cs = ']' :: rest) : parseItems fuel cs = none := by
  rw [← parseItems_skipSpace, closing]
  rcases fuel with _ | _ | fuel
  · rw [parseItems]
  · rw [parseItems, parseValue]
    rfl
  · rw [parseItems, parseValue, skipSpace_cons (by decide)]
    rfl

/-- A closing brace is no member. -/
theorem parseMembers_closing (closing : skipSpace cs = '\x7d' :: rest) : parseMembers fuel cs = none := by
  rcases fuel with _ | fuel
  · rw [parseMembers]
  · rw [parseMembers, closing]
    rfl

theorem parseValue_number {c : Char} (first : c.isDigit ∨ c = '-') :
    parseValue (fuel + 1) (c :: cs) = (scanNumber (c :: cs)).map fun (lexeme, rest) => (number lexeme, rest) := by
  have other : ∀ d ∈ [' ', '\n', '\r', '\t', 'n', 't', 'f', '"', '[', '\x7b'], c ≠ d := by
    rintro d mem rfl
    have noDigit : ∀ d ∈ [' ', '\n', '\r', '\t', 'n', 't', 'f', '"', '[', '\x7b'], ¬ (d.isDigit ∨ d = '-') := by simp
    exact noDigit c mem first
  have visible : isSpace c = false := by
    simp [isSpace, other]
  rw [parseValue, skipSpace_cons visible]
  split
  · next same => exact (other 'n' (by decide) (List.cons.inj same).1).elim
  · next same => exact (other 't' (by decide) (List.cons.inj same).1).elim
  · next same => exact (other 'f' (by decide) (List.cons.inj same).1).elim
  · next same => exact (other '"' (by decide) (List.cons.inj same).1).elim
  · next same => exact (other '[' (by decide) (List.cons.inj same).1).elim
  · next same => exact (other '\x7b' (by decide) (List.cons.inj same).1).elim
  · rfl

theorem parseValue_bracket (fuel : Nat) (cs : List Char) :
    parseValue (fuel + 1) ('[' :: cs) = match skipSpace cs with
      | ']' :: rest => some (array [], rest)
      | rest => (parseItems fuel rest).map fun (items, rest) => (array items, rest) := by
  rw [parseValue, skipSpace_cons (by decide)]
  rfl

theorem parseValue_noItems (closing : skipSpace cs = ']' :: rest) :
    parseValue (fuel + 1) ('[' :: cs) = some (array [], rest) := by
  rw [parseValue_bracket, closing]
  rfl

theorem parseValue_items {items : List Json} (read : parseItems fuel cs = some (items, rest)) :
    parseValue (fuel + 1) ('[' :: cs) = some (array items, rest) := by
  rw [parseValue_bracket]
  split
  · next closing =>
    rw [parseItems_closing closing] at read
    cases read
  · rw [parseItems_skipSpace, read]
    rfl

theorem parseValue_brace (fuel : Nat) (cs : List Char) :
    parseValue (fuel + 1) ('\x7b' :: cs) = match skipSpace cs with
      | '\x7d' :: rest => some (object [], rest)
      | rest => (parseMembers fuel rest).map fun (members, rest) => (object members, rest) := by
  rw [parseValue, skipSpace_cons (by decide)]
  rfl

theorem parseValue_noMembers (closing : skipSpace cs = '\x7d' :: rest) :
    parseValue (fuel + 1) ('\x7b' :: cs) = some (object [], rest) := by
  rw [parseValue_brace, closing]
  rfl

theorem parseValue_members {members : List (List Char × Json)} (read : parseMembers fuel cs = some (members, rest)) :
    parseValue (fuel + 1) ('\x7b' :: cs) = some (object members, rest) := by
  rw [parseValue_brace]
  split
  · next closing =>
    rw [parseMembers_closing closing] at read
    cases read
  · rw [parseMembers_skipSpace, read]
    rfl

/-- The fuel of a text that is not empty. -/
theorem Found.of_succ {c : Char} (found : ∀ fuel rest, cs.length ≤ fuel → EndsNumeral rest →
    parseValue (fuel + 1) (c :: (cs ++ rest)) = some (j, rest)) : Found j (c :: cs) := by
  rintro (_ | fuel) rest enough ends
  · cases enough
  · exact ⟨rest, found fuel rest (Nat.le_of_succ_le_succ enough) ends, rfl⟩

theorem Found.number {lexeme : List Char} (numeral : IsNumeral lexeme) : Found (number lexeme) lexeme := by
  obtain ⟨c, digits, rfl, first⟩ := numeral.head
  refine .of_succ fun fuel rest _ ends => ?_
  rw [parseValue_number first, ← List.cons_append, scanNumber_of_isNumeral numeral ends]
  rfl

theorem Found.string {lexeme : List Char} (text : IsText lexeme) :
    Found (string lexeme) ('"' :: (lexeme ++ ['"'])) := by
  refine .of_succ fun fuel rest _ _ => ?_
  rw [parseValue, skipSpace_cons (by decide), List.append_assoc]
  change (scanString [] (lexeme ++ '"' :: rest)).map _ = _
  rw [scanString_of_isText text]
  rfl

theorem Found.noItems (isBlank : IsBlank before) : Found (.array []) ('[' :: (before ++ [']'])) := by
  refine .of_succ fun fuel rest _ _ => parseValue_noItems ?_
  rw [List.append_assoc, skipSpace_append isBlank]
  exact skipSpace_cons (by decide)

theorem Found.array {items : List Json} (found : ItemsFound items cs) :
    Found (.array items) ('[' :: (cs ++ [']'])) := by
  refine .of_succ fun fuel rest enough _ => parseValue_items ?_
  rw [List.append_assoc]
  exact found fuel rest (by simp at enough; omega)

theorem Found.noMembers (isBlank : IsBlank before) : Found (.object []) ('\x7b' :: (before ++ ['\x7d'])) := by
  refine .of_succ fun fuel rest _ _ => parseValue_noMembers ?_
  rw [List.append_assoc, skipSpace_append isBlank]
  exact skipSpace_cons (by decide)

theorem Found.object {members : List (List Char × Json)} (found : MembersFound members cs) :
    Found (.object members) ('\x7b' :: (cs ++ ['\x7d'])) := by
  refine .of_succ fun fuel rest enough _ => parseValue_members ?_
  rw [List.append_assoc]
  exact found fuel rest (by simp at enough; omega)

theorem Found.padded (isBefore : IsBlank before) (found : Found j cs) (isAfter : IsBlank after) :
    Found j (before ++ cs ++ after) := by
  rintro fuel rest enough ends
  simp only [List.length_append] at enough
  obtain ⟨left, read, blank⟩ := found fuel (after ++ rest) (by omega) (ends.blank_append isAfter)
  refine ⟨left, ?_, blank.trans (skipSpace_append isAfter)⟩
  rw [List.append_assoc, List.append_assoc, ← parseValue_skipSpace, skipSpace_append isBefore, parseValue_skipSpace,
    read]

theorem ItemsFound.last {item : Json} (found : Found item cs) : ItemsFound [item] cs := by
  rintro (_ | fuel) rest enough
  · cases enough
  · obtain ⟨left, read, blank⟩ := found fuel (']' :: rest) (by omega) (endsNumeral_cons (by decide))
    rw [parseItems, read, Option.bind_eq_bind, Option.bind_some]
    dsimp only
    rw [blank, skipSpace_cons (by decide)]
    rfl

theorem ItemsFound.more {item : Json} {items : List Json} {later : List Char} (found : Found item cs)
    (others : ItemsFound items later) : ItemsFound (item :: items) (cs ++ ',' :: later) := by
  rintro (_ | fuel) rest enough
  · cases enough
  · rw [List.length_append, List.length_cons] at enough
    obtain ⟨left, read, blank⟩ := found fuel (',' :: (later ++ ']' :: rest)) (by omega) (endsNumeral_cons (by decide))
    rw [List.append_assoc, List.cons_append, parseItems, read, Option.bind_eq_bind, Option.bind_some]
    simp only [blank, skipSpace_cons (show isSpace ',' = false by decide), others fuel rest (by omega)]
    rfl

/-- The name of a member is read, and the colon after it. -/
theorem parseMembers_named {name : List Char} (isBefore : IsBlank before) (text : IsText name)
    (isAfter : IsBlank after) (fuel : Nat) (cs rest : List Char) :
    parseMembers (fuel + 1) (before ++ '"' :: (name ++ '"' :: (after ++ ':' :: cs)) ++ rest) =
      (parseValue fuel (cs ++ rest)).bind fun (value, left) =>
        match skipSpace left with
        | ',' :: rest => (parseMembers fuel rest).map fun (members, rest) => ((name, value) :: members, rest)
        | '\x7d' :: rest => some ([(name, value)], rest)
        | _ => none := by
  rw [parseMembers, List.append_assoc, skipSpace_append isBefore, List.cons_append, skipSpace_cons (by decide)]
  simp only [List.append_assoc, List.cons_append, scanString_of_isText text, Option.bind_eq_bind, Option.bind_some,
    skipSpace_append isAfter, skipSpace_cons (show isSpace ':' = false by decide)]
  simp only [Option.map_eq_bind]
  rfl

theorem MemberFound.intro {name : List Char} (isBefore : IsBlank before) (text : IsText name)
    (isAfter : IsBlank after) (found : Found j cs) :
    MemberFound (name, j) (before ++ '"' :: (name ++ '"' :: (after ++ ':' :: cs))) := by
  have begun := parseMembers_named isBefore text isAfter
  refine ⟨fun fuel rest enough => ?_, fun fuel rest enough => ?_⟩
  · simp only [List.length_append, List.length_cons] at enough
    obtain ⟨left, read, blank⟩ := found fuel ('\x7d' :: rest) (by omega) (endsNumeral_cons (by decide))
    rw [begun, read, Option.bind_some]
    simp only [blank, skipSpace_cons (show isSpace '\x7d' = false by decide)]
  · simp only [List.length_append, List.length_cons] at enough
    obtain ⟨left, read, blank⟩ := found fuel (',' :: rest) (by omega) (endsNumeral_cons (by decide))
    rw [begun, read, Option.bind_some]
    simp only [blank, skipSpace_cons (show isSpace ',' = false by decide)]

theorem MembersFound.last {member : List Char × Json} (found : MemberFound member cs) : MembersFound [member] cs := by
  rintro (_ | fuel) rest enough
  · cases enough
  · exact found.last fuel rest (Nat.le_of_lt_succ enough)

theorem MembersFound.more {member : List Char × Json} {members : List (List Char × Json)} {later : List Char}
    (found : MemberFound member cs) (others : MembersFound members later) :
    MembersFound (member :: members) (cs ++ ',' :: later) := by
  rintro (_ | fuel) rest enough
  · cases enough
  · rw [List.length_append, List.length_cons] at enough
    rw [List.append_assoc, List.cons_append, found.more fuel _ (by omega), others fuel rest (by omega)]
    rfl

/-- The parser finds every tree in every text of it. -/
theorem Spells.found (spelled : Spells j cs) : Found j cs := by
  refine @Spells.rec (fun j cs _ => Found j cs) (fun items cs _ => ItemsFound items cs)
    (fun member cs _ => MemberFound member cs) (fun members cs _ => MembersFound members cs)
    ?null ?true ?false ?number ?string ?noItems ?array ?noMembers ?object ?padded ?lastItem ?moreItems ?member
    ?lastMember ?moreMembers j cs spelled
  case null => exact .of_succ fun fuel rest _ _ => by rw [parseValue]; rfl
  case true => exact .of_succ fun fuel rest _ _ => by rw [parseValue]; rfl
  case false => exact .of_succ fun fuel rest _ _ => by rw [parseValue]; rfl
  case number => exact .number
  case string => exact .string
  case noItems => exact .noItems
  case array => exact fun _ => .array
  case noMembers => exact .noMembers
  case object => exact fun _ => .object
  case padded => exact fun isBefore _ isAfter found => found.padded isBefore isAfter
  case lastItem => exact fun _ => .last
  case moreItems => exact fun _ _ => .more
  case member => exact fun isBefore text isAfter _ found => .intro isBefore text isAfter found
  case lastMember => exact fun _ => .last
  case moreMembers => exact fun _ _ => .more

/-! ## The parser finds nothing else -/

/-- What the parser finds stands in front of the text. -/
structure Sound (fuel : Nat) : Prop where
  value : ∀ {cs j rest}, parseValue fuel cs = some (j, rest) → ∃ text, Spells j text ∧ cs = text ++ rest
  items : ∀ {cs items rest}, parseItems fuel cs = some (items, rest) →
    ∃ text, SpellsItems items text ∧ cs = text ++ ']' :: rest
  members : ∀ {cs members rest}, parseMembers fuel cs = some (members, rest) →
    ∃ text, SpellsMembers members text ∧ cs = text ++ '\x7d' :: rest

/-- What stands behind blanks. -/
theorem exists_of_skipSpace {tight : List Char} (skipped : skipSpace cs = tight) :
    ∃ blank, IsBlank blank ∧ cs = blank ++ tight := by
  subst skipped
  exact exists_blank cs

theorem isBlank_nil : IsBlank [] := fun _ mem => absurd mem List.not_mem_nil

theorem Spells.behind (isBefore : IsBlank before) (spelled : Spells j cs) : Spells j (before ++ cs) := by
  have padded := Spells.padded isBefore spelled isBlank_nil
  rwa [List.append_nil] at padded

theorem Spells.ahead (spelled : Spells j cs) (isAfter : IsBlank after) : Spells j (cs ++ after) :=
  .padded isBlank_nil spelled isAfter

theorem Sound.parseValue (sound : Sound fuel) (parsed : parseValue (fuel + 1) cs = some (j, rest)) :
    ∃ text, Spells j text ∧ cs = text ++ rest := by
  obtain ⟨blank, isBlank, same⟩ := exists_blank cs
  suffices ∃ text, Spells j text ∧ skipSpace cs = text ++ rest by
    obtain ⟨text, spelled, tight⟩ := this
    exact ⟨blank ++ text, spelled.behind isBlank, by rw [same, tight, List.append_assoc]⟩
  rw [Json.parseValue] at parsed
  split at parsed
  · next tight =>
    cases parsed
    exact ⟨_, .null, tight⟩
  · next tight =>
    cases parsed
    exact ⟨_, .true, tight⟩
  · next tight =>
    cases parsed
    exact ⟨_, .false, tight⟩
  · next tight =>
    obtain ⟨⟨lexeme, _⟩, scanned, found⟩ := Option.map_eq_some_iff.1 parsed
    obtain ⟨_, text, rfl, rfl⟩ := isText_of_scanString scanned
    cases found
    exact ⟨_, .string text, by simp [tight]⟩
  · next tight =>
    split at parsed
    · next skipped =>
      obtain ⟨inner, isInner, rfl⟩ := exists_of_skipSpace skipped
      cases parsed
      exact ⟨_, .noItems isInner, by simp [tight]⟩
    · obtain ⟨⟨items, _⟩, read, found⟩ := Option.map_eq_some_iff.1 parsed
      rw [parseItems_skipSpace] at read
      obtain ⟨text, spelled, rfl⟩ := sound.items read
      cases found
      exact ⟨_, .array spelled, by simp [tight]⟩
  · next tight =>
    split at parsed
    · next skipped =>
      obtain ⟨inner, isInner, rfl⟩ := exists_of_skipSpace skipped
      cases parsed
      exact ⟨_, .noMembers isInner, by simp [tight]⟩
    · obtain ⟨⟨members, _⟩, read, found⟩ := Option.map_eq_some_iff.1 parsed
      rw [parseMembers_skipSpace] at read
      obtain ⟨text, spelled, rfl⟩ := sound.members read
      cases found
      exact ⟨_, .object spelled, by simp [tight]⟩
  · obtain ⟨⟨lexeme, _⟩, scanned, found⟩ := Option.map_eq_some_iff.1 parsed
    obtain ⟨numeral, tight⟩ := isNumeral_of_scanNumber scanned
    cases found
    exact ⟨_, .number numeral, tight⟩

theorem Sound.parseItems {items : List Json} (sound : Sound fuel)
    (parsed : parseItems (fuel + 1) cs = some (items, rest)) :
    ∃ text, SpellsItems items text ∧ cs = text ++ ']' :: rest := by
  rw [Json.parseItems] at parsed
  obtain ⟨⟨item, left⟩, read, closed⟩ := Option.bind_eq_some_iff.1 parsed
  obtain ⟨text, spelled, rfl⟩ := sound.value read
  dsimp only at closed
  split at closed
  · next skipped =>
    obtain ⟨blank, isBlank, rfl⟩ := exists_of_skipSpace skipped
    obtain ⟨⟨others, _⟩, more, found⟩ := Option.bind_eq_some_iff.1 closed
    obtain ⟨later, spelledLater, rfl⟩ := sound.items more
    cases found
    exact ⟨_, .more (spelled.ahead isBlank) spelledLater, by simp⟩
  · next skipped =>
    obtain ⟨blank, isBlank, rfl⟩ := exists_of_skipSpace skipped
    cases closed
    exact ⟨_, .last (spelled.ahead isBlank), by simp⟩
  · cases closed

theorem Sound.parseMembers {members : List (List Char × Json)} (sound : Sound fuel)
    (parsed : parseMembers (fuel + 1) cs = some (members, rest)) :
    ∃ text, SpellsMembers members text ∧ cs = text ++ '\x7d' :: rest := by
  rw [Json.parseMembers] at parsed
  dsimp only at parsed
  split at parsed
  · next opened =>
    obtain ⟨before, isBefore, rfl⟩ := exists_of_skipSpace opened
    obtain ⟨⟨name, left⟩, scanned, named⟩ := Option.bind_eq_some_iff.1 parsed
    obtain ⟨name, text, rfl, rfl⟩ := isText_of_scanString scanned
    dsimp only at named
    split at named
    · next skipped =>
      obtain ⟨after, isAfter, rfl⟩ := exists_of_skipSpace skipped
      rw [Option.bind_eq_bind, Option.bind_some] at named
      obtain ⟨⟨value, left⟩, read, closed⟩ := Option.bind_eq_some_iff.1 named
      obtain ⟨cs, spelled, rfl⟩ := sound.value read
      dsimp only at closed
      split at closed
      · next skipped =>
        obtain ⟨blank, isBlank, rfl⟩ := exists_of_skipSpace skipped
        obtain ⟨⟨others, _⟩, more, found⟩ := Option.bind_eq_some_iff.1 closed
        obtain ⟨later, spelledLater, rfl⟩ := sound.members more
        cases found
        exact ⟨_, .more (.intro isBefore text isAfter (spelled.ahead isBlank)) spelledLater, by simp⟩
      · next skipped =>
        obtain ⟨blank, isBlank, rfl⟩ := exists_of_skipSpace skipped
        cases closed
        exact ⟨_, .last (.intro isBefore text isAfter (spelled.ahead isBlank)), by simp⟩
      · cases closed
    · cases named
  · cases parsed

theorem sound (fuel : Nat) : Sound fuel := by
  induction fuel with
  | zero =>
      refine ⟨fun parsed => ?_, fun parsed => ?_, fun parsed => ?_⟩
      · rw [parseValue] at parsed
        cases parsed
      · rw [parseItems] at parsed
        cases parsed
      · rw [parseMembers] at parsed
        cases parsed
  | succ fuel ih => exact ⟨ih.parseValue, ih.parseItems, ih.parseMembers⟩

/-- The parser finds the tree that a text spells, and nothing in other texts. -/
theorem parse?_eq_some_iff {s : String} : parse? s = some j ↔ Spells j s.toList := by
  unfold parse?
  refine ⟨fun parsed => ?_, fun spelled => ?_⟩
  · dsimp only at parsed
    split at parsed
    · next j' rest read =>
      obtain ⟨text, spelled, same⟩ := (sound _).value read
      split at parsed
      · next isEnd =>
        cases parsed
        rw [same]
        exact spelled.ahead (skipSpace_eq_nil_iff.1 (List.isEmpty_iff.1 isEnd))
      · cases parsed
    · cases parsed
  · obtain ⟨left, read, blank⟩ := spelled.found (2 * s.toList.length + 2) [] (by omega) fun _ mem => by cases mem
    rw [List.append_nil] at read
    simp only [read, blank]
    rfl

/-! ## Texts that are written -/

/-- Every lexeme of the tree is one of a string or of a number. -/
inductive Lexed : Json → Prop
  | null : Lexed null
  | bool {value : Bool} : Lexed (bool value)
  | number {lexeme : List Char} (numeral : IsNumeral lexeme) : Lexed (number lexeme)
  | string {lexeme : List Char} (text : IsText lexeme) : Lexed (string lexeme)
  | array {items : List Json} (all : ∀ item ∈ items, Lexed item) : Lexed (array items)
  | object {members : List (List Char × Json)} (names : ∀ m ∈ members, IsText m.1) (values : ∀ m ∈ members, Lexed m.2) :
      Lexed (object members)

/-- The text that is written of the tree is a text of it. -/
def Rendered (j : Json) : Prop := ∃ cs, Spells j cs ∧ ∀ rest, renderChars rest j = cs ++ rest

theorem exists_renderItems {items : List Json} {item : Json} (all : ∀ i ∈ item :: items, Rendered i) :
    ∃ cs, SpellsItems (item :: items) cs ∧ ∀ rest, renderChars (renderItems rest items) item = cs ++ ']' :: rest := by
  induction items generalizing item with
  | nil =>
      obtain ⟨cs, spelled, written⟩ := all item List.mem_cons_self
      exact ⟨cs, .last spelled, fun rest => by rw [written, renderItems]⟩
  | cons next items ih =>
      obtain ⟨⟨cs, spelled, written⟩, others⟩ := List.forall_mem_cons.1 all
      obtain ⟨later, spelledLater, writtenLater⟩ := ih others
      exact ⟨_, .more spelled spelledLater, fun rest => by simp [written, renderItems, writtenLater]⟩

theorem exists_renderMembers {members : List (List Char × Json)} {name : List Char} {value : Json}
    (names : ∀ m ∈ (name, value) :: members, IsText m.1) (values : ∀ m ∈ (name, value) :: members, Rendered m.2) :
    ∃ cs, SpellsMembers ((name, value) :: members) cs ∧
      ∀ rest, '"' :: (name ++ '"' :: ':' :: renderChars (renderMembers rest members) value) = cs ++ '\x7d' :: rest := by
  induction members generalizing name value with
  | nil =>
      obtain ⟨cs, spelled, written⟩ := values _ List.mem_cons_self
      have member := SpellsMember.intro isBlank_nil (names _ List.mem_cons_self) isBlank_nil spelled
      exact ⟨_, .last member, fun rest => by simp [written, renderMembers]⟩
  | cons next members ih =>
      obtain ⟨text, otherNames⟩ := List.forall_mem_cons.1 names
      obtain ⟨⟨cs, spelled, written⟩, otherValues⟩ := List.forall_mem_cons.1 values
      have member := SpellsMember.intro isBlank_nil text isBlank_nil spelled
      obtain ⟨later, spelledLater, writtenLater⟩ := ih otherNames otherValues
      exact ⟨_, .more member spelledLater, fun rest => by simp [written, renderMembers, writtenLater]⟩

theorem Lexed.rendered (lexed : Lexed j) : Rendered j := by
  induction lexed with
  | null => exact ⟨_, .null, fun _ => rfl⟩
  | @bool value =>
      cases value with
      | true => exact ⟨_, .true, fun _ => rfl⟩
      | false => exact ⟨_, .false, fun _ => rfl⟩
  | number numeral => exact ⟨_, .number numeral, fun _ => rfl⟩
  | string text => exact ⟨_, .string text, fun _ => by simp [renderChars]⟩
  | @array items _ ih =>
      cases items with
      | nil => exact ⟨_, .noItems isBlank_nil, fun _ => rfl⟩
      | cons item items =>
          obtain ⟨cs, spelled, written⟩ := exists_renderItems ih
          exact ⟨_, .array spelled, fun rest => by simp [renderChars, written]⟩
  | @object members names _ ih =>
      cases members with
      | nil => exact ⟨_, .noMembers isBlank_nil, fun _ => rfl⟩
      | cons member members =>
          obtain ⟨cs, spelled, written⟩ := exists_renderMembers names ih
          exact ⟨_, .object spelled, fun rest => by simp [renderChars, written]⟩

/-- A tree whose lexemes are in order is read back from its text. -/
theorem Lexed.parse?_render (lexed : Lexed j) : parse? j.render = some j := by
  obtain ⟨cs, spelled, written⟩ := lexed.rendered
  rw [parse?_eq_some_iff, render, String.toList_ofList, written, List.append_nil]
  exact spelled

/-- A tree with a text has its lexemes in order. -/
theorem Spells.lexed (spelled : Spells j cs) : Lexed j := by
  refine @Spells.rec (fun j _ _ => Lexed j) (fun items _ _ => ∀ item ∈ items, Lexed item)
    (fun member _ _ => IsText member.1 ∧ Lexed member.2)
    (fun members _ _ => ∀ m ∈ members, IsText m.1 ∧ Lexed m.2)
    ?null ?true ?false ?number ?string ?noItems ?array ?noMembers ?object ?padded ?lastItem ?moreItems ?member
    ?lastMember ?moreMembers j cs spelled
  case null => exact .null
  case true => exact .bool
  case false => exact .bool
  case number => exact .number
  case string => exact .string
  case noItems => exact fun _ => .array fun _ mem => absurd mem List.not_mem_nil
  case array => exact fun _ => .array
  case noMembers =>
    exact fun _ => .object (fun _ mem => absurd mem List.not_mem_nil) fun _ mem => absurd mem List.not_mem_nil
  case object => exact fun _ all => .object (fun m mem => (all m mem).1) fun m mem => (all m mem).2
  case padded => exact fun _ _ _ lexed => lexed
  case lastItem => exact fun _ lexed => List.forall_mem_singleton.2 lexed
  case moreItems => exact fun _ _ lexed others => List.forall_mem_cons.2 ⟨lexed, others⟩
  case member => exact fun _ text _ _ lexed => ⟨text, lexed⟩
  case lastMember => exact fun _ lexed => List.forall_mem_singleton.2 lexed
  case moreMembers => exact fun _ _ lexed others => List.forall_mem_cons.2 ⟨lexed, others⟩

end MaterialGraph.Json
