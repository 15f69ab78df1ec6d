import MaterialGraph.Literal
import MaterialGraph.Proofs.Trimming

/-!
# How literals are spelled

A text is read as a literal of a type if and only if it spells one; else the first fault from the left is reported.

* `Literal.Spells` : the grammar of each type, for texts without blanks at their ends.
* `Literal.parse_eq_ok_iff`, `Literal.parse_eq_error_iff` : what is read, and what is wrong with what is not.
* `Literal.readsExactly` : the grammar of vectors spelled out, blanks, and the four floats that a literal stands for.
-/

namespace MaterialGraph.Literal

set_option autoImplicit false

open Number (Single Float4)

variable {text type piece : String} {pieces : List String} {v : Literal} {e wrongCount : LoadError} {n : Nat}

/-! ## The grammar -/

/-- The number of components of vectors and colours of a type. -/
def arity? : (type : String) → Option Nat
  | "vector2" | "color2" => some 2
  | "vector3" | "color3" => some 3
  | "vector4" | "color4" => some 4
  | _ => none

def components? : Literal → Option (List Single)
  | vector2 x y => some [x, y]
  | vector3 x y z => some [x, y, z]
  | vector4 x y z w => some [x, y, z, w]
  | _ => none

def scalar? : Literal → Option Single
  | float x => some x
  | integer n => some (.ofInt n.toInt)
  | boolean b => some (if b then .one else .zero)
  | _ => none

/-- The float that a piece of a text spells. Blanks around it do not count. -/
def component? (piece : String) : Option Single := Single.read? (Text.trim piece)

/-- A text without blanks at its ends spells a literal of a type. -/
inductive Spells : (type text : String) → Literal → Prop
  | float {text : String} {x : Single} (read : Single.read? text = some x) : Spells "float" text (.float x)
  | integer {text : String} {n : Int32} (read : Number.readInt32? text = some n) : Spells "integer" text (.integer n)
  | true : Spells "boolean" "true" (.boolean true)
  | false : Spells "boolean" "false" (.boolean false)
  | vector {type text : String} {n : Nat} {v : Literal} {xs : List Single} (arity : arity? type = some n)
      (components : v.components? = some xs) (length : xs.length = n)
      (read : (Text.splitOn ',' text).map component? = xs.map some) : Spells type text v
  | string (text : String) : Spells "string" text (.string text)
  | filename (text : String) : Spells "filename" text (.filename text)

/-- What is wrong first from the left with pieces that should be `n` floats. -/
inductive Faults (wrongCount : LoadError) (n : Nat) : List String → LoadError → Prop
  | component {before after : List String} {piece : String} (early : before.length < n)
      (fine : ∀ p ∈ before, (component? p).isSome) (wrong : component? piece = none) :
      Faults wrongCount n (before ++ piece :: after) (.unsupported ("invalid float: " ++ piece))
  | count {pieces : List String} (wrong : pieces.length ≠ n) (fine : ∀ p ∈ pieces.take n, (component? p).isSome) :
      Faults wrongCount n pieces wrongCount

/-- What is wrong with a text without blanks at its ends that spells no literal of a type. -/
inductive Fails : (type text : String) → LoadError → Prop
  | float {text : String} (wrong : Single.read? text = none) :
      Fails "float" text (.unsupported ("invalid float: " ++ text))
  | integer {text : String} (wrong : Number.readInt32? text = none) :
      Fails "integer" text (.unsupported ("invalid integer: " ++ text))
  | boolean {text : String} (untrue : text ≠ "true") (unfalse : text ≠ "false") :
      Fails "boolean" text (.unsupported ("invalid boolean: " ++ text))
  | vector {type text : String} {n : Nat} {e : LoadError} (arity : arity? type = some n)
      (faults : Faults (.unsupported ("expected " ++ toString n ++ " components: " ++ text)) n
        (Text.splitOn ',' text) e) : Fails type text e
  | type {type text : String} (vector : arity? type = none)
      (other : type ∉ ["float", "integer", "boolean", "string", "filename"]) :
      Fails type text (.unsupported ("failed to parse " ++ text ++ " value: unsupported type - " ++ type))

/-! ## Components -/

theorem readFloat_of_some {x : Single} (read : component? piece = some x) : readFloat piece = .ok x := by
  rw [component?] at read
  unfold readFloat
  rw [read]

theorem readFloat_of_none (wrong : component? piece = none) :
    readFloat piece = .error (.unsupported ("invalid float: " ++ piece)) := by
  rw [component?] at wrong
  unfold readFloat
  rw [wrong]

theorem readComponents_cons_of_ok {x : Single} {xs : Vector Single n} (read : component? piece = some x)
    (rest : readComponents wrongCount n pieces = .ok xs) :
    ∃ ys, readComponents wrongCount (n + 1) (piece :: pieces) = .ok ys ∧ ys.toList = x :: xs.toList := by
  rw [readComponents, readFloat_of_some read, rest]
  exact ⟨_, rfl, by rw [Vector.toList_insertIdx, List.insertIdx_zero]⟩

theorem readComponents_cons_of_error {x : Single} (read : component? piece = some x)
    (rest : readComponents wrongCount n pieces = .error e) :
    readComponents wrongCount (n + 1) (piece :: pieces) = .error e := by
  rw [readComponents, readFloat_of_some read, rest]
  rfl

theorem readComponents_cons_of_none (wrong : component? piece = none) :
    readComponents wrongCount (n + 1) (piece :: pieces) = .error (.unsupported ("invalid float: " ++ piece)) := by
  rw [readComponents, readFloat_of_none wrong]
  rfl

theorem readComponents_append_of_none {before after : List String} (early : before.length < n)
    (fine : ∀ p ∈ before, (component? p).isSome) (wrong : component? piece = none) :
    readComponents wrongCount n (before ++ piece :: after) = .error (.unsupported ("invalid float: " ++ piece)) := by
  induction before generalizing n with
  | nil =>
      obtain ⟨n, rfl⟩ := Nat.exists_eq_succ_of_ne_zero (Nat.ne_of_gt early)
      exact readComponents_cons_of_none wrong
  | cons p before ih =>
      obtain ⟨n, rfl⟩ := Nat.exists_eq_succ_of_ne_zero (Nat.ne_of_gt (Nat.zero_lt_of_lt early))
      obtain ⟨here, fine⟩ := List.forall_mem_cons.1 fine
      obtain ⟨x, read⟩ := Option.isSome_iff_exists.1 here
      exact readComponents_cons_of_error read (ih (Nat.lt_of_succ_lt_succ early) fine)

theorem readComponents_of_length_ne (wrong : pieces.length ≠ n) (fine : ∀ p ∈ pieces.take n, (component? p).isSome) :
    readComponents wrongCount n pieces = .error wrongCount := by
  induction n generalizing pieces with
  | zero =>
      cases pieces with
      | nil => exact absurd rfl wrong
      | cons piece pieces => rfl
  | succ n ih =>
      cases pieces with
      | nil => rfl
      | cons piece pieces =>
          obtain ⟨here, fine⟩ := List.forall_mem_cons.1 fine
          obtain ⟨x, read⟩ := Option.isSome_iff_exists.1 here
          exact readComponents_cons_of_error read (ih (fun same => wrong (congrArg (· + 1) same)) fine)

theorem Faults.cons (faults : Faults wrongCount n pieces e) (fine : (component? piece).isSome) :
    Faults wrongCount (n + 1) (piece :: pieces) e := by
  cases faults with
  | component early before wrong =>
      rw [← List.cons_append]
      exact .component (Nat.succ_lt_succ early) (List.forall_mem_cons.2 ⟨fine, before⟩) wrong
  | count wrong all =>
      exact .count (fun same => wrong (Nat.succ.inj same)) (List.forall_mem_cons.2 ⟨fine, all⟩)

/-- Components are not read if and only if something is wrong with them, and what is wrong first is reported. -/
theorem readComponents_eq_error_iff :
    readComponents wrongCount n pieces = .error e ↔ Faults wrongCount n pieces e := by
  constructor
  · intro refused
    induction n generalizing pieces with
    | zero =>
        cases pieces with
        | nil => cases refused
        | cons piece pieces =>
            cases refused
            exact .count nofun nofun
    | succ n ih =>
        cases pieces with
        | nil =>
            cases refused
            exact .count nofun nofun
        | cons piece pieces =>
            cases read : component? piece with
            | none =>
                rw [readComponents_cons_of_none read] at refused
                cases refused
                rw [← List.nil_append (piece :: pieces)]
                exact .component (Nat.succ_pos n) nofun read
            | some x =>
                cases rest : readComponents wrongCount n pieces with
                | error e' =>
                    cases (readComponents_cons_of_error read rest).symm.trans refused
                    exact (ih rest).cons (Option.isSome_of_eq_some read)
                | ok xs =>
                    obtain ⟨ys, parsed, -⟩ := readComponents_cons_of_ok read rest
                    cases parsed.symm.trans refused
  · rintro (⟨early, fine, wrong⟩ | ⟨wrong, fine⟩)
    · exact readComponents_append_of_none early fine wrong
    · exact readComponents_of_length_ne wrong fine

theorem map_component?_of_ok {xs : Vector Single n} (read : readComponents wrongCount n pieces = .ok xs) :
    pieces.map component? = xs.toList.map some := by
  induction n generalizing pieces with
  | zero =>
      cases pieces with
      | nil =>
          cases read
          rfl
      | cons piece pieces => cases read
  | succ n ih =>
      cases pieces with
      | nil => cases read
      | cons piece pieces =>
          cases here : component? piece with
          | none =>
              rw [readComponents_cons_of_none here] at read
              cases read
          | some x =>
              cases rest : readComponents wrongCount n pieces with
              | error e => cases (readComponents_cons_of_error here rest).symm.trans read
              | ok ys =>
                  obtain ⟨zs, parsed, list⟩ := readComponents_cons_of_ok here rest
                  cases parsed.symm.trans read
                  rw [List.map_cons, here, ih rest, list, List.map_cons]

theorem forall_isSome_iff {α β : Type} {f : α → Option β} {l : List α} :
    (∀ a ∈ l, (f a).isSome) ↔ ∃ ys : List β, l.map f = ys.map some := by
  constructor
  · intro fine
    induction l with
    | nil => exact ⟨[], rfl⟩
    | cons a l ih =>
        obtain ⟨here, fine⟩ := List.forall_mem_cons.1 fine
        obtain ⟨y, hy⟩ := Option.isSome_iff_exists.1 here
        obtain ⟨ys, hys⟩ := ih fine
        exact ⟨y :: ys, by rw [List.map_cons, List.map_cons, hy, hys]⟩
  · rintro ⟨ys, same⟩ a mem
    have mem : f a ∈ ys.map some := same ▸ List.mem_map_of_mem mem
    obtain ⟨y, -, hy⟩ := List.mem_map.1 mem
    exact Option.isSome_of_eq_some hy.symm

/-- Components are read if and only if there are as many pieces and each is a float. -/
theorem readComponents_eq_ok_iff {xs : Vector Single n} :
    readComponents wrongCount n pieces = .ok xs ↔ pieces.map component? = xs.toList.map some := by
  refine ⟨map_component?_of_ok, fun all => ?_⟩
  have fine := forall_isSome_iff.2 ⟨_, all⟩
  have length : pieces.length = n := by
    simpa using congrArg List.length all
  cases read : readComponents wrongCount n pieces with
  | ok ys =>
      have same := (map_component?_of_ok read).symm.trans all
      rw [Vector.toList_inj.1 (List.map_injective_iff.2 (fun _ _ => Option.some.inj) same)]
  | error e =>
      rcases readComponents_eq_error_iff.1 read with ⟨-, -, wrong⟩ | ⟨wrong, -⟩
      · have := fine _ (List.mem_append_right _ List.mem_cons_self)
        rw [wrong] at this
        cases this
      · exact absurd length wrong

/-! ## Texts -/

theorem components?_injective {w : Literal} {xs : List Single} (hv : v.components? = some xs)
    (hw : w.components? = some xs) : v = w := by
  cases v <;> cases hv <;> cases w <;> cases hw <;> rfl

theorem parse_float (text : String) : parse text "float" = (readFloat (Text.trim text)).map float := rfl

/-- How vectors and colours are read: as many floats, of which the literal is made up. -/
theorem exists_make (arity : arity? type = some n) : ∃ make : Vector Single n → Literal,
    (∀ xs, (make xs).components? = some xs.toList) ∧
      ∀ text, parse text type = (readVector n (Text.trim text)).map make := by
  unfold arity? at arity
  split at arity <;> cases arity
  all_goals refine ⟨_, ?_, fun text => by unfold parse; simp only; rfl⟩
  case h_1 | h_2 =>
    rintro ⟨⟨_ | ⟨x, _ | ⟨y, _ | _⟩⟩⟩, size⟩ <;> cases size
    rfl
  case h_3 | h_4 =>
    rintro ⟨⟨_ | ⟨x, _ | ⟨y, _ | ⟨z, _ | _⟩⟩⟩⟩, size⟩ <;> cases size
    rfl
  case h_5 | h_6 =>
    rintro ⟨⟨_ | ⟨x, _ | ⟨y, _ | ⟨z, _ | ⟨w, _ | _⟩⟩⟩⟩⟩, size⟩ <;> cases size
    rfl

theorem exists_components {xs : List Single} (arity : arity? type = some xs.length) :
    ∃ v : Literal, v.components? = some xs := by
  obtain ⟨make, components, -⟩ := exists_make arity
  exact ⟨make ⟨xs.toArray, xs.size_toArray⟩, components _⟩

theorem map_eq_ok_iff {α β : Type} {f : α → β} {res : Except LoadError α} {b : β} :
    res.map f = .ok b ↔ ∃ a, res = .ok a ∧ f a = b := by
  constructor
  · intro mapped
    cases res <;> cases mapped
    exact ⟨_, rfl, rfl⟩
  · rintro ⟨a, rfl, rfl⟩
    rfl

theorem map_eq_error_iff {α β : Type} {f : α → β} {res : Except LoadError α} :
    res.map f = .error e ↔ res = .error e := by
  constructor
  · intro mapped
    cases res <;> cases mapped
    rfl
  · rintro rfl
    rfl

theorem parse_eq_ok_iff_of_arity (arity : arity? type = some n) :
    parse text type = .ok v ↔ ∃ xs, v.components? = some xs ∧ xs.length = n ∧
      (Text.splitOn ',' (Text.trim text)).map component? = xs.map some := by
  obtain ⟨make, components, parse⟩ := exists_make arity
  rw [parse, map_eq_ok_iff]
  constructor
  · rintro ⟨xs, read, rfl⟩
    exact ⟨xs.toList, components xs, xs.length_toList, readComponents_eq_ok_iff.1 read⟩
  · rintro ⟨xs, hv, rfl, read⟩
    exact ⟨⟨xs.toArray, xs.size_toArray⟩, readComponents_eq_ok_iff.2 read, components?_injective (components _) hv⟩

theorem exists_parse_iff (arity : arity? type = some n) :
    (∃ v, parse text type = .ok v) ↔ (Text.splitOn ',' (Text.trim text)).length = n ∧
      ∀ piece ∈ Text.splitOn ',' (Text.trim text), (component? piece).isSome := by
  simp only [parse_eq_ok_iff_of_arity arity]
  generalize Text.splitOn ',' (Text.trim text) = pieces
  constructor
  · rintro ⟨v, xs, -, rfl, read⟩
    exact ⟨by simpa using congrArg List.length read, forall_isSome_iff.2 ⟨xs, read⟩⟩
  · rintro ⟨rfl, fine⟩
    obtain ⟨xs, read⟩ := forall_isSome_iff.1 fine
    have length : xs.length = pieces.length := by simpa using (congrArg List.length read).symm
    obtain ⟨v, components⟩ := exists_components (arity.trans (congrArg some length.symm))
    exact ⟨v, xs, components, length, read⟩

theorem parse_eq_error_iff_of_arity (arity : arity? type = some n) :
    parse text type = .error e ↔
      Faults (.unsupported ("expected " ++ toString n ++ " components: " ++ Text.trim text)) n
        (Text.splitOn ',' (Text.trim text)) e := by
  obtain ⟨make, -, parse⟩ := exists_make arity
  rw [parse, map_eq_error_iff]
  exact readComponents_eq_error_iff

theorem parse_of_spells (spells : Spells type (Text.trim text) v) : parse text type = .ok v := by
  generalize trimmed : Text.trim text = t at spells
  cases spells with
  | float read =>
      rw [← trimmed, ← Text.trim_trim] at read
      rw [parse_float, readFloat_of_some read]
      rfl
  | integer read =>
      unfold parse
      rw [trimmed]
      dsimp only
      rw [read]
      rfl
  | true | false =>
      unfold parse
      rw [trimmed]
      rfl
  | vector arity components length read =>
      rw [← trimmed] at read
      exact (parse_eq_ok_iff_of_arity arity).2 ⟨_, components, length, read⟩
  | string | filename =>
      unfold parse
      rw [trimmed]
      rfl

theorem spells_of_parse (parsed : parse text type = .ok v) : Spells type (Text.trim text) v := by
  cases arity : arity? type with
  | some n =>
      obtain ⟨xs, components, length, read⟩ := (parse_eq_ok_iff_of_arity arity).1 parsed
      exact .vector arity components length read
  | none =>
      unfold parse at parsed
      dsimp only at parsed
      split at parsed
      case h_1 =>
        obtain ⟨x, read, rfl⟩ := map_eq_ok_iff.1 parsed
        unfold readFloat at read
        split at read
        · next read' =>
          cases read
          rw [Text.trim_trim] at read'
          exact .float read'
        · cases read
      case h_2 =>
        split at parsed <;> cases parsed
        next read => exact .integer read
      case h_3 =>
        split at parsed <;> cases parsed
        · next trimmed => exact trimmed ▸ .true
        · next trimmed => exact trimmed ▸ .false
      case h_10 =>
        cases parsed
        exact .string _
      case h_11 =>
        cases parsed
        exact .filename _
      case h_12 => cases parsed
      -- vectors and colours have components
      all_goals cases arity

/-- A text is read as a literal if and only if it spells it but for blanks at its ends. -/
theorem parse_eq_ok_iff : parse text type = .ok v ↔ Spells type (Text.trim text) v := ⟨spells_of_parse, parse_of_spells⟩

theorem fails_of_parse (refused : parse text type = .error e) : Fails type (Text.trim text) e := by
  cases arity : arity? type with
  | some n => exact .vector arity ((parse_eq_error_iff_of_arity arity).1 refused)
  | none =>
      unfold parse at refused
      dsimp only at refused
      split at refused
      case h_1 =>
        have refused := map_eq_error_iff.1 refused
        unfold readFloat at refused
        split at refused
        · cases refused
        · next wrong =>
          cases refused
          rw [Text.trim_trim] at wrong
          exact .float wrong
      case h_2 =>
        split at refused <;> cases refused
        next wrong => exact .integer wrong
      case h_3 =>
        split at refused <;> cases refused
        next untrue unfalse => exact .boolean untrue unfalse
      case h_10 | h_11 => cases refused
      case h_12 other =>
        cases refused
        refine .type arity ?_
        simp only [List.mem_cons, List.not_mem_nil, or_false, not_or]
        refine ⟨?_, ?_, ?_, ?_, ?_⟩ <;> assumption
      -- vectors and colours have components
      all_goals cases arity

theorem parse_of_fails (fails : Fails type (Text.trim text) e) : parse text type = .error e := by
  generalize trimmed : Text.trim text = t at fails
  cases fails with
  | float wrong =>
      rw [← trimmed, ← Text.trim_trim] at wrong
      rw [parse_float, readFloat_of_none wrong, trimmed]
      rfl
  | integer wrong =>
      unfold parse
      rw [trimmed]
      dsimp only
      rw [wrong]
      rfl
  | boolean untrue unfalse =>
      -- neither of the two words that are read stands there
      unfold parse
      rw [trimmed]
      simp only
  | vector arity faults =>
      rw [← trimmed] at faults
      exact (parse_eq_error_iff_of_arity arity).2 faults
  | type vector other =>
      unfold parse
      rw [trimmed]
      dsimp only
      split
      case h_12 => rfl
      case h_1 | h_2 | h_3 | h_10 | h_11 => exact absurd (by simp) other
      all_goals cases vector

/-- Otherwise it is reported what is wrong first. -/
theorem parse_eq_error_iff : parse text type = .error e ↔ Fails type (Text.trim text) e :=
  ⟨fails_of_parse, parse_of_fails⟩

theorem Faults.isUnsupported (faults : Faults wrongCount n pieces e) (wrong : wrongCount.isUnsupported) :
    e.isUnsupported := by
  cases faults with
  | component => rfl
  | count => exact wrong

theorem Fails.isUnsupported (fails : Fails type text e) : e.isUnsupported := by
  cases fails with
  | vector arity faults => exact faults.isUnsupported rfl
  | _ => rfl

/-! ## Blanks -/

/-- Blanks around a text do not count. -/
theorem parse_of_pads {padded : String} (pads : Text.Pads text padded) : parse padded type = parse text type := by
  unfold parse
  rw [Text.trim_of_pads pads]

theorem map_component?_eq (pieces : List String) :
    pieces.map component? = (pieces.map Text.trim).map Single.read? := by
  rw [List.map_map]
  refine List.map_congr_left fun piece _ => ?_
  rw [component?, Function.comp_apply]

theorem map_component?_trim (text : String) :
    (Text.splitOn ',' (Text.trim text)).map component? = (Text.splitOn ',' text).map component? := by
  rw [map_component?_eq, map_component?_eq, Text.map_trim_splitOn rfl (Text.pads_trim text)]

/-- Blanks around components do not count. -/
theorem toOption_parse_of_pads (arity : arity? type = some n) {spaced : String}
    (pads : List.Forall₂ Text.Pads (Text.splitOn ',' text) (Text.splitOn ',' spaced)) :
    (parse spaced type).toOption = (parse text type).toOption := by
  have same (v : Literal) : parse spaced type = .ok v ↔ parse text type = .ok v := by
    rw [parse_eq_ok_iff_of_arity arity, parse_eq_ok_iff_of_arity arity, map_component?_trim, map_component?_trim,
      map_component?_eq, map_component?_eq, Text.map_trim_of_pads pads]
  cases there : parse text type with
  | ok v => rw [(same v).2 there]
  | error e =>
      cases here : parse spaced type with
      | ok v => cases there.symm.trans ((same v).1 here)
      | error e' => rfl

/-! ## Four floats -/

def floats (x : Float4) : List Single := [x.x, x.y, x.z, x.w]

theorem floats_of_components? {xs : List Single} (components : v.components? = some xs) :
    v.toFloat4.map floats = some (xs ++ List.replicate (4 - xs.length) .zero) := by
  cases v <;> cases components <;> rfl

theorem floats_of_scalar? {x : Single} (scalar : v.scalar? = some x) :
    v.toFloat4.map floats = some [x, x, x, .zero] := by
  cases v <;> cases scalar <;> rfl

/-- All but texts stand for floats. -/
theorem Spells.isSome_toFloat4_iff (spells : Spells type text v) :
    v.toFloat4.isSome ↔ type ≠ "string" ∧ type ≠ "filename" := by
  cases spells with
  | float | integer | true | false => exact iff_of_true rfl (by decide)
  | vector arity components =>
      refine iff_of_true ?_ ⟨?_, ?_⟩
      · rw [← Option.isSome_map, floats_of_components? components]
        rfl
      · rintro rfl
        cases arity
      · rintro rfl
        cases arity
  | string | filename => exact iff_of_false nofun (by decide)

/-! ## All types -/

/-- What is read of a text as a literal of a type is what the text spells. -/
structure ReadsExactly (text type : String) : Prop where
  /-- A literal is read if and only if the text spells it but for blanks at its ends. -/
  accepts : ∀ v, parse text type = .ok v ↔ Spells type (Text.trim text) v
  /-- Otherwise it is reported what is wrong first. -/
  rejects : ∀ e, parse text type = .error e ↔ Fails type (Text.trim text) e
  /-- Whatever is wrong, it is something unsupported. -/
  unsupported : ∀ e, parse text type = .error e → e.isUnsupported
  /-- A vector is read if and only if there are as many pieces as components, each of them a float. -/
  succeeds : ∀ n, arity? type = some n → ((∃ v, parse text type = .ok v) ↔
    (Text.splitOn ',' (Text.trim text)).length = n ∧
      ∀ piece ∈ Text.splitOn ',' (Text.trim text), (component? piece).isSome)
  /-- Its components are these floats in order. -/
  components : ∀ n, arity? type = some n → ∀ v, parse text type = .ok v →
    ∃ xs, v.components? = some xs ∧ (Text.splitOn ',' (Text.trim text)).map component? = xs.map some
  /-- If it is not read, the first piece that is no float is reported, among as many pieces as components; the number of
  pieces is reported if there is none. -/
  faults : ∀ n, arity? type = some n → ∀ e, parse text type = .error e ↔
    Faults (.unsupported ("expected " ++ toString n ++ " components: " ++ Text.trim text)) n
      (Text.splitOn ',' (Text.trim text)) e
  /-- Blanks around the text do not count. -/
  padded : ∀ padded, Text.Pads text padded → parse padded type = parse text type
  /-- Nor do blanks around components. -/
  spaced : ∀ n, arity? type = some n → ∀ spaced,
    List.Forall₂ Text.Pads (Text.splitOn ',' text) (Text.splitOn ',' spaced) →
      (parse spaced type).toOption = (parse text type).toOption
  /-- What is read stands for four floats unless it is a text. -/
  numeric : ∀ v, parse text type = .ok v → (v.toFloat4.isSome ↔ type ≠ "string" ∧ type ≠ "filename")
  /-- The components come first among them, the others are zero. -/
  filled : ∀ v xs, parse text type = .ok v → components? v = some xs →
    v.toFloat4.map floats = some (xs ++ List.replicate (4 - xs.length) .zero)
  /-- A number or a truth value is put in the first three. -/
  broadcast : ∀ v x, parse text type = .ok v → scalar? v = some x → v.toFloat4.map floats = some [x, x, x, .zero]

/-- Every text is read as a literal of any type by the grammar of the type. -/
theorem readsExactly (text type : String) : ReadsExactly text type where
  accepts _ := parse_eq_ok_iff
  rejects _ := parse_eq_error_iff
  unsupported _ refused := (fails_of_parse refused).isUnsupported
  succeeds _ := exists_parse_iff
  components n arity v parsed := by
    obtain ⟨xs, components, -, read⟩ := (parse_eq_ok_iff_of_arity arity).1 parsed
    exact ⟨xs, components, read⟩
  faults _ arity _ := parse_eq_error_iff_of_arity arity
  padded _ := parse_of_pads
  spaced _ arity _ := toOption_parse_of_pads arity
  numeric _ parsed := (spells_of_parse parsed).isSome_toFloat4_iff
  filled _ _ _ := floats_of_components?
  broadcast _ _ _ := floats_of_scalar?

example : (parse " 1, 2 ,-0.5 " "color3").toOption = some (vector3 ⟨0x3f800000⟩ ⟨0x40000000⟩ ⟨0xbf000000⟩) := by
  decide +kernel

example : parse "1, x" "vector3" = .error (.unsupported "invalid float:  x") := by decide +kernel

end MaterialGraph.Literal
