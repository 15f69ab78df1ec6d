import Mathlib.Data.List.Forall2
import Mathlib.Data.List.TakeWhile
import MaterialGraph.Text.Blank

/-!
# Trimming and cutting

* `Text.Pads` : blanks are added at the ends of a text.
* `Text.trim_of_pads`, `Text.pads_trim` : to trim a text takes all blanks from its ends, and nothing else.
* `Text.map_trim_splitOn` : the pieces of a text are the same when trimmed, whatever blanks are at its ends.
* `Text.splitOn_intercalate` : pieces that have been joined are found again.
-/

namespace MaterialGraph.Text

set_option autoImplicit false

variable {u v cs ds : List Char} {sep : Char} {text padded : String}

/-! ## Blanks at the ends -/

def AllBlank (cs : List Char) : Prop := ∀ c ∈ cs, isBlank c

def PadsChars (cs ds : List Char) : Prop := ∃ u v, AllBlank u ∧ AllBlank v ∧ ds = u ++ cs ++ v

def Pads (text padded : String) : Prop := PadsChars text.toList padded.toList

theorem allBlank_nil : AllBlank [] := fun _ mem => absurd mem List.not_mem_nil

/-! ## Trimming -/

theorem trimChars_append_left (blank : AllBlank u) (cs : List Char) : trimChars (u ++ cs) = trimChars cs := by
  rw [trimChars, List.dropWhile_append_of_pos blank, trimChars]

theorem trimChars_append_right (blank : AllBlank v) (cs : List Char) : trimChars (cs ++ v) = trimChars cs := by
  have back : AllBlank v.reverse := fun c mem => blank c (List.mem_reverse.1 mem)
  rw [trimChars, trimChars, List.dropWhile_append]
  cases left : cs.dropWhile isBlank with
  | nil =>
      have nothing : v.dropWhile isBlank = [] := List.dropWhile_eq_nil_iff.2 blank
      rw [nothing]
      rfl
  | cons c cs =>
      rw [if_neg (by simp), List.reverse_append, List.dropWhile_append_of_pos back]

theorem trimChars_of_padsChars (pads : PadsChars cs ds) : trimChars ds = trimChars cs := by
  obtain ⟨u, v, hu, hv, rfl⟩ := pads
  rw [trimChars_append_right hv, trimChars_append_left hu]

theorem padsChars_trimChars (cs : List Char) : PadsChars (trimChars cs) cs := by
  let ds := (cs.dropWhile isBlank).reverse
  refine ⟨cs.takeWhile isBlank, (ds.takeWhile isBlank).reverse, ?_, ?_, ?_⟩
  · exact fun c mem => List.mem_takeWhile_imp mem
  · exact fun c mem => List.mem_takeWhile_imp (List.mem_reverse.1 mem)
  · have back : ds.takeWhile isBlank ++ ds.dropWhile isBlank = ds := List.takeWhile_append_dropWhile
    have trimmed : trimChars cs = (ds.dropWhile isBlank).reverse := rfl
    calc cs
      _ = cs.takeWhile isBlank ++ cs.dropWhile isBlank := List.takeWhile_append_dropWhile.symm
      _ = cs.takeWhile isBlank ++ ds.reverse := by rw [List.reverse_reverse]
      _ = cs.takeWhile isBlank ++ (trimChars cs ++ (ds.takeWhile isBlank).reverse) := by
          rw [trimmed, ← List.reverse_append, back]
      _ = cs.takeWhile isBlank ++ trimChars cs ++ (ds.takeWhile isBlank).reverse := (List.append_assoc ..).symm

/-- Blanks at the ends do not count. -/
theorem trim_of_pads (pads : Pads text padded) : trim padded = trim text :=
  congrArg String.ofList (trimChars_of_padsChars pads)

/-- Nothing but blanks at the ends is taken away. -/
theorem pads_trim (text : String) : Pads (trim text) text := by
  rw [Pads, trim, String.toList_ofList]
  exact padsChars_trimChars _

@[simp] theorem trim_trim (text : String) : trim (trim text) = trim text := (trim_of_pads (pads_trim text)).symm

/-! ## Cutting -/

theorem splitChars_eq_splitOn (sep : Char) (cs : List Char) : splitChars sep cs = cs.splitOn sep := by
  induction cs with
  | nil => rfl
  | cons c cs ih =>
      rw [splitChars, ih, List.splitOn_cons_eq_if_modifyHead]
      by_cases same : c = sep
      · rw [if_pos same, if_pos (beq_iff_eq.2 same)]
      · rw [if_neg same, if_neg (mt beq_iff_eq.1 same)]
        cases pieces : cs.splitOn sep with
        | nil => exact absurd pieces (List.splitOn_ne_nil sep cs)
        | cons p ps => rfl

theorem splitChars_of_notMem (absent : sep ∉ cs) : splitChars sep cs = [cs] := by
  induction cs with
  | nil => rfl
  | cons c cs ih =>
      rw [splitChars, if_neg (Ne.symm (List.ne_of_not_mem_cons absent)), ih (List.not_mem_of_not_mem_cons absent)]

theorem exists_splitChars (sep : Char) (cs : List Char) : ∃ p ps, splitChars sep cs = p :: ps := by
  refine List.exists_cons_of_ne_nil fun none => ?_
  have := length_splitChars sep cs
  rw [none] at this
  cases this

theorem splitChars_cons_of_ne {c : Char} (other : c ≠ sep) {p : List Char} {ps : List (List Char)}
    (pieces : splitChars sep cs = p :: ps) : splitChars sep (c :: cs) = (c :: p) :: ps := by
  rw [splitChars, if_neg other, pieces]

/-- Pieces without the separator are found again in what they are joined to. -/
theorem splitOn_intercalate {pieces : List String} (some : pieces ≠ [])
    (plain : ∀ p ∈ pieces, sep ∉ p.toList) : splitOn sep ((String.singleton sep).intercalate pieces) = pieces := by
  have chars : ∀ cs ∈ pieces.map String.toList, sep ∉ cs := List.forall_mem_map.2 plain
  rw [splitOn, splitChars_eq_splitOn, String.toList_intercalate, String.toList_singleton,
    List.splitOn_intercalate sep chars (mt List.map_eq_nil_iff.1 some), List.map_map]
  exact List.map_id'' (fun _ => String.ofList_toList) pieces

/-! ## Cutting what has blanks at its ends -/

theorem ne_of_isBlank (mark : isBlank sep = false) {c : Char} (blank : isBlank c) : c ≠ sep := by
  rintro rfl
  exact Bool.false_ne_true (mark.symm.trans blank)

theorem splitChars_append_left (mark : isBlank sep = false) (blank : AllBlank u) (cs : List Char) :
    List.Forall₂ (fun p q => ∃ u, AllBlank u ∧ q = u ++ p) (splitChars sep cs) (splitChars sep (u ++ cs)) := by
  induction u with
  | nil => exact List.forall₂_same.2 fun p _ => ⟨[], allBlank_nil, rfl⟩
  | cons c u ih =>
      obtain ⟨here, blank⟩ := List.forall_mem_cons.1 blank
      have padded := ih blank
      obtain ⟨p, ps, pieces⟩ := exists_splitChars sep cs
      obtain ⟨q, qs, pieces'⟩ := exists_splitChars sep (u ++ cs)
      rw [pieces, pieces'] at padded
      rw [pieces, List.cons_append, splitChars_cons_of_ne (ne_of_isBlank mark here) pieces']
      cases padded with
      | cons head tail =>
          obtain ⟨u', blank', rfl⟩ := head
          exact .cons ⟨c :: u', List.forall_mem_cons.2 ⟨here, blank'⟩, rfl⟩ tail

theorem splitChars_append_right (mark : isBlank sep = false) (blank : AllBlank v) (cs : List Char) :
    List.Forall₂ (fun p q => ∃ v, AllBlank v ∧ q = p ++ v) (splitChars sep cs) (splitChars sep (cs ++ v)) := by
  induction cs with
  | nil =>
      rw [List.nil_append, splitChars_of_notMem fun mem => ne_of_isBlank mark (blank _ mem) rfl]
      exact .cons ⟨v, blank, rfl⟩ .nil
  | cons c cs ih =>
      rw [List.cons_append]
      by_cases same : c = sep
      · rw [splitChars, splitChars, if_pos same, if_pos same]
        exact .cons ⟨[], allBlank_nil, rfl⟩ ih
      · obtain ⟨p, ps, pieces⟩ := exists_splitChars sep cs
        obtain ⟨q, qs, pieces'⟩ := exists_splitChars sep (cs ++ v)
        rw [splitChars_cons_of_ne same pieces, splitChars_cons_of_ne same pieces']
        rw [pieces, pieces'] at ih
        cases ih with
        | cons head tail =>
            obtain ⟨v', blank', rfl⟩ := head
            exact .cons ⟨v', blank', rfl⟩ tail

/-- Pieces that differ in blanks at their ends are the same when trimmed. -/
theorem map_trim_of_pads {pieces pieces' : List String} (pads : List.Forall₂ Pads pieces pieces') :
    pieces'.map trim = pieces.map trim := by
  induction pads with
  | nil => rfl
  | cons head _ ih => rw [List.map_cons, List.map_cons, trim_of_pads head, ih]

theorem map_trim_ofList {ps qs : List (List Char)} (pads : List.Forall₂ PadsChars ps qs) :
    (qs.map String.ofList).map trim = (ps.map String.ofList).map trim := by
  refine map_trim_of_pads ?_
  rw [List.forall₂_map_left_iff, List.forall₂_map_right_iff]
  refine pads.imp fun p q pads => ?_
  rwa [Pads, String.toList_ofList, String.toList_ofList]

/-- The pieces of a text are the same when trimmed, whatever blanks are at its ends. -/
theorem map_trim_splitOn (mark : isBlank sep = false) (pads : Pads text padded) :
    (splitOn sep padded).map trim = (splitOn sep text).map trim := by
  obtain ⟨u, v, hu, hv, same⟩ := pads
  have left : List.Forall₂ PadsChars (splitChars sep text.toList) (splitChars sep (u ++ text.toList)) := by
    refine (splitChars_append_left mark hu text.toList).imp fun p q added => ?_
    obtain ⟨u', blank, rfl⟩ := added
    exact ⟨u', [], blank, allBlank_nil, (List.append_nil _).symm⟩
  have right : List.Forall₂ PadsChars (splitChars sep (u ++ text.toList)) (splitChars sep (u ++ text.toList ++ v)) := by
    refine (splitChars_append_right mark hv (u ++ text.toList)).imp fun p q added => ?_
    obtain ⟨v', blank, rfl⟩ := added
    exact ⟨[], v', allBlank_nil, blank, rfl⟩
  rw [splitOn, splitOn, same, map_trim_ofList right, map_trim_ofList left]

end MaterialGraph.Text
