import MaterialGraph.Discovery

/-!
# Selecting what to render

For each kind one output is selected: the first of that kind that the named target exposes, or else the first that is
discovered. An empty target switches its kind off.

* `Selection.offer` decides the slot of one output; `offerAll`, `offerElements` stop when every slot that is wanted has
  been decided.
* `Selection.choose` follows the targets and then offers all that is discovered.
-/

namespace MaterialGraph

set_option autoImplicit false

/-- What is selected for one kind. -/
inductive Slot where
  | empty
  | disabled
  | filled (c : Candidate)
deriving DecidableEq, Repr

def Slot.candidate? : Slot → Option Candidate
  | filled c => some c
  | _ => none

abbrev Selection := PerKind Slot

namespace Selection

/-- Takes an output for its kind, if nothing has been decided for that kind and the kind is the wanted one. -/
def offer (wanted : Option OutputKind) (s : Selection) (c : Candidate) : Selection :=
  match c.kind? with
  | none => s
  | some k => if wanted.all (· = k) ∧ s.get k = .empty then s.set k (.filled c) else s

/-- Whether there is nothing left to decide: for the wanted kind, or else for every kind. -/
def isDecided (wanted : Option OutputKind) (s : Selection) : Bool :=
  match wanted with
  | some k => s.get k ≠ .empty
  | none => OutputKind.all.all fun k => s.get k ≠ .empty

/-- Offers outputs one after the other for as long as there is something to decide. -/
def offerAll (wanted : Option OutputKind) (s : Selection) : List Candidate → Selection
  | [] => s
  | c :: cs => if s.isDecided wanted then s else offerAll wanted (s.offer wanted c) cs

def offerElement (catalog : Catalog) (wanted : Option OutputKind) (s : Selection) (e : Element) : Selection :=
  offerAll wanted s (catalog.outputsOf e)

/-- Offers the outputs of elements one after the other for as long as there is something to decide. -/
def offerElements (catalog : Catalog) (s : Selection) : List Element → Selection
  | [] => s
  | e :: es => if s.isDecided none then s else offerElements catalog (offerElement catalog none s e) es

def aim (catalog : Catalog) (targets : PerKind String) (s : Selection) (k : OutputKind) : Selection :=
  let target := targets.get k
  if target.isEmpty then s.set k .disabled
  else match catalog.document.descendant? target with
    | some e => offerElement catalog (some k) s e
    | none => s

def choose (catalog : Catalog) (targets : Option (PerKind String)) : Selection :=
  let aimed := match targets with
    | some targets => OutputKind.all.foldl (aim catalog targets) (.both .empty)
    | none => .both .empty
  offerElements catalog aimed catalog.discover

def selected (s : Selection) : List (OutputKind × Candidate) :=
  OutputKind.all.filterMap fun k => (s.get k).candidate?.map fun c => (k, c)

/-! ## Stopping early

A slot that has been decided is never decided again, so that to stop is the same as to go on. -/

theorem offer_of_isDecided {wanted : Option OutputKind} {s : Selection} (h : s.isDecided wanted) (c : Candidate) :
    s.offer wanted c = s := by
  unfold offer
  split
  · rfl
  · next k _ =>
    refine if_neg fun ⟨same, empty⟩ => ?_
    cases wanted with
    | some w =>
        have same : w = k := by simpa using same
        exact of_decide_eq_true h (same ▸ empty)
    | none =>
        have decided := List.all_eq_true.1 h k (by cases k <;> decide)
        exact of_decide_eq_true decided empty

theorem foldl_offer_of_isDecided {wanted : Option OutputKind} {s : Selection} (h : s.isDecided wanted)
    (cs : List Candidate) : cs.foldl (offer wanted) s = s := by
  induction cs with
  | nil => rfl
  | cons c cs ih => rw [List.foldl_cons, offer_of_isDecided h, ih]

theorem offerAll_eq_foldl (wanted : Option OutputKind) (s : Selection) (cs : List Candidate) :
    s.offerAll wanted cs = cs.foldl (offer wanted) s := by
  induction cs generalizing s with
  | nil => rfl
  | cons c cs ih =>
      rw [offerAll]
      split
      · next decided => exact (foldl_offer_of_isDecided decided _).symm
      · exact ih _

theorem offerElement_eq_foldl (catalog : Catalog) (wanted : Option OutputKind) (s : Selection) (e : Element) :
    offerElement catalog wanted s e = (catalog.outputsOf e).foldl (offer wanted) s :=
  offerAll_eq_foldl wanted s _

theorem foldl_offerElement_of_isDecided {s : Selection} (h : s.isDecided none) (catalog : Catalog)
    (es : List Element) : es.foldl (offerElement catalog none) s = s := by
  induction es with
  | nil => rfl
  | cons e es ih => rw [List.foldl_cons, offerElement_eq_foldl, foldl_offer_of_isDecided h, ih]

theorem offerElements_eq_foldl (catalog : Catalog) (s : Selection) (es : List Element) :
    offerElements catalog s es = es.foldl (offerElement catalog none) s := by
  induction es generalizing s with
  | nil => rfl
  | cons e es ih =>
      rw [offerElements]
      split
      · next decided => exact (foldl_offerElement_of_isDecided decided catalog _).symm
      · exact ih _

end Selection

end MaterialGraph
