import MaterialGraph.Proofs.Spreading

/-!
# Files of images

An image keeps the path of a file. It is found when a literal is bound to the image, behind the prefix of the place
where the build has got to. Nothing else gives an image another file.

* `Assembly.file?`, `Env.pathOf` : the file of an image, and the path of a file name at a place.
* `after_bindLeaf_keepsake`, `Spreads.file?`, `after_connect_file?` : what a binding does to the files.
* `bindInput_filename` : an image takes every file name.
-/

namespace MaterialGraph

set_option autoImplicit false

open Build Assembly

variable {σ : Type} {r : Renderer σ} {E W : Env σ} {c c' : Context σ} {a a' : Assembly} {p : Place} {x y z : PartId}
  {i : Input} {b : Binding} {l : Leaf} {file : String}

/-! ## Files of images -/

def Role.file? : Role → Option String
  | .image params => some params.file
  | _ => none

def Assembly.file? (a : Assembly) (x : PartId) : Option String := (a.leaf? x).bind fun l => l.role.file?

/-- The path of a file by its name, with the prefix of a place; empty if there is none. -/
def Env.pathOf (E : Env σ) (p : Place) (value : String) : String :=
  (E.searchPath.find? E.fileExists (p.filePrefix ++ value)).getD ""

theorem file?_of_leaf? (leaf : a.leaf? x = some l) : a.file? x = l.role.file? := by
  rw [file?, leaf, Option.bind_some]

theorem file?_congr (same : a'.leaf? x = a.leaf? x) : a'.file? x = a.file? x := by
  rw [file?, file?, same]

theorem leaf?_of_file? (image : a.file? x = some file) : ∃ l, a.leaf? x = some l ∧ l.role.file? = some file :=
  Option.bind_eq_some_iff.1 image

theorem file?_leaf (leaf : a.leaf? x = some l) (l' : Leaf) (y : PartId) :
    (a.apply (.leaf x l')).file? y = if y = x then l'.role.file? else a.file? y := by
  rw [file?, leaf?_leaf leaf]
  split <;> rfl

theorem file?_hold (leaf : a.leaf? x = some l) (hold : Hold) (y : PartId) :
    (a.apply (.leaf x { l with hold })).file? y = a.file? y := by
  rw [file?_leaf leaf]
  split
  · next same => rw [same, file?_of_leaf? leaf]
  · rfl

theorem file?_added_leaf (there : y < a.size) (l : Leaf) : (a.apply (.add (.leaf l))).file? y = a.file? y := by
  refine file?_congr ?_
  rw [leaf?_add_leaf, if_neg (Nat.ne_of_lt there)]

namespace Build

/-! ## What a binding does to a file -/

/-- A literal of a file name is bound to the input of an image that takes it. -/
def Captures (E : Env σ) (i : Input) (b : Binding) (file : String) : Prop :=
  i.name = "file" ∧ ∃ value, b = .literal value "filename" ∧ file = E.pathOf E.place value

/-- A part that is an image has the file that it had, or a file name has been bound to it. -/
def Keepsake (E : Env σ) (x : PartId) (i : Input) (b : Binding) (c c' : Context σ) : Prop :=
  ∀ y file, c'.assembly.file? y = some file → c.assembly.file? y = some file ∨ y = x ∧ Captures E i b file

theorem keepsake_of_same (same : ∀ y, c'.assembly.file? y = c.assembly.file? y) : Keepsake E x i b c c' :=
  fun y _ image => .inl ((same y).symm.trans image)

theorem released_file? (leaf : c.assembly.leaf? x = some l) (y : PartId) :
    (released r x l c).assembly.file? y = c.assembly.file? y := by
  rw [released_assembly, file?_hold leaf]

theorem after_bindMapped_assembly {m : Mapping} :
    After (bindMapped l m i b) E c fun _ c' => c'.assembly = c.assembly := by
  have bound (h : Handle) (key : InputKey) (v : Bound) :
      After (bindNative h key v) E c fun _ c' => c'.assembly = c.assembly := by
    rw [bindNative, after_bind, after_act]
    split <;> exact after_pure.2 rfl
  rw [bindMapped]
  split
  · exact after_pure.2 rfl
  · split
    · exact after_pure.2 rfl
    · split
      · exact bound _ _ _
      · split
        · exact after_pure.2 rfl
        · exact bound _ _ _

theorem after_setImage_keepsake {params params' : ImageParams} (leaf : c.assembly.leaf? x = some l)
    (role : l.role = .image params) (kept : params'.file = params.file ∨ Captures E i b params'.file) :
    After (setImage x l params') E c fun _ c' => Keepsake E x i b c c' := by
  rw [setImage, after_bind, after_edit, after_pure]
  intro y file image
  rw [Context.edit_assembly, file?_leaf leaf] at image
  split at image
  · next same =>
    cases image
    rcases kept with kept | captured
    · refine .inl ?_
      rw [same, file?_of_leaf? leaf, role]
      exact congrArg some kept.symm
    · exact .inr ⟨same, captured⟩
  · exact .inl image

theorem after_setImageLiteral_keepsake {params : ImageParams} {value type : String}
    (leaf : c.assembly.leaf? x = some l) (role : l.role = .image params) :
    After (setImageLiteral x l params i value type) E c fun _ c' => Keepsake E x i (.literal value type) c c' := by
  unfold setImageLiteral
  split
  case h_7 named =>
    rw [after_bind]
    rintro file c₁ ⟨⟩
    exact after_setImage_keepsake leaf role (.inr ⟨named, value, rfl, rfl⟩)
  case h_11 =>
    split
    · exact after_pure.2 (keepsake_of_same fun _ => rfl)
    · exact after_setImage_keepsake leaf role (.inl rfl)
  case h_12 => exact after_bindMapped_assembly.mono fun _ _ same => keepsake_of_same fun _ => by rw [same]
  all_goals first
    | exact after_setImage_keepsake leaf role (.inl rfl)
    | exact after_pure.2 (keepsake_of_same fun _ => rfl)

/-- To bind a leaf that is no image leaves all files. -/
theorem BindsLeaf.file?_eq {res : Result Unit} (h : BindsLeaf r x l b c res c') (leaf : c.assembly.leaf? x = some l)
    (other : l.role.file? = none) (y : PartId) : c'.assembly.file? y = c.assembly.file? y := by
  have empty := leaf?_released (r := r) leaf
  have gone := released_file? (r := r) leaf y
  cases h with
  | unchanged | called => rfl
  | params _ role =>
      rw [role] at other
      cases other
  | forwarded => exact file?_hold leaf _ y
  | redirected => exact (file?_hold empty _ y).trans gone
  | emptied => exact gone
  | lost _ _ creation =>
      rw [creation.assembly]
      exact gone
  | replaced _ _ creation =>
      rw [Context.edit_assembly, creation.assembly]
      exact (file?_hold empty _ y).trans gone

/-- To bind a leaf leaves all files, unless it is an image and takes a file name. -/
theorem after_bindLeaf_keepsake (leaf : c.assembly.leaf? x = some l) :
    After (bindLeaf x l i b) E c fun _ c' => Keepsake E x i b c c' := by
  cases role : l.role with
  | image params =>
      unfold bindLeaf
      rw [role]
      cases b with
      | node => exact after_bindMapped_assembly.mono fun _ _ same => keepsake_of_same fun _ => by rw [same]
      | literal => exact after_setImageLiteral_keepsake leaf role
  | _ => exact after_bindLeaf.mono fun _ _ binds => keepsake_of_same (binds.file?_eq leaf (by rw [role]; rfl))

/-- Where something is bound, an image has the file that it had, unless a file name reaches it. -/
theorem Spreads.file? (h : Spreads E x i b c c') (image : c'.assembly.file? y = some file) :
    c.assembly.file? y = some file ∨ ∃ k, c.assembly.Reaches x i y k ∧ Captures E k b file := by
  induction h with
  | refl => exact .inl image
  | remark _ _ _ ih => exact ih image
  | leaf _ reaches leaf binds ih =>
      rcases (after_bindLeaf_keepsake leaf).of_eq binds _ _ image with before | ⟨rfl, captured⟩
      · exact ih before
      · exact .inr ⟨_, reaches, captured⟩

theorem after_bindInput_spreads : After (bindInput x i b) E c fun _ c' => Spreads E x i b c c' := by
  rw [bindInput, after_bind]
  rintro fuel c₁ ⟨⟩
  exact after_bindPart_spreads

/-- To connect parts leaves all files. -/
theorem after_connect_file? {output : Option String} :
    After (connect x output z i) E c fun _ c' => ∀ y file, c'.assembly.file? y = some file →
      c.assembly.file? y = some file := by
  rw [connect, after_asTask, after_andThen]
  refine after_outputHandle.mono ?_
  rintro res c₁ ⟨rfl, -⟩
  refine ⟨fun h _ => ?_, fun e _ y file image => image⟩
  refine after_bindInput_spreads.mono fun _ c₁ spreads y file image => ?_
  rcases spreads.file? image with before | ⟨_, -, -, _, literal, -⟩
  · exact before
  · cases literal

/-- An image takes every file name, and has the file of that name. -/
theorem bindInput_filename {params : ImageParams} {value : String} (leaf : c.assembly.leaf? x = some l)
    (role : l.role = .image params) (named : i.name = "file") :
    bindInput x i (.literal value "filename") (W.at p) c =
      .ok (.ok (), c.edit (.leaf x { l with role := .image { params with file := W.pathOf p value } })) := by
  rw [bindInput_of_leaf leaf]
  unfold bindLeaf
  rw [role]
  dsimp only
  unfold setImageLiteral
  rw [named]
  rfl

end Build

end MaterialGraph
