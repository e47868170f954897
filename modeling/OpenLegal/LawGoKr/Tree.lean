import OpenLegal.Rust.Str

/-! # Document trees of the provider

Documents arrive as trees of elements and texts. Annexes are pruned from a tree before anything is read from it, and the legal text
is what the outermost content fields of the pruned tree hold.
-/

namespace OpenLegal.LawGoKr

open Rust

inductive DocumentNode where
  | element (name : Str) (attributes : List (Str × Str)) (children : List DocumentNode)
  | text (value : Str)
deriving Repr

namespace DocumentNode

/-- What holds of texts, and of elements whose children it holds of, holds of every node. -/
theorem induct {P : DocumentNode → Prop}
    (element : ∀ name attributes children, (∀ child ∈ children, P child) → P (.element name attributes children))
    (text : ∀ value, P (.text value)) (node : DocumentNode) : P node :=
  @DocumentNode.rec P (fun children => ∀ child ∈ children, P child) element text (List.forall_mem_nil _)
    (fun _ _ head tail => List.forall_mem_cons.mpr ⟨head, tail⟩) node

end DocumentNode

/-- The part of a name after its namespace. -/
def localName (name : Str) : Str := (name.reverse.takeWhile (· ≠ '}')).reverse

/-! ## Reading a tree -/

mutual

/-- The whole text below a node. -/
def textOf : DocumentNode → Str
  | .text value => value
  | .element _ _ children => textOfAll children

def textOfAll : List DocumentNode → Str
  | [] => []
  | child :: children => textOf child ++ textOfAll children

end

attribute [grind =] textOf textOfAll

mutual

/-- The elements of a name, from a node on and in document order. -/
def elements (name : Str) : DocumentNode → List DocumentNode
  | .text _ => []
  | .element n attributes children =>
    (if localName n = name then [.element n attributes children] else []) ++ elementsOfAll name children

def elementsOfAll (name : Str) : List DocumentNode → List DocumentNode
  | [] => []
  | child :: children => elements name child ++ elementsOfAll name children

end

attribute [grind =] elements elementsOfAll

/-- The text of the first element of a name. -/
def first (node : DocumentNode) (name : Str) : Option Str := (elements name node).head?.map textOf

def contentFields : List Str :=
  ["조문내용", "항내용", "호내용", "목내용", "조내용", "부칙내용", "개정문내용", "제개정이유내용", "판시사항", "판결요지", "참조조문",
    "참조판례", "판례내용", "조문참고자료", "조약내용", "결정요지", "전문", "심판대상조문", "질의요지", "회답", "이유", "주문", "청구취지",
    "재결요지"].map String.toList

def contentField (name : Str) : Bool := contentFields.contains name

mutual

/-- The texts of the outermost content fields that are not empty. -/
def contentParts : DocumentNode → List Str
  | .text _ => []
  | .element name attributes children =>
    if contentField (localName name) then
      let value := textOf (.element name attributes children)
      if value.isEmpty then [] else [value]
    else contentPartsOfAll children

def contentPartsOfAll : List DocumentNode → List Str
  | [] => []
  | child :: children => contentParts child ++ contentPartsOfAll children

end

attribute [grind =] contentParts contentPartsOfAll

/-! ## Pruning annexes -/

/-- The local names of annexes. -/
def supplementaryName (name : Str) : Bool := ["별표".toList, "첨부파일".toList, "attachment".toList].contains name

def isSupplementary : DocumentNode → Bool
  | .element name _ _ => supplementaryName (localName name)
  | .text _ => false

mutual

def stripSupplementarySubtrees : DocumentNode → DocumentNode
  | .text value => .text value
  | .element name attributes children => .element name attributes (stripChildren children)

/-- The children that stay, pruned in turn. -/
def stripChildren : List DocumentNode → List DocumentNode
  | [] => []
  | child :: children =>
    if isSupplementary child then stripChildren children else stripSupplementarySubtrees child :: stripChildren children

end

attribute [grind =] stripSupplementarySubtrees stripChildren

mutual

def containsSupplementarySubtree : DocumentNode → Bool
  | .text _ => false
  | .element name _ children => supplementaryName (localName name) || anyContainsSupplementarySubtree children

def anyContainsSupplementarySubtree : List DocumentNode → Bool
  | [] => false
  | child :: children => containsSupplementarySubtree child || anyContainsSupplementarySubtree children

end

attribute [grind =] containsSupplementarySubtree anyContainsSupplementarySubtree

/-! ## What a tree says outside its annexes -/

mutual

/-- The text below a node outside annexes. -/
def plainText : DocumentNode → Str
  | .text value => value
  | .element _ _ children => plainTextOfAll children

def plainTextOfAll : List DocumentNode → Str
  | [] => []
  | child :: children => (if isSupplementary child then [] else plainText child) ++ plainTextOfAll children

end

attribute [grind =] plainText plainTextOfAll

/-- An element with the local names of the elements around it, the innermost one first. -/
structure Occurrence where
  above : List Str
  name : Str
  node : DocumentNode

mutual

/-- All elements from a node on, in document order. -/
def occurrences (above : List Str) : DocumentNode → List Occurrence
  | .text _ => []
  | .element name attributes children =>
    ⟨above, localName name, .element name attributes children⟩ :: occurrencesOfAll (localName name :: above) children

def occurrencesOfAll (above : List Str) : List DocumentNode → List Occurrence
  | [] => []
  | child :: children => occurrences above child ++ occurrencesOfAll above children

end

attribute [grind =] occurrences occurrencesOfAll

/-- A content field that lies in no other one, and in no annex below the root. -/
def Occurrence.outermostField (o : Occurrence) : Bool :=
  contentField o.name && o.above.all (!contentField ·) && (o.name :: o.above).dropLast.all (!supplementaryName ·)

/-- The texts outside annexes of the outermost content fields, as far as they are not empty, in document order. -/
def fieldTexts (tree : DocumentNode) : List Str :=
  (((occurrences [] tree).filter Occurrence.outermostField).map fun o => plainText o.node).filter (!·.isEmpty)

example : fieldTexts (.element "법령".toList [] [.element "별표".toList [] [.element "조문내용".toList [] [.text ['x']]],
    .element "조문내용".toList [] [.text ['a'], .element "별표".toList [] [.text ['y']], .element "항내용".toList [] [.text ['b']]]]) =
    [['a', 'b']] := by decide +kernel

/-! ## Lists of children -/

theorem textOfAll_eq (children : List DocumentNode) : textOfAll children = children.flatMap textOf := by
  induction children with
  | nil => rfl
  | cons child children ih => rw [textOfAll, ih, List.flatMap_cons]

theorem contentPartsOfAll_eq (children : List DocumentNode) : contentPartsOfAll children = children.flatMap contentParts := by
  induction children with
  | nil => rfl
  | cons child children ih => rw [contentPartsOfAll, ih, List.flatMap_cons]

theorem occurrencesOfAll_eq (above : List Str) (children : List DocumentNode) :
    occurrencesOfAll above children = children.flatMap (occurrences above) := by
  induction children with
  | nil => rfl
  | cons child children ih => rw [occurrencesOfAll, ih, List.flatMap_cons]

theorem stripChildren_eq (children : List DocumentNode) :
    stripChildren children = (children.filter (!isSupplementary ·)).map stripSupplementarySubtrees := by
  induction children with
  | nil => rfl
  | cons child children ih =>
    rw [stripChildren, List.filter_cons, ih]
    cases isSupplementary child <;> rfl

theorem plainTextOfAll_eq (children : List DocumentNode) :
    plainTextOfAll children = (children.filter (!isSupplementary ·)).flatMap plainText := by
  induction children with
  | nil => rfl
  | cons child children ih =>
    rw [plainTextOfAll, List.filter_cons, ih]
    cases isSupplementary child <;> rfl

/-! ## The content of a pruned tree -/

/-- The pruned tree has the text outside annexes. -/
theorem textOf_strip (node : DocumentNode) : textOf (stripSupplementarySubtrees node) = plainText node := by
  induction node using DocumentNode.induct with
  | text value => rfl
  | element name attributes children ih =>
    rw [stripSupplementarySubtrees, textOf, plainText, textOfAll_eq, stripChildren_eq, plainTextOfAll_eq, List.flatMap_map]
    apply List.flatMap_congr
    intro child member
    exact ih child (List.mem_of_mem_filter member)

/-- The element around an occurrence belongs to a content field, or to an annex below the root. -/
def Covered (above : List Str) : Prop := above.any contentField = true ∨ above.dropLast.any supplementaryName = true

variable {above : List Str}

theorem Covered.cons (covered : Covered above) (name : Str) : Covered (name :: above) := by
  rcases covered with content | annex
  · exact .inl (by rw [List.any_cons, content, Bool.or_true])
  · cases above with
    | nil => cases annex
    | cons parent above => exact .inr (by rw [List.dropLast_cons_cons, List.any_cons, annex, Bool.or_true])

theorem outermostField_of_covered {o : Occurrence} (covered : Covered o.above) : o.outermostField = false := by
  rcases covered with content | annex
  · have fields : o.above.all (!contentField ·) = false := by simpa using content
    rw [Occurrence.outermostField, fields, Bool.and_false, Bool.false_and]
  · have annexes : (o.name :: o.above).dropLast.all (!supplementaryName ·) = false := by
      cases known : o.above with
      | nil =>
        rw [known] at annex
        cases annex
      | cons parent above =>
        have later : (parent :: above).dropLast.all (!supplementaryName ·) = false := by simpa [known] using annex
        rw [List.dropLast_cons_cons, List.all_cons, later, Bool.and_false]
    rw [Occurrence.outermostField, annexes, Bool.and_false]

/-- Nothing inside a content field or an annex counts. -/
theorem occurrences_of_covered (covered : Covered above) (node : DocumentNode) :
    (occurrences above node).filter Occurrence.outermostField = [] := by
  induction node using DocumentNode.induct generalizing above with
  | text value => rfl
  | element name attributes children ih =>
    have self := @outermostField_of_covered ⟨above, localName name, .element name attributes children⟩ covered
    rw [occurrences, List.filter_cons_of_neg (by rw [self]; decide), occurrencesOfAll_eq, List.filter_flatMap, List.flatMap_eq_nil_iff]
    intro child member
    exact ih child member (covered.cons _)

/-- The texts of some occurrences that count. -/
def countedTexts (found : List Occurrence) : List Str :=
  ((found.filter Occurrence.outermostField).map fun o => plainText o.node).filter (!·.isEmpty)

theorem countedTexts_append (front back : List Occurrence) : countedTexts (front ++ back) = countedTexts front ++ countedTexts back := by
  simp [countedTexts]

theorem countedTexts_flatMap {α : Type*} (items : List α) (found : α → List Occurrence) :
    countedTexts (items.flatMap found) = items.flatMap fun item => countedTexts (found item) := by
  induction items with
  | nil => rfl
  | cons item items ih => rw [List.flatMap_cons, List.flatMap_cons, countedTexts_append, ih]

theorem countedTexts_of_covered (covered : Covered above) (node : DocumentNode) : countedTexts (occurrences above node) = [] := by
  rw [countedTexts, occurrences_of_covered covered]
  rfl

theorem countedTexts_cons {o : Occurrence} (found : List Occurrence) (skipped : o.outermostField = false) :
    countedTexts (o :: found) = countedTexts found := by
  rw [countedTexts, List.filter_cons_of_neg (by rw [skipped]; decide), countedTexts]

theorem countedTexts_children_of_covered (covered : Covered above) (children : List DocumentNode) :
    countedTexts (occurrencesOfAll above children) = [] := by
  rw [occurrencesOfAll_eq, countedTexts_flatMap, List.flatMap_eq_nil_iff]
  intro child _
  exact countedTexts_of_covered covered child

/-- An annex below the root contributes nothing. -/
theorem countedTexts_annex {node : DocumentNode} (below : above ≠ []) (annex : isSupplementary node = true) :
    countedTexts (occurrences above node) = [] := by
  cases node with
  | text value => rfl
  | element name attributes children =>
    obtain ⟨parent, above, rfl⟩ := List.exists_cons_of_ne_nil below
    have named : supplementaryName (localName name) = true := annex
    have covered : Covered (localName name :: parent :: above) :=
      .inr (by rw [List.dropLast_cons_cons, List.any_cons, named, Bool.true_or])
    have annexes : (localName name :: parent :: above).dropLast.all (!supplementaryName ·) = false := by
      rw [List.dropLast_cons_cons, List.all_cons, named]
      rfl
    have self : Occurrence.outermostField ⟨parent :: above, localName name, .element name attributes children⟩ = false := by
      rw [Occurrence.outermostField, annexes, Bool.and_false]
    rw [occurrences, countedTexts_cons _ self, countedTexts_children_of_covered covered]

theorem flatMap_eq_flatMap_filter {α β : Type*} {items : List α} {keep : α → Bool} {f g : α → List β}
    (same : ∀ item ∈ items, keep item = true → f item = g item) (none : ∀ item ∈ items, keep item = false → f item = []) :
    items.flatMap f = (items.filter keep).flatMap g := by
  induction items with
  | nil => rfl
  | cons item items ih =>
    rw [List.forall_mem_cons] at same none
    rw [List.flatMap_cons, ih same.2 none.2]
    cases kept : keep item with
    | true => rw [same.1 kept, List.filter_cons_of_pos kept, List.flatMap_cons]
    | false => rw [none.1 kept, List.filter_cons_of_neg (by rw [kept]; decide), List.nil_append]

/-- An element contributes its text if it is a content field, and what its children contribute if not. -/
theorem countedTexts_element {name : Str} {attributes : List (Str × Str)} {children : List DocumentNode}
    (field : Occurrence.outermostField ⟨above, localName name, .element name attributes children⟩ = contentField (localName name))
    (each : contentField (localName name) = false → ∀ child ∈ children, isSupplementary child = false →
      countedTexts (occurrences (localName name :: above) child) = contentParts (stripSupplementarySubtrees child)) :
    countedTexts (occurrences above (.element name attributes children)) =
      contentParts (stripSupplementarySubtrees (.element name attributes children)) := by
  have text := textOf_strip (.element name attributes children)
  rw [stripSupplementarySubtrees] at text ⊢
  rw [occurrences, contentParts]
  cases content : contentField (localName name) with
  | true =>
    rw [content] at field
    have covered : Covered (localName name :: above) := .inl (by rw [List.any_cons, content, Bool.true_or])
    rw [← List.singleton_append, countedTexts_append, countedTexts_children_of_covered covered, List.append_nil, if_pos rfl, text,
      countedTexts, List.filter_cons_of_pos field, List.filter_nil, List.map_singleton, List.filter_cons, List.filter_nil]
    dsimp only
    cases (plainText (.element name attributes children)).isEmpty <;> rfl
  | false =>
    rw [content] at field
    rw [countedTexts_cons _ field, if_neg Bool.false_ne_true, occurrencesOfAll_eq, countedTexts_flatMap, contentPartsOfAll_eq,
      stripChildren_eq, List.flatMap_map]
    apply flatMap_eq_flatMap_filter
    · intro child member kept
      exact each content child member (by simpa using kept)
    · intro child _ annex
      exact countedTexts_annex (List.cons_ne_nil _ _) (by simpa using annex)

theorem not_covered_iff : ¬ Covered above ↔
    above.all (!contentField ·) = true ∧ above.dropLast.all (!supplementaryName ·) = true := by
  simp [Covered]

/-- An element below the root. -/
theorem countedTexts_strip {node : DocumentNode} (below : above ≠ []) (uncovered : ¬ Covered above) (kept : isSupplementary node = false) :
    countedTexts (occurrences above node) = contentParts (stripSupplementarySubtrees node) := by
  induction node using DocumentNode.induct generalizing above with
  | text value => rfl
  | element name attributes children ih =>
    obtain ⟨parent, above, rfl⟩ := List.exists_cons_of_ne_nil below
    obtain ⟨fields, annexes⟩ := (not_covered_iff).mp uncovered
    have named : supplementaryName (localName name) = false := kept
    have more : (localName name :: parent :: above).dropLast.all (!supplementaryName ·) = true := by
      rw [List.dropLast_cons_cons, List.all_cons, named, annexes]
      rfl
    apply countedTexts_element
    · rw [Occurrence.outermostField, fields, more, Bool.and_true, Bool.and_true]
    · intro content child member other
      apply ih child member (List.cons_ne_nil _ _) _ other
      rw [not_covered_iff, List.all_cons, content, fields]
      exact ⟨rfl, more⟩

/-- The content of the pruned tree is what the outermost content fields outside annexes say. -/
theorem contentParts_strip (tree : DocumentNode) : contentParts (stripSupplementarySubtrees tree) = fieldTexts tree := by
  change _ = countedTexts (occurrences [] tree)
  symm
  cases tree with
  | text value => rfl
  | element name attributes children =>
    apply countedTexts_element
    · simp [Occurrence.outermostField]
    · intro content child member other
      apply countedTexts_strip (List.cons_ne_nil _ _) _ other
      rw [not_covered_iff, List.all_cons, content]
      exact ⟨rfl, rfl⟩

/-! ## Trees that differ inside annexes -/

mutual

/-- Two nodes are the same outside annexes. -/
inductive Alike : DocumentNode → DocumentNode → Prop where
  | text (value : Str) : Alike (.text value) (.text value)
  | element {left right : List DocumentNode} (name : Str) (attributes : List (Str × Str)) (children : AlikeChildren left right) :
      Alike (.element name attributes left) (.element name attributes right)

inductive AlikeChildren : List DocumentNode → List DocumentNode → Prop where
  | nil : AlikeChildren [] []
  | left {annex : DocumentNode} {left right : List DocumentNode} (supplementary : isSupplementary annex = true)
      (rest : AlikeChildren left right) : AlikeChildren (annex :: left) right
  | right {annex : DocumentNode} {left right : List DocumentNode} (supplementary : isSupplementary annex = true)
      (rest : AlikeChildren left right) : AlikeChildren left (annex :: right)
  | cons {child other : DocumentNode} {left right : List DocumentNode} (first : Alike child other) (rest : AlikeChildren left right) :
      AlikeChildren (child :: left) (other :: right)

end

theorem AlikeChildren.refl {children : List DocumentNode} (each : ∀ child ∈ children, Alike child child) :
    AlikeChildren children children := by
  induction children with
  | nil => exact .nil
  | cons child children ih =>
    rw [List.forall_mem_cons] at each
    exact .cons each.1 (ih each.2)

theorem Alike.refl (node : DocumentNode) : Alike node node := by
  induction node using DocumentNode.induct with
  | text value => exact .text value
  | element name attributes children ih => exact .element name attributes (.refl ih)

/-- Nodes that are alike are both annexes or neither is. -/
theorem Alike.isSupplementary_eq {child other : DocumentNode} (alike : Alike child other) :
    isSupplementary child = isSupplementary other := by
  cases alike <;> rfl

/-- Pruning removes the difference. -/
theorem Alike.strip_eq {left right : DocumentNode} (alike : Alike left right) :
    stripSupplementarySubtrees left = stripSupplementarySubtrees right := by
  induction alike using Alike.rec (motive_2 := fun left right _ => stripChildren left = stripChildren right) with
  | text value => rfl
  | element name attributes _ ih => rw [stripSupplementarySubtrees, stripSupplementarySubtrees, ih]
  | nil => rfl
  | left supplementary _ ih => rw [stripChildren, if_pos supplementary, ih]
  | right supplementary _ ih => rw [stripChildren.eq_2 _ _, if_pos supplementary, ih]
  | cons first _ ih rest => rw [stripChildren, stripChildren, first.isSupplementary_eq, ih, rest]

end OpenLegal.LawGoKr
