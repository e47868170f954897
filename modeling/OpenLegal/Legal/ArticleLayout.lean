import OpenLegal.Legal.Citator
import OpenLegal.Legal.Outline
import OpenLegal.Theory.OpenItems

/-! # Articles under headings

One pass over an outline places every article under the headings that are open before it, and marks the articles of a wanted
heading. The headings are kept on a stack, the wanted one by its rank alone.
-/

namespace OpenLegal.Legal

open Rust Rust.Str Theory

/-! ## The outline with its headings -/

/-- A structural heading level: 편, 장, 절 or 관, outermost first. -/
def headingRank (level : Char) : ℕ := if level = '편' then 0 else if level = '장' then 1 else if level = '절' then 2 else 3

def endsLocator (c : Char) : Bool := isWhitespace c || c == '<' || c == '('

/-- A heading line split into its locator (`제2장`) and its name. -/
def headingParts (text : Str) : Str × Str :=
  ((trim text).takeWhile (!endsLocator ·), clipChars ((trim text).dropWhile (!endsLocator ·)) 100)

def headingLabel (text : Str) : Str := trim ((headingParts text).1 ++ ' ' :: (headingParts text).2)

structure OutlineEntry where
  kind : Str
  label : Str
  title : Str
deriving DecidableEq, Repr

structure Placed where
  article : LocatedArticle
  path : List Str
deriving DecidableEq, Repr

/-- The state of the pass: the articles so far, the open headings with their ranks, the articles of the wanted heading and
the rank of that heading while it is open. -/
structure Layout where
  placed : List Placed
  entries : List OutlineEntry
  stack : List (ℕ × Str)
  chapter : List ℕ
  chapterRank : Option ℕ
  chapterFound : Bool

def Layout.empty : Layout := ⟨[], [], [], [], none, false⟩

def Layout.step (wanted : Option (Char × ℕ)) (layout : Layout) : OutlineUnit → Layout
  | .heading level number text =>
    let rank := headingRank level
    let chapterRank := if layout.chapterRank.any (rank ≤ ·) then none else layout.chapterRank
    let opens := !layout.chapterFound && wanted == some (level, number)
    let (label, title) := headingParts text
    { layout with
      chapterFound := layout.chapterFound || opens
      chapterRank := if opens then some rank else chapterRank
      stack := pushItem Prod.fst layout.stack (rank, headingLabel text)
      entries := layout.entries ++ [⟨"heading".toList, label, title⟩] }
  | .article located =>
    { layout with
      chapter := if layout.chapterRank.isSome then layout.chapter ++ [layout.placed.length] else layout.chapter
      entries := layout.entries ++ [⟨"article".toList, located.number.display, located.title⟩]
      placed := layout.placed ++ [⟨located, layout.stack.map Prod.snd⟩] }

def layout (wanted : Option (Char × ℕ)) (units : List OutlineUnit) : Layout := units.foldl (Layout.step wanted) .empty

/-! ## Headings of an outline -/

/-- A heading with its place in the outline. -/
structure Heading where
  place : ℕ
  level : Char
  number : ℕ
  text : Str
deriving DecidableEq, Repr

namespace Heading

def rank (heading : Heading) : ℕ := headingRank heading.level

def key (heading : Heading) : Char × ℕ := (heading.level, heading.number)

end Heading

def headingOf (place : ℕ) : OutlineUnit → Option Heading
  | .heading level number text => some ⟨place, level, number, text⟩
  | .article _ => none

def headings (units : List OutlineUnit) : List Heading := units.zipIdx.filterMap fun (unit, place) => headingOf place unit

/-- The headings that no later one of their rank or a lower one closes. -/
def headingStack (units : List OutlineUnit) : List Heading := openItems Heading.rank (headings units)

/-- The first heading unit equal to the wanted one. -/
def firstHeading (wanted : Option (Char × ℕ)) (units : List OutlineUnit) : Option Heading :=
  (headings units).find? fun heading => wanted == some heading.key

def articleCount (units : List OutlineUnit) : ℕ := units.countP fun unit => (headingOf 0 unit).isNone

theorem headings_concat (units : List OutlineUnit) (unit : OutlineUnit) :
    headings (units ++ [unit]) = headings units ++ (headingOf units.length unit).toList := by
  rw [headings, List.zipIdx_append, List.filterMap_append, headings]
  cases unit <;> simp [headingOf]

theorem place_lt {units : List OutlineUnit} {heading : Heading} (member : heading ∈ headings units) :
    heading.place < units.length := by
  obtain ⟨⟨unit, place⟩, member, known⟩ := List.mem_filterMap.mp member
  have bound := (List.mem_zipIdx member).2.1
  cases unit with
  | heading level number text =>
    obtain rfl := Option.some.inj known
    simpa using bound
  | article located => cases known

theorem headings_append (units more : List OutlineUnit) : headings units <+: headings (units ++ more) := by
  rw [headings, headings, List.zipIdx_append, List.filterMap_append]
  exact List.prefix_append _ _

theorem articleCount_concat (units : List OutlineUnit) (unit : OutlineUnit) :
    articleCount (units ++ [unit]) = articleCount units + if (headingOf 0 unit).isNone then 1 else 0 := by
  rw [articleCount, List.countP_append, List.countP_singleton, articleCount]

theorem layout_concat (wanted : Option (Char × ℕ)) (units : List OutlineUnit) (unit : OutlineUnit) :
    layout wanted (units ++ [unit]) = (layout wanted units).step wanted unit := List.foldl_concat ..

variable {wanted : Option (Char × ℕ)} {units : List OutlineUnit} {level : Char} {number : ℕ} {text : Str}

/-! ## The pass -/

theorem firstHeading_concat : firstHeading wanted (units ++ [.heading level number text]) =
    (firstHeading wanted units).or
      (if wanted == some (level, number) then some ⟨units.length, level, number, text⟩ else none) := by
  rw [firstHeading, headings_concat, List.find?_append, firstHeading]
  congr 1
  rw [headingOf, Option.toList_some, List.find?_singleton]
  rfl

theorem firstHeading_article {located : LocatedArticle} :
    firstHeading wanted (units ++ [.article located]) = firstHeading wanted units := by
  rw [firstHeading, headings_concat, headingOf, Option.toList_none, List.append_nil, firstHeading]

theorem headingStack_concat : headingStack (units ++ [.heading level number text]) =
    (headingStack units).filter (fun other => other.rank < headingRank level) ++ [⟨units.length, level, number, text⟩] := by
  rw [headingStack, headings_concat, headingOf, Option.toList_some, openItems_concat]
  rfl

theorem headingStack_article {located : LocatedArticle} :
    headingStack (units ++ [.article located]) = headingStack units := by
  rw [headingStack, headings_concat, headingOf, Option.toList_none, List.append_nil, headingStack]

/-- What the pass has read of the outline, and what it keeps of it. -/
structure Layout.Follows (wanted : Option (Char × ℕ)) (units : List OutlineUnit) (layout : Layout) : Prop where
  stack : layout.stack = (headingStack units).map fun heading => (heading.rank, headingLabel heading.text)
  found : layout.chapterFound = (firstHeading wanted units).isSome
  open' : layout.chapterRank = ((firstHeading wanted units).filter (· ∈ headingStack units)).map Heading.rank
  count : layout.placed.length = articleCount units

namespace Layout.Follows

variable {layout : Layout}

theorem stack_heading (follows : Follows wanted units layout) :
    pushItem Prod.fst layout.stack (headingRank level, headingLabel text) =
      (headingStack (units ++ [.heading level number text])).map fun heading => (heading.rank, headingLabel heading.text) := by
  rw [headingStack, headings_concat, headingOf, Option.toList_some, ← pushItem_openItems, follows.stack]
  exact pushItem_map (f := fun heading : Heading => (heading.rank, headingLabel heading.text)) (fun _ => rfl) _
    ⟨units.length, level, number, text⟩

/-- The wanted heading is the first one that is equal to it, and it is open while nothing has taken it off the stack. -/
theorem open_heading (follows : Follows wanted units layout) :
    (layout.step wanted (.heading level number text)).chapterRank =
      ((firstHeading wanted (units ++ [.heading level number text])).filter
        (· ∈ headingStack (units ++ [.heading level number text]))).map Heading.rank := by
  rw [firstHeading_concat, headingStack_concat]
  simp only [step, follows.open', follows.found]
  cases known : firstHeading wanted units with
  | none =>
    by_cases equal : wanted == some (level, number)
    · simp [equal, Heading.rank, Option.filter]
    · simp [equal]
  | some first =>
    have other : first ≠ ⟨units.length, level, number, text⟩ := by
      rintro rfl
      exact Nat.lt_irrefl _ (place_lt (List.mem_of_find?_eq_some known))
    by_cases member : first ∈ headingStack units
    · by_cases closes : headingRank level ≤ first.rank
      · simp [Option.filter, member, closes, other]
      · simp [Option.filter, member, closes, not_le.mp closes]
    · simp [Option.filter, member, other]

theorem step (follows : Follows wanted units layout) (unit : OutlineUnit) :
    Follows wanted (units ++ [unit]) (layout.step wanted unit) := by
  cases unit with
  | heading level number text =>
    refine ⟨follows.stack_heading, ?_, follows.open_heading, ?_⟩
    · rw [firstHeading_concat, Layout.step, follows.found]
      cases firstHeading wanted units with
      | none => by_cases equal : wanted == some (level, number) <;> simp [equal]
      | some first => rfl
    · rw [articleCount_concat]
      exact follows.count
  | article located =>
    refine ⟨?_, ?_, ?_, ?_⟩
    · rw [headingStack_article]
      exact follows.stack
    · rw [firstHeading_article]
      exact follows.found
    · rw [firstHeading_article, headingStack_article]
      exact follows.open'
    · rw [articleCount_concat, ← follows.count]
      exact List.length_append

end Layout.Follows

/-- What the pass knows before a unit is what it would know of an outline that ends there. -/
theorem layout_follows (wanted : Option (Char × ℕ)) (units : List OutlineUnit) : (layout wanted units).Follows wanted units := by
  induction units using List.reverseRecOn with
  | nil => exact ⟨rfl, rfl, rfl, rfl⟩
  | append_singleton units unit ih =>
    rw [layout_concat]
    exact ih.step unit

/-! ## Articles and their headings -/

theorem placed_step (layout : Layout) (unit : OutlineUnit) : layout.placed <+: (layout.step wanted unit).placed := by
  cases unit with
  | heading => exact List.prefix_rfl
  | article => exact List.prefix_append _ _

theorem placed_append (units more : List OutlineUnit) :
    (layout wanted units).placed <+: (layout wanted (units ++ more)).placed := by
  induction more using List.reverseRecOn with
  | nil => rw [List.append_nil]
  | append_singleton more unit ih =>
    rw [← List.append_assoc, layout_concat]
    exact ih.trans (placed_step _ unit)

/-- An article is placed under the headings that are open before it. -/
theorem layout_placed (before : List OutlineUnit) (located : LocatedArticle) (after : List OutlineUnit) :
    (layout wanted (before ++ .article located :: after)).placed[articleCount before]? =
      some ⟨located, (headingStack before).map fun heading => headingLabel heading.text⟩ := by
  have follows := layout_follows wanted before
  have here : (layout wanted (before ++ [.article located])).placed =
      (layout wanted before).placed ++ [⟨located, (headingStack before).map fun heading => headingLabel heading.text⟩] := by
    rw [layout_concat, Layout.step, follows.stack, List.map_map]
    rfl
  obtain ⟨rest, kept⟩ := @placed_append wanted (before ++ [.article located]) after
  rw [List.append_assoc, List.singleton_append, here, List.append_assoc] at kept
  rw [← kept, ← follows.count, List.getElem?_append_right (Nat.le_refl _), Nat.sub_self]
  rfl

/-- The marked articles are those that come while the wanted heading is open. -/
theorem mem_chapter_iff_open {i : ℕ} : i ∈ (layout wanted units).chapter ↔ ∃ before located after,
    units = before ++ .article located :: after ∧ i = articleCount before ∧ (layout wanted before).chapterRank.isSome := by
  induction units using List.reverseRecOn with
  | nil => exact iff_of_false List.not_mem_nil fun ⟨before, _, _, split, _⟩ => by cases before <;> cases split
  | append_singleton units unit ih =>
    have split_concat : (∃ before located after, units ++ [unit] = before ++ .article located :: after ∧
        i = articleCount before ∧ (layout wanted before).chapterRank.isSome) ↔
        i ∈ (layout wanted units).chapter ∨
          (∃ located, unit = .article located) ∧ i = articleCount units ∧ (layout wanted units).chapterRank.isSome := by
      rw [ih]
      constructor
      · rintro ⟨before, located, after, split, rest⟩
        rcases List.eq_nil_or_concat' after with rfl | ⟨after, last, rfl⟩
        · obtain ⟨rfl, last⟩ := List.append_inj' split rfl
          exact .inr ⟨⟨located, List.head_eq_of_cons_eq last⟩, rest⟩
        · rw [← List.cons_append, ← List.append_assoc] at split
          exact .inl ⟨before, located, after, (List.append_inj' split rfl).1, rest⟩
      · rintro (⟨before, located, after, rfl, rest⟩ | ⟨⟨located, rfl⟩, rest⟩)
        · exact ⟨before, located, after ++ [unit], by simp, rest⟩
        · exact ⟨units, located, [], rfl, rest⟩
    rw [split_concat, layout_concat]
    cases unit with
    | heading => simp [Layout.step]
    | article located =>
      rw [Layout.step, (layout_follows wanted units).count]
      split_ifs with opens <;> simp [opens]

theorem firstHeading_of_mem {before more : List OutlineUnit} {first : Heading} (member : first ∈ headings before) :
    firstHeading wanted (before ++ more) = some first ↔ firstHeading wanted before = some first := by
  obtain ⟨rest, split⟩ := headings_append before more
  rw [firstHeading, ← split, List.find?_append, firstHeading]
  cases known : (headings before).find? fun heading => wanted == some heading.key with
  | none =>
    rw [Option.none_or]
    refine iff_of_false (fun later => ?_) nofun
    have equal : wanted == some first.key := List.find?_some (p := fun heading : Heading => wanted == some heading.key) later
    exact List.find?_eq_none.mp known first member equal
  | some other => rw [Option.some_or]

/-- The articles of the wanted heading are those that have the first heading equal to it on their stack. -/
theorem mem_chapter {i : ℕ} : i ∈ (layout wanted units).chapter ↔ ∃ before located after,
    units = before ++ .article located :: after ∧ i = articleCount before ∧
      ∃ first ∈ headingStack before, firstHeading wanted units = some first := by
  rw [mem_chapter_iff_open]
  refine exists_congr fun before => exists_congr fun located => exists_congr fun after => and_congr_right fun split =>
    and_congr_right fun _ => ?_
  rw [(layout_follows wanted before).open', Option.isSome_map, Option.isSome_filter, Option.any_eq_true]
  subst split
  constructor
  · rintro ⟨first, known, opens⟩
    have opens := of_decide_eq_true opens
    exact ⟨first, opens, (firstHeading_of_mem (openItems_subset opens)).mpr known⟩
  · rintro ⟨first, opens, known⟩
    exact ⟨first, (firstHeading_of_mem (openItems_subset opens)).mp known, decide_eq_true opens⟩

end OpenLegal.Legal
