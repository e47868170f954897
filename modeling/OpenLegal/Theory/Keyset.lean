import OpenLegal.Theory.KeyedScan

/-! # Pages in key order

`ORDER BY key LIMIT n` lists the first rows of a table in the order of their keys. A page that goes on after a
key lists the rows with later keys; where the keys have two parts, these are two ranges, and each of them may be
limited before they are put together.
-/

namespace OpenLegal.Theory

variable {α κ : Type} [LinearOrder κ] (key : α → κ)

/-- `ORDER BY key`. -/
def orderBy (rows : List α) : List α := rows.insertionSort fun first second => key first ≤ key second

/-- `ORDER BY key LIMIT n`. -/
def limited (n : ℕ) (rows : List α) : List α := (orderBy key rows).take n

variable {key} {rows : List α}

theorem orderBy_perm : (orderBy key rows).Perm rows := List.perm_insertionSort _ rows

theorem mem_orderBy {row : α} : row ∈ orderBy key rows ↔ row ∈ rows := (orderBy_perm).mem_iff

theorem orderBy_sorted (distinct : (rows.map key).Nodup) : KeySorted key (orderBy key rows) := by
  have weakly : (orderBy key rows).Pairwise fun first second => key first ≤ key second := by
    have total : Std.Total fun first second : α => key first ≤ key second := ⟨fun first second => le_total _ _⟩
    have transitive : IsTrans α fun first second => key first ≤ key second := ⟨fun _ _ _ => le_trans⟩
    exact List.pairwise_insertionSort _ rows
  have apart : (orderBy key rows).Pairwise fun first second => key first ≠ key second :=
    List.pairwise_map.mp ((orderBy_perm.map key).nodup_iff.mpr distinct)
  exact weakly.imp₂ (fun _ _ le ne => lt_of_le_of_ne le ne) apart

/-- Rows in order stay as they are. -/
theorem orderBy_of_sorted (sorted : KeySorted key rows) : orderBy key rows = rows :=
  (sorted.imp le_of_lt).insertionSort_eq

/-- Only one arrangement of the rows is in order. -/
theorem eq_of_perm_of_sorted {other : List α} (sorted : KeySorted key rows) (sorted' : KeySorted key other)
    (same : rows.Perm other) : rows = other := by
  apply same.eq_of_pairwise _ sorted sorted'
  intro first second _ _ less more
  exact absurd more (lt_asymm less)

theorem nodup_of_sorted (sorted : KeySorted key rows) : rows.Nodup := by
  apply sorted.imp
  rintro first _ less rfl
  exact lt_irrefl _ less

/-- The order of some of the rows is that of all of them. -/
theorem orderBy_filter (distinct : (rows.map key).Nodup) (keep : α → Bool) :
    orderBy key (rows.filter keep) = (orderBy key rows).filter keep := by
  apply @eq_of_perm_of_sorted _ _ _ key
  · exact orderBy_sorted (distinct.sublist (List.filter_sublist.map key))
  · exact (orderBy_sorted distinct).filter keep
  · exact (orderBy_perm).trans (orderBy_perm.filter keep).symm

/-- What lies behind a row. -/
theorem KeySorted.filter_after {front rear : List α} {last : α} (sorted : KeySorted key (front ++ last :: rear)) :
    (front ++ last :: rear).filter (fun row => key last < key row) = rear := by
  obtain ⟨-, later, before⟩ := List.pairwise_append.mp sorted
  have earlier : front.filter (fun row => key last < key row) = [] := by
    apply List.filter_eq_nil_iff.mpr
    intro row member
    have less := before row member last List.mem_cons_self
    simpa using less.le
  have all : rear.filter (fun row => key last < key row) = rear := by
    apply List.filter_eq_self.mpr
    intro row member
    simpa using (List.pairwise_cons.mp later).1 row member
  rw [List.filter_append, earlier, List.filter_cons_of_neg (by simp), all, List.nil_append]

/-- Two limited ranges, one before the other, have the first rows of both. -/
theorem limited_union {near far : α → Bool} (distinct : (rows.map key).Nodup)
    (apart : ∀ first ∈ rows, ∀ second ∈ rows, near first = true → far second = true → key first < key second) (n : ℕ) :
    limited key n (limited key n (rows.filter near) ++ limited key n (rows.filter far)) =
      limited key n (rows.filter fun row => near row || far row) := by
  have sorted : KeySorted key ((orderBy key rows).filter near ++ (orderBy key rows).filter far) := by
    apply List.pairwise_append.mpr
    refine ⟨(orderBy_sorted distinct).filter near, (orderBy_sorted distinct).filter far, ?_⟩
    intro first inNear second inFar
    obtain ⟨member, isNear⟩ := List.mem_filter.mp inNear
    obtain ⟨member', isFar⟩ := List.mem_filter.mp inFar
    exact apart first (mem_orderBy.mp member) second (mem_orderBy.mp member') isNear isFar
  have whole : orderBy key (rows.filter fun row => near row || far row) =
      (orderBy key rows).filter near ++ (orderBy key rows).filter far := by
    rw [orderBy_filter distinct]
    apply eq_of_perm_of_sorted ((orderBy_sorted distinct).filter _) sorted
    apply (List.perm_ext_iff_of_nodup ((nodup_of_sorted (orderBy_sorted distinct)).filter _) (nodup_of_sorted sorted)).mpr
    intro row
    simp only [List.mem_append, List.mem_filter, Bool.or_eq_true]
    exact and_or_left
  have cut : KeySorted key (((orderBy key rows).filter near).take n ++ ((orderBy key rows).filter far).take n) :=
    sorted.sublist ((List.take_sublist _ _).append (List.take_sublist _ _))
  simp only [limited]
  rw [orderBy_filter distinct, orderBy_filter distinct, orderBy_of_sorted cut, whole, List.take_append, List.take_append,
    List.take_take, List.take_take, List.length_take]
  have rest : n - min n ((orderBy key rows).filter near).length = n - ((orderBy key rows).filter near).length := by omega
  rw [rest, min_self, min_eq_left (Nat.sub_le _ _)]

end OpenLegal.Theory
