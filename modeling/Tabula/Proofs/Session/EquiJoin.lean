import Mathlib.Algebra.BigOperators.Group.Finset.Basic
import Mathlib.Algebra.Group.Action.Defs
import Mathlib.Algebra.GroupWithZero.Nat
import Mathlib.Data.List.ProdSigma
import Mathlib.Data.Prod.Lex
import Tabula.Proofs.Session.Response

/-!
# What a join shows

A join shows the pairs of rows that have equal cells in the columns joined on, in the order of a
scan that goes through all right rows for each left row (`EquiJoin`). A pair is given by the places
of its two rows, since equal rows may stand at many places and each pair of places is shown.
A join of the two tables the other way round shows the same pairs, each the other way round
(`exists_equiJoin`).
-/

namespace Tabula

/-- The cells that stand neither under `id` nor under the column joined on. -/
def Row.besides (r : Row) (key : String) : List String :=
  (r.cells.filter fun x => x.1 ≠ Table.idColumn && x.1 ≠ key).map Prod.snd

/-- A left row and a right one, by their places. -/
abbrev Pair (l r : Table) : Type := Fin l.rows.length × Fin r.rows.length

/-- What a pair of rows shows: the left cells, then the right ones. -/
def Pair.shown {l r : Table} (a b : String) (p : Pair l r) : List String :=
  l.rows[p.1].besides a ++ r.rows[p.2].besides b

/-- What is shown of two tables that are joined on a column each: the pairs of rows that agree in
them, which an increasing list of places names. -/
structure EquiJoin (l r : Table) (a b : String) (pairs : List (Pair l r)) (answer : Answer) :
    Prop where
  increasing : pairs.Pairwise (Prod.Lex (· < ·) (· < ·))
  mem_iff (i : Fin l.rows.length) (j : Fin r.rows.length) :
    (i, j) ∈ pairs ↔ l.rows[i].cell a = r.rows[j].cell b
  columns_eq : answer.columns = Table.idColumn ::
    (l.headers.filter fun h => h ≠ Table.idColumn && h ≠ a).map (l.name ++ "." ++ ·) ++
    (r.headers.filter fun h => h ≠ Table.idColumn && h ≠ b).map (r.name ++ "." ++ ·)
  rows_eq : answer.rows = pairs.zipIdx.map fun (p, n) => toString (n + 1) :: p.shown a b
  length_row : ∀ row ∈ answer.rows, row.length = answer.columns.length
  warnings_eq : answer.warnings = []
  length_rows : answer.rows.length =
    ∑ key ∈ (l.column a).toFinset ∪ (r.column b).toFinset,
      (l.column a).count key * (r.column b).count key

namespace Operation

variable {l r : Table} {a b : String}

/-! ### Pairs of rows that agree -/

/-- For each left row in turn, the right rows that agree with it. -/
def agreeing (l r : Table) (a b : String) : List (Pair l r) :=
  (List.finRange l.rows.length).flatMap fun i =>
    ((List.finRange r.rows.length).filter fun j => r.rows[j].cell b = l.rows[i].cell a).map (i, ·)

theorem mem_agreeing (i : Fin l.rows.length) (j : Fin r.rows.length) :
    (i, j) ∈ agreeing l r a b ↔ l.rows[i].cell a = r.rows[j].cell b := by
  simp [agreeing, eq_comm]

theorem increasing_agreeing (l r : Table) (a b : String) :
    (agreeing l r a b).Pairwise (Prod.Lex (· < ·) (· < ·)) := by
  rw [agreeing, List.pairwise_flatMap]
  refine ⟨fun i _ => ?_, ?_⟩
  · rw [List.pairwise_map]
    exact ((List.pairwise_lt_finRange _).filter _).imp fun h => Prod.Lex.right _ h
  · refine (List.pairwise_lt_finRange _).imp fun hlt p hp q hq => ?_
    obtain ⟨_, -, rfl⟩ := List.mem_map.1 hp
    obtain ⟨_, -, rfl⟩ := List.mem_map.1 hq
    exact Prod.Lex.left _ _ hlt

/-- A list that increases has each pair once. -/
theorem nodup_of_increasing {m n : Nat} {pairs : List (Fin m × Fin n)}
    (h : pairs.Pairwise (Prod.Lex (· < ·) (· < ·))) : pairs.Nodup := by
  refine h.imp ?_
  rintro p q hlt rfl
  rcases Prod.lex_def.1 hlt with h | ⟨-, h⟩
  · exact Fin.lt_irrefl _ h
  · exact Fin.lt_irrefl _ h

/-- A scan of the rows finds them by their places. -/
theorem flatMap_rows {β : Type} (rows : List Row) (f : Row → List β) :
    rows.flatMap f = (List.finRange rows.length).flatMap fun i => f rows[i] := by
  conv_lhs => rw [← List.map_getElem_finRange rows]
  rw [List.flatMap_map]
  rfl

theorem column_eq (t : Table) (name : String) :
    t.column name = (List.finRange t.rows.length).map fun i => t.rows[i].cell name := by
  rw [Table.column]
  conv_lhs => rw [← List.map_getElem_finRange t.rows]
  rw [List.map_map]
  rfl

/-- The right rows that agree with a left row are as many as the cells equal to its own. -/
theorem length_agreeing (l r : Table) (a b : String) :
    (agreeing l r a b).length = ((l.column a).map fun key => (r.column b).count key).sum := by
  have hcount (key : String) :
      ((List.finRange r.rows.length).filter fun j => r.rows[j].cell b = key).length =
        (r.column b).count key := by
    rw [column_eq, List.count, List.countP_map, List.countP_eq_length_filter]
    rfl
  rw [agreeing, List.length_flatMap, column_eq l, List.map_map]
  simp only [List.length_map, hcount]
  rfl

/-! ### What is shown of them -/

/-- Without repeated names, the cells shown are those beside the column joined on. -/
theorem map_cell_shown {s : JoinSide} (hnodup : s.table.headers.Nodup) {x : Row}
    (hx : x.headers = s.table.headers) : s.shown.map x.cell = x.besides s.key := by
  rw [JoinSide.shown, ← hx]
  exact Row.map_cell_filter (hx ▸ hnodup) _

theorem length_besides (x : Row) (key : String) : (x.besides key).length =
    (x.headers.filter fun h => h ≠ Table.idColumn && h ≠ key).length := by
  rw [Row.besides, Row.headers, List.filter_map, List.length_map, List.length_map]
  rfl

theorem flatMap_matching (hl : l.Aligned) (hr : r.Aligned) (hleft : l.headers.Nodup)
    (hright : r.headers.Nodup) :
    l.rows.flatMap (matching ⟨l, a⟩ ⟨r, b⟩) = (agreeing l r a b).map (Pair.shown a b) := by
  rw [flatMap_rows, agreeing, List.map_flatMap]
  refine List.flatMap_congr fun i _ => ?_
  have hrows (p : Row → Bool) : r.rows.filter p =
      ((List.finRange r.rows.length).filter fun j => p r.rows[j]).map fun j => r.rows[j] := by
    conv_lhs => rw [← List.map_getElem_finRange r.rows]
    rw [List.filter_map]
    rfl
  rw [matching, hrows, List.map_map, List.map_map]
  refine List.map_congr_left fun j _ => ?_
  have hcells := map_cell_shown (s := ⟨l, a⟩) hleft (hl _ (List.getElem_mem i.isLt))
  have hcells' := map_cell_shown (s := ⟨r, b⟩) hright (hr _ (List.getElem_mem j.isLt))
  exact congrArg₂ (· ++ ·) hcells hcells'

/-- A join on columns that are there shows all pairs of rows that agree. -/
theorem exists_joined (hl : l.Aligned) (hr : r.Aligned) (hleft : l.headers.Nodup)
    (hright : r.headers.Nodup) (ha : a ∈ l.headers) (hb : b ∈ r.headers) :
    ∃ answer, Table.joined a b l r = .ok answer ∧
      EquiJoin l r a b (agreeing l r a b) answer := by
  have hside : l.sideOf a = .ok ⟨l, a⟩ := if_pos (Table.hasColumn_iff.2 ha)
  have hside' : r.sideOf b = .ok ⟨r, b⟩ := if_pos (Table.hasColumn_iff.2 hb)
  have hrows : numbered (l.rows.flatMap (matching ⟨l, a⟩ ⟨r, b⟩)) =
      (agreeing l r a b).zipIdx.map fun (p, n) => toString (n + 1) :: p.shown a b := by
    rw [flatMap_matching hl hr hleft hright, numbered, List.zipIdx_map, List.map_map]
    rfl
  rw [joined_eq hl hr, hside, hside']
  refine ⟨_, rfl, increasing_agreeing l r a b, mem_agreeing, rfl, hrows, ?_, rfl, ?_⟩
  · intro row hrow
    rw [hrows] at hrow
    obtain ⟨⟨⟨i, j⟩, n⟩, -, rfl⟩ := List.mem_map.1 hrow
    have hi := hl _ (List.getElem_mem i.isLt)
    have hj := hr _ (List.getElem_mem j.isLt)
    simp [Pair.shown, length_besides, hi, hj, JoinSide.columns, JoinSide.shown]
  · rw [hrows, List.length_map, List.length_zipIdx, length_agreeing, Finset.sum_list_map_count]
    simp only [smul_eq_mul]
    refine Finset.sum_subset Finset.subset_union_left fun key _ hkey => ?_
    rw [List.count_eq_zero.2 (mt List.mem_toFinset.2 hkey), Nat.zero_mul]

/-- Two joins of the same tables, one the other way round, show the same pairs. -/
theorem perm_swap_of_equiJoin {pairs : List (Pair l r)} {pairs' : List (Pair r l)}
    {answer answer' : Answer} (h : EquiJoin l r a b pairs answer)
    (h' : EquiJoin r l b a pairs' answer') : pairs'.Perm (pairs.map Prod.swap) := by
  refine (List.perm_ext_iff_of_nodup (nodup_of_increasing h'.increasing)
    ((nodup_of_increasing h.increasing).map Prod.swap_injective)).2 fun (j, i) => ?_
  rw [h'.mem_iff, List.mem_map_swap, h.mem_iff, eq_comm]

end Operation

open Operation

variable {w : World} {leftName rightName a b : String} {l r : Table}

/-- A join of two tables on columns that they have shows the pairs of rows that agree in them, and
the join the other way round shows the same pairs, each with its halves exchanged. -/
theorem exists_equiJoin (hl : w.table leftName = .ok l) (hr : w.table rightName = .ok r)
    (hleft : l.headers.Nodup) (hright : r.headers.Nodup) (ha : a ∈ l.headers)
    (hb : b ∈ r.headers) :
    l.name = leftName ∧ r.name = rightName ∧
    ∃ (pairs : List (Pair l r)) (answer : Answer) (pairs' : List (Pair r l)) (answer' : Answer),
      (Command.join leftName rightName a b).run.run w = .ok answer w ∧
      EquiJoin l r a b pairs answer ∧
      (Command.join rightName leftName b a).run.run w = .ok answer' w ∧
      EquiJoin r l b a pairs' answer' ∧
      pairs'.Perm (pairs.map Prod.swap) := by
  obtain ⟨hstorable, hname⟩ := storable_of_worldTable hl
  obtain ⟨hstorable', hname'⟩ := storable_of_worldTable hr
  have hrun (x y c d : String) :
      (Command.join x y c d).run.run w = (settle (do
        Table.joined c d (← w.table x) (← w.table y))).run w := run_join x y c d w
  obtain ⟨answer, hjoined, hjoin⟩ :=
    exists_joined hstorable.aligned hstorable'.aligned hleft hright ha hb
  obtain ⟨answer', hjoined', hjoin'⟩ :=
    exists_joined hstorable'.aligned hstorable.aligned hright hleft hb ha
  refine ⟨hname, hname', _, answer, _, answer', ?_, hjoin, ?_, hjoin',
    perm_swap_of_equiJoin hjoin hjoin'⟩
  · rw [hrun, hl, hr, ok_bind, ok_bind, hjoined]
    rfl
  · rw [hrun, hr, hl, ok_bind, ok_bind, hjoined']
    rfl

/-- A table joined with itself, with equal cells in several rows on both sides. -/
theorem exists_equiJoin_self :
    ∃ answer answer', ∃ w : World,
      (Command.join "t" "t" "a" "b").run.run w = .ok answer w ∧
      (Command.join "t" "t" "b" "a").run.run w = .ok answer' w ∧
      answer.columns = ["id", "t.b", "t.a"] ∧ answer.rows.length = 5 ∧
      answer'.columns = ["id", "t.a", "t.b"] ∧ answer'.rows.length = 5 := by
  let t : Table := ⟨"t", ["id", "a", "b"], [⟨[("id", "1"), ("a", "x"), ("b", "y")]⟩,
    ⟨[("id", "2"), ("a", "y"), ("b", "x")]⟩, ⟨[("id", "3"), ("a", "x"), ("b", "x")]⟩]⟩
  have hread : Table.read "t" "id\ta\tb\n1\tx\ty\n2\ty\tx\n3\tx\tx\n" = .ok t := rfl
  have ht : (World.sample "id\ta\tb\n1\tx\ty\n2\ty\tx\n3\tx\tx\n").table "t" = .ok t := by
    rw [World.table_sample, hread]
    rfl
  obtain ⟨-, -, pairs, answer, pairs', answer', hrun, hjoin, hrun', hjoin', -⟩ :=
    exists_equiJoin (a := "a") (b := "b") ht ht (by decide) (by decide) (by decide) (by decide)
  refine ⟨answer, answer', _, hrun, hrun', hjoin.columns_eq, ?_, hjoin'.columns_eq, ?_⟩
  · rw [hjoin.length_rows]
    decide
  · rw [hjoin'.length_rows]
    decide

end Tabula
