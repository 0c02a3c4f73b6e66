import Tabula.Proofs.Condition.Spelled
import Tabula.Proofs.Session.Header
import Tabula.Proofs.Session.Where

/-!
# Columns that a condition reaches

Tables keep columns apart by letter case, and conditions do not. So a condition that spells a column
just as the table has it can be asked of every such table, but is asked of the first column that has
this name in any letter case (`Shared.addressed_of_run`). Of two columns `a` and `A` the second one
cannot be reached.
-/

namespace Tabula

/-- A single term picks the rows by the first column of its name. -/
theorem Table.picks_of_split? {t : Table} {text first : String} {x : Term} {i : Nat}
    (ht : t.Aligned) (hgroup : ¬ Condition.HasGroup text.toList)
    (hsplit : Term.split? text = some x) (hplace : Condition.IsPlaceOf t.headers x.column i)
    (hfirst : t.headers[i]? = some first) :
    t.Picks text fun r => compare (r.cell first) x.operator x.value := by
  refine picks_of_evaluate ht (Condition.validate_of_split? hgroup hsplit hplace) fun r hr => ?_
  rw [← hr] at hplace hfirst
  exact Condition.evaluate_of_split? hgroup hsplit hplace hfirst []

namespace Shared

variable {G : Ground} {d n c : String} {t : Table}

/-- Sessions start on an empty directory and respond to any statements. Then a single term that
spells a column of a table as the table has it is asked without fault of the cells of one column in
every row: the first with this name, letter case ignored. That is the column itself unless one in
front of it differs from it in letter case only. The name with an operator and any text behind it is
such a term. -/
theorem addressed_of_run {sessions : List Session} {events : List Event}
    (hstart : ∀ s ∈ sessions, s.selected = none ∧ G.files.locate s.root = .ok G.place)
    (ht : G.Stores ((⟨sessions, G.files⟩ : Shared).run events).files d n t)
    (hc : c ∈ t.headers) :
    ∃ i first, Condition.IsPlaceOf t.headers c i ∧ t.headers[i]? = some first ∧
      (first = c ↔ ∀ before after, t.headers = before ++ c :: after →
        ∀ other ∈ before, Text.lower other ≠ Text.lower c) ∧
      (∀ text x, ¬ Condition.HasGroup text.toList → Term.split? text = some x → x.column = c →
        t.Picks text fun r => compare (r.cell first) x.operator x.value) ∧
      ∀ (comparison : Comparison) (op text : String),
        Term.isWritten comparison.symbol.toList op.toList = true →
        ∃ value, Term.split? (c ++ " " ++ op ++ " " ++ text) = some ⟨c, op, value⟩ ∧
          (Text.strip text ≠ "" →
            value = String.ofList (Term.unquote (Text.trim text.toList))) := by
  have hheader := isHeader_of_run hstart ht
  obtain ⟨i, hplace⟩ := Condition.exists_isPlaceOf hc
  have ⟨hlt, _⟩ := hplace
  have hfirst := List.getElem?_eq_getElem hlt
  refine ⟨i, _, hplace, hfirst, hplace.eq_iff hheader.nodup hc hfirst, ?_, ?_⟩
  · rintro text x hgroup hsplit rfl
    exact Table.picks_of_split? ht.aligned hgroup hsplit hplace hfirst
  · intro comparison op text hop
    exact Term.exists_split?_spelled (isWord_iff.1 (hheader.names c hc).word) hop text

/-- A table with two columns of one name in two letter cases. -/
def letterEvents : List Event :=
  [⟨0, "CREATE DATABASE d;"⟩, ⟨0, "CREATE TABLE t (a, A);"⟩,
    ⟨0, "INSERT INTO t VALUES ('x', 'y');"⟩]

def letterTable : Table := ⟨"t", ["id", "a", "A"], [⟨[("id", "1"), ("a", "x"), ("A", "y")]⟩]⟩

theorem stores_letterTable :
    sampleGround.Stores (sampleStart.run letterEvents).files "d" "t" letterTable := by
  have hrun : (sampleStart.run letterEvents).files = ⟨[], [(["r"], .directory),
      (["r", "d"], .directory), (["r", "d", "t.tab"], .file (.text "id\ta\tA\n1\tx\ty\n"))],
      .utf8⟩ := by
    decide +kernel
  have hread : Table.read "t" "id\ta\tA\n1\tx\ty\n" = .ok letterTable := rfl
  have hentry : (sampleStart.run letterEvents).files.at? ["r", "d", "t.tab"] =
      some (.file (.text "id\ta\tA\n1\tx\ty\n")) := by
    rw [hrun]
    rfl
  exact ⟨_, _, hentry, rfl, hread⟩

/-- The second column is not reached by its name. -/
theorem not_picks_letterTable :
    sampleGround.Stores (sampleStart.run letterEvents).files "d" "t" letterTable ∧
    "A" ∈ letterTable.headers ∧ Term.split? "A == 'y'" = some ⟨"A", "==", "y"⟩ ∧
    ¬ letterTable.Picks "A == 'y'" fun r => compare (r.cell "A") "==" "y" := by
  refine ⟨stores_letterTable, by decide, rfl, fun h => ?_⟩
  have hjudged : letterTable.judged (Condition.read (some "A == 'y'")) = .ok ([false], []) := rfl
  have htrue : letterTable.rows.map (fun r => compare (r.cell "A") "==" "y") = [true] := rfl
  have hpicked := h.judged.symm.trans hjudged
  rw [htrue] at hpicked
  cases hpicked

/-- The condition that spells the second column is asked of the first one. -/
theorem addressed_of_run_letters :
    (∃ i, Condition.IsPlaceOf letterTable.headers "A" i ∧
      letterTable.headers[i]? = some "a") ∧
    letterTable.Picks "A == 'y'" fun r => compare (r.cell "a") "==" "y" := by
  obtain ⟨i, first, hplace, hfirst, -, hpicks, hspelled⟩ :=
    addressed_of_run start_sample stores_letterTable (c := "A") (by decide)
  obtain ⟨value, hsplit, hvalue⟩ := hspelled .equal "==" "'y'" rfl
  obtain rfl : value = "y" := hvalue (by decide)
  have hindex : Condition.columnIndex? "A" letterTable.headers = some 1 := by decide
  obtain rfl : 1 = i := by
    rw [Condition.columnIndex?_eq_some_iff.2 hplace, Option.some.injEq] at hindex
    exact hindex.symm
  cases hfirst
  exact ⟨⟨1, hplace, rfl⟩, hpicks _ _ (by decide) hsplit rfl⟩

end Shared

end Tabula
