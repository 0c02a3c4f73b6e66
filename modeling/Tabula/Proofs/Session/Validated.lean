import Tabula.Proofs.Condition.Fault
import Tabula.Proofs.Session.Durable

/-!
# Commands with a validated condition

A command asks its condition of each row only after it has validated it under the header of the
table. Validation finds every fault that a row could bring to light, so a command with a validated
condition goes through all the rows: a query answers, and an update or a deletion is left with
nothing to do but to write the file (`PassesRows`).
-/

namespace Tabula

/-! ### Evaluation of all rows -/

namespace Condition

variable {condition : Option String} {header : List String}

/-- A condition that has been validated has a truth value on each of any number of rows. -/
theorem exists_evaluateAll (h : (read condition).validate header = .ok ())
    (noted : List ConditionError) (rows : List (List String)) :
    ∃ selected faults,
      (read condition).evaluateAll header noted rows = .ok (selected, faults) := by
  induction rows generalizing noted with
  | nil => exact ⟨[], noted, rfl⟩
  | cons row rows ih =>
    cases hrow : (read condition).evaluate header row noted with
    | error e =>
      rw [evaluate_eq_error_iff, ← validate_eq_error_iff, h] at hrow
      cases hrow
    | ok result =>
      obtain ⟨truth, noted'⟩ := result
      obtain ⟨selected, faults, hrest⟩ := ih noted'
      refine ⟨truth :: selected, faults, ?_⟩
      rw [evaluateAll, hrow, ok_bind]
      dsimp only
      rw [hrest]
      rfl

end Condition

/-! ### Commands -/

open Operation

variable {w : World} {name condition : String} {t : Table} {path : Path}
  {selected : List Bool} {faults : List ConditionError}

theorem World.exists_tablePath (ht : w.table name = .ok t) :
    ∃ path, w.session.tablePath name = .ok path ∧ w.files.table name path = .ok t :=
  bind_eq_ok_iff.1 ht

namespace Table

theorem validated_of_validate {c : Condition} (h : c.validate t.headers = .ok ()) :
    t.validated c = .ok () := mapError_eq_ok_iff.2 h

theorem judged_of_evaluateAll {c : Condition}
    (h : c.evaluateAll t.headers [] (t.rows.map Row.values) = .ok (selected, faults)) :
    t.judged c = .ok (selected, faults) := mapError_eq_ok_iff.2 h

end Table

/-- The commands about the rows of a table on which a condition is true go through all of them and
find on which it is. What is left to an update and a deletion is to write the table. -/
structure PassesRows (w : World) (name : String) (condition : Option String) (t : Table)
    (path : Path) (selected : List Bool) (faults : List ConditionError) : Prop where
  length : selected.length = t.rows.length
  select : ∀ columns shown, t.shown columns = .ok shown →
    (Command.select name columns condition).run.run w = .ok {
      columns := shown.headers
      rows := (chosen selected shown.rows).map Row.values
      warnings := faults.map ConditionError.message } w
  update : ∀ text ∈ condition, ∀ assignments, t.assignable (assignments.map Prod.fst) = .ok () →
    (Command.update name assignments text).run.run w = (do
      store { t with rows := Table.overwritten selected assignments t.rows } path
      return { warnings := faults.map ConditionError.message } : Operation Answer).run w
  delete : ∀ text ∈ condition, (Command.delete name text).run.run w = (do
      store { t with rows := chosen (selected.map not) t.rows } path
      return { warnings := faults.map ConditionError.message } : Operation Answer).run w

/-- A change of a table that finds what the table becomes has only to write it. -/
theorem run_changeTable_of_eq_ok {f : Table → Except Failure (Table × Answer)} {t' : Table}
    {a : Answer} (hpath : w.session.tablePath name = .ok path)
    (ht : w.files.table name path = .ok t) (hf : f t = .ok (t', a)) :
    (changeTable name f).run w = (do store t' path; return a : Operation Answer).run w := by
  rw [run_changeTable, hpath]
  dsimp only
  rw [ht, ok_bind, hf]

theorem PassesRows.of_evaluateAll {condition : Option String}
    (hpath : w.session.tablePath name = .ok path) (ht : w.files.table name path = .ok t)
    (hvalidate : (Condition.read condition).validate t.headers = .ok ())
    (hevaluate : (Condition.read condition).evaluateAll t.headers [] (t.rows.map Row.values) =
      .ok (selected, faults)) :
    PassesRows w name condition t path selected faults := by
  have htable : w.table name = .ok t := bind_eq_ok_iff.2 ⟨path, hpath, ht⟩
  have haligned := (storable_of_worldTable htable).1.aligned
  have hvalidated := Table.validated_of_validate hvalidate
  have hjudged := Table.judged_of_evaluateAll hevaluate
  refine ⟨Table.length_of_judged hjudged, ?_, ?_, ?_⟩
  · intro columns shown hshown
    rw [Command.run, run_selectFrom, htable, ok_bind, Table.queried_eq haligned, hvalidated,
      ok_bind, hshown, ok_bind, hjudged]
    rfl
  · rintro text rfl assignments hassignable
    rw [Command.run, updateTable_eq]
    refine run_changeTable_of_eq_ok hpath ht ?_
    rw [Table.updated_eq haligned, hassignable, ok_bind, hvalidated, ok_bind, hjudged]
    rfl
  · rintro text rfl
    rw [Command.run, deleteFrom_eq]
    refine run_changeTable_of_eq_ok hpath ht ?_
    rw [Table.deleted_eq, hvalidated, ok_bind, hjudged]
    rfl

namespace Operation

/-- A condition is at fault under a header when it is validated exactly if it is on each row when it
is evaluated, and the fault is the same. If it is not, it can be asked of any number of rows, and no
command about the rows of a table fails on the way through them. -/
theorem validate_eq_error_iff_evaluate (condition : Option String) :
    (∀ header row noted e, (Condition.read condition).validate header = .error e ↔
      (Condition.read condition).evaluate header row noted = .error e) ∧
    (∀ header e, (Condition.read condition).validate header = .error e ↔
      Condition.Faulty header condition e) ∧
    (∀ header, (Condition.read condition).validate header = .ok () → ∀ noted rows,
      ∃ selected faults, selected.length = rows.length ∧
        (Condition.read condition).evaluateAll header noted rows = .ok (selected, faults)) ∧
    ∀ w name t, World.table w name = .ok t →
      (Condition.read condition).validate t.headers = .ok () →
      ∃ path selected faults, w.session.tablePath name = .ok path ∧
        (Condition.read condition).evaluateAll t.headers [] (t.rows.map Row.values) =
          .ok (selected, faults) ∧
        PassesRows w name condition t path selected faults := by
  refine ⟨?_, fun header e => Condition.validate_eq_error_iff, ?_, ?_⟩
  · intro header row noted e
    rw [Condition.validate_eq_error_iff, Condition.evaluate_eq_error_iff]
  · intro header hvalidate noted rows
    obtain ⟨selected, faults, h⟩ := Condition.exists_evaluateAll hvalidate noted rows
    exact ⟨selected, faults, Condition.length_of_evaluateAll h, h⟩
  · intro w name t ht hvalidate
    obtain ⟨path, hpath, hfile⟩ := World.exists_tablePath ht
    obtain ⟨selected, faults, h⟩ :=
      Condition.exists_evaluateAll hvalidate [] (t.rows.map Row.values)
    exact ⟨path, selected, faults, hpath, h, .of_evaluateAll hpath hfile hvalidate h⟩

/-- A term on a column that is not there is a fault on its own, and none in parentheses. -/
theorem validate_eq_error_iff_evaluate_sample :
    (Condition.read (some "b == 'y'")).validate ["id", "a"] = .error (.columnNotFound "b") ∧
    (∀ row noted, (Condition.read (some "b == 'y'")).evaluate ["id", "a"] row noted =
      .error (.columnNotFound "b")) ∧
    (Condition.read (some "( a == 'x' ) AND ( b == 'y' )")).validate ["id", "a"] = .ok () ∧
    ∃ t path selected faults, (World.sample "id\ta\n1\tx\n").table "t" = .ok t ∧
      (Condition.read (some "( a == 'x' ) AND ( b == 'y' )")).evaluateAll t.headers []
        (t.rows.map Row.values) = .ok (selected, faults) ∧
      PassesRows (.sample "id\ta\n1\tx\n") "t" (some "( a == 'x' ) AND ( b == 'y' )") t path
        selected faults := by
  have herror : (Condition.read (some "b == 'y'")).validate ["id", "a"] =
      .error (.columnNotFound "b") := rfl
  have hok : (Condition.read (some "( a == 'x' ) AND ( b == 'y' )")).validate ["id", "a"] =
      .ok () := rfl
  have htable : (World.sample "id\ta\n1\tx\n").table "t" =
      .ok ⟨"t", ["id", "a"], [⟨[("id", "1"), ("a", "x")]⟩]⟩ := by
    rw [World.table_sample, read_sample]
    rfl
  obtain ⟨path, selected, faults, -, hevaluate, hpasses⟩ :=
    (validate_eq_error_iff_evaluate (some "( a == 'x' ) AND ( b == 'y' )")).2.2.2
      (.sample "id\ta\n1\tx\n") "t" ⟨"t", ["id", "a"], [⟨[("id", "1"), ("a", "x")]⟩]⟩ htable hok
  refine ⟨herror, fun row noted => ?_, hok, _, path, selected, faults, htable, hevaluate, hpasses⟩
  exact ((validate_eq_error_iff_evaluate (some "b == 'y'")).1 _ row noted _).1 herror

end Operation

end Tabula
