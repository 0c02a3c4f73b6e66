import Mathlib.Data.List.Nodup
import Tabula.Proofs.Table.Column
import Tabula.Proofs.Table.RoundTrip

/-!
# Calls on tables

A table has its header, and each of its rows carries the names of its columns once more. The two
stay in step under every call that a table takes, as long as no name stands twice in the header
(`Lockstep`): a call that is refused changes nothing, and one that is accepted changes the header
and all rows alike (`Call.run_edit`). So whether a call is refused can be read off the header and
the number of rows, and no row is ever asked for a column that it lacks (`Made.lockstep_and_run`).

## Main definitions

* `Call`, `Call.edit` — the calls that a table takes, and what they do.
* `Call.refusal?`, `Call.result` — why a call is refused, and what it makes of a table if it is not.
* `Lockstep` — no name stands twice in the header, and every row carries the header.
* `Made` — the tables that are made by calls, some of them refused, from new ones and from files.
-/

namespace Tabula.Table

/-- A call on a table. -/
inductive Call
  | addColumn (column : String)
  | deleteColumn (column : String)
  | project (names : List String)
  | addRow (values : List String)
  | updateCell (index : Int) (column value : String)
  | deleteRowAt (index : Int)

/-- What a call gives back. -/
inductive Reply
  | nothing
  | row (r : Row)
  | table (t : Table)

/-- What a call does. A projection leaves the table as it is and gives back another one. -/
def Call.edit : Call → Edit Reply
  | addColumn column => do
    Table.addColumn column
    return .nothing
  | deleteColumn column => do
    Table.deleteColumn column
    return .nothing
  | project names => do
    match (← get).project names with
    | .ok t => return .table t
    | .error e => throw e
  | addRow values => return .row (← Table.addRow values)
  | updateCell index column value => do
    Table.updateCell index column value
    return .nothing
  | deleteRowAt index => do
    Table.deleteRowAt index
    return .nothing

/-! ### Indices of rows -/

/-- What is wrong with the index of a row: it has more than 64 bits, or there is no such row. -/
def indexFault? (t : Table) (index : Int) (absent : ShapeError) : Option ShapeError :=
  if index < -9223372036854775808 ∨ 9223372036854775807 < index then some .indexTooLarge
  else if -t.rows.length ≤ index ∧ index < t.rows.length then none
  else some absent

/-- The place of a row by its index, which counts from the end if it is negative. -/
def place (t : Table) (index : Int) : Nat :=
  (if index < 0 then index + t.rows.length else index).toNat

variable {t t' : Table} {index : Int} {column value : String} {values : List String}
  {call : Call} {reply : Reply} {e : TableError}

theorem place_lt {absent : ShapeError} (h : t.indexFault? index absent = none) :
    t.place index < t.rows.length := by
  unfold indexFault? at h
  unfold place
  grind

/-- What is done at the place of an index is refused for the index, if it refuses all places that
have no row in this way. -/
theorem run_placeOf_bind {α : Type} {absent : ShapeError} {f : Nat → Edit α}
    (hf : ∀ place, t.rows.length ≤ place → (f place).run t = .error (.shape absent) t) :
    (liftShape (t.placeOf index absent) >>= f).run t =
      match t.indexFault? index absent with
      | some e => .error (.shape e) t
      | none => (f (t.place index)).run t := by
  by_cases hwide : index < -9223372036854775808 ∨ 9223372036854775807 < index
  · rw [placeOf, indexFault?, if_pos hwide, if_pos hwide]
    rfl
  have hplace : t.placeOf index absent =
      if index + t.rows.length < 0 then .error absent else .ok (t.place index) := by
    rw [placeOf, if_neg hwide, place]
    grind
  rw [hplace, indexFault?, if_neg hwide]
  by_cases hfront : index + t.rows.length < 0
  · rw [if_pos hfront, if_neg (by omega)]
    rfl
  rw [if_neg hfront]
  by_cases hback : index < t.rows.length
  · rw [if_pos ⟨by omega, hback⟩]
    rfl
  · rw [if_neg (by omega)]
    exact hf _ (by unfold place; grind)

theorem run_changeCell_of_length_le {place : Nat} (hplace : t.rows.length ≤ place)
    (h : column ∈ t.headers) (value : String) :
    (changeCell place column value).run t = .error (.shape .noRowToChange) t := by
  simp [changeCell, hasColumn_iff, h, row, List.getElem?_eq_none hplace, liftShape]
  rfl

theorem run_deleteRow_of_length_le {place : Nat} (hplace : t.rows.length ≤ place) :
    (deleteRow place).run t = .error (.shape .noRowToDelete) t := by
  simp [deleteRow, row, List.getElem?_eq_none hplace, liftShape]
  rfl

theorem run_addRow_of_ne (h : t.headers.length ≠ values.length) :
    (addRow values).run t =
      .error (.shape (.valueCount t.headers.length values.length)) t := by
  simp [addRow, Row.ofValues, h, liftShape]
  rfl

theorem run_updateCell (ht : t.Aligned) (h : column ∈ t.headers) (index : Int) (value : String) :
    (updateCell index column value).run t =
      match t.indexFault? index .noRowToChange with
      | some e => .error (.shape e) t
      | none => .ok ()
          { t with rows := t.rows.modify (t.place index) (·.setColumn column value) } := by
  have hchange := fun place (hplace : t.rows.length ≤ place) =>
    run_changeCell_of_length_le hplace h value
  have hrun : (updateCell index column value).run t =
      (liftShape (t.placeOf index .noRowToChange) >>=
        fun place => changeCell place column value).run t := by
    simp [updateCell, hasColumn_iff, h]
  rw [hrun, run_placeOf_bind hchange]
  cases hfault : t.indexFault? index .noRowToChange with
  | some e => rfl
  | none =>
    have hplace := place_lt hfault
    have hmodify : t.rows.modify (t.place index) (·.setColumn column value) =
        t.rows.set (t.place index) (t.rows[t.place index].setColumn column value) := by
      rw [List.modify_eq_set_getElem?, List.getElem?_eq_getElem hplace]
      rfl
    have hrow := ht _ (List.getElem_mem hplace)
    dsimp only
    rw [run_changeCell hplace hrow h, hmodify]

theorem run_deleteRowAt (t : Table) (index : Int) :
    (deleteRowAt index).run t =
      match t.indexFault? index .noRowToDelete with
      | some e => .error (.shape e) t
      | none => .ok () { t with rows := t.rows.eraseIdx (t.place index) } := by
  have hdelete := fun place (hplace : t.rows.length ≤ place) =>
    run_deleteRow_of_length_le hplace
  have hrun : (deleteRowAt index).run t =
      (liftShape (t.placeOf index .noRowToDelete) >>= deleteRow).run t := rfl
  rw [hrun, run_placeOf_bind hdelete]
  cases hfault : t.indexFault? index .noRowToDelete with
  | some e => rfl
  | none => exact run_deleteRow (place_lt hfault)

/-! ### What calls do -/

namespace Call

/-- Why a call is refused, as far as the header and the number of rows say. -/
def refusal? (t : Table) : Call → Option TableError
  | addColumn column => if column ∈ t.headers then some (.columnExists column) else none
  | deleteColumn column => if column ∈ t.headers then none else some (.columnMissing column)
  | project names => (names.find? (· ∉ t.headers)).map .columnMissing
  | addRow values =>
    if t.headers.length = values.length then none
    else some (.shape (.valueCount t.headers.length values.length))
  | updateCell index column _ =>
    if column ∈ t.headers then (t.indexFault? index .noRowToChange).map .shape
    else some (.columnMissing column)
  | deleteRowAt index => (t.indexFault? index .noRowToDelete).map .shape

/-- What a call gives back if it is not refused, and the table that it leaves. -/
def result (t : Table) : Call → Reply × Table
  | addColumn column => (.nothing, t.extended column)
  | deleteColumn column => (.nothing, t.reduced column)
  | project names => (.table (t.projection names), t)
  | addRow values =>
    let r : Row := ⟨t.headers.zip values⟩
    (.row r, { t with rows := t.rows ++ [r] })
  | updateCell index column value =>
    (.nothing, { t with rows := t.rows.modify (t.place index) (·.setColumn column value) })
  | deleteRowAt index => (.nothing, { t with rows := t.rows.eraseIdx (t.place index) })

/-- The outcome of a call on an aligned table. -/
theorem run_edit (ht : t.Aligned) (call : Call) :
    call.edit.run t =
      match call.refusal? t with
      | some e => .error e t
      | none => .ok (call.result t).1 (call.result t).2 := by
  cases call with
  | addColumn column =>
    by_cases h : column ∈ t.headers
    · simp [-bind_pure_comp, edit, refusal?, run_addColumn_of_mem h, h]
    · simp [-bind_pure_comp, edit, refusal?, result, extended, run_addColumn h, h]
  | deleteColumn column =>
    by_cases h : column ∈ t.headers
    · simp [-bind_pure_comp, edit, refusal?, result, reduced, run_deleteColumn ht h, h]
    · simp [-bind_pure_comp, edit, refusal?, run_deleteColumn_of_not_mem h, h]
  | project names =>
    simp only [edit, EStateM.run_bind, EStateM.run_get, project_eq ht, refusal?, result]
    have hfind : names.find? (fun n => !t.hasColumn n) = names.find? (· ∉ t.headers) := by
      congr 1
      funext n
      simp [hasColumn]
    rw [hfind]
    cases names.find? (· ∉ t.headers) <;> rfl
  | addRow values =>
    by_cases h : t.headers.length = values.length
    · simp [-bind_pure_comp, edit, refusal?, result, run_addRow h, h]
    · simp [-bind_pure_comp, edit, refusal?, run_addRow_of_ne h, h]
  | updateCell index column value =>
    by_cases h : column ∈ t.headers
    · simp only [edit, EStateM.run_bind, run_updateCell ht h, refusal?, if_pos h, result]
      cases t.indexFault? index .noRowToChange <;> rfl
    · simp [-bind_pure_comp, edit, refusal?, Table.updateCell, hasColumn_iff, h]
  | deleteRowAt index =>
    simp only [edit, EStateM.run_bind, run_deleteRowAt, refusal?, result]
    cases t.indexFault? index .noRowToDelete <;> rfl

/-- No call is refused for a column that a row lacks. -/
theorem refusal?_ne_noColumn (t : Table) (call : Call) (column : String) :
    call.refusal? t ≠ some (.shape (.noColumn column)) := by
  cases call <;> simp [refusal?, indexFault?] <;> grind

end Call

/-! ### Header and rows in step -/

/-- No name stands twice in the header, and every row carries the header. -/
structure Lockstep (t : Table) : Prop where
  nodup_headers : t.headers.Nodup
  aligned : t.Aligned

namespace Lockstep

theorem extended (h : t.Lockstep) (hnew : column ∉ t.headers) : (t.extended column).Lockstep where
  nodup_headers := by
    rw [Table.extended, ← List.concat_eq_append]
    exact h.nodup_headers.concat hnew
  aligned r hr := by
    obtain ⟨s, hs, rfl⟩ := List.mem_map.1 hr
    rw [Row.headers_withColumn, h.aligned s hs]
    rfl

/-- The header loses a name once, a row all cells under it: this is the same as no name is
repeated. -/
theorem reduced (h : t.Lockstep) (column : String) : (t.reduced column).Lockstep where
  nodup_headers := h.nodup_headers.erase column
  aligned r hr := by
    obtain ⟨s, hs, rfl⟩ := List.mem_map.1 hr
    rw [Row.headers_dropColumn, h.aligned s hs, headers_reduced h.nodup_headers]

theorem projection (h : t.Lockstep) (names : List String) : (t.projection names).Lockstep where
  nodup_headers := h.nodup_headers.filter _
  aligned r hr := by
    obtain ⟨s, -, rfl⟩ := List.mem_map.1 hr
    exact Row.headers_zip (List.length_map _).symm

/-- Rows may be exchanged for others that carry the header. -/
theorem withRows (h : t.Lockstep) {rows : List Row} (hrows : ∀ r ∈ rows, r.headers = t.headers) :
    Lockstep { t with rows := rows } :=
  ⟨h.nodup_headers, hrows⟩

/-- A call that is not refused keeps header and rows in step, also those of a table that it gives
back. -/
theorem result (h : t.Lockstep) (hcall : call.refusal? t = none) :
    (call.result t).2.Lockstep ∧ ∀ t', (call.result t).1 = .table t' → t'.Lockstep := by
  cases call with
  | addColumn column =>
    have hnew : column ∉ t.headers := by simpa [Call.refusal?] using hcall
    exact ⟨h.extended hnew, nofun⟩
  | deleteColumn column => exact ⟨h.reduced column, nofun⟩
  | project names =>
    refine ⟨h, ?_⟩
    rintro _ ⟨⟩
    exact h.projection names
  | addRow values =>
    have hlength : t.headers.length = values.length := by simpa [Call.refusal?] using hcall
    refine ⟨h.withRows (List.forall_mem_append.2 ⟨h.aligned, ?_⟩), nofun⟩
    rintro r hr
    obtain rfl := List.mem_singleton.1 hr
    exact Row.headers_zip hlength
  | updateCell index column value =>
    refine ⟨h.withRows fun r hr => ?_, nofun⟩
    obtain ⟨i, hi, rfl⟩ := List.getElem_of_mem hr
    have hi : i < t.rows.length := by simpa using hi
    have hrow := h.aligned _ (List.getElem_mem hi)
    rw [List.getElem_modify]
    split
    · rwa [Row.headers_setColumn]
    · exact hrow
  | deleteRowAt index =>
    exact ⟨h.withRows fun r hr => h.aligned r (List.mem_of_mem_eraseIdx hr), nofun⟩

end Lockstep

/-! ### Runs of calls -/

/-- The tables that are made from new ones and from files by calls one after another. A call that is
refused may have changed the table as well, and a table that is given back takes calls too. -/
inductive Made : Table → Prop
  | new {name : String} {headers : List String} : headers.Nodup → Made (.empty name headers)
  | loaded {name : String} {path : Path} {w w' : World} {t : Table} :
      (Operation.load name path).run w = .ok t w' → t.headers.Nodup → Made t
  | called {t t' : Table} {call : Call} {reply : Reply} :
      Made t → call.edit.run t = .ok reply t' → Made t'
  | refused {t t' : Table} {call : Call} {e : TableError} :
      Made t → call.edit.run t = .error e t' → Made t'
  | given {t t' given : Table} {call : Call} :
      Made t → call.edit.run t = .ok (.table given) t' → Made given

theorem Lockstep.refusal?_of_run (h : t.Lockstep) :
    call.edit.run t = .error e t' ↔ call.refusal? t = some e ∧ t' = t := by
  rw [Call.run_edit h.aligned]
  cases call.refusal? t with
  | some e => simp [eq_comm]
  | none => simp

theorem Lockstep.result_of_run (h : t.Lockstep) :
    call.edit.run t = .ok reply t' ↔ call.refusal? t = none ∧ (reply, t') = call.result t := by
  rw [Call.run_edit h.aligned]
  cases call.refusal? t with
  | some e => simp
  | none => simp [Prod.ext_iff, eq_comm]

theorem Made.lockstep (h : Made t) : t.Lockstep := by
  induction h with
  | new hnodup => exact ⟨hnodup, nofun⟩
  | loaded hload hnodup =>
    obtain ⟨htable, -⟩ := Operation.load_eq_ok_iff.1 hload
    exact ⟨hnodup, (FileTree.storable_of_table htable).1.aligned⟩
  | called _ hrun ih =>
    obtain ⟨hcall, hresult⟩ := ih.result_of_run.1 hrun
    obtain ⟨rfl, rfl⟩ := Prod.ext_iff.1 hresult
    exact (ih.result hcall).1
  | refused _ hrun ih =>
    obtain ⟨-, rfl⟩ := ih.refusal?_of_run.1 hrun
    exact ih
  | given _ hrun ih =>
    obtain ⟨hcall, hresult⟩ := ih.result_of_run.1 hrun
    exact (ih.result hcall).2 _ (Prod.ext_iff.1 hresult).1.symm

/-- In a table that calls have made, whichever of them were refused, no name stands twice in the
header and every row carries the header. A call on it is refused for what the header and the number
of rows say, never for a column that a row lacks, and then changes nothing. -/
theorem Made.lockstep_and_run (h : Made t) :
    t.headers.Nodup ∧ (∀ r ∈ t.rows, r.headers = t.headers) ∧ ∀ call : Call,
      (∀ e t', call.edit.run t = .error e t' ↔ call.refusal? t = some e ∧ t' = t) ∧
      (∀ column t', call.edit.run t ≠ .error (.shape (.noColumn column)) t') ∧
      ∀ reply t', call.edit.run t = .ok reply t' ↔
        call.refusal? t = none ∧ (reply, t') = call.result t := by
  have hlockstep := h.lockstep
  refine ⟨hlockstep.nodup_headers, hlockstep.aligned, fun call => ⟨?_, ?_, ?_⟩⟩
  · intro e t'
    exact hlockstep.refusal?_of_run
  · intro column t' hrun
    exact call.refusal?_ne_noColumn t column (hlockstep.refusal?_of_run.1 hrun).1
  · intro reply t'
    exact hlockstep.result_of_run

/-- A table that has gained and lost a column, and was asked for a column twice, projected on what
is left. -/
theorem Made.lockstep_and_run_projected :
    Made ⟨"t", ["b"], [⟨[("b", "")]⟩]⟩ ∧
      (Call.deleteRowAt 1).edit.run ⟨"t", ["b"], [⟨[("b", "")]⟩]⟩ =
        .error (.shape .noRowToDelete) ⟨"t", ["b"], [⟨[("b", "")]⟩]⟩ ∧
      (Call.updateCell (-1) "b" "x").edit.run ⟨"t", ["b"], [⟨[("b", "")]⟩]⟩ =
        .ok .nothing ⟨"t", ["b"], [⟨[("b", "x")]⟩]⟩ := by
  have hempty : Made (.empty "t" ["id", "a"]) := .new (by decide)
  have hrow : Made ⟨"t", ["id", "a"], [⟨[("id", "1"), ("a", "v")]⟩]⟩ :=
    @Made.called _ _ (.addRow ["1", "v"]) _ hempty rfl
  have hadded : Made ⟨"t", ["id", "a", "b"], [⟨[("id", "1"), ("a", "v"), ("b", "")]⟩]⟩ :=
    @Made.called _ _ (.addColumn "b") _ hrow rfl
  have hagain : Made ⟨"t", ["id", "a", "b"], [⟨[("id", "1"), ("a", "v"), ("b", "")]⟩]⟩ :=
    @Made.refused _ _ (.addColumn "b") _ hadded rfl
  have hdeleted : Made ⟨"t", ["id", "b"], [⟨[("id", "1"), ("b", "")]⟩]⟩ :=
    @Made.called _ _ (.deleteColumn "a") _ hagain rfl
  have hgiven : Made ⟨"t", ["b"], [⟨[("b", "")]⟩]⟩ :=
    @Made.given _ _ _ (.project ["b"]) hdeleted rfl
  obtain ⟨-, -, hcalls⟩ := hgiven.lockstep_and_run
  refine ⟨hgiven, ?_, ?_⟩
  · exact ((hcalls (.deleteRowAt 1)).1 _ _).2 ⟨rfl, rfl⟩
  · exact ((hcalls (.updateCell (-1) "b" "x")).2.2 _ _).2 ⟨rfl, rfl⟩

end Tabula.Table
