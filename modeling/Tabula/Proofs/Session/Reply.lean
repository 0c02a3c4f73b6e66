import Tabula.Proofs.Command.Encoded
import Tabula.Proofs.Condition.Examined
import Tabula.Proofs.FileTree.Report
import Tabula.Proofs.Session.Encoded

/-!
# Responses that can be encoded

What a statement is answered with comes from its own text and from files, and the texts of files can
be encoded. So the response to a statement that can be encoded can be, whatever the session and the
files (`Operation.encodes_of_respond`).
-/

namespace Tabula

open Text (Encoding)
open Text.Encoding (encodes_of_isLow)

variable {e : Encoding} {α β : Type}

/-! ### Conditions -/

namespace Condition

variable {header row : List String} {text : String} {fault : ConditionError}

/-- The texts that are read as terms. -/
def terms : Condition → List String
  | always => []
  | single term => [term]
  | anyOf terms | allOf terms => terms

theorem mem_of_mem_groups {inside : Option (List Char)} {s g : List Char}
    (h : g ∈ groups inside s) : ∀ c ∈ g, c ∈ inside.getD [] ∨ c ∈ s := by
  fun_induction groups inside s <;> grind

theorem mem_of_mem_trim {s : List Char} {c : Char} (h : c ∈ Text.trim s) : c ∈ s := by
  have hstart := List.mem_reverse.1 ((List.dropWhile_sublist _).subset (List.mem_reverse.1 h))
  exact (List.dropWhile_sublist _).subset hstart

theorem encodes_strip (h : e.Encodes text) : e.Encodes (Text.strip text) :=
  h.of_subset fun c hc => mem_of_mem_trim (by rwa [Text.toList_strip] at hc)

theorem encodes_terms_readText (h : e.Encodes text) : ∀ t ∈ (readText text).terms, e.Encodes t := by
  have hgroups : ∀ t ∈ (groups none text.toList).map fun g => String.ofList (Text.trim g),
      e.Encodes t := by
    refine List.forall_mem_map.2 fun g hg => h.of_subset fun c hc => ?_
    rw [String.toList_ofList] at hc
    simpa using mem_of_mem_groups hg c (mem_of_mem_trim hc)
  unfold readText
  split
  · nofun
  · split
    · simpa [terms] using h
    · split <;> exact hgroups

theorem encodes_terms_read {condition : Option String} (h : ∀ c ∈ condition, e.Encodes c) :
    ∀ t ∈ (read condition).terms, e.Encodes t := by
  cases condition with
  | none => nofun
  | some text => exact encodes_terms_readText (h text rfl)

/-- What is said of a term names a part of it. -/
theorem TermFault.encodes_message (htext : e.Encodes text) (h : TermFault header text fault) :
    e.Encodes fault.message := by
  cases h with
  | malformed => exact (encodes_of_isLow (by decide)).append (encodes_strip htext)
  | columnNotFound hsplit =>
    obtain ⟨before, column, between, rest, operator, value, hcut, -, -, -, -, -, rfl⟩ :=
      Term.exists_cut hsplit
    have hcolumn : e.Encodes (String.ofList column) := htext.of_subset fun c hc => by
      rw [String.toList_ofList] at hc
      simp [hcut, hc]
    exact (encodes_of_isLow (by decide)).append hcolumn

variable {c : Condition} {rows : List (List String)} {noted noted' : List ConditionError}

theorem exists_of_holds_error {t : String} (hterms : ∀ t ∈ c.terms, e.Encodes t)
    (ht : t ∈ c.terms) (h : holds header row t = .error fault) : e.Encodes fault.message :=
  (holds_eq_error_iff.1 h).encodes_message (hterms t ht)

section

variable (hterms : ∀ t ∈ c.terms, e.Encodes t)

include hterms

theorem encodes_of_validate_error (h : c.validate header = .error fault) :
    e.Encodes fault.message := by
  cases c with
  | single term =>
    have hresolve := resolve_eq_error_iff_termFault.1 (map_eq_error_iff.1 h)
    exact hresolve.encodes_message (hterms term (by simp [terms]))
  | _ => cases h

theorem encodes_of_evaluate_error (h : c.evaluate header row noted = .error fault) :
    e.Encodes fault.message := by
  cases c with
  | single term =>
    exact exists_of_holds_error hterms (by simp [terms]) (map_eq_error_iff.1 h)
  | _ => cases h

theorem encodes_of_evaluate {truth : Bool} (hnoted : ∀ f ∈ noted, e.Encodes f.message)
    (h : c.evaluate header row noted = .ok (truth, noted')) :
    ∀ f ∈ noted', e.Encodes f.message := by
  cases c with
  | always =>
    cases h
    exact hnoted
  | single term =>
    obtain ⟨_, -, h⟩ : ∃ b, holds header row term = .ok b ∧ (b, noted) = (truth, noted') := by
      cases hholds : holds header row term with
      | error => simp [evaluate, hholds, Except.map] at h
      | ok b => simpa [evaluate, hholds, Except.map] using h
    cases h
    exact hnoted
  | anyOf ts =>
    obtain rfl := congrArg Prod.snd (Except.ok.inj h)
    intro f hf
    rcases mem_snd_someHolds.1 hf with hf | ⟨t, ht, hfault⟩
    · exact hnoted f hf
    · exact exists_of_holds_error hterms (mem_of_mem_examined ht) hfault
  | allOf ts =>
    obtain rfl := congrArg Prod.snd (Except.ok.inj h)
    intro f hf
    rcases mem_snd_allHold.1 hf with hf | ⟨t, ht, hfault⟩
    · exact hnoted f hf
    · exact exists_of_holds_error hterms (mem_of_mem_examined ht) hfault

theorem encodes_of_evaluateAll {selected : List Bool} (hnoted : ∀ f ∈ noted, e.Encodes f.message)
    (h : c.evaluateAll header noted rows = .ok (selected, noted')) :
    ∀ f ∈ noted', e.Encodes f.message := by
  induction rows generalizing noted selected with
  | nil =>
    cases h
    exact hnoted
  | cons row rows ih =>
    rw [evaluateAll] at h
    obtain ⟨⟨truth, noted₁⟩, hrow, h⟩ := bind_eq_ok_iff.1 h
    obtain ⟨⟨truths, noted₂⟩, hrows, h⟩ := bind_eq_ok_iff.1 h
    cases h
    exact ih (encodes_of_evaluate hterms hnoted hrow) hrows

theorem encodes_of_evaluateAll_error (h : c.evaluateAll header noted rows = .error fault) :
    e.Encodes fault.message := by
  induction rows generalizing noted with
  | nil => cases h
  | cons row rows ih =>
    rw [evaluateAll] at h
    rcases bind_eq_error_iff.1 h with hrow | ⟨⟨truth, noted₁⟩, -, h⟩
    · exact encodes_of_evaluate_error hterms hrow
    · rcases bind_eq_error_iff.1 h with hrows | ⟨_, -, h⟩
      · exact ih hrows
      · cases h

end

end Condition

/-! ### Operations -/

/-- All texts in the answer can be encoded. -/
structure Answer.Encoded (a : Answer) (e : Encoding) : Prop where
  columns : ∀ s ∈ a.columns, e.Encodes s
  rows : ∀ r ∈ a.rows, ∀ s ∈ r, e.Encodes s
  warnings : ∀ s ∈ a.warnings, e.Encodes s

theorem Answer.encoded_empty : Answer.Encoded {} e := ⟨nofun, nofun, nofun⟩

theorem Answer.Encoded.encodes_text {a : Answer} (h : a.Encoded e) : e.Encodes a.text := by
  have htab : e.Encodes "\t" := encodes_of_isLow (by decide)
  have hrow {row : List String} (hrow : ∀ s ∈ row, e.Encodes s) :
      e.Encodes ("\t".intercalate row) := (Encoding.encodes_intercalate htab).2 hrow
  have hlines : ∀ l ∈ a.lines, e.Encodes l := by
    refine List.forall_mem_append.2 ⟨List.forall_mem_cons.2 ⟨encodes_of_isLow (by decide), ?_⟩, ?_⟩
    · split
      · nofun
      · refine List.forall_mem_cons.2 ⟨hrow h.columns, List.forall_mem_map.2 fun r hr => ?_⟩
        exact hrow (h.rows r hr)
    · exact List.forall_mem_map.2 fun w hw =>
        (encodes_of_isLow (by decide)).append (h.warnings w hw)
  intro c hc
  rw [Answer.text, String.toList_join, List.flatMap_map] at hc
  obtain ⟨l, hl, hc⟩ := List.mem_flatMap.1 hc
  exact (hlines l hl).append (encodes_of_isLow (by decide)) c hc

namespace Operation

/-- On files with this encoding an operation comes to something of which `said` holds, or it fails
with a message that can be encoded. -/
def Speaks (e : Encoding) (operation : Operation α) (said : α → Prop) : Prop :=
  ∀ ⦃w : World⦄, w.files.encoding = e →
    (∀ a w', operation.run w = .ok a w' → said a ∧ w'.files.encoding = e) ∧
      ∀ f w', operation.run w = .error f w' → e.Encodes f.message

variable {operation : Operation α} {f : α → Operation β} {P : α → Prop} {Q : β → Prop}

theorem speaks_iff : Speaks e operation P ↔ ∀ w : World, w.files.encoding = e →
    match operation.run w with
    | .ok a w' => P a ∧ w'.files.encoding = e
    | .error f _ => e.Encodes f.message := by
  constructor
  · intro h w hw
    obtain ⟨hok, herror⟩ := h hw
    cases hrun : operation.run w with
    | ok a w' => exact hok a w' hrun
    | error f w' => exact herror f w' hrun
  · intro h w hw
    have hrun := h w hw
    refine ⟨fun a w' hok => ?_, fun f w' herror => ?_⟩
    · rwa [hok] at hrun
    · rwa [herror] at hrun

theorem speaks_return {a : α} (h : P a) : Speaks e (pure a) P :=
  speaks_iff.2 fun _ hw => ⟨h, hw⟩

theorem Speaks.bind (hp : Speaks e operation P) (hf : ∀ a, P a → Speaks e (f a) Q) :
    Speaks e (operation >>= f) Q := by
  refine speaks_iff.2 fun w hw => ?_
  have hfirst := speaks_iff.1 hp w hw
  rw [EStateM.run_bind]
  cases hrun : operation.run w with
  | ok a w₁ =>
    rw [hrun] at hfirst
    exact speaks_iff.1 (hf a hfirst.1) w₁ hfirst.2
  | error fault w₁ =>
    rw [hrun] at hfirst
    exact hfirst

theorem speaks_throw {failure : Failure} (h : e.Encodes failure.message) :
    Speaks e (throw failure : Operation α) P :=
  speaks_iff.2 fun _ _ => h

theorem speaks_get : Speaks e get (·.files.encoding = e) := speaks_iff.2 fun _ hw => ⟨hw, hw⟩

theorem speaks_modify {g : World → World}
    (h : ∀ w : World, w.files.encoding = e → (g w).files.encoding = e) :
    Speaks e (modify g) fun _ => True :=
  speaks_iff.2 fun w hw => ⟨trivial, h w hw⟩

theorem speaks_settle {x : Except Failure α} (hok : ∀ a, x = .ok a → P a)
    (herror : ∀ f, x = .error f → e.Encodes f.message) : Speaks e (settle x) P := by
  cases x with
  | ok a => exact speaks_return (hok a rfl)
  | error f => exact speaks_throw (herror f rfl)

/-- What the files are asked is answered with a message of the system at most. -/
theorem speaks_query (question : FileTree → Except FileError α) :
    Speaks e (query question) fun _ => True := by
  refine speaks_get.bind fun w _ => ?_
  rw [lift_eq]
  refine speaks_settle (fun _ _ => trivial) fun f hf => ?_
  obtain ⟨fault, -, rfl⟩ := mapError_eq_error_iff.1 hf
  exact fault.refusal.encodes_message

theorem speaks_change {action : FileTree → Except FileError FileTree}
    (h : ∀ t t', action t = .ok t' → t'.encoding = t.encoding) :
    Speaks e (change action) fun _ => True := by
  refine speaks_iff.2 fun w hw => ?_
  rw [run_change]
  cases haction : action w.files with
  | ok files => exact ⟨trivial, (h _ _ haction).trans hw⟩
  | error fault => exact fault.refusal.encodes_message

theorem speaks_removeTree (path : Path) : Speaks e (removeTree path) fun _ => True := by
  refine speaks_iff.2 fun w hw => ?_
  have hencoding := w.files.encoding_removeTree path
  rw [run_removeTree]
  cases hremove : w.files.removeTree path with
  | mk outcome files =>
    rw [hremove] at hencoding
    cases outcome with
    | ok u => exact ⟨trivial, hencoding.trans hw⟩
    | error fault => exact fault.refusal.encodes_message

theorem speaks_fail {error : OperationError} (h : e.Encodes error.message) :
    Speaks e (fail error : Operation α) P := speaks_throw h

theorem speaks_tablePath (name : String) : Speaks e (tablePath name) fun _ => True := by
  refine speaks_get.bind fun w _ => ?_
  split
  · exact speaks_fail (encodes_of_isLow (by decide))
  · exact speaks_return trivial

section

variable {name : String} (hname : e.Encodes name)

include hname

theorem encodes_tableMissing : e.Encodes (OperationError.tableMissing name).message :=
  (encodes_of_isLow (by decide)).append hname

theorem encodes_malformedRow (line expected got : Nat) :
    e.Encodes (TableError.malformedRow line name expected got).message := by
  have hnumber (n : Nat) : e.Encodes (toString n) := Text.encodes_toString n
  have hline : e.Encodes ("Malformed row on line " ++ toString line) :=
    (encodes_of_isLow (by decide)).append (hnumber line)
  have htable : e.Encodes ("Malformed row on line " ++ toString line ++ " of table " ++ name) :=
    (hline.append (encodes_of_isLow (by decide))).append hname
  exact (((htable.append (encodes_of_isLow (by decide))).append (hnumber expected)).append
    (encodes_of_isLow (by decide))).append (hnumber got)

/-- What a table that is read says, and what is said if it cannot be. -/
theorem speaks_load (path : Path) : Speaks e (load name path) fun t =>
    t.Storable ∧ t.name = name ∧ t.Encoded e := by
  have hreading : e.Encodes ("Error occurred while reading table " ++ name ++ ": ") :=
    ((encodes_of_isLow (by decide)).append hname).append (encodes_of_isLow (by decide))
  intro w hw
  rw [run_load]
  refine speaks_settle (fun t ht => ?_) (fun f hf => ?_) hw
  · obtain ⟨hstorable, hsame⟩ := FileTree.storable_of_table ht
    exact ⟨hstorable, hsame, hw ▸ FileTree.encoded_of_table ht⟩
  rcases bind_eq_error_iff.1 hf with hthere | ⟨there, -, hf⟩
  · obtain ⟨fault, -, rfl⟩ := mapError_eq_error_iff.1 hthere
    exact fault.refusal.encodes_message
  cases there with
  | false =>
    cases hf
    exact encodes_tableMissing hname
  | true =>
    rcases bind_eq_error_iff.1 hf with hread | ⟨content, -, hf⟩
    · obtain ⟨fault, hfault, rfl⟩ := mapError_eq_error_iff.1 hread
      have hreport := fault.encodes_report
      rw [FileTree.encoding_of_readFile_error hfault, hw] at hreport
      exact hreading.append hreport
    rcases bind_eq_error_iff.1 hf with hdecode | ⟨text, -, hf⟩
    · obtain ⟨fault, -, rfl⟩ := mapError_eq_error_iff.1 hdecode
      exact hreading.append fault.encodes_message
    · obtain ⟨fault, hfault, rfl⟩ := mapError_eq_error_iff.1 hf
      obtain ⟨line, expected, got, rfl⟩ := Table.malformed_of_read_error hfault
      exact encodes_malformedRow hname line expected got

end

/-- A table is written, and then there is nothing to say but what is said anyway. -/
theorem speaks_store {t : Table} {a : α} (hname : e.Encodes t.name) (ha : P a) (path : Path) :
    Speaks e (do store t path; return a) P := by
  refine speaks_iff.2 fun w hw => ?_
  have hencoding := w.files.encoding_writeFile path t.fileText
  rw [run_store]
  cases hwrite : w.files.writeFile path t.fileText with
  | mk outcome files =>
    rw [hwrite] at hencoding
    cases outcome with
    | ok u => exact ⟨ha, hencoding.trans hw⟩
    | error fault =>
      dsimp only
      split
      · have hreport := fault.encodes_report
        rw [FileTree.encoding_of_writeFile_error hwrite, hw] at hreport
        exact (((encodes_of_isLow (by decide)).append hname).append
          (encodes_of_isLow (by decide))).append hreport
      · exact fault.refusal.encodes_message

theorem mem_of_repeated? {seen names : List String} {n : String}
    (h : repeated? seen names = some n) : n ∈ names := by
  induction names generalizing seen with
  | nil => cases h
  | cons m names ih =>
    rw [repeated?] at h
    split at h
    · exact Option.some.inj h ▸ List.mem_cons_self
    · exact List.mem_cons_of_mem m (ih h)

/-! ### Commands on databases -/

theorem speaks_databasePath (name : String) : Speaks e (databasePath name) fun _ => True :=
  speaks_get.bind fun _ _ => speaks_return trivial

theorem speaks_select (s : Option Selection) : Speaks e (select s) fun _ => True :=
  speaks_modify fun _ hw => hw

section

variable {name : String} (hname : e.Encodes name)

include hname

theorem speaks_useDatabase : Speaks e (useDatabase name) (·.Encoded e) := by
  refine (speaks_databasePath name).bind fun path _ => (speaks_query _).bind fun there _ => ?_
  cases there with
  | false => exact speaks_fail ((encodes_of_isLow (by decide)).append hname)
  | true => exact (speaks_select _).bind fun _ _ => speaks_return Answer.encoded_empty

theorem speaks_createDatabase : Speaks e (createDatabase name) (·.Encoded e) := by
  refine (speaks_databasePath name).bind fun path _ => (speaks_query _).bind fun there _ => ?_
  cases there with
  | true => exact speaks_fail ((encodes_of_isLow (by decide)).append hname)
  | false =>
    refine (speaks_change fun _ _ => FileTree.encoding_of_makeDirectory).bind fun _ _ => ?_
    exact (speaks_select _).bind fun _ _ => speaks_return Answer.encoded_empty

theorem speaks_dropDatabase : Speaks e (dropDatabase name) (·.Encoded e) := by
  refine (speaks_databasePath name).bind fun path _ => (speaks_query _).bind fun there _ => ?_
  cases there with
  | false => exact speaks_fail ((encodes_of_isLow (by decide)).append hname)
  | true =>
    refine (speaks_removeTree path).bind fun _ _ => speaks_get.bind fun w _ => ?_
    split
    · exact (speaks_select _).bind fun _ _ => speaks_return Answer.encoded_empty
    · exact speaks_return Answer.encoded_empty

/-! ### Commands on tables as wholes -/

theorem speaks_createTable {columns : List String} (hcolumns : ∀ c ∈ columns, e.Encodes c) :
    Speaks e (createTable name columns) (·.Encoded e) := by
  refine (speaks_tablePath name).bind fun path _ => (speaks_query _).bind fun there _ => ?_
  cases there with
  | true => exact speaks_fail ((encodes_of_isLow (by decide)).append hname)
  | false =>
    simp only [Bool.false_eq_true, if_false]
    split
    · rename_i column hcolumn
      have hmem := (List.mem_filter.1 (mem_of_repeated? hcolumn)).1
      exact speaks_fail ((encodes_of_isLow (by decide)).append (hcolumns column hmem))
    · refine speaks_store ?_ ?_ path
      · exact hname
      · exact Answer.encoded_empty

theorem speaks_dropTable : Speaks e (dropTable name) (·.Encoded e) := by
  refine (speaks_tablePath name).bind fun path _ => (speaks_query _).bind fun there _ => ?_
  cases there with
  | false => exact speaks_fail (encodes_tableMissing hname)
  | true =>
    refine (speaks_change fun _ _ => FileTree.encoding_of_deleteFile).bind fun _ _ => ?_
    exact speaks_return Answer.encoded_empty

/-- A change of a table says what the change itself says. -/
theorem speaks_changeTable {f : Table → Except Failure (Table × Answer)}
    (hf : ∀ t : Table, t.Storable → t.name = name → t.Encoded e →
      Speaks e (settle (f t)) fun r => r.1.name = name ∧ r.2.Encoded e) :
    Speaks e (changeTable name f) (·.Encoded e) := by
  refine (speaks_tablePath name).bind fun path _ => ?_
  refine (speaks_load hname path).bind fun t ⟨ht, hsame, hencoded⟩ => ?_
  refine (hf t ht hsame hencoded).bind fun ⟨t', a⟩ ⟨hsame', ha⟩ => ?_
  refine speaks_store ?_ ?_ path
  · exact hsame' ▸ hname
  · exact ha

end

/-! ### What commands do with tables -/

section

variable {t : Table} {c : Condition} (hterms : ∀ s ∈ c.terms, e.Encodes s)

include hterms

theorem speaks_validated : Speaks e (settle (t.validated c)) fun _ => True := by
  refine speaks_settle (fun _ _ => trivial) fun f hf => ?_
  obtain ⟨fault, hfault, rfl⟩ := mapError_eq_error_iff.1 hf
  exact Condition.encodes_of_validate_error hterms hfault

/-- The faults that are noted make warnings. -/
theorem speaks_judged : Speaks e (settle (t.judged c)) fun r =>
    ∀ s ∈ r.2.map ConditionError.message, e.Encodes s := by
  refine speaks_settle (fun r hr => ?_) fun f hf => ?_
  · have hjudged := mapError_eq_ok_iff.1 hr
    exact List.forall_mem_map.2 (Condition.encodes_of_evaluateAll hterms (by simp) hjudged)
  · obtain ⟨fault, hfault, rfl⟩ := mapError_eq_error_iff.1 hf
    exact Condition.encodes_of_evaluateAll_error hterms hfault

end

section

variable {t l r : Table}

theorem encodes_cell {row : Row} (hrow : ∀ v ∈ row.values, e.Encodes v) (column : String) :
    e.Encodes (row.cell column) := by
  unfold Row.cell
  cases hlookup : row.cells.lookup column with
  | none => exact Encoding.encodes_empty e
  | some v =>
    obtain ⟨before, after, hcells, -⟩ := List.lookup_eq_some_iff.1 hlookup
    exact hrow v (by simp [Row.values, hcells])

theorem speaks_shown (ht : t.Aligned) (hencoded : t.Encoded e) {columns : Projection}
    (hcolumns : ∀ n ∈ columns.names, e.Encodes n) :
    Speaks e (settle (t.shown columns)) (·.Encoded e) := by
  cases columns with
  | all => exact speaks_return hencoded
  | columns names =>
    rw [Table.shown, Table.project_eq ht]
    split
    · rename_i n hn
      have hmem := List.mem_of_find?_eq_some hn
      exact speaks_throw ((encodes_of_isLow (by decide)).append (hcolumns n hmem))
    · refine speaks_return ⟨fun h hh => hencoded.headers h (List.mem_filter.1 hh).1, ?_⟩
      refine List.forall_mem_map.2 fun row hrow v hv => ?_
      obtain ⟨⟨_, _⟩, hcell, rfl⟩ := List.mem_map.1 hv
      obtain ⟨column, -, hcell⟩ := List.mem_map.1 (List.of_mem_zip hcell).2
      exact hcell ▸ encodes_cell (hencoded.values row hrow) column

theorem speaks_queried (ht : t.Aligned) (hencoded : t.Encoded e) {columns : Projection}
    {condition : Option String} (hcolumns : ∀ n ∈ columns.names, e.Encodes n)
    (hcondition : ∀ c ∈ condition, e.Encodes c) :
    Speaks e (settle (t.queried columns condition)) (·.Encoded e) := by
  have hterms := Condition.encodes_terms_read hcondition
  rw [Table.queried_eq ht, settle_bind]
  refine (speaks_validated hterms).bind fun _ _ => ?_
  rw [settle_bind]
  refine (speaks_shown ht hencoded hcolumns).bind fun shown hshown => ?_
  rw [settle_bind]
  refine (speaks_judged hterms).bind fun ⟨selected, faults⟩ hfaults => speaks_return ?_
  refine ⟨hshown.headers, List.forall_mem_map.2 fun r hr => ?_, hfaults⟩
  exact hshown.values r (mem_of_mem_chosen hr)

theorem speaks_sideOf {key : String} (hkey : e.Encodes key) (hname : e.Encodes t.name) :
    Speaks e (settle (t.sideOf key)) fun side => side = ⟨t, key⟩ := by
  unfold Table.sideOf
  split
  · exact speaks_return rfl
  · exact speaks_throw ((((encodes_of_isLow (by decide)).append hkey).append
      (encodes_of_isLow (by decide))).append hname)

theorem encodes_columns {side : JoinSide} (hname : e.Encodes side.table.name)
    (hencoded : side.table.Encoded e) : ∀ c ∈ side.columns, e.Encodes c :=
  List.forall_mem_map.2 fun h hh => (hname.append (encodes_of_isLow (by decide))).append
    (hencoded.headers h (List.mem_filter.1 hh).1)

theorem speaks_joined (hl : l.Aligned) (hr : r.Aligned) (hleft : l.Encoded e) (hright : r.Encoded e)
    (hlname : e.Encodes l.name) (hrname : e.Encodes r.name) {leftColumn rightColumn : String}
    (hleftColumn : e.Encodes leftColumn) (hrightColumn : e.Encodes rightColumn) :
    Speaks e (settle (Table.joined leftColumn rightColumn l r)) (·.Encoded e) := by
  rw [joined_eq hl hr, settle_bind]
  refine (speaks_sideOf hleftColumn hlname).bind fun left hsame => ?_
  subst hsame
  rw [settle_bind]
  refine (speaks_sideOf hrightColumn hrname).bind fun right hsame => ?_
  subst hsame
  refine speaks_return ⟨?_, fun row hrow => ?_, nofun⟩
  · refine List.forall_mem_append.2 ⟨List.forall_mem_cons.2 ⟨encodes_of_isLow (by decide), ?_⟩, ?_⟩
    · exact encodes_columns hlname hleft
    · exact encodes_columns hrname hright
  · obtain ⟨⟨cells, i⟩, hcells, rfl⟩ := List.mem_map.1 hrow
    refine List.forall_mem_cons.2 ⟨Text.encodes_toString _, ?_⟩
    obtain ⟨a, ha, hcells⟩ := List.mem_flatMap.1 (List.fst_mem_of_mem_zipIdx hcells)
    obtain ⟨b, hb, rfl⟩ := List.mem_map.1 hcells
    refine List.forall_mem_append.2 ⟨List.forall_mem_map.2 fun c _ => ?_,
      List.forall_mem_map.2 fun c _ => ?_⟩
    · exact encodes_cell (hleft.values a ha) c
    · exact encodes_cell (hright.values b (List.mem_filter.1 hb).1) c

/-! ### Changes of tables -/

theorem speaks_assignable {columns : List String} (hcolumns : ∀ c ∈ columns, e.Encodes c) :
    Speaks e (settle (t.assignable columns)) fun _ => True := by
  induction columns with
  | nil => exact speaks_return trivial
  | cons column columns ih =>
    obtain ⟨hcolumn, hcolumns⟩ := List.forall_mem_cons.1 hcolumns
    rw [Table.assignable]
    split
    · exact speaks_throw (encodes_of_isLow (by decide))
    · split
      · exact ih hcolumns
      · exact speaks_throw ((encodes_of_isLow (by decide)).append hcolumn)

theorem speaks_updated (ht : t.Aligned) {assignments : List (String × String)} {condition : String}
    (hcolumns : ∀ c ∈ assignments.map Prod.fst, e.Encodes c) (hcondition : e.Encodes condition) :
    Speaks e (settle (t.updated assignments condition)) fun r =>
      r.1.name = t.name ∧ r.2.Encoded e := by
  have hterms := Condition.encodes_terms_readText hcondition
  rw [Table.updated_eq ht, settle_bind]
  refine (speaks_assignable hcolumns).bind fun _ _ => ?_
  rw [settle_bind]
  refine (speaks_validated hterms).bind fun _ _ => ?_
  rw [settle_bind]
  refine (speaks_judged hterms).bind fun ⟨selected, faults⟩ hfaults => speaks_return ?_
  exact ⟨rfl, nofun, nofun, hfaults⟩

theorem speaks_deleted {condition : String} (hcondition : e.Encodes condition) :
    Speaks e (settle (t.deleted condition)) fun r => r.1.name = t.name ∧ r.2.Encoded e := by
  have hterms := Condition.encodes_terms_readText hcondition
  rw [Table.deleted_eq, settle_bind]
  refine (speaks_validated hterms).bind fun _ _ => ?_
  rw [settle_bind]
  refine (speaks_judged hterms).bind fun ⟨selected, faults⟩ hfaults => speaks_return ?_
  exact ⟨rfl, nofun, nofun, hfaults⟩

theorem speaks_inserted (hne : t.headers ≠ []) {name : String} (hname : e.Encodes name)
    (values : List String) :
    Speaks e (settle (t.inserted name values)) fun r => r.1.name = t.name ∧ r.2.Encoded e := by
  rw [Table.inserted_eq hne]
  split
  · have hnumber (n : Nat) : e.Encodes (toString n) := Text.encodes_toString n
    have htable : e.Encodes ("Table " ++ name ++ " expects ") :=
      ((encodes_of_isLow (by decide)).append hname).append (encodes_of_isLow (by decide))
    exact speaks_throw (((htable.append (hnumber _)).append (encodes_of_isLow (by decide))).append
      (hnumber _))
  · exact speaks_return ⟨rfl, Answer.encoded_empty⟩

theorem speaks_altered (ht : t.Aligned) {alteration : Alteration} {column : String}
    (halteration : ∀ s ∈ alteration.texts, e.Encodes s) (hcolumn : e.Encodes column) :
    Speaks e (settle (t.altered alteration column)) fun r =>
      r.1.name = t.name ∧ r.2.Encoded e := by
  rw [Table.altered_eq ht]
  cases alteration with
  | add =>
    dsimp only
    split
    · exact speaks_throw ((encodes_of_isLow (by decide)).append hcolumn)
    · exact speaks_return ⟨rfl, Answer.encoded_empty⟩
  | drop =>
    dsimp only
    split
    · exact speaks_throw (encodes_of_isLow (by decide))
    · split
      · exact speaks_return ⟨rfl, Answer.encoded_empty⟩
      · exact speaks_throw ((encodes_of_isLow (by decide)).append hcolumn)
  | other word =>
    have hword : e.Encodes word := halteration word (by simp [Alteration.texts])
    exact speaks_throw ((encodes_of_isLow (by decide)).append hword)

end

/-! ### Commands -/

theorem speaks_readTable {name : String} (hname : e.Encodes name) :
    Speaks e (readTable name) fun t => t.Storable ∧ t.name = name ∧ t.Encoded e :=
  (speaks_tablePath name).bind fun path _ => speaks_load hname path

theorem speaks_run {command : Command} (h : command.Encoded e) :
    Speaks e command.run (·.Encoded e) := by
  cases command with
  | use name => exact speaks_useDatabase (h name (by simp [Command.texts]))
  | createDatabase name => exact speaks_createDatabase (h name (by simp [Command.texts]))
  | dropDatabase name => exact speaks_dropDatabase (h name (by simp [Command.texts]))
  | createTable name columns =>
    obtain ⟨hname, hcolumns⟩ := List.forall_mem_cons.1 h
    exact speaks_createTable hname hcolumns
  | dropTable name => exact speaks_dropTable (h name (by simp [Command.texts]))
  | alterTable name alteration column =>
    obtain ⟨hname, h⟩ := List.forall_mem_cons.1 h
    obtain ⟨hcolumn, halteration⟩ := List.forall_mem_cons.1 h
    rw [Command.run, alterTable_eq]
    refine speaks_changeTable hname fun t ht hsame _ => ?_
    exact hsame ▸ speaks_altered ht.aligned halteration hcolumn
  | insert name values =>
    have hname := (List.forall_mem_cons.1 h).1
    rw [Command.run, insertInto_eq]
    refine speaks_changeTable hname fun t ht hsame _ => ?_
    have hinserted := speaks_inserted ht.headers_ne_nil hname values
    rwa [hsame] at hinserted
  | select name columns condition =>
    obtain ⟨hname, h⟩ := List.forall_mem_cons.1 h
    obtain ⟨hcolumns, hcondition⟩ := List.forall_mem_append.1 h
    rw [Command.run, selectFrom_eq]
    refine (speaks_readTable hname).bind fun t hread => ?_
    obtain ⟨ht, -, hencoded⟩ := hread
    exact speaks_queried ht.aligned hencoded hcolumns fun c hc =>
      hcondition c (Option.mem_toList.2 hc)
  | update name assignments condition =>
    obtain ⟨hname, h⟩ := List.forall_mem_cons.1 h
    obtain ⟨hcondition, h⟩ := List.forall_mem_cons.1 h
    rw [Command.run, updateTable_eq]
    refine speaks_changeTable hname fun t ht hsame _ => ?_
    exact hsame ▸ speaks_updated ht.aligned (List.forall_mem_append.1 h).1 hcondition
  | delete name condition =>
    obtain ⟨hname, h⟩ := List.forall_mem_cons.1 h
    rw [Command.run, deleteFrom_eq]
    refine speaks_changeTable hname fun t _ hsame _ => ?_
    exact hsame ▸ speaks_deleted (h condition (by simp))
  | join leftTable rightTable leftColumn rightColumn =>
    obtain ⟨hltable, h⟩ := List.forall_mem_cons.1 h
    obtain ⟨hrtable, h⟩ := List.forall_mem_cons.1 h
    obtain ⟨hlcolumn, h⟩ := List.forall_mem_cons.1 h
    rw [Command.run, join_eq]
    refine (speaks_readTable hltable).bind fun l hreadLeft => ?_
    obtain ⟨hl, hlname, hleft⟩ := hreadLeft
    refine (speaks_readTable hrtable).bind fun r hreadRight => ?_
    obtain ⟨hr, hrname, hright⟩ := hreadRight
    exact speaks_joined hl.aligned hr.aligned hleft hright (hlname ▸ hltable) (hrname ▸ hrtable)
      hlcolumn (h rightColumn (by simp))

theorem speaks_execute {text : String} (htext : e.Encodes text) :
    Speaks e (execute text) (·.Encoded e) := by
  unfold execute
  rw [lift_eq]
  refine Speaks.bind (P := (·.Encoded e)) (speaks_settle (fun command h => ?_) fun f hf => ?_)
    fun command hcommand => speaks_run hcommand
  · exact Command.encoded_of_parse htext (mapError_eq_ok_iff.1 h)
  · obtain ⟨error, herror, rfl⟩ := mapError_eq_error_iff.1 hf
    exact StatementError.encodes_of_parse htext herror

/-- The response to a statement that can be encoded can be encoded. -/
theorem encodes_of_respond {text response : String} {w w' : World}
    (htext : w.files.encoding.Encodes text) (h : (respond text).run w = .ok response w') :
    w.files.encoding.Encodes response := by
  obtain ⟨hok, herror⟩ := speaks_execute htext (w := w) rfl
  rw [run_respond] at h
  cases hrun : (execute text).run w with
  | ok a w₁ =>
    rw [hrun] at h
    cases h
    exact (hok a _ hrun).1.encodes_text
  | error f w₁ =>
    rw [hrun] at h
    dsimp only at h
    split at h
    · cases h
      exact ((encodes_of_isLow (by decide)).append (herror f _ hrun)).append
        (encodes_of_isLow (by decide))
    · cases h

end Operation

end Tabula
