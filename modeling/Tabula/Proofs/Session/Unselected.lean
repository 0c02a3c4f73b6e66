import Tabula.Proofs.Session.Reason

/-!
# Statements without a selected database

A command on tables asks for the file of a table, and only this can fail because no database is
selected. So it fails for this reason if none is selected (`Command.run_of_unselected`) and only
then (`Command.unselected_of_run`), and as no other failure has the same message, the response says
so exactly then (`Operation.respond_unselected_iff`).
-/

namespace Tabula

variable {w w' : World} {command : Command}

open Operation

namespace Command

/-- A command that asks for a selected database is one on tables, and there is none. -/
theorem unselected_of_run (h : command.run.run w = .error (.operation .noDatabaseSelected) w') :
    w.session.selected = none ∧ command.tables ≠ [] := by
  obtain ⟨files, -, hfails⟩ := fails_of_run h
  cases hfails with
  | unselected hselected htables => exact ⟨hselected, htables⟩
  | names he => cases he
  | tables he => cases he

/-- A command on tables cannot be carried out as long as no database is selected. -/
theorem run_of_unselected (hselected : w.session.selected = none) (htables : command.tables ≠ []) :
    command.run.run w = .error (.operation .noDatabaseSelected) w := by
  have hpath : ∀ n, w.session.tablePath n = .error (.operation .noDatabaseSelected) :=
    fun n => Session.tablePath_eq_error_iff.2 ⟨hselected, rfl⟩
  cases command using casesOnEffect with
  | use => exact absurd rfl htables
  | createDatabase => exact absurd rfl htables
  | dropDatabase => exact absurd rfl htables
  | createTable n columns => rw [run, run_createTable, hpath]
  | dropTable n => rw [run, run_dropTable, hpath]
  | change command n f hchange => rw [run_of_change? hchange, run_changeTable, hpath]
  | query command answer hquery =>
    rw [run_of_query? hquery, query?_eq_error hquery (World.table_eq_error hselected)]
    rfl

end Command

/-! ### Responses -/

/-- No other failure has this message: the others that are reported begin with another letter, or
say what the files refuse. -/
theorem Failure.eq_of_message {e : Failure} (hreported : e.isReported = true)
    (h : e.message = "No database selected") : e = .operation .noDatabaseSelected := by
  have hfirst : e.message.toList.head? = some 'N' := by
    rw [h]
    rfl
  unfold message at hfirst h
  cases e with
  | statement e =>
    unfold StatementError.message at hfirst
    cases e with
    | lexical e =>
      unfold LexicalError.message at hfirst
      cases e <;> simp [toString] at hfirst
    | unknownCommand word pos => simp [toString] at hfirst
    | grammar wanted pos =>
      unfold Wanted.message at hfirst
      cases wanted <;> simp [toString] at hfirst
  | operation e =>
    unfold OperationError.message at hfirst
    cases e with
    | noDatabaseSelected => rfl
    | _ => simp [toString] at hfirst
  | condition e =>
    unfold ConditionError.message at hfirst
    cases e <;> simp [toString] at hfirst
  | table e =>
    unfold TableError.message at hfirst
    cases e with
    | shape e => cases hreported
    | _ => simp [toString] at hfirst
  | file e =>
    obtain ⟨refusal, path, encoding⟩ := e
    unfold Refusal.message at h
    cases refusal with
    | unencodable fault => cases hreported
    | _ => simp at h

namespace Operation

variable {text : String}

theorem run_execute_of_respond
    (h : (respond text).run w = .ok "[ERROR] No database selected\n" w') :
    (execute text).run w = .error (.operation .noDatabaseSelected) w' := by
  rw [run_respond] at h
  split at h
  · rename_i a _ _
    injection h with htext _
    refine absurd ?_ a.not_error_prefix
    rw [htext]
    decide
  · rename_i e _ hexecute
    split at h
    · rename_i hreported
      injection h with htext hw
      have hmessage : e.message = "No database selected" := by
        have hline : "[ERROR] ".toList ++ e.message.toList ++ "\n".toList =
            "[ERROR] ".toList ++ "No database selected".toList ++ "\n".toList := by
          simpa [toString] using congrArg String.toList htext
        rw [← String.toList_inj]
        exact List.append_cancel_left (List.append_cancel_right hline)
      rw [hexecute, Failure.eq_of_message hreported hmessage, hw]
    · cases h

/-- The response to a statement says that no database is selected exactly if the statement is a
command on tables and none is selected. -/
theorem respond_unselected_iff :
    (∃ w', (respond text).run w = .ok "[ERROR] No database selected\n" w') ↔
      w.session.selected = none ∧ ∃ command, Command.parse text = .ok command ∧
        command.tables ≠ [] := by
  constructor
  · rintro ⟨w', h⟩
    have hexecute := run_execute_of_respond h
    rw [run_execute] at hexecute
    cases hparse : Command.parse text with
    | error e =>
      rw [hparse] at hexecute
      cases hexecute
    | ok command =>
      rw [hparse] at hexecute
      obtain ⟨hselected, htables⟩ := Command.unselected_of_run hexecute
      exact ⟨hselected, command, rfl, htables⟩
  · rintro ⟨hselected, command, hparse, htables⟩
    have hrun := Command.run_of_unselected hselected htables
    refine ⟨w, run_respond_of_error (e := .operation .noDatabaseSelected) ?_ rfl⟩
    rw [run_execute_of_parse hparse, hrun]

end Operation

end Tabula
