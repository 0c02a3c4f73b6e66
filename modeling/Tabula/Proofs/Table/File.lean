import Tabula.Proofs.Table.Aligned
import Tabula.Proofs.Text.Plain
import Tabula.Table.File

/-!
# What a table file keeps

A table can be stored if it has a column, its rows are aligned with its header, and its column names
and cells are plain. Such a table is read back from its file as it was written
(`read_fileText`), and no other table is ever read from a file, whatever the file holds
(`storable_of_read`).
-/

namespace Tabula.Table

open Text (Plain)

/-- A table that is read back from its file as it is. -/
structure Storable (t : Table) : Prop where
  headers_ne_nil : t.headers ≠ []
  plain_headers : ∀ h ∈ t.headers, Plain h
  aligned : t.Aligned
  plain_values : ∀ r ∈ t.rows, ∀ v ∈ r.values, Plain v

theorem plain_idColumn : Plain idColumn := by decide

/-! ### Lines -/

theorem fields_line {cells : List String} (hne : cells ≠ []) (h : ∀ v ∈ cells, Plain v) :
    fields (line cells) = cells := by
  have hpieces : (line cells).toList.splitOn '\t' = cells.map String.toList := by
    rw [line, String.toList_intercalate]
    refine List.splitOn_intercalate '\t' ?_ (by simpa using hne)
    intro l hl htab
    obtain ⟨v, hv, rfl⟩ := List.mem_map.1 hl
    exact (h v hv _ htab).1 rfl
  rw [fields, hpieces, List.map_map]
  simp [Function.comp_def]

theorem fields_ne_nil (l : String) : fields l ≠ [] := by simp [fields]

theorem plain_of_mem_fields {l : List Char} (hl : ∀ c ∈ l, Text.isLineBreak c = false) {v : String}
    (hv : v ∈ fields (String.ofList l)) : Plain v := by
  rw [fields, String.toList_ofList] at hv
  obtain ⟨piece, hpiece, rfl⟩ := List.mem_map.1 hv
  intro c hc
  rw [String.toList_ofList] at hc
  obtain ⟨hmem, hne⟩ := Text.mem_and_ne_of_mem_splitOn hpiece hc
  exact ⟨hne, hl c hmem⟩

theorem not_break_of_mem_line {cells : List String} (h : ∀ v ∈ cells, Plain v) {c : Char}
    (hc : c ∈ (line cells).toList) : Text.isLineBreak c = false := by
  induction cells with
  | nil => simp [line] at hc
  | cons v cells ih =>
    have hv : ∀ c ∈ v.toList, Text.isLineBreak c = false := fun c hc => (h v (by simp) c hc).2
    cases cells with
    | nil => exact hv c (by simpa [line] using hc)
    | cons w cells =>
      simp only [line, String.intercalate_cons_cons, String.toList_append, List.mem_append] at hc
      rcases hc with (hc | hc) | hc
      · exact hv c hc
      · obtain rfl : c = '\t' := by simpa using hc
        rfl
      · exact ih (fun u hu => h u (List.mem_cons_of_mem v hu)) hc

/-! ### Writing -/

/-- The lines of a table's file. -/
def fileLines (t : Table) : List String := line t.headers :: t.rows.map fun r => line r.values

theorem toList_fileText (t : Table) :
    t.fileText.toList = (t.fileLines.map String.toList).flatMap (· ++ ['\n']) := by
  have hlines : ∀ (l : List Char) (ls : List (List Char)),
      ['\n'].intercalate (l :: ls) ++ ['\n'] = (l :: ls).flatMap (· ++ ['\n']) := by
    intro l ls
    induction ls generalizing l with
    | nil => simp
    | cons m ls ih => simpa using ih m
  rw [fileText, text, String.toList_append, String.toList_intercalate]
  exact hlines _ _

theorem lines_fileText {t : Table} (ht : t.Storable) :
    (Text.lines (Text.unifyBreaks t.fileText.toList)).map String.ofList = t.fileLines := by
  have hbreak : ∀ l ∈ t.fileLines.map String.toList, ∀ c ∈ l, Text.isLineBreak c = false := by
    intro l hl c hc
    obtain ⟨s, hs, rfl⟩ := List.mem_map.1 hl
    rcases List.mem_cons.1 hs with rfl | hs
    · exact not_break_of_mem_line ht.plain_headers hc
    · obtain ⟨r, hr, rfl⟩ := List.mem_map.1 hs
      exact not_break_of_mem_line (ht.plain_values r hr) hc
  have hreturn : '\r' ∉ t.fileText.toList := by
    rw [toList_fileText]
    intro h
    obtain ⟨l, hl, h⟩ := List.mem_flatMap.1 h
    rcases List.mem_append.1 h with h | h
    · exact absurd (hbreak l hl _ h) (by decide)
    · simp at h
  rw [Text.unifyBreaks_of_not_mem hreturn, toList_fileText, Text.lines_flatMap_newline hbreak,
    List.map_map]
  simp [Function.comp_def]

/-! ### Reading what was written -/

theorem readRow_line {headers : List String} {r : Row} (hne : headers ≠ [])
    (hr : r.headers = headers) (hplain : ∀ v ∈ r.values, Plain v) (name : String) (number : Nat) :
    readRow name headers number (line r.values) = .ok r := by
  have hlength : r.values.length = headers.length := by
    simp [← hr, Row.values, Row.headers]
  have hvalues : r.values ≠ [] := by
    intro h
    exact hne (List.length_eq_zero_iff.1 (by rw [← hlength, h]; rfl))
  have hrow : Row.ofValues headers r.values = .ok r := by
    rw [Row.ofValues_eq_ok_iff]
    exact ⟨hlength.symm, by simp [← hr, Row.zip_headers_values]⟩
  have hfields : ¬ (fields (line r.values)).length < headers.length := by
    rw [fields_line hvalues hplain]
    omega
  rw [readRow, if_neg hfields, if_neg hfields, fields_line hvalues hplain, ← hlength,
    List.take_length, hrow]
  rfl

theorem readRows_lines {headers : List String} (hne : headers ≠ []) {rows : List Row}
    (hrows : ∀ r ∈ rows, r.headers = headers) (hplain : ∀ r ∈ rows, ∀ v ∈ r.values, Plain v)
    (name : String) (number : Nat) :
    readRows name headers number (rows.map fun r => line r.values) = .ok rows := by
  induction rows generalizing number with
  | nil => rfl
  | cons r rows ih =>
    have hrest := ih (fun s hs => hrows s (List.mem_cons_of_mem r hs))
      (fun s hs => hplain s (List.mem_cons_of_mem r hs)) (number + 1)
    rw [List.map_cons, readRows, readRow_line hne (hrows r (by simp)) (hplain r (by simp)), hrest]
    rfl

/-- A table that can be stored is read back from its file as it was. -/
theorem read_fileText {t : Table} (ht : t.Storable) : read t.name t.fileText = .ok t := by
  rw [read, lines_fileText ht, fileLines]
  dsimp only
  rw [fields_line ht.headers_ne_nil ht.plain_headers,
    readRows_lines ht.headers_ne_nil ht.aligned ht.plain_values]
  rfl

/-- The first line of a file is the header, whatever the cells of the table hold. -/
theorem headers_of_read_fileText {t t' : Table} {name : String} (hne : t.headers ≠ [])
    (hplain : ∀ h ∈ t.headers, Plain h) (h : read name t.fileText = .ok t') :
    t'.headers = t.headers := by
  have hbreak : ∀ c ∈ (line t.headers).toList, Text.isLineBreak c = false := fun c hc =>
    not_break_of_mem_line hplain hc
  have hreturn : '\r' ∉ (line t.headers).toList := fun hmem => absurd (hbreak _ hmem) (by decide)
  obtain ⟨rest, htext⟩ : ∃ rest, t.fileText.toList = (line t.headers).toList ++ '\n' :: rest :=
    ⟨_, by
      rw [toList_fileText, fileLines, List.map_cons, List.flatMap_cons, List.append_assoc]
      rfl⟩
  have hlines : Text.lines (Text.unifyBreaks t.fileText.toList) =
      (line t.headers).toList :: Text.lines (Text.unifyBreaks rest) := by
    rw [htext, Text.unifyBreaks_append hreturn, Text.unifyBreaks, if_neg (by decide)]
    · exact Text.lines_append_newline hbreak _
    · simp
  rw [read, hlines, List.map_cons, String.ofList_toList] at h
  obtain ⟨rows, -, h⟩ := bind_eq_ok_iff.1 h
  cases h
  exact fields_line hne hplain

/-! ### Reading any file -/

/-- The fields of a line, with an empty one added if there are too few. -/
def padded (width : Nat) (l : String) : List String :=
  if (fields l).length < width then fields l ++ [""] else fields l

theorem readRow_eq (name : String) (headers : List String) (number : Nat) (l : String) :
    readRow name headers number l =
      if (padded headers.length l).length < headers.length then
        .error (.malformedRow number name headers.length (fields l).length)
      else .ok ⟨headers.zip ((padded headers.length l).take headers.length)⟩ := by
  change (if (padded headers.length l).length < headers.length then _
    else (Row.ofValues headers ((padded headers.length l).take headers.length)).mapError
      TableError.shape) = _
  split
  · rfl
  · rename_i hwidth
    rw [Row.ofValues, if_pos (by rw [List.length_take]; omega)]
    rfl

theorem plain_of_mem_padded {l : List Char} (hl : ∀ c ∈ l, Text.isLineBreak c = false) {width : Nat}
    {v : String} (hv : v ∈ padded width (String.ofList l)) : Plain v := by
  unfold padded at hv
  split at hv
  · rcases List.mem_append.1 hv with hv | hv
    · exact plain_of_mem_fields hl hv
    · obtain rfl := List.mem_singleton.1 hv
      exact Text.plain_empty
  · exact plain_of_mem_fields hl hv

/-- The rows that are read are aligned and plain. -/
theorem aligned_and_plain_of_readRows {name : String} {headers : List String} {number : Nat}
    {ls : List (List Char)} (hls : ∀ l ∈ ls, ∀ c ∈ l, Text.isLineBreak c = false) {rows : List Row}
    (h : readRows name headers number (ls.map String.ofList) = .ok rows) :
    ∀ r ∈ rows, r.headers = headers ∧ ∀ v ∈ r.values, Plain v := by
  induction ls generalizing number rows with
  | nil =>
    obtain rfl : [] = rows := by simpa [readRows, pure, Except.pure] using h
    simp
  | cons l ls ih =>
    rw [List.map_cons, readRows, readRow_eq] at h
    split at h
    · cases h
    · rename_i hwidth
      rw [ok_bind] at h
      obtain ⟨rest, hrest, h⟩ := bind_eq_ok_iff.1 h
      cases h
      have hlength : headers.length =
          ((padded headers.length (String.ofList l)).take headers.length).length := by
        rw [List.length_take]
        omega
      intro r hr
      rcases List.mem_cons.1 hr with rfl | hr
      · refine ⟨Row.headers_zip hlength, fun v hv => ?_⟩
        rw [Row.values_zip hlength] at hv
        exact plain_of_mem_padded (hls l (by simp)) (List.mem_of_mem_take hv)
      · exact ih (fun m hm => hls m (List.mem_cons_of_mem l hm)) hrest r hr

/-- Whatever a file holds, a table read from it can be stored. -/
theorem storable_of_read {name content : String} {t : Table} (h : read name content = .ok t) :
    t.Storable ∧ t.name = name := by
  have hls : ∀ l ∈ Text.lines (Text.unifyBreaks content.toList), ∀ c ∈ l,
      Text.isLineBreak c = false := fun l hl c hc => Text.not_break_of_mem_lines hl hc
  unfold read at h
  generalize Text.lines (Text.unifyBreaks content.toList) = ls at h hls
  cases ls with
  | nil =>
    obtain rfl : empty name [idColumn] = t := by simpa using h
    exact ⟨⟨by simp [empty], by simpa [empty] using plain_idColumn, by simp [empty, Aligned],
      by simp [empty]⟩, rfl⟩
  | cons first rest =>
    rw [List.map_cons] at h
    dsimp only at h
    obtain ⟨rows, hrows, h⟩ := bind_eq_ok_iff.1 h
    cases h
    have hread := aligned_and_plain_of_readRows
      (fun l hl => hls l (List.mem_cons_of_mem first hl)) hrows
    exact ⟨⟨fields_ne_nil _, fun v hv => plain_of_mem_fields (hls first (by simp)) hv,
      fun r hr => (hread r hr).1, fun r hr => (hread r hr).2⟩, rfl⟩

theorem malformed_of_readRows_error {name : String} {headers : List String} {number : Nat}
    {ls : List String} {e : TableError} (h : readRows name headers number ls = .error e) :
    ∃ line expected got, e = .malformedRow line name expected got := by
  induction ls generalizing number with
  | nil => simp [readRows] at h
  | cons l ls ih =>
    rw [readRows, readRow_eq] at h
    split at h
    · exact ⟨_, _, _, (Except.error.inj h).symm⟩
    · rw [ok_bind] at h
      rcases bind_eq_error_iff.1 h with hrest | ⟨rest, -, h⟩
      · exact ih hrest
      · cases h

/-- Only a line that is too short makes a file unreadable. -/
theorem malformed_of_read_error {name content : String} {e : TableError}
    (h : read name content = .error e) :
    ∃ line expected got, e = .malformedRow line name expected got := by
  unfold read at h
  split at h
  · cases h
  · rename_i first rest _
    rcases bind_eq_error_iff.1 h with hrows | ⟨rows, -, h⟩
    · exact malformed_of_readRows_error hrows
    · cases h

/-! ### Edits -/

/-- A row of plain values can be added. -/
theorem Storable.addRow {t : Table} (ht : t.Storable) {values : List String}
    (hlength : t.headers.length = values.length) (hplain : ∀ v ∈ values, Plain v) :
    Storable { t with rows := t.rows ++ [⟨t.headers.zip values⟩] } := by
  refine ⟨ht.headers_ne_nil, ht.plain_headers, fun r hr => ?_, fun r hr => ?_⟩
  · rcases List.mem_append.1 hr with hr | hr
    · exact ht.aligned r hr
    · obtain rfl := List.mem_singleton.1 hr
      exact Row.headers_zip hlength
  · rcases List.mem_append.1 hr with hr | hr
    · exact ht.plain_values r hr
    · obtain rfl := List.mem_singleton.1 hr
      rw [Row.values_zip hlength]
      exact hplain

end Tabula.Table
