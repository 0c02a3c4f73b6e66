import Tabula.Proofs.Table.Column
import Tabula.Proofs.Token.Name

/-!
# Tables that can be encoded

The file of a table can be encoded exactly if all names of columns and all cells can be
(`Table.encodes_fileText_iff`). A table that is read from a text that can be encoded is such a table
(`Table.encoded_of_read`), as reading only cuts the text.
-/

namespace Tabula

open Text (Encoding)

variable {e : Encoding}

theorem Text.encodes_of_isWordTail {s : String}
    (h : ∀ c ∈ s.toList, Lexeme.isWordTail c = true) : e.Encodes s :=
  Encoding.encodes_of_lt fun c hc => Nat.lt_trans (toNat_lt_of_isWordTail (h c hc)) (by decide)

/-- A name has letters, digits and underscores of ASCII only. -/
theorem IsName.encodes {s : String} (h : IsName s) : e.Encodes s :=
  Text.encodes_of_isWordTail fun _ hc => h.isWordTail hc

theorem Text.encodes_toString (n : Nat) : e.Encodes (toString n) := by
  refine encodes_of_isWordTail fun c hc => ?_
  have hdigits : c ∈ Nat.toDigits 10 n := by simpa [Nat.repr] using hc
  have hdigit : c.isDigit = true :=
    Nat.isDigit_of_mem_toDigits (by decide) (by decide) hdigits
  simp [Lexeme.isWordTail, Char.isAlphanum, hdigit]

namespace Table

/-- Every name of a column and every cell can be encoded. -/
structure Encoded (t : Table) (e : Encoding) : Prop where
  headers : ∀ h ∈ t.headers, e.Encodes h
  values : ∀ r ∈ t.rows, ∀ v ∈ r.values, e.Encodes v

variable {t : Table}

theorem encodes_tab : e.Encodes "\t" := Encoding.encodes_of_isLow (by decide)

theorem encodes_newline : e.Encodes "\n" := Encoding.encodes_of_isLow (by decide)

/-- What can be encoded of a table's file are its names and cells. -/
theorem encodes_fileText_iff : e.Encodes t.fileText ↔ t.Encoded e := by
  rw [fileText, Encoding.encodes_append, and_iff_left encodes_newline, text,
    Encoding.encodes_intercalate encodes_newline, List.forall_mem_cons, line,
    Encoding.encodes_intercalate encodes_tab, List.forall_mem_map]
  simp only [line, Encoding.encodes_intercalate encodes_tab]
  exact ⟨fun h => ⟨h.1, h.2⟩, fun h => ⟨h.1, h.2⟩⟩

/-! ### Reading -/

theorem encodes_of_mem_fields {l v : String} (hl : e.Encodes l) (hv : v ∈ fields l) :
    e.Encodes v := by
  obtain ⟨piece, hpiece, rfl⟩ := List.mem_map.1 hv
  refine hl.of_subset fun c hc => ?_
  rw [String.toList_ofList] at hc
  exact (Text.mem_and_ne_of_mem_splitOn hpiece hc).1

theorem encodes_of_mem_padded {width : Nat} {l v : String} (hl : e.Encodes l)
    (hv : v ∈ padded width l) : e.Encodes v := by
  unfold padded at hv
  split at hv
  · rcases List.mem_append.1 hv with hv | hv
    · exact encodes_of_mem_fields hl hv
    · obtain rfl := List.mem_singleton.1 hv
      exact Encoding.encodes_empty e
  · exact encodes_of_mem_fields hl hv

theorem encodes_of_readRows {name : String} {headers : List String} {number : Nat}
    {ls : List String} (hls : ∀ l ∈ ls, e.Encodes l) {rows : List Row}
    (h : readRows name headers number ls = .ok rows) :
    ∀ r ∈ rows, ∀ v ∈ r.values, e.Encodes v := by
  induction ls generalizing number rows with
  | nil =>
    cases h
    simp
  | cons l ls ih =>
    obtain ⟨hl, hls⟩ := List.forall_mem_cons.1 hls
    rw [readRows, readRow_eq] at h
    split at h
    · cases h
    · rw [ok_bind] at h
      obtain ⟨rest, hrest, h⟩ := bind_eq_ok_iff.1 h
      cases h
      refine List.forall_mem_cons.2 ⟨fun v hv => ?_, ih hls hrest⟩
      obtain ⟨⟨_, _⟩, hcell, rfl⟩ := List.mem_map.1 hv
      exact encodes_of_mem_padded hl (List.mem_of_mem_take (List.of_mem_zip hcell).2)

/-- A text that can be encoded states a table that can be. -/
theorem encoded_of_read {name content : String} (hcontent : e.Encodes content)
    (h : read name content = .ok t) : t.Encoded e := by
  have hlines : ∀ l ∈ (Text.lines (Text.unifyBreaks content.toList)).map String.ofList,
      e.Encodes l := by
    rw [List.forall_mem_map]
    intro l hl c hc
    rw [String.toList_ofList] at hc
    rcases Text.mem_of_mem_unifyBreaks (Text.mem_of_mem_lines hl hc) with hc | rfl
    · exact hcontent c hc
    · exact Encoding.byte?_eq_none (.inl (by decide))
  unfold read at h
  split at h
  · cases h
    exact ⟨by simpa [empty] using IsName.encodes (s := idColumn) (by decide), by simp [empty]⟩
  · rename_i first rest hsplit
    rw [hsplit, List.forall_mem_cons] at hlines
    obtain ⟨rows, hrows, h⟩ := bind_eq_ok_iff.1 h
    cases h
    exact ⟨fun _ => encodes_of_mem_fields hlines.1, encodes_of_readRows hlines.2 hrows⟩

end Table

end Tabula
