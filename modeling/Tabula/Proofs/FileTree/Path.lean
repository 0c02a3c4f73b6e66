import Tabula.FileTree.Path
import Tabula.Proofs.Token.Name

/-!
# Parts of paths

A text without slashes and null characters that is neither empty nor one or two dots is a part of a
path: joined to a path it leads one directory down. Names are parts, with a suffix or without one.
-/

namespace Tabula.Path

/-- A text that leads from a directory to one of its entries. -/
structure IsPart (s : String) : Prop where
  no_slash : '/' ∉ s.toList
  no_null : '\x00' ∉ s.toList
  ne_empty : s ≠ ""
  ne_dot : s ≠ "."
  ne_dots : s ≠ ".."

/-- A path without the character `U+0000`, which no operation accepts. -/
def NullFree (p : Path) : Prop := '\x00' ∉ (toString p).toList

instance (p : Path) : Decidable p.NullFree := inferInstanceAs (Decidable (¬ _))

/-! ### Joining -/

theorem ofString_of_isPart {s : String} (h : IsPart s) : ofString s = ⟨0, [s]⟩ := by
  have hslashes : s.toList.takeWhile (· = '/') = [] := by
    cases hs : s.toList with
    | nil => rfl
    | cons c r =>
      have hc : c ≠ '/' := by
        rintro rfl
        exact h.no_slash (by simp [hs])
      simp [hc]
  have hpieces : s.toList.splitOn '/' = [s.toList] := List.splitOn_eq_singleton h.no_slash
  simp [ofString, leadingSlashes, hslashes, hpieces, h.ne_empty, h.ne_dot]

theorem join_of_isPart {s : String} (h : IsPart s) (p : Path) :
    p.join s = { p with names := p.names ++ [s] } := by
  simp [join, ofString_of_isPart h]

/-! ### Null characters -/

theorem mem_toList_intercalate {sep : List Char} {c : Char} (hc : c ∉ sep) {names : List String} :
    c ∈ sep.intercalate (names.map String.toList) ↔ ∃ n ∈ names, c ∈ n.toList := by
  induction names with
  | nil => simp
  | cons n names ih =>
    cases names with
    | nil => simp
    | cons m names =>
      simp only [List.map_cons, List.intercalate_cons_cons, List.mem_append] at ih ⊢
      rw [ih]
      simp [hc]

theorem nullFree_iff {p : Path} : p.NullFree ↔ ∀ n ∈ p.names, '\x00' ∉ n.toList := by
  have hslashes : '\x00' ∉ List.replicate p.slashes '/' := by
    intro h
    exact absurd (List.eq_of_mem_replicate h) (by decide)
  have hnames : '\x00' ∈ ("/".intercalate p.names).toList ↔ ∃ n ∈ p.names, '\x00' ∈ n.toList := by
    rw [String.toList_intercalate]
    exact mem_toList_intercalate (by decide)
  have htext : '\x00' ∈ (toString p).toList ↔ ∃ n ∈ p.names, '\x00' ∈ n.toList := by
    rw [← hnames]
    change '\x00' ∈ (if String.ofList (List.replicate p.slashes '/') ++ "/".intercalate p.names = ""
      then "." else String.ofList (List.replicate p.slashes '/') ++
        "/".intercalate p.names).toList ↔ _
    split
    · rename_i hempty
      have hlast : "/".intercalate p.names = "" := (String.append_eq_empty_iff.1 hempty).2
      rw [hlast]
      decide
    · simp [hslashes]
  rw [NullFree, htext]
  simp

theorem NullFree.join {p : Path} (hp : p.NullFree) {s : String} (hs : IsPart s) :
    (p.join s).NullFree := by
  rw [nullFree_iff] at hp ⊢
  rw [join_of_isPart hs]
  intro n hn
  rcases List.mem_append.1 hn with hn | hn
  · exact hp n hn
  · obtain rfl := List.mem_singleton.1 hn
    exact hs.no_null

theorem NullFree.parent {p : Path} (hp : p.NullFree) : p.parent.NullFree := by
  rw [nullFree_iff] at hp ⊢
  exact fun n hn => hp n (List.dropLast_subset _ hn)

/-- A text without null characters is read as a path without them. -/
theorem nullFree_ofString {s : String} (h : '\x00' ∉ s.toList) : (ofString s).NullFree := by
  rw [nullFree_iff]
  intro n hn hnull
  obtain ⟨piece, hpiece, rfl⟩ := List.mem_map.1 (List.mem_filter.1 hn).1
  exact h (Text.mem_and_ne_of_mem_splitOn hpiece (by simpa using hnull)).1

end Tabula.Path

/-! ### Names as parts -/

namespace Tabula.IsName

variable {s : String}

/-- A name with a suffix is a part of a path if a part may have the characters of the suffix. -/
theorem isPart_append (h : IsName s) {suffix : String} (hslash : '/' ∉ suffix.toList)
    (hnull : '\x00' ∉ suffix.toList) : Path.IsPart (s ++ suffix) := by
  have hdot : '.' ∉ s.toList := h.not_mem (by decide)
  -- the first character of a name is neither a dot nor missing
  have hne : ∀ t : String, (∀ c ∈ t.toList, c = '.') → s ++ suffix ≠ t := by
    rintro t ht rfl
    cases hs : s.toList with
    | nil => exact h.ne_empty (String.toList_eq_nil_iff.1 hs)
    | cons c r =>
      have hc := ht c (by simp [hs])
      exact hdot (by simp [hs, hc])
  have hnot : ∀ c : Char, c ∉ s.toList → c ∉ suffix.toList → c ∉ (s ++ suffix).toList := by
    intro c hs hsuffix
    rw [String.toList_append, List.mem_append, not_or]
    exact ⟨hs, hsuffix⟩
  exact ⟨hnot '/' (h.not_mem (by decide)) hslash, hnot '\x00' (h.not_mem (by decide)) hnull,
    hne "" (by simp), hne "." (by simp), hne ".." (by simp)⟩

theorem isPart (h : IsName s) : Path.IsPart s := by
  have hempty : Path.IsPart (s ++ "") := h.isPart_append (by simp) (by simp)
  rwa [String.append_empty] at hempty

end Tabula.IsName
