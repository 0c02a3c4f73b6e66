import Mathlib.Data.List.Nodup
import Mathlib.Data.List.Perm.Basic
import Tabula.Proofs.FileTree.Place

/-!
# What is below a directory

The names in a directory are those of its entries, and no operation puts a name there twice. A
change below a directory leaves all else in the tree as it was (`SameOutside`), so a path that leads
elsewhere, or to the directory itself, leads there still.
-/

namespace Tabula.FileTree

variable {t t' t'' : FileTree} {p : Path} {place q : List String} {n : String}

/-! ### Names -/

theorem isSome_at?_iff (t : FileTree) (hplace : place ≠ []) :
    (t.at? place).isSome ↔ ∃ e, (place, e) ∈ t.entries := by
  rw [at?_of_ne_nil t hplace, List.lookup_isSome_iff]
  constructor
  · rintro ⟨⟨r, e⟩, hmem, hr⟩
    obtain rfl : place = r := by simpa using hr
    exact ⟨e, hmem⟩
  · rintro ⟨e, hmem⟩
    exact ⟨(place, e), hmem, by simp⟩

theorem mem_children {e : Entry} : (n, e) ∈ t.children place ↔ (place ++ [n], e) ∈ t.entries := by
  unfold children
  rw [List.mem_filterMap]
  constructor
  · rintro ⟨⟨r, e'⟩, hmem, h⟩
    dsimp only at h
    cases hlast : r.getLast? with
    | none => simp [hlast] at h
    | some m =>
      simp only [hlast] at h
      split at h
      · rename_i hdir
        cases h
        rw [← hdir, List.dropLast_append_getLast? _ hlast]
        exact hmem
      · cases h
  · intro hmem
    exact ⟨_, hmem, by simp⟩

/-- The names in a directory. -/
def names (t : FileTree) (place : List String) : List String := (t.children place).map Prod.fst

/-- A name in a directory is that of an entry. -/
theorem mem_names : n ∈ t.names place ↔ (t.at? (place ++ [n])).isSome := by
  rw [isSome_at?_iff t (by simp), names, List.mem_map]
  constructor
  · rintro ⟨⟨m, e⟩, hmem, rfl⟩
    exact ⟨e, mem_children.1 hmem⟩
  · rintro ⟨e, hmem⟩
    exact ⟨(n, e), mem_children.2 hmem, rfl⟩

/-- The name that a place has in a directory, if it is in it. -/
def nameIn? (place r : List String) : Option String :=
  if r.dropLast = place then r.getLast? else none

theorem eq_of_nameIn? {r : List String} (h : nameIn? place r = some n) : r = place ++ [n] := by
  unfold nameIn? at h
  split at h
  · rename_i hdir
    rw [← hdir, List.dropLast_append_getLast? _ h]
  · cases h

theorem names_eq (t : FileTree) (place : List String) :
    t.names place = (t.entries.map Prod.fst).filterMap (nameIn? place) := by
  unfold names children
  rw [List.map_filterMap, List.filterMap_map]
  refine List.filterMap_congr fun x _ => ?_
  obtain ⟨r, e⟩ := x
  unfold nameIn?
  dsimp only [Function.comp_apply]
  cases r.getLast? <;> split <;> simp_all

theorem nodup_names_put (h : (t.names q).Nodup) (e : Entry) : ((t.put place e).names q).Nodup := by
  rw [names_eq] at h ⊢
  by_cases hany : t.entries.any (·.1 = place) = true
  · have hsame : (t.put place e).entries.map Prod.fst = t.entries.map Prod.fst := by
      simp only [put, hany, if_true, List.map_map]
      rfl
    rw [hsame]
    exact h
  · have hnew : (t.put place e).entries.map Prod.fst = t.entries.map Prod.fst ++ [place] := by
      simp [put, hany]
    have hplace : place ∉ t.entries.map Prod.fst := by
      intro hmem
      obtain ⟨x, hx, hplace⟩ := List.mem_map.1 hmem
      exact hany (List.any_eq_true.2 ⟨x, hx, by simpa using hplace⟩)
    rw [hnew, List.filterMap_append, List.nodup_append]
    refine ⟨h, by cases hname : nameIn? q place <;> simp [hname], ?_⟩
    -- a name that was there and is added would be that of a place with an entry
    rintro m hm m' hm' rfl
    obtain ⟨r, hr, hname⟩ := List.mem_filterMap.1 hm
    obtain ⟨r', hr', hname'⟩ := List.mem_filterMap.1 hm'
    obtain rfl := List.mem_singleton.1 hr'
    rw [eq_of_nameIn? hname, ← eq_of_nameIn? hname'] at hr
    exact hplace hr

theorem nodup_names_of_sublist (hentries : t'.entries.Sublist t.entries)
    (h : (t.names q).Nodup) : (t'.names q).Nodup := by
  rw [names_eq] at h ⊢
  exact h.sublist ((hentries.map _).filterMap _)

theorem nodup_names_erase (h : (t.names q).Nodup) : ((t.erase place).names q).Nodup :=
  nodup_names_of_sublist List.filter_sublist h

theorem nodup_names_clear (h : (t.names q).Nodup) : ((t.clear place).names q).Nodup :=
  nodup_names_of_sublist List.filter_sublist h

/-! ### Changes below a place -/

/-- The trees differ only below a place. -/
structure SameOutside (place : List String) (t t' : FileTree) : Prop where
  workingDirectory : t'.workingDirectory = t.workingDirectory
  encoding : t'.encoding = t.encoding
  at?_eq : ∀ r, (∀ q ≠ [], r ≠ place ++ q) → t'.at? r = t.at? r

namespace SameOutside

theorem refl (place : List String) (t : FileTree) : SameOutside place t t :=
  ⟨rfl, rfl, fun _ _ => rfl⟩

theorem trans (h : SameOutside place t t') (h' : SameOutside place t' t'') :
    SameOutside place t t'' :=
  ⟨h'.workingDirectory.trans h.workingDirectory, h'.encoding.trans h.encoding,
    fun r hr => (h'.at?_eq r hr).trans (h.at?_eq r hr)⟩

theorem put (t : FileTree) (hq : q ≠ []) (e : Entry) :
    SameOutside place t (t.put (place ++ q) e) :=
  ⟨rfl, rfl, fun _ hr => at?_put_of_ne t (hr q hq) e⟩

theorem erase (t : FileTree) (hq : q ≠ []) : SameOutside place t (t.erase (place ++ q)) :=
  ⟨rfl, rfl, fun _ hr => at?_erase_of_ne t (hr q hq)⟩

theorem clear (t : FileTree) (hq : q ≠ []) : SameOutside place t (t.clear (place ++ q)) := by
  refine ⟨rfl, rfl, fun r hr => ?_⟩
  rw [at?_clear, if_pos]
  right
  rintro ⟨rest, rfl⟩
  exact hr (q ++ rest) (by simp [hq]) (by simp)

/-- If nothing was below the place, no directory has gone. -/
theorem kept (h : SameOutside place t t') (hempty : ∀ q ≠ [], t.at? (place ++ q) = none) :
    Kept t t' := by
  refine ⟨h.workingDirectory, h.encoding, fun r hr => ?_⟩
  rw [h.at?_eq r, hr]
  rintro q hq rfl
  rw [hempty q hq] at hr
  cases hr

end SameOutside

/-! ### Removing a directory -/

/-- The tree without a directory and all that is in it. -/
def remove (t : FileTree) (place : List String) : FileTree := (t.clear place).erase place

theorem at?_remove (t : FileTree) (hplace : place ≠ []) (r : List String) :
    (t.remove place).at? r = if place <+: r then none else t.at? r := by
  unfold remove
  by_cases hr : r = place
  · subst hr
    rw [at?_erase_self _ hplace, if_pos (List.prefix_refl r)]
  · rw [at?_erase_of_ne _ hr, at?_clear]
    by_cases hbelow : place <+: r
    · simp [hr, hbelow]
    · simp [hbelow]

theorem SameOutside.remove (t : FileTree) (hq : q ≠ []) :
    SameOutside place t (t.remove (place ++ q)) :=
  (SameOutside.clear t hq).trans (SameOutside.erase _ hq)

theorem nodup_names_remove (h : (t.names q).Nodup) : ((t.remove place).names q).Nodup :=
  nodup_names_erase (nodup_names_clear h)

/-- A directory is removed if its path still leads to it once it is empty. -/
theorem removeTree_eq (hlocate : t.locate p = .ok place)
    (hdirectory : t.at? place = some .directory) (hnames : p.names ≠ [])
    (hcleared : (t.clear place).locate p = .ok place) :
    t.removeTree p = (.ok (), t.remove place) := by
  unfold removeTree
  simp only [place_eq hlocate, hdirectory, if_neg hnames, place_eq hcleared]
  rfl

/-! ### Nested directories -/

/-- Directories of one name, each in the one before. -/
def nested (n : String) : Nat → FileTree
  | 0 => .empty
  | depth + 1 => (nested n depth).put (List.replicate (depth + 1) n) .directory

theorem encoding_nested (depth : Nat) : (nested n depth).encoding = .utf8 := by
  induction depth with
  | zero => rfl
  | succ depth ih => exact ih

theorem at?_nested (depth : Nat) (place : List String) : (nested n depth).at? place =
    if place.length ≤ depth ∧ place = List.replicate place.length n then some .directory
    else none := by
  induction depth with
  | zero =>
    cases place with
    | nil => rfl
    | cons m place => rfl
  | succ depth ih =>
    rw [nested]
    by_cases hplace : place = List.replicate (depth + 1) n
    · subst hplace
      rw [at?_put_self _ (by simp)]
      simp
    · have hlength : place = List.replicate place.length n → place.length ≠ depth + 1 := by
        intro hall hlength
        rw [hlength] at hall
        exact hplace hall
      rw [at?_put_of_ne _ hplace, ih]
      by_cases hall : place = List.replicate place.length n
      · have := hlength hall
        have hiff : place.length ≤ depth ↔ place.length ≤ depth + 1 := by omega
        simp only [hiff]
      · rw [if_neg fun h => hall h.2, if_neg fun h => hall h.2]

theorem follow_nested (hdots : n ≠ "..") (hsize : n.utf8ByteSize ≤ maxName) {depth i j : Nat}
    (h : i + j ≤ depth) : (nested n depth).follow (List.replicate i n) (List.replicate j n) =
      .ok (List.replicate (i + j) n) := by
  induction j generalizing i with
  | zero => rfl
  | succ j ih =>
    have hdirectory : (nested n depth).at? (List.replicate i n) = some .directory := by
      rw [at?_nested, if_pos]
      simp
      omega
    have hrest := ih (i := i + 1) (by omega)
    rw [List.replicate_succ, follow, hdirectory]
    dsimp only
    have hfits : (nested n depth).encoding.size n ≤ maxName :=
      Nat.le_trans (Text.Encoding.size_le _ n) hsize
    rw [if_neg hdots, if_neg (Nat.not_lt.2 hfits), ← List.replicate_succ', hrest]
    congr 2
    omega

end Tabula.FileTree
