import Tabula.Proofs.FileTree.Directory

/-!
# Trees that agree at some places

Two trees agree at the places kept if these have the same entries in both (`SameOn`). A path looks
names up at the places on its way (`lookups`), so where two trees agree at all of these it leads to
the same place, and each operation on it has the same outcome in both trees and leaves trees that
agree. An operation whose path leads to a place below which nothing is kept leaves a tree that
agrees with the one before.
-/

namespace Tabula.FileTree

variable {keep : List String → Prop} {t t' t'' : FileTree} {p : Path} {place q : List String}

/-! ### Where names are looked up -/

/-- The place that one more name leads to. -/
def further (place : List String) (name : String) : List String :=
  if name = ".." then place.dropLast else place ++ [name]

/-- The places at which names are looked up, the first name at `place`. -/
def lookups (place : List String) : List String → List (List String)
  | [] => []
  | name :: names => place :: lookups (further place name) names

/-- The place that names lead to from `place` if all of them are found. -/
def target (place names : List String) : List String := names.foldl further place

theorem lookups_concat (place names : List String) (n : String) :
    lookups place (names ++ [n]) = lookups place names ++ [target place names] := by
  induction names generalizing place with
  | nil => rfl
  | cons m names ih => simp [lookups, target, ih (further place m)]

theorem target_concat {n : String} (hn : n ≠ "..") (place names : List String) :
    target place (names ++ [n]) = target place names ++ [n] := by
  simp [target, further, hn]

theorem length_target {names : List String} (h : ".." ∉ names) (place : List String) :
    (target place names).length = place.length + names.length := by
  induction names generalizing place with
  | nil => rfl
  | cons n names ih =>
    simp only [List.mem_cons, not_or] at h
    have hrest := ih h.2 (further place n)
    simp only [further, if_neg (Ne.symm h.1), List.length_append, List.length_singleton] at hrest
    simp only [target, List.foldl_cons, List.length_cons] at hrest ⊢
    simp only [further, if_neg (Ne.symm h.1)]
    omega

/-- Names other than `..` lead down all the way. -/
theorem length_lt_of_mem_lookups {names : List String} (h : ".." ∉ names)
    (hq : q ∈ lookups place names) : q.length < place.length + names.length := by
  induction names generalizing place with
  | nil => cases hq
  | cons n names ih =>
    simp only [List.mem_cons, not_or] at h
    rcases List.mem_cons.1 hq with rfl | hq
    · simp
    · have hrest := ih h.2 hq
      simp only [further, if_neg (Ne.symm h.1), List.length_append, List.length_singleton] at hrest
      simp only [List.length_cons]
      omega

theorem follow_cons_eq_ok_iff {n : String} {names : List String} :
    t.follow place (n :: names) = .ok q ↔ t.at? place = some .directory ∧
      (n = ".." ∨ t.encoding.size n ≤ maxName) ∧ t.follow (further place n) names = .ok q := by
  rw [follow, further]
  cases t.at? place with
  | none => simp
  | some e =>
    cases e with
    | file c => simp
    | directory =>
      by_cases hdots : n = ".."
      · simp [hdots]
      · by_cases hlong : maxName < t.encoding.size n
        · simp [hdots, hlong, Nat.not_le.2 hlong]
        · simp [hdots, hlong, Nat.not_lt.1 hlong]

/-- Names lead to the same place in trees with the same entries where the names are looked up. -/
theorem follow_congr {names : List String} (hencoding : t'.encoding = t.encoding)
    (h : ∀ q ∈ lookups place names, t'.at? q = t.at? q) :
    t'.follow place names = t.follow place names := by
  induction names generalizing place with
  | nil => rfl
  | cons n names ih =>
    have hrest := ih fun q hq => h q (List.mem_cons_of_mem place hq)
    rw [further] at hrest
    rw [follow, follow, h place (by simp [lookups]), hencoding]
    by_cases hdots : n = ".."
    · simp only [hdots, if_true] at hrest ⊢
      rw [hrest]
    · simp only [hdots, if_false] at hrest ⊢
      rw [hrest]

theorem eq_target_of_follow {names : List String} (h : t.follow place names = .ok q) :
    q = target place names := by
  induction names generalizing place with
  | nil => exact (Except.ok.inj h).symm
  | cons n names ih => exact ih (follow_cons_eq_ok_iff.1 h).2.2

/-- Names that lead somewhere also without a directory are not looked up in it. -/
theorem not_prefix_of_follow_remove {r names : List String} (hr : r ≠ [])
    (h : (t.remove r).follow place names = .ok q) : ∀ x ∈ lookups place names, ¬ r <+: x := by
  induction names generalizing place with
  | nil => simp [lookups]
  | cons n names ih =>
    obtain ⟨hdirectory, -, h⟩ := follow_cons_eq_ok_iff.1 h
    intro x hx
    rcases List.mem_cons.1 hx with rfl | hx
    · intro hprefix
      rw [at?_remove t hr, if_pos hprefix] at hdirectory
      cases hdirectory
    · exact ih h x hx

/-- The place where the names of a path begin. -/
def startOf (workingDirectory : List String) (p : Path) : List String :=
  if p.slashes = 0 then workingDirectory else []

/-- A path looks names up at places kept only. -/
def Sees (keep : List String → Prop) (workingDirectory : List String) (p : Path) : Prop :=
  ∀ q ∈ lookups (startOf workingDirectory p) p.names, keep q

/-- The place that a path stands for. -/
def placeOf (workingDirectory : List String) (p : Path) : List String :=
  target (startOf workingDirectory p) p.names

variable {workingDirectory : List String} {s : String}

theorem placeOf_join (hs : Path.IsPart s) :
    placeOf workingDirectory (p.join s) = placeOf workingDirectory p ++ [s] := by
  rw [placeOf, Path.join_of_isPart hs]
  exact target_concat hs.ne_dots _ _

theorem Sees.join (hp : Sees keep workingDirectory p) (hs : Path.IsPart s)
    (hplace : keep (placeOf workingDirectory p)) : Sees keep workingDirectory (p.join s) := by
  intro q hq
  rw [Path.join_of_isPart hs] at hq
  change q ∈ lookups (startOf workingDirectory p) (p.names ++ [s]) at hq
  rw [lookups_concat, List.mem_append, List.mem_singleton] at hq
  rcases hq with hq | rfl
  · exact hp q hq
  · exact hplace

theorem eq_placeOf_of_locate (h : t.locate p = .ok q) : q = placeOf t.workingDirectory p :=
  eq_target_of_follow (locate_eq_ok_iff.1 h).2.2

/-! ### Agreement -/

/-- The trees have the same working directory and encoding, and the same entries at the places
kept. -/
structure SameOn (keep : List String → Prop) (t t' : FileTree) : Prop where
  workingDirectory : t'.workingDirectory = t.workingDirectory
  encoding : t'.encoding = t.encoding
  at?_eq : ∀ q, keep q → t'.at? q = t.at? q

namespace SameOn

theorem refl (keep : List String → Prop) (t : FileTree) : SameOn keep t t :=
  ⟨rfl, rfl, fun _ _ => rfl⟩

theorem symm (h : SameOn keep t t') : SameOn keep t' t :=
  ⟨h.workingDirectory.symm, h.encoding.symm, fun q hq => (h.at?_eq q hq).symm⟩

theorem trans (h : SameOn keep t t') (h' : SameOn keep t' t'') : SameOn keep t t'' :=
  ⟨h'.workingDirectory.trans h.workingDirectory, h'.encoding.trans h.encoding,
    fun q hq => (h'.at?_eq q hq).trans (h.at?_eq q hq)⟩

theorem put (h : SameOn keep t t') (place : List String) (e : Entry) :
    SameOn keep (t.put place e) (t'.put place e) := by
  refine ⟨h.workingDirectory, h.encoding, fun q hq => ?_⟩
  by_cases hplace : q = place
  · subst hplace
    by_cases hroot : q = []
    · subst hroot
      rfl
    · rw [at?_put_self t' hroot, at?_put_self t hroot]
  · rw [at?_put_of_ne t' hplace, at?_put_of_ne t hplace, h.at?_eq q hq]

theorem erase (h : SameOn keep t t') (place : List String) :
    SameOn keep (t.erase place) (t'.erase place) := by
  refine ⟨h.workingDirectory, h.encoding, fun q hq => ?_⟩
  by_cases hplace : q = place
  · subst hplace
    by_cases hroot : q = []
    · subst hroot
      rfl
    · rw [at?_erase_self t' hroot, at?_erase_self t hroot]
  · rw [at?_erase_of_ne t' hplace, at?_erase_of_ne t hplace, h.at?_eq q hq]

theorem clear (h : SameOn keep t t') (place : List String) :
    SameOn keep (t.clear place) (t'.clear place) := by
  refine ⟨h.workingDirectory, h.encoding, fun q hq => ?_⟩
  rw [at?_clear, at?_clear, h.at?_eq q hq]

/-! ### Operations where the trees agree -/

theorem refuse_eq {α : Type} (h : SameOn keep t t') (p : Path) (r : Refusal) :
    (t'.refuse p r : Except FileError α) = t.refuse p r := by
  rw [refuse, refuse, h.encoding]

section

variable (h : SameOn keep t t') (hp : Sees keep t.workingDirectory p)

include h hp

theorem locate_eq : t'.locate p = t.locate p := by
  have hfollow := follow_congr h.encoding fun q hq => h.at?_eq q (hp q hq)
  unfold startOf at hfollow
  unfold locate
  rw [h.workingDirectory, h.encoding]
  dsimp only
  rw [hfollow]

theorem place_eq : t'.place p = t.place p := by
  rw [FileTree.place, FileTree.place, h.locate_eq hp, h.encoding]

variable (hplace : keep (placeOf t.workingDirectory p))

include hplace

theorem find?_eq : t'.find? p = t.find? p := by
  unfold find?
  rw [h.locate_eq hp, h.encoding]
  cases hlocate : t.locate p with
  | error r => cases r <;> rfl
  | ok q =>
    obtain rfl := eq_placeOf_of_locate hlocate
    dsimp only
    rw [h.at?_eq _ hplace]

theorem hasEntry_eq : t'.hasEntry p = t.hasEntry p := by
  rw [hasEntry, hasEntry, h.find?_eq hp hplace]

theorem isDirectory_eq : t'.isDirectory p = t.isDirectory p := by
  rw [isDirectory, isDirectory, h.find?_eq hp hplace]

theorem isFile_eq : t'.isFile p = t.isFile p := by
  rw [isFile, isFile, h.find?_eq hp hplace]

theorem readFile_eq : t'.readFile p = t.readFile p := by
  unfold readFile
  rw [h.place_eq hp]
  cases hlocate : t.locate p with
  | error r => simp [FileTree.place, hlocate]
  | ok q =>
    obtain rfl := eq_placeOf_of_locate hlocate
    rw [FileTree.place_eq hlocate, ok_bind, ok_bind, h.at?_eq _ hplace, h.refuse_eq, h.refuse_eq,
      h.encoding]

end

end SameOn

/-- Both operations are refused for the same reason, or leave trees that agree. -/
inductive SameOutcome (keep : List String → Prop) :
    Except FileError FileTree → Except FileError FileTree → Prop
  | ok {t t' : FileTree} : SameOn keep t t' → SameOutcome keep (.ok t) (.ok t')
  | error {e : FileError} : SameOutcome keep (.error e) (.error e)

namespace SameOn

section

variable (h : SameOn keep t t') (hp : Sees keep t.workingDirectory p)

include h hp

/-- An operation that looks at the place of its path, and changes the tree there if at all. -/
theorem sameOutcome_bind {f f' : List String → Except FileError FileTree}
    (hf : SameOutcome keep (f (placeOf t.workingDirectory p)) (f' (placeOf t.workingDirectory p))) :
    SameOutcome keep (t.place p >>= f) (t'.place p >>= f') := by
  rw [h.place_eq hp]
  cases hlocate : t.locate p with
  | error r =>
    simp only [FileTree.place, hlocate, mapError_error, error_bind]
    exact .error
  | ok q =>
    obtain rfl := eq_placeOf_of_locate hlocate
    rw [FileTree.place_eq hlocate]
    exact hf

variable (hplace : keep (placeOf t.workingDirectory p))

include hplace

theorem writeFile (text : String) : (t'.writeFile p text).1 = (t.writeFile p text).1 ∧
    SameOn keep (t.writeFile p text).2 (t'.writeFile p text).2 := by
  unfold FileTree.writeFile
  rw [h.place_eq hp]
  cases hlocate : t.locate p with
  | error r =>
    simp only [FileTree.place, hlocate, mapError_error]
    exact ⟨trivial, h⟩
  | ok q =>
    obtain rfl := eq_placeOf_of_locate hlocate
    rw [FileTree.place_eq hlocate]
    dsimp only
    rw [h.at?_eq _ hplace, h.encoding, h.refuse_eq]
    split
    · exact ⟨rfl, h⟩
    · split
      · exact ⟨rfl, h.put _ _⟩
      · exact ⟨h.refuse_eq p _, h.put _ _⟩

theorem deleteFile : SameOutcome keep (t.deleteFile p) (t'.deleteFile p) := by
  refine h.sameOutcome_bind hp ?_
  rw [h.at?_eq _ hplace, h.refuse_eq, h.refuse_eq]
  split
  · exact .error
  · exact .error
  · exact .ok (h.erase _)

theorem makeDirectory : SameOutcome keep (t.makeDirectory p) (t'.makeDirectory p) := by
  refine h.sameOutcome_bind hp ?_
  rw [h.at?_eq _ hplace, h.refuse_eq]
  split
  · exact .ok (h.put _ _)
  · exact .error

theorem removeTree : (t'.removeTree p).1 = (t.removeTree p).1 ∧
    SameOn keep (t.removeTree p).2 (t'.removeTree p).2 := by
  unfold FileTree.removeTree
  rw [h.place_eq hp]
  cases hlocate : t.locate p with
  | error r =>
    simp only [FileTree.place, hlocate, mapError_error]
    exact ⟨trivial, h⟩
  | ok q =>
    obtain rfl := eq_placeOf_of_locate hlocate
    rw [FileTree.place_eq hlocate]
    dsimp only
    rw [h.at?_eq _ hplace, h.refuse_eq, h.refuse_eq]
    split
    · exact ⟨rfl, h⟩
    · exact ⟨rfl, h⟩
    · have hcleared := h.clear (placeOf t.workingDirectory p)
      by_cases hnames : p.names = []
      · simp only [hnames, if_true]
        exact ⟨hcleared.refuse_eq p _, hcleared⟩
      · simp only [hnames, if_false]
        rw [hcleared.place_eq hp]
        split
        · exact ⟨rfl, hcleared⟩
        · exact ⟨rfl, hcleared.erase _⟩

end

/-! ### Operations elsewhere -/

section

variable (helsewhere : ∀ q, placeOf t.workingDirectory p <+: q → ¬ keep q)

include helsewhere

theorem of_put {e : Entry} (hlocate : t.locate p = .ok q) : SameOn keep t (t.put q e) := by
  obtain rfl := eq_placeOf_of_locate hlocate
  refine ⟨rfl, rfl, fun r hr => at?_put_of_ne t ?_ e⟩
  intro hsame
  exact helsewhere r (hsame ▸ List.prefix_refl r) hr

theorem of_erase (hlocate : t.locate p = .ok q) : SameOn keep t (t.erase q) := by
  obtain rfl := eq_placeOf_of_locate hlocate
  refine ⟨rfl, rfl, fun r hr => at?_erase_of_ne t ?_⟩
  intro hsame
  exact helsewhere r (hsame ▸ List.prefix_refl r) hr

theorem of_clear (hlocate : t.locate p = .ok q) : SameOn keep t (t.clear q) := by
  obtain rfl := eq_placeOf_of_locate hlocate
  refine ⟨rfl, rfl, fun r hr => ?_⟩
  rw [at?_clear, if_pos (.inr fun hprefix => helsewhere r hprefix hr)]

/-- A removal leaves what is kept, whether it is carried out or fails half way. -/
theorem of_removeTree : SameOn keep t (t.removeTree p).2 := by
  unfold FileTree.removeTree
  cases hlocate : t.locate p with
  | error r =>
    simp only [FileTree.place, hlocate, mapError_error]
    exact .refl keep t
  | ok q =>
    have hcleared := of_clear helsewhere hlocate
    rw [FileTree.place_eq hlocate]
    dsimp only
    split
    · exact .refl keep t
    · exact .refl keep t
    · split
      · exact hcleared
      · cases hagain : (t.clear q).locate p with
        | error r =>
          simp only [FileTree.place, hagain, mapError_error]
          exact hcleared
        | ok r =>
          rw [FileTree.place_eq hagain]
          exact hcleared.trans (of_erase (t := t.clear q) helsewhere hagain)

end

end SameOn

end Tabula.FileTree
