import Tabula.FileTree
import Tabula.Proofs.FileTree.Path
import Tabula.Proofs.Outcome

/-!
# Places and operations

What an operation on a tree does once its path has led to a place, and when a path leads to the same
place in another tree: a path leads through directories only, so it is enough that no directory has
gone (`locate_of_kept`). A file that is written is read back by the same path
(`readFile_writeFile`), unless it cannot be encoded and leaves the file empty (`writeFile_cases`). A
directory that is made is one from then on (`isDirectory_of_makeDirectories`), as only a removal of
a tree takes directories away.
-/

namespace Tabula.FileTree

variable {t t' : FileTree} {p : Path} {place : List String}

/-! ### The same place in another tree -/

/-- No directory of the first tree is missing in the second, which has the same working directory
and the same encoding. -/
structure Kept (t t' : FileTree) : Prop where
  workingDirectory : t'.workingDirectory = t.workingDirectory
  encoding : t'.encoding = t.encoding
  directory : ∀ p, t.at? p = some .directory → t'.at? p = some .directory

theorem follow_of_kept (h : Kept t t') {names : List String} {start : List String}
    (hfollow : t.follow start names = .ok place) : t'.follow start names = .ok place := by
  induction names generalizing start with
  | nil => exact hfollow
  | cons n names ih =>
    rw [follow] at hfollow ⊢
    cases hstart : t.at? start with
    | none => simp [hstart] at hfollow
    | some e =>
      cases e with
      | file c => simp [hstart] at hfollow
      | directory =>
        rw [hstart] at hfollow
        rw [h.directory start hstart, h.encoding]
        dsimp only at hfollow ⊢
        by_cases hdots : n = ".."
        · rw [if_pos hdots] at hfollow ⊢
          exact ih hfollow
        · rw [if_neg hdots] at hfollow ⊢
          by_cases hlong : maxName < t.encoding.size n
          · rw [if_pos hlong] at hfollow
            cases hfollow
          · rw [if_neg hlong] at hfollow ⊢
            exact ih hfollow

/-- A path is followed if it is not too long and has no null character. -/
theorem locate_eq_ok_iff : t.locate p = .ok place ↔
    p.NullFree ∧ t.encoding.size (toString p) ≤ maxPath ∧
      t.follow (if p.slashes = 0 then t.workingDirectory else []) p.names = .ok place := by
  unfold locate Path.NullFree
  dsimp only
  by_cases hnull : '\x00' ∈ (toString p).toList
  · simp [hnull]
  · by_cases hlong : maxPath < t.encoding.size (toString p)
    · simp [hnull, hlong, Nat.not_le.2 hlong]
    · simp [hnull, hlong, Nat.not_lt.1 hlong]

theorem locate_of_kept (h : Kept t t') (hlocate : t.locate p = .ok place) :
    t'.locate p = .ok place := by
  rw [locate_eq_ok_iff] at hlocate ⊢
  rw [h.workingDirectory, h.encoding]
  exact ⟨hlocate.1, hlocate.2.1, follow_of_kept h hlocate.2.2⟩

theorem kept_put (hplace : t.at? place ≠ some .directory) (e : Entry) : Kept t (t.put place e) := by
  refine ⟨rfl, rfl, fun q hq => ?_⟩
  rw [at?_put_of_ne t _ e]
  · exact hq
  · rintro rfl
    exact hplace hq

/-! ### Paths that are not followed -/

theorem isOfSystem_of_follow_error {r : Refusal} {start names : List String}
    (h : t.follow start names = .error r) : r.isOfSystem = true := by
  induction names generalizing start with
  | nil => cases h
  | cons n names ih =>
    rw [follow] at h
    split at h
    · cases h
      rfl
    · cases h
      rfl
    · split at h
      · exact ih h
      · split at h
        · cases h
          rfl
        · exact ih h

/-- A path without null characters is refused by the system. -/
theorem isOfSystem_of_locate_error {r : Refusal} (hp : p.NullFree) (h : t.locate p = .error r) :
    r.isOfSystem = true := by
  rw [locate, if_neg hp] at h
  split at h
  · cases h
    rfl
  · exact isOfSystem_of_follow_error h

theorem locate_eq_nameTooLong (hp : p.NullFree) (h : maxPath < t.encoding.size (toString p)) :
    t.locate p = .error .nameTooLong := by
  rw [locate, if_neg hp, if_pos h]

/-- Names that have been followed are not too long for a directory. -/
theorem follow_short {names start : List String} (h : t.follow start names = .ok place) :
    ∀ n ∈ names, t.encoding.size n ≤ maxName := by
  induction names generalizing start with
  | nil => simp
  | cons n names ih =>
    rw [follow] at h
    split at h
    · cases h
    · cases h
    · split at h
      · rename_i hdots
        subst hdots
        exact List.forall_mem_cons.2 ⟨Nat.le_trans (t.encoding.size_le "..") (by decide), ih h⟩
      · split at h
        · cases h
        · rename_i hshort
          exact List.forall_mem_cons.2 ⟨Nat.not_lt.1 hshort, ih h⟩

theorem follow_ne_nameTooLong (t : FileTree) {names : List String}
    (h : ∀ n ∈ names, t.encoding.size n ≤ maxName) (start : List String) :
    t.follow start names ≠ .error .nameTooLong := by
  induction names generalizing start with
  | nil => simp [follow]
  | cons n names ih =>
    obtain ⟨hn, hnames⟩ := List.forall_mem_cons.1 h
    rw [follow]
    split
    · simp
    · simp
    · split
      · exact ih hnames _
      · rw [if_neg (Nat.not_lt.2 hn)]
        exact ih hnames _

/-- A path that has led to a place is too long in no tree with the same encoding. -/
theorem locate_ne_nameTooLong (h : t.locate p = .ok place) (hencoding : t'.encoding = t.encoding) :
    t'.locate p ≠ .error .nameTooLong := by
  obtain ⟨hnull, hpath, hfollow⟩ := locate_eq_ok_iff.1 h
  rw [← hencoding] at hpath
  rw [locate, if_neg hnull, if_neg (Nat.not_lt.2 hpath)]
  exact t'.follow_ne_nameTooLong (hencoding ▸ follow_short hfollow) _

/-! ### One name further -/

theorem follow_append (t : FileTree) (start names : List String) (n : String) :
    t.follow start (names ++ [n]) =
      (t.follow start names).bind fun place => t.follow place [n] := by
  induction names generalizing start with
  | nil => rfl
  | cons m names ih =>
    rw [List.cons_append, follow, follow]
    split
    · rfl
    · rfl
    · split
      · exact ih _
      · split
        · rfl
        · exact ih _

/-- A path to a part of a directory leads to the directory's place and the part. -/
theorem locate_join {s : String} (hlocate : t.locate p = .ok place)
    (hdirectory : t.at? place = some .directory) (hs : Path.IsPart s)
    (hname : t.encoding.size s ≤ maxName)
    (hpath : t.encoding.size (toString (p.join s)) ≤ maxPath) :
    t.locate (p.join s) = .ok (place ++ [s]) := by
  rw [locate_eq_ok_iff] at hlocate ⊢
  obtain ⟨hp, -, hfollow⟩ := hlocate
  refine ⟨hp.join hs, hpath, ?_⟩
  rw [Path.join_of_isPart hs]
  dsimp only
  rw [follow_append, hfollow]
  change t.follow place [s] = _
  simp [follow, hdirectory, hs.ne_dots, Nat.not_lt.2 hname]

/-! ### Operations at a place -/

section

variable (hlocate : t.locate p = .ok place)

include hlocate

theorem place_eq : t.place p = .ok place := by simp [FileTree.place, hlocate]

theorem hasEntry_eq : t.hasEntry p = .ok (t.at? place).isSome := by
  simp [hasEntry, find?, hlocate, Except.map]

theorem isDirectory_eq : t.isDirectory p = .ok (decide (t.at? place = some .directory)) := by
  simp [isDirectory, find?, hlocate, Except.map]

theorem isFile_of_file {c : Content} (h : t.at? place = some (.file c)) :
    t.isFile p = .ok true := by
  simp [isFile, find?, hlocate, h, Except.map]

theorem isFile_of_not_file (h : ∀ c, t.at? place ≠ some (.file c)) : t.isFile p = .ok false := by
  cases hentry : t.at? place with
  | none => simp [isFile, find?, hlocate, hentry, Except.map]
  | some e =>
    cases e with
    | directory => simp [isFile, find?, hlocate, hentry, Except.map]
    | file c => exact absurd hentry (h c)

theorem readFile_eq {c : Content} (h : t.at? place = some (.file c)) :
    t.readFile p = .ok (c.found t.encoding) := by
  simp [readFile, place_eq hlocate, h, bind, Except.bind, pure, Except.pure]

theorem readFile_eq_text {s : String} (h : t.at? place = some (.file (.text s)))
    (hs : t.encoding.Encodes s) : t.readFile p = .ok (.text s) := by
  rw [readFile_eq hlocate h, Content.found_text hs]

/-- A text for a file is written if it can be encoded, and leaves the file empty if not. -/
theorem writeFile_eq_match (s : String) (h : t.at? place ≠ some .directory) :
    t.writeFile p s = match t.encoding.fault? s with
      | none => (.ok (), t.put place (.file (.text s)))
      | some fault => (t.refuse p (.unencodable fault), t.put place (.file (.text ""))) := by
  unfold writeFile
  rw [place_eq hlocate]
  dsimp only
  split
  · rename_i hdirectory
    exact absurd hdirectory h
  · rfl

theorem writeFile_eq {s : String} (hs : t.encoding.Encodes s) (h : t.at? place ≠ some .directory) :
    t.writeFile p s = (.ok (), t.put place (.file (.text s))) := by
  rw [writeFile_eq_match hlocate s h, Text.Encoding.fault?_eq_none_iff.2 hs]

theorem deleteFile_eq {c : Content} (h : t.at? place = some (.file c)) :
    t.deleteFile p = .ok (t.erase place) := by
  simp [deleteFile, place_eq hlocate, h, bind, Except.bind, pure, Except.pure]

theorem makeDirectory_eq (h : t.at? place = none) :
    t.makeDirectory p = .ok (t.put place .directory) := by
  simp [makeDirectory, place_eq hlocate, h, bind, Except.bind, pure, Except.pure]

theorem makeDirectory_eq_error {e : Entry} (h : t.at? place = some e) :
    t.makeDirectory p = .error ⟨.present, p, t.encoding⟩ := by
  simp [makeDirectory, place_eq hlocate, h, refuse, bind, Except.bind]

theorem list_eq (h : t.at? place = some .directory) : t.list p = .ok (t.children place) := by
  simp [list, place_eq hlocate, h, bind, Except.bind, pure, Except.pure]

end

/-! ### Refusals -/

/-- A question is refused only for a name that is too long. -/
theorem nameTooLong_of_find?_error {e : FileError} (h : t.find? p = .error e) :
    e.refusal = .nameTooLong := by
  unfold find? at h
  split at h
  · cases h
  · cases h
    rfl
  · cases h

theorem nameTooLong_of_map_find? {α : Type} {f : Option Entry → α} {e : FileError}
    (h : (t.find? p).map f = .error e) : e.refusal = .nameTooLong := by
  cases hfind : t.find? p with
  | error e' =>
    rw [hfind] at h
    cases h
    exact nameTooLong_of_find?_error hfind
  | ok e? =>
    rw [hfind] at h
    cases h

/-- What is found to be there is at a place. -/
theorem exists_place_of_isDirectory (h : t.isDirectory p = .ok true) :
    ∃ place, t.locate p = .ok place := by
  unfold isDirectory find? at h
  split at h
  · rename_i place hlocate
    exact ⟨place, hlocate⟩
  · cases h
  · cases h

theorem exists_place_of_makeDirectory (h : t.makeDirectory p = .ok t') :
    ∃ place, t.locate p = .ok place ∧ t' = t.put place .directory := by
  obtain ⟨place, hplace, h⟩ := bind_eq_ok_iff.1 h
  split at h
  · cases h
    exact ⟨place, mapError_eq_ok_iff.1 hplace, rfl⟩
  · cases h

theorem exists_place_of_deleteFile (h : t.deleteFile p = .ok t') :
    ∃ place, t.locate p = .ok place ∧ t' = t.erase place := by
  obtain ⟨place, hplace, h⟩ := bind_eq_ok_iff.1 h
  split at h
  · cases h
  · cases h
  · cases h
    exact ⟨place, mapError_eq_ok_iff.1 hplace, rfl⟩

/-- A path that has led to a place can be asked for in every tree with the same encoding. -/
theorem exists_find?_of_locate (h : t.locate p = .ok place) (hencoding : t'.encoding = t.encoding) :
    ∃ e?, t'.find? p = .ok e? := by
  unfold find?
  split
  · exact ⟨_, rfl⟩
  · rename_i hlong
    exact absurd hlong (locate_ne_nameTooLong h hencoding)
  · exact ⟨none, rfl⟩

/-- A directory that is there can be listed. -/
theorem exists_list_of_isDirectory (h : t.isDirectory p = .ok true) :
    ∃ children, t.list p = .ok children := by
  obtain ⟨place, hlocate⟩ := exists_place_of_isDirectory h
  rw [isDirectory_eq hlocate, Except.ok.injEq, decide_eq_true_eq] at h
  exact ⟨_, list_eq hlocate h⟩

/-- A directory is missing in the end for the reason that it could not be made. -/
theorem eq_error_of_settle {x : Except FileError FileTree} {e : FileError}
    (h : makeDirectories.settle p t x = (.error e, t')) : x = .error e := by
  unfold makeDirectories.settle at h
  split at h
  · cases h
  · split at h
    · cases h
    · cases h
      rfl

section

variable (hp : p.NullFree) {e : FileError}

include hp

theorem isOfSystem_of_place_error (h : t.place p = .error e) : e.refusal.isOfSystem = true := by
  obtain ⟨r, hlocate, rfl⟩ := mapError_eq_error_iff.1 h
  exact isOfSystem_of_locate_error hp hlocate

/-- What an operation does at a place has its own reasons to be refused. -/
theorem isOfSystem_of_bind_error {α : Type} {f : List String → Except FileError α}
    (hf : ∀ place e, f place = .error e → e.refusal.isOfSystem = true)
    (h : (t.place p >>= f) = .error e) : e.refusal.isOfSystem = true := by
  rcases bind_eq_error_iff.1 h with hplace | ⟨place, -, h⟩
  · exact isOfSystem_of_place_error hp hplace
  · exact hf place e h

theorem isOfSystem_of_makeDirectory_error (h : t.makeDirectory p = .error e) :
    e.refusal.isOfSystem = true := by
  refine isOfSystem_of_bind_error hp (fun place e h => ?_) h
  split at h
  · cases h
  · cases h
    rfl

theorem isOfSystem_of_makeDirectories_error (h : t.makeDirectories p = (.error e, t')) :
    e.refusal.isOfSystem = true := by
  fun_induction makeDirectories t p generalizing e t' with
  | case1 p t₁ hmake => cases h
  | case2 p e' hmake hmissing hroot =>
    cases h
    exact isOfSystem_of_makeDirectory_error hp hmake
  | case3 p e' hmake hmissing hroot e₁ t₁ hparent ih =>
    cases h
    exact ih hp.parent hparent
  | case4 p e' hmake hmissing hroot t₁ hparent ih =>
    exact isOfSystem_of_makeDirectory_error hp (eq_error_of_settle h)
  | case5 p e' hmake hpresent =>
    cases eq_error_of_settle h
    exact isOfSystem_of_makeDirectory_error hp hmake

theorem isOfSystem_of_deleteFile_error (h : t.deleteFile p = .error e) :
    e.refusal.isOfSystem = true := by
  refine isOfSystem_of_bind_error hp (fun place e h => ?_) h
  split at h
  · cases h
    rfl
  · cases h
    rfl
  · cases h

theorem isOfSystem_of_removeTree_error (h : t.removeTree p = (.error e, t')) :
    e.refusal.isOfSystem = true := by
  unfold removeTree at h
  split at h
  · rename_i hplace
    cases h
    exact isOfSystem_of_place_error hp hplace
  · split at h
    · cases h
      rfl
    · cases h
      rfl
    · dsimp only at h
      split at h
      · cases h
        rfl
      · split at h
        · rename_i hplace
          cases h
          exact isOfSystem_of_place_error hp hplace
        · cases h

end

/-! ### Writing and reading -/

/-- What becomes of a text for a file: nothing can be written there, or the text is written, or it
cannot be encoded and leaves the file empty. -/
theorem writeFile_cases (t : FileTree) (p : Path) (s : String) :
    (∃ e, t.writeFile p s = (.error e, t) ∧ (p.NullFree → e.refusal.isOfSystem = true)) ∨
    ∃ place, t.locate p = .ok place ∧ t.at? place ≠ some .directory ∧
      (t.encoding.Encodes s ∧ t.writeFile p s = (.ok (), t.put place (.file (.text s))) ∨
        ∃ fault, t.encoding.fault? s = some fault ∧
          t.writeFile p s =
            (.error ⟨.unencodable fault, p, t.encoding⟩, t.put place (.file (.text "")))) := by
  cases hplace : t.place p with
  | error e =>
    refine .inl ⟨e, ?_, fun hp => isOfSystem_of_place_error hp hplace⟩
    simp only [writeFile, hplace]
  | ok place =>
    by_cases hdirectory : t.at? place = some .directory
    · refine .inl ⟨⟨.isDirectory, p, t.encoding⟩, ?_, fun _ => rfl⟩
      simp only [writeFile, hplace, hdirectory]
      rfl
    · have hlocate := mapError_eq_ok_iff.1 hplace
      refine .inr ⟨place, hlocate, hdirectory, ?_⟩
      rw [writeFile_eq_match hlocate s hdirectory]
      cases hfault : t.encoding.fault? s with
      | none => exact .inl ⟨Text.Encoding.fault?_eq_none_iff.1 hfault, rfl⟩
      | some fault => exact .inr ⟨fault, rfl, rfl⟩

theorem exists_place_of_writeFile {s : String} {u : Unit} (h : t.writeFile p s = (.ok u, t')) :
    ∃ place, t.locate p = .ok place ∧ t.at? place ≠ some .directory ∧ t.encoding.Encodes s ∧
      t' = t.put place (.file (.text s)) := by
  obtain ⟨e, herror, -⟩ | ⟨place, hlocate, hplace, ⟨hs, hok⟩ | ⟨fault, -, herror⟩⟩ :=
    writeFile_cases t p s
  · cases h.symm.trans herror
  · cases h.symm.trans hok
    exact ⟨place, hlocate, hplace, hs, rfl⟩
  · cases h.symm.trans herror

/-- A text that is written is read back by the same path. -/
theorem readFile_writeFile {s : String} {u : Unit} (h : t.writeFile p s = (.ok u, t')) :
    t'.isFile p = .ok true ∧ t'.readFile p = .ok (.text s) := by
  obtain ⟨place, hlocate, hplace, hs, rfl⟩ := exists_place_of_writeFile h
  have hne : place ≠ [] := by
    rintro rfl
    exact hplace (at?_nil t)
  have hlocate' := locate_of_kept (kept_put hplace (.file (.text s))) hlocate
  have hentry := at?_put_self t hne (.file (.text s))
  refine ⟨isFile_of_file hlocate' hentry, ?_⟩
  rw [readFile_eq hlocate' hentry, encoding_put, Content.found_text hs]

/-- What is put at a place takes the place of what was put there before. -/
theorem put_put (t : FileTree) (place : List String) (e e' : Entry) :
    (t.put place e).put place e' = t.put place e' := by
  by_cases h : t.entries.any (·.1 = place) = true
  · have hany : (t.entries.map fun x => (x.1, if x.1 = place then e else x.2)).any
        (·.1 = place) = true := by
      rw [List.any_map]
      exact h
    simp only [put, h, hany, if_true, List.map_map, mk.injEq, true_and, and_true]
    refine List.map_congr_left fun x _ => ?_
    by_cases hx : x.1 = place <;> simp [hx]
  · have hother : t.entries.map (fun x => (x.1, if x.1 = place then e' else x.2)) = t.entries := by
      refine (List.map_congr_left fun x hx => ?_).trans (List.map_id _)
      have hne : x.1 ≠ place := fun hplace => h (List.any_eq_true.2 ⟨x, hx, by simpa using hplace⟩)
      exact Prod.ext rfl (if_neg hne)
    simp [put, h, hother]

/-- A text that is written takes the place of the one that was written there before. -/
theorem writeFile_eq_of_writeFile {s : String} {u : Unit} (h : t.writeFile p s = (.ok u, t'))
    (s' : String) : t'.writeFile p s' = t.writeFile p s' := by
  obtain ⟨place, hlocate, hplace, -, rfl⟩ := exists_place_of_writeFile h
  have hne : place ≠ [] := by
    rintro rfl
    exact hplace (at?_nil t)
  have hlocate' := locate_of_kept (kept_put hplace (.file (.text s))) hlocate
  have hplace' : (t.put place (.file (.text s))).at? place ≠ some .directory := by
    simp [at?_put_self t hne]
  simp only [writeFile_eq_match hlocate' s' hplace', writeFile_eq_match hlocate s' hplace, put_put]
  rfl

/-- A text that is written again changes nothing. -/
theorem writeFile_writeFile {s : String} {u : Unit} (h : t.writeFile p s = (.ok u, t')) :
    t'.writeFile p s = (.ok u, t') := (writeFile_eq_of_writeFile h s).trans h

/-- A text that can be encoded can be written to a file that is there. -/
theorem exists_writeFile_of_isFile (h : t.isFile p = .ok true) {s : String}
    (hs : t.encoding.Encodes s) : ∃ t', t.writeFile p s = (.ok (), t') := by
  unfold isFile find? at h
  split at h
  · rename_i place hlocate
    refine ⟨_, writeFile_eq hlocate hs fun hdirectory => ?_⟩
    rw [hdirectory] at h
    cases h
  · cases h
  · cases h

/-! ### Directories that stay -/

theorem isDirectory_iff : t.isDirectory p = .ok true ↔
    ∃ place, t.locate p = .ok place ∧ t.at? place = some .directory := by
  constructor
  · intro h
    obtain ⟨place, hlocate⟩ := exists_place_of_isDirectory h
    exact ⟨place, hlocate, by simpa [isDirectory_eq hlocate] using h⟩
  · rintro ⟨place, hlocate, hdirectory⟩
    rw [isDirectory_eq hlocate, decide_eq_true hdirectory]

theorem isDirectory_of_kept (hkept : Kept t t') (h : t.isDirectory p = .ok true) :
    t'.isDirectory p = .ok true := by
  obtain ⟨place, hlocate, hdirectory⟩ := isDirectory_iff.1 h
  exact isDirectory_iff.2 ⟨place, locate_of_kept hkept hlocate, hkept.directory place hdirectory⟩

/-- No directory goes when a text is written, whether it can be encoded or not. -/
theorem kept_writeFile (t : FileTree) (p : Path) (s : String) : Kept t (t.writeFile p s).2 := by
  obtain ⟨e, herror, -⟩ | ⟨place, -, hplace, ⟨-, hok⟩ | ⟨fault, -, herror⟩⟩ :=
    writeFile_cases t p s
  · rw [herror]
    exact ⟨rfl, rfl, fun _ => id⟩
  · rw [hok]
    exact kept_put hplace _
  · rw [herror]
    exact kept_put hplace _

theorem kept_of_writeFile {s : String} {x : Except FileError Unit} (h : t.writeFile p s = (x, t')) :
    Kept t t' := by
  have hkept := t.kept_writeFile p s
  rwa [h] at hkept

theorem kept_of_deleteFile (h : t.deleteFile p = .ok t') : Kept t t' := by
  obtain ⟨place, -, h⟩ := bind_eq_ok_iff.1 h
  split at h
  · cases h
  · cases h
  · rename_i hfile
    cases h
    refine ⟨rfl, rfl, fun q hq => ?_⟩
    rw [at?_erase_of_ne t _, hq]
    rintro rfl
    rw [hfile] at hq
    cases hq

/-- A directory that is made is there, and so are the others. -/
theorem isDirectory_of_makeDirectory (h : t.makeDirectory p = .ok t') :
    t'.isDirectory p = .ok true ∧ Kept t t' := by
  obtain ⟨place, hplace, h⟩ := bind_eq_ok_iff.1 h
  split at h
  · rename_i hnone
    cases h
    have hkept : Kept t (t.put place .directory) := kept_put (by simp [hnone]) _
    have hlocate := locate_of_kept hkept (mapError_eq_ok_iff.1 hplace)
    have hne : place ≠ [] := by
      rintro rfl
      cases hnone
    exact ⟨isDirectory_iff.2 ⟨place, hlocate, at?_put_self t hne _⟩, hkept⟩
  · cases h

theorem isDirectory_of_settle {u : Unit} {x : Except FileError FileTree} {t₀ : FileTree}
    (hx : ∀ t₁, x = .ok t₁ → t₁.isDirectory p = .ok true)
    (h : makeDirectories.settle p t₀ x = (.ok u, t')) : t'.isDirectory p = .ok true := by
  unfold makeDirectories.settle at h
  split at h
  · cases h
    exact hx _ rfl
  · split at h
    · rename_i hdirectory
      cases h
      exact hdirectory
    · cases h

theorem isDirectory_of_makeDirectories {u : Unit} (h : t.makeDirectories p = (.ok u, t')) :
    t'.isDirectory p = .ok true := by
  rw [makeDirectories] at h
  split at h
  · rename_i hmake
    cases h
    exact (isDirectory_of_makeDirectory hmake).1
  · split at h
    · split at h
      · cases h
      · split at h
        · cases h
        · exact isDirectory_of_settle (fun _ hmake => (isDirectory_of_makeDirectory hmake).1) h
    · exact isDirectory_of_settle (fun _ herror => by cases herror) h

/-! ### The encoding stays -/

theorem encoding_writeFile (t : FileTree) (p : Path) (s : String) :
    (t.writeFile p s).2.encoding = t.encoding := (kept_writeFile t p s).encoding

theorem encoding_of_deleteFile (h : t.deleteFile p = .ok t') : t'.encoding = t.encoding :=
  (kept_of_deleteFile h).encoding

theorem encoding_of_makeDirectory (h : t.makeDirectory p = .ok t') : t'.encoding = t.encoding :=
  (isDirectory_of_makeDirectory h).2.encoding

theorem encoding_removeTree (t : FileTree) (p : Path) :
    (t.removeTree p).2.encoding = t.encoding := by
  unfold removeTree
  split
  · rfl
  · split
    · rfl
    · rfl
    · dsimp only
      split
      · rfl
      · split <;> rfl

theorem encoding_makeDirectories (t : FileTree) (p : Path) :
    (t.makeDirectories p).2.encoding = t.encoding := by
  have hsettle : ∀ (p : Path) (t : FileTree) (x : Except FileError FileTree),
      (∀ t', x = .ok t' → t'.encoding = t.encoding) →
      (makeDirectories.settle p t x).2.encoding = t.encoding := by
    intro p t x hx
    unfold makeDirectories.settle
    split
    · exact hx _ rfl
    · split <;> rfl
  fun_induction makeDirectories t p with
  | case1 p t' hmake => exact encoding_of_makeDirectory hmake
  | case2 => rfl
  | case3 p e hmake hmissing hroot e' t' hparent ih => rwa [hparent] at ih
  | case4 p e hmake hmissing hroot u t' hparent ih =>
    rw [hparent] at ih
    exact (hsettle _ _ _ fun _ hmade => encoding_of_makeDirectory hmade).trans ih
  | case5 p e hmake hpresent => exact hsettle _ _ _ (by simp)

end Tabula.FileTree
