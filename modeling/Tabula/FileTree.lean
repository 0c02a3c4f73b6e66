import Tabula.FileTree.Path
import Tabula.Text.Quoted

/-!
# Trees of files

A tree of files has an entry, a directory or a file, at some places; a place is the list of names
that leads to it from the root of the tree, which is itself always there. A file holds a text, or
bytes of which nothing else is known. One place is the working directory, where paths start that do
not start at the root.

A path is followed name by name. Each name needs a directory to be looked up in, and a name that is
too long for a directory is refused. What an operation cannot do it refuses with a reason, and then
the tree is as before, but for a text that cannot be encoded: the file it was meant for is empty
then.
-/

namespace Tabula

inductive Content
  | text (s : String)
  | binary (bytes : List UInt8)
  deriving DecidableEq, Repr

namespace Content

/-- The content of a file with these bytes: a text, if they encode one. -/
def ofBytes (bytes : List UInt8) : Content :=
  match Text.Utf8.decode bytes with
  | .ok s => text s
  | .error _ => binary bytes

/-- The text of a file. -/
def read : Content → Except Text.Utf8.Fault String
  | text s => .ok s
  | binary bytes => Text.Utf8.decode bytes

/-- A content as it is found in a file: no file has a text that cannot be encoded, and what would
be read as one is found to be no text. -/
def found (c : Content) (encoding : Text.Encoding) : Content :=
  match c.read with
  | .ok s =>
    match encoding.fault? s with
    | none => c
    | some _ => binary [0xff]
  | .error _ => c

/-- A text that is found in a file is the one there, and can be encoded. -/
theorem read_found_eq_ok_iff {c : Content} {e : Text.Encoding} {s : String} :
    (c.found e).read = .ok s ↔ c.read = .ok s ∧ e.Encodes s := by
  have hbinary : (binary [0xff]).read = .error ⟨0, 0xff, 1, .startByte⟩ := by cbv
  unfold found
  cases h : c.read with
  | error fault => simp [h]
  | ok u =>
    cases hfault : e.fault? u with
    | none =>
      simp only [hfault, h, Except.ok.injEq]
      exact ⟨fun hs => ⟨hs, hs ▸ Text.Encoding.fault?_eq_none_iff.1 hfault⟩, And.left⟩
    | some fault =>
      simp only [hfault, hbinary, Except.ok.injEq, reduceCtorEq, false_iff, not_and]
      rintro rfl hs
      cases hfault.symm.trans (Text.Encoding.fault?_eq_none_iff.2 hs)

theorem found_text {e : Text.Encoding} {s : String} (h : e.Encodes s) :
    (text s).found e = text s := by
  simp only [found, read, Text.Encoding.fault?_eq_none_iff.2 h]

end Content

inductive Entry
  | directory
  | file (content : Content)
  deriving DecidableEq, Repr

/-- Why a tree refuses an operation. -/
inductive Refusal
  | missing
  | present
  | notDirectory
  | isDirectory
  | nameTooLong
  /-- The working directory cannot be removed by the name it has for itself. -/
  | workingDirectory
  /-- No path has the character `U+0000`. -/
  | nullCharacter
  /-- The text for a file has bytes that were never decoded. -/
  | unencodable (fault : Text.EncodeFault)
  deriving DecidableEq, Repr

namespace Refusal

/-- The number that the system has for a reason, if the system is asked at all. -/
def number? : Refusal → Option Nat
  | missing => some 2
  | present => some 17
  | notDirectory => some 20
  | isDirectory => some 21
  | nameTooLong => some 36
  | workingDirectory => some 22
  | nullCharacter => none
  | unencodable _ => none

/-- It is the system that refuses, and not what asks the system. -/
def isOfSystem (r : Refusal) : Bool := r.number?.isSome

def message : Refusal → String
  | missing => "No such file or directory"
  | present => "File exists"
  | notDirectory => "Not a directory"
  | isDirectory => "Is a directory"
  | nameTooLong => "File name too long"
  | workingDirectory => "Invalid argument"
  | nullCharacter => "embedded null byte"
  | unencodable fault => fault.message

end Refusal

/-- An operation refused, and the path it was refused for, with the encoding of its text. -/
structure FileError where
  refusal : Refusal
  path : Path
  encoding : Text.Encoding
  deriving DecidableEq, Repr

/-- A refusal as a report has it, with its number and the path. -/
def FileError.report (e : FileError) : String :=
  match e.refusal.number? with
  | some n => s!"[Errno {n}] {e.refusal.message}: {Text.quoted e.encoding (toString e.path)}"
  | none => e.refusal.message

structure FileTree where
  workingDirectory : List String
  entries : List (List String × Entry)
  encoding : Text.Encoding
  deriving DecidableEq, Repr

namespace FileTree

/-- The tree with nothing in it, its root being the working directory. -/
def empty : FileTree := ⟨[], [], .utf8⟩

/-! ### Places -/

/-- The entry at a place. -/
def at? (t : FileTree) (place : List String) : Option Entry :=
  if place = [] then some .directory else t.entries.lookup place

/-- The tree with an entry put at a place. -/
def put (t : FileTree) (place : List String) (e : Entry) : FileTree :=
  { t with
    entries :=
      if t.entries.any (·.1 = place) then
        t.entries.map fun (p, old) => (p, if p = place then e else old)
      else t.entries ++ [(place, e)] }

/-- The tree without the entry at a place. -/
def erase (t : FileTree) (place : List String) : FileTree :=
  { t with entries := t.entries.filter fun (p, _) => p ≠ place }

/-- The tree without all that is below a place. -/
def clear (t : FileTree) (place : List String) : FileTree :=
  { t with entries := t.entries.filter fun (p, _) => p = place || !place.isPrefixOf p }

@[simp] theorem encoding_put (t : FileTree) (place : List String) (e : Entry) :
    (t.put place e).encoding = t.encoding := rfl

@[simp] theorem encoding_erase (t : FileTree) (place : List String) :
    (t.erase place).encoding = t.encoding := rfl

@[simp] theorem encoding_clear (t : FileTree) (place : List String) :
    (t.clear place).encoding = t.encoding := rfl

/-- The names in a directory, with their entries. -/
def children (t : FileTree) (place : List String) : List (String × Entry) :=
  t.entries.filterMap fun (p, e) =>
    match p.getLast? with
    | some name => if p.dropLast = place then some (name, e) else none
    | none => none

theorem lookup_filter_fst (keep : List String → Bool) (q : List String)
    (l : List (List String × Entry)) :
    (l.filter fun x => keep x.1).lookup q = if keep q then l.lookup q else none := by
  induction l with
  | nil => simp
  | cons x l ih =>
    obtain ⟨p, e⟩ := x
    by_cases hq : q = p
    · subst hq
      cases h : keep q
      · rw [List.filter_cons_of_neg (by simp [h]), ih, h]
        rfl
      · rw [List.filter_cons_of_pos (by simp [h])]
        simp
    · have hb : (q == p) = false := by simpa using hq
      cases h : keep p
      · rw [List.filter_cons_of_neg (by simp [h]), ih, List.lookup_cons, hb]
      · rw [List.filter_cons_of_pos (by simp [h]), List.lookup_cons, List.lookup_cons, hb, ih]

theorem lookup_map_snd (f : List String → Entry → Entry) (q : List String)
    (l : List (List String × Entry)) :
    (l.map fun x => (x.1, f x.1 x.2)).lookup q = (l.lookup q).map (f q) := by
  induction l with
  | nil => rfl
  | cons x l ih =>
    obtain ⟨p, e⟩ := x
    by_cases hq : q = p
    · subst hq
      simp
    · have hb : (q == p) = false := by simpa using hq
      simp [List.lookup_cons, hb, ih]

@[simp] theorem at?_nil (t : FileTree) : t.at? [] = some .directory := rfl

theorem at?_of_ne_nil (t : FileTree) {p : List String} (h : p ≠ []) :
    t.at? p = t.entries.lookup p := by
  simp [at?, h]

theorem lookup_eq_none_of_not_any {l : List (List String × Entry)} {q : List String}
    (h : ¬ l.any (·.1 = q) = true) : l.lookup q = none := by
  induction l with
  | nil => rfl
  | cons x l ih =>
    obtain ⟨p, e⟩ := x
    simp only [List.any_cons, Bool.or_eq_true, decide_eq_true_eq, not_or] at h
    have hb : (q == p) = false := by simpa using fun hq : q = p => h.1 hq.symm
    simp [List.lookup_cons, hb, ih h.2]

theorem isSome_lookup_of_any {l : List (List String × Entry)} {q : List String}
    (h : l.any (·.1 = q) = true) : (l.lookup q).isSome := by
  induction l with
  | nil => simp at h
  | cons x l ih =>
    obtain ⟨p, e⟩ := x
    by_cases hq : q = p
    · subst hq
      simp
    · have hb : (q == p) = false := by simpa using hq
      simp only [List.any_cons, Bool.or_eq_true, decide_eq_true_eq] at h
      simpa [List.lookup_cons, hb] using ih (h.resolve_left fun hp => hq hp.symm)

theorem at?_put_self (t : FileTree) {p : List String} (hp : p ≠ []) (e : Entry) :
    (t.put p e).at? p = some e := by
  rw [at?_of_ne_nil _ hp]
  unfold put
  by_cases h : t.entries.any (·.1 = p) = true
  · simp only [h, if_true]
    rw [lookup_map_snd (fun q old => if q = p then e else old)]
    obtain ⟨old, hold⟩ := Option.isSome_iff_exists.1 (isSome_lookup_of_any h)
    simp [hold]
  · simp only [h]
    simp [List.lookup_append, lookup_eq_none_of_not_any h]

theorem at?_put_of_ne (t : FileTree) {p q : List String} (hq : q ≠ p) (e : Entry) :
    (t.put p e).at? q = t.at? q := by
  by_cases hn : q = []
  · subst hn
    rfl
  · rw [at?_of_ne_nil _ hn, at?_of_ne_nil _ hn]
    have hb : (q == p) = false := by simpa using hq
    unfold put
    by_cases h : t.entries.any (·.1 = p) = true
    · simp only [h, if_true]
      rw [lookup_map_snd (fun r old => if r = p then e else old)]
      simp [hq]
    · simp only [h]
      simp [List.lookup_append, List.lookup_cons, hb]

theorem at?_erase_self (t : FileTree) {p : List String} (hp : p ≠ []) :
    (t.erase p).at? p = none := by
  rw [at?_of_ne_nil _ hp]
  unfold erase
  rw [lookup_filter_fst (fun q => decide (q ≠ p))]
  simp

theorem at?_erase_of_ne (t : FileTree) {p q : List String} (hq : q ≠ p) :
    (t.erase p).at? q = t.at? q := by
  by_cases hn : q = []
  · subst hn
    rfl
  · rw [at?_of_ne_nil _ hn, at?_of_ne_nil _ hn]
    unfold erase
    rw [lookup_filter_fst (fun r => decide (r ≠ p))]
    simp [hq]

theorem at?_clear (t : FileTree) (p q : List String) :
    (t.clear p).at? q = if q = p ∨ ¬ p <+: q then t.at? q else none := by
  by_cases hn : q = []
  · subst hn
    have h : [] = p ∨ ¬ p <+: [] := by
      cases p <;> simp
    rw [if_pos h]
    rfl
  · rw [at?_of_ne_nil _ hn, at?_of_ne_nil _ hn]
    unfold clear
    rw [lookup_filter_fst (fun r => decide (r = p) || !p.isPrefixOf r)]
    by_cases h : q = p
    · simp [h]
    · by_cases hp : p <+: q
      · simp [h, hp, List.isPrefixOf_iff_prefix.2 hp]
      · have hf : p.isPrefixOf q = false :=
          Bool.eq_false_iff.2 fun hb => hp (List.isPrefixOf_iff_prefix.1 hb)
        simp [h, hp, hf]

/-! ### Following a path -/

/-- The most bytes that a name can have. -/
def maxName : Nat := 255

/-- The most bytes that a path can have. -/
def maxPath : Nat := 4095

/-- The place that names lead to from a place. There need not be anything there. -/
def follow (t : FileTree) (place : List String) : List String → Except Refusal (List String)
  | [] => .ok place
  | name :: names =>
    match t.at? place with
    | none => .error .missing
    | some (.file _) => .error .notDirectory
    | some .directory =>
      if name = ".." then follow t place.dropLast names
      else if maxName < t.encoding.size name then .error .nameTooLong
      else follow t (place ++ [name]) names

/-- The place that a path leads to. -/
def locate (t : FileTree) (p : Path) : Except Refusal (List String) :=
  let s := toString p
  if '\x00' ∈ s.toList then .error .nullCharacter
  else if maxPath < t.encoding.size s then .error .nameTooLong
  else t.follow (if p.slashes = 0 then t.workingDirectory else []) p.names

/-- What a path leads to, if anything is there. That nothing is there is no error, nor that it is
no directory where it would have to be; but a name that is too long is one. -/
def find? (t : FileTree) (p : Path) : Except FileError (Option Entry) :=
  match t.locate p with
  | .ok place => .ok (t.at? place)
  | .error .nameTooLong => .error ⟨.nameTooLong, p, t.encoding⟩
  | .error _ => .ok none

def hasEntry (t : FileTree) (p : Path) : Except FileError Bool :=
  (t.find? p).map Option.isSome

def isDirectory (t : FileTree) (p : Path) : Except FileError Bool :=
  (t.find? p).map fun e? => e? = some .directory

def isFile (t : FileTree) (p : Path) : Except FileError Bool :=
  (t.find? p).map fun
    | some (.file _) => true
    | _ => false

/-! ### Operations -/

def refuse {α : Type} (t : FileTree) (p : Path) (r : Refusal) : Except FileError α :=
  .error ⟨r, p, t.encoding⟩

/-- The place that a path leads to, for an operation on what is or will be there. -/
def place (t : FileTree) (p : Path) : Except FileError (List String) :=
  (t.locate p).mapError fun r => ⟨r, p, t.encoding⟩

def readFile (t : FileTree) (p : Path) : Except FileError Content := do
  match t.at? (← t.place p) with
  | none => t.refuse p .missing
  | some .directory => t.refuse p .isDirectory
  | some (.file c) => return c.found t.encoding

/-- Put a text in a file, in place of what it held. The file is emptied before the text is encoded,
so the tree is also given when this fails. -/
def writeFile (t : FileTree) (p : Path) (s : String) : Except FileError Unit × FileTree :=
  match t.place p with
  | .error e => (.error e, t)
  | .ok place =>
    match t.at? place with
    | some .directory => (t.refuse p .isDirectory, t)
    | _ =>
      match t.encoding.fault? s with
      | none => (.ok (), t.put place (.file (.text s)))
      | some fault => (t.refuse p (.unencodable fault), t.put place (.file (.text "")))

def deleteFile (t : FileTree) (p : Path) : Except FileError FileTree := do
  let place ← t.place p
  match t.at? place with
  | none => t.refuse p .missing
  | some .directory => t.refuse p .isDirectory
  | some (.file _) => return t.erase place

def makeDirectory (t : FileTree) (p : Path) : Except FileError FileTree := do
  let place ← t.place p
  match t.at? place with
  | none => return t.put place .directory
  | some _ => t.refuse p .present

/-- Make a directory unless it is there, and first the directories that it lacks above it. The
tree is also given when this fails: what was made above then stays. -/
def makeDirectories (t : FileTree) (p : Path) : Except FileError Unit × FileTree :=
  match t.makeDirectory p with
  | .ok t => (.ok (), t)
  | .error e =>
    if e.refusal = .missing then
      if _h : p.names.length = 0 then (.error e, t)
      else
        match t.makeDirectories p.parent with
        | (.error e, t) => (.error e, t)
        | (.ok _, t) => settle t (t.makeDirectory p)
    else settle t (.error e)
termination_by p.names.length
decreasing_by simp [Path.parent]; omega
where
  settle (t : FileTree) : Except FileError FileTree → Except FileError Unit × FileTree
    | .ok t => (.ok (), t)
    | .error e =>
      match t.isDirectory p with
      | .ok true => (.ok (), t)
      | _ => (.error e, t)

/-- Remove all that is in a directory, and then the directory. The path is followed again for the
second step, and may by then lead through a directory that is no longer there. -/
def removeTree (t : FileTree) (p : Path) : Except FileError Unit × FileTree :=
  match t.place p with
  | .error e => (.error e, t)
  | .ok place =>
    match t.at? place with
    | none => (t.refuse p .missing, t)
    | some (.file _) => (t.refuse p .notDirectory, t)
    | some .directory =>
      let t := t.clear place
      if p.names = [] then (t.refuse p .workingDirectory, t)
      else
        match t.place p with
        | .error e => (.error e, t)
        | .ok place => (.ok (), t.erase place)

/-- The names in a directory, with their entries. -/
def list (t : FileTree) (p : Path) : Except FileError (List (String × Entry)) := do
  let place ← t.place p
  match t.at? place with
  | none => t.refuse p .missing
  | some (.file _) => t.refuse p .notDirectory
  | some .directory => return t.children place

end FileTree

end Tabula
