import Tabula.Text.Utf8

/-!
# Texts with undecoded bytes

The system gives the arguments of a program and the names of files as bytes. They are decoded as
UTF-8, and a byte that belongs to no character is kept as a code point of its own, the surrogate
`U+DC00` plus the byte. UTF-8 has no surrogates: a text with an undecoded byte can be compared and
looked up like any other, but it can be neither written to a file nor printed.

No character is a surrogate, so each undecoded byte has a character of private use standing for it.
Which ones do is what an encoding says. Like surrogates they are no letters, digits or blanks, and
they are in the order of the bytes, so that texts without other characters of private use are
ordered as they would be with the surrogates.
-/

namespace Tabula.Text

/-- The encoding of texts as UTF-8, given the characters that stand for undecoded bytes. -/
structure Encoding where
  undecoded : List (Char × UInt8)
  isPrivate : ∀ x ∈ undecoded, 0xE000 ≤ x.1.toNat ∧ x.1.toNat ≤ 0xF8FF
  isHigh : ∀ x ∈ undecoded, 0x80 ≤ x.2
  increasing : undecoded.Pairwise fun x y => x.1 < y.1 ∧ x.2 < y.2
  deriving DecidableEq, Repr

/-- An undecoded byte by the number of its surrogate. -/
def surrogate (b : UInt8) : String := s!"\\udc{Utf8.hexByte b}"

/-- The first undecoded bytes of a text: where they start, the first of them and how many. -/
structure EncodeFault where
  offset : Nat
  first : UInt8
  length : Nat
  deriving DecidableEq, Repr

def EncodeFault.message (f : EncodeFault) : String :=
  let place :=
    if f.length = 1 then s!"character '{surrogate f.first}' in position {f.offset}"
    else s!"characters in position {f.offset}-{f.offset + f.length - 1}"
  s!"'utf-8' codec can't encode {place}: surrogates not allowed"

/-- All characters of a text come before those of private use. -/
def isLow (s : String) : Bool := s.toList.all (·.toNat < 0xE000)

namespace Encoding

variable {e : Encoding} {s t : String} {c : Char}

/-- The encoding of texts in which every byte has been decoded. -/
def utf8 : Encoding := ⟨[], by simp, by simp, .nil⟩

/-- An encoding with a character for one byte, the last one. -/
def lastByte : Encoding := ⟨[('\uf8ff', 0xff)], by decide, by decide, .cons nofun .nil⟩

/-- The undecoded byte that a character stands for. -/
def byte? (e : Encoding) (c : Char) : Option UInt8 := e.undecoded.lookup c

/-- The text can be encoded: it has no undecoded byte. -/
def Encodes (e : Encoding) (s : String) : Prop := ∀ c ∈ s.toList, e.byte? c = none

instance (e : Encoding) (s : String) : Decidable (e.Encodes s) :=
  List.decidableBAll (fun c => e.byte? c = none) s.toList

/-- The first undecoded bytes of a text, the first character of which is at `offset`. -/
def faultFrom (e : Encoding) (offset : Nat) : List Char → Option EncodeFault
  | [] => none
  | c :: s =>
    match e.byte? c with
    | none => faultFrom e (offset + 1) s
    | some b => some ⟨offset, b, 1 + (s.takeWhile fun c => (e.byte? c).isSome).length⟩

/-- What keeps a text from being encoded. -/
def fault? (e : Encoding) (s : String) : Option EncodeFault := e.faultFrom 0 s.toList

def escape (e : Encoding) (c : Char) : List Char :=
  match e.byte? c with
  | some b => (surrogate b).toList
  | none => [c]

/-- A text with its undecoded bytes written out, so that it can be encoded. -/
def escaped (e : Encoding) (s : String) : String := String.ofList (s.toList.flatMap e.escape)

/-- How many bytes a text has for the system. An undecoded byte is one, and the character that
stands for it would have three. -/
def size (e : Encoding) (s : String) : Nat :=
  s.utf8ByteSize - 2 * s.toList.countP fun c => (e.byte? c).isSome

/-- The code point that a character stands for. -/
def codePoint (e : Encoding) (c : Char) : Nat :=
  match e.byte? c with
  | some b => 0xDC00 + b.toNat
  | none => c.toNat

/-! ### Encoded texts -/

@[simp] theorem encodes_utf8 (s : String) : utf8.Encodes s := fun _ _ => rfl

@[simp] theorem encodes_empty (e : Encoding) : e.Encodes "" := nofun

@[simp] theorem encodes_append : e.Encodes (s ++ t) ↔ e.Encodes s ∧ e.Encodes t := by
  simp [Encodes, or_imp, forall_and]

theorem Encodes.append (hs : e.Encodes s) (ht : e.Encodes t) : e.Encodes (s ++ t) :=
  encodes_append.2 ⟨hs, ht⟩

/-- Characters of a text that can be encoded make up a text that can be. -/
theorem Encodes.of_subset (h : e.Encodes t) (hsub : ∀ c ∈ s.toList, c ∈ t.toList) :
    e.Encodes s :=
  fun c hc => h c (hsub c hc)

/-- Characters that are not of private use stand for themselves. -/
theorem byte?_eq_none (h : c.toNat < 0xE000 ∨ 0xF8FF < c.toNat) : e.byte? c = none := by
  rw [byte?, List.lookup_eq_none_iff]
  intro x hx
  have hprivate := e.isPrivate x hx
  rw [bne_iff_ne]
  rintro rfl
  omega

theorem encodes_of_lt (h : ∀ c ∈ s.toList, c.toNat < 0xE000) : e.Encodes s :=
  fun c hc => byte?_eq_none (.inl (h c hc))

theorem encodes_of_isLow (h : isLow s) : e.Encodes s :=
  encodes_of_lt fun c hc => of_decide_eq_true (List.all_eq_true.1 h c hc)

theorem forall_encodes_of_isLow {texts : List String} (h : ∀ s ∈ texts, isLow s) :
    ∀ s ∈ texts, e.Encodes s :=
  fun s hs => encodes_of_isLow (h s hs)

/-- A text that is put together from parts can be encoded exactly if all parts can be. -/
theorem encodes_intercalate (hs : e.Encodes s) {parts : List String} :
    e.Encodes (s.intercalate parts) ↔ ∀ t ∈ parts, e.Encodes t := by
  induction parts with
  | nil => simp
  | cons t parts ih =>
    cases parts with
    | nil => simp
    | cons u parts =>
      rw [String.intercalate_cons_cons, encodes_append, encodes_append, and_iff_left hs, ih,
        List.forall_mem_cons (a := t)]

theorem faultFrom_eq_none_iff {cs : List Char} :
    ∀ offset, e.faultFrom offset cs = none ↔ ∀ c ∈ cs, e.byte? c = none := by
  induction cs with
  | nil => simp [faultFrom]
  | cons c cs ih =>
    intro offset
    cases h : e.byte? c with
    | none => simp [faultFrom, h, ih]
    | some b => simp [faultFrom, h]

/-- A text can be encoded exactly if nothing is found that keeps it from that. -/
theorem fault?_eq_none_iff : e.fault? s = none ↔ e.Encodes s := faultFrom_eq_none_iff 0

theorem Encodes.escaped_eq (h : e.Encodes s) : e.escaped s = s := by
  have hchars : ∀ cs : List Char, (∀ c ∈ cs, e.byte? c = none) → cs.flatMap e.escape = cs := by
    intro cs hcs
    induction cs with
    | nil => rfl
    | cons c cs ih =>
      obtain ⟨hc, hcs⟩ := List.forall_mem_cons.1 hcs
      rw [List.flatMap_cons, ih hcs, escape, hc]
      rfl
  rw [escaped, hchars _ h, String.ofList_toList]

theorem size_le (e : Encoding) (s : String) : e.size s ≤ s.utf8ByteSize := Nat.sub_le ..

theorem Encodes.size_eq (h : e.Encodes s) : e.size s = s.utf8ByteSize := by
  have hnone : s.toList.countP (fun c => (e.byte? c).isSome) = 0 := by
    rw [List.countP_eq_zero]
    exact fun c hc => by simp [h c hc]
  rw [size, hnone, Nat.mul_zero, Nat.sub_zero]

@[simp] theorem size_utf8 (s : String) : utf8.size s = s.utf8ByteSize := (encodes_utf8 s).size_eq

end Encoding

end Tabula.Text
