import Tabula.FileTree
import Tabula.Proofs.Outcome
import Tabula.Proofs.Table.Encoded

/-!
# Reports of refused operations

A report quotes the path of the operation. What is quoted can be encoded whatever the path is, as an
undecoded byte is not printable and is written by its code point (`Text.encodes_quoted`). So every
report can be encoded (`FileError.encodes_report`).
-/

namespace Tabula

open Text (Encoding)
open Text.Encoding (encodes_of_isLow encodes_of_lt)

variable {e : Encoding}

/-! ### Quoted texts -/

namespace Text

theorem byte?_of_isPrintable {c : Char} (h : isPrintable c = true) : e.byte? c = none := by
  have hranges : ∀ r ∈ printables.ranges, r.2 < 0xE000 ∨ 0xF8FF < r.1 := by decide +kernel
  obtain ⟨r, hr, hfirst, hlast⟩ := (CharSet.contains_iff _ _).1 h
  refine Encoding.byte?_eq_none ?_
  rcases hranges r hr with hbelow | habove
  · exact .inl (by omega)
  · exact .inr (by omega)

theorem digitChar_lt (n : Nat) : (Nat.digitChar (n % 16)).toNat < 0xE000 := by
  have hdigits : ∀ k < 16, (Nat.digitChar k).toNat < 0xE000 := by decide
  exact hdigits _ (Nat.mod_lt n (by decide))

namespace Quoted

theorem lt_of_mem_hex {width n : Nat} {c : Char} (h : c ∈ hex width n) : c.toNat < 0xE000 := by
  induction width generalizing n with
  | zero => cases h
  | succ width ih =>
    rcases List.mem_append.1 h with h | h
    · exact ih h
    · rw [List.mem_singleton.1 h]
      exact digitChar_lt n

theorem byte?_of_mem_escape {quote c d : Char} (hquote : quote.toNat < 0xE000)
    (h : d ∈ escape e quote c) : e.byte? d = none := by
  have hlow {d : Char} (hd : d.toNat < 0xE000) : e.byte? d = none :=
    Encoding.byte?_eq_none (.inl hd)
  have hnumber {mark : Char} {width n : Nat} (hmark : mark.toNat < 0xE000)
      (h : d ∈ '\\' :: mark :: hex width n) : e.byte? d = none := by
    rcases List.mem_cons.1 h with rfl | h
    · exact hlow (by decide)
    · rcases List.mem_cons.1 h with rfl | h
      · exact hlow hmark
      · exact hlow (lt_of_mem_hex h)
  have hmark {mark : Char} (hmark : mark.toNat < 0xE000) (h : d ∈ ['\\', mark]) :
      e.byte? d = none := @hnumber mark 0 0 hmark h
  unfold escape at h
  dsimp only at h
  split at h
  · rename_i hc
    refine hmark ?_ h
    rcases Bool.or_eq_true_iff.1 hc with hc | hc
    · rwa [of_decide_eq_true hc]
    · rw [of_decide_eq_true hc]
      decide
  split at h
  · exact hmark (by decide) h
  split at h
  · exact hmark (by decide) h
  split at h
  · exact hmark (by decide) h
  split at h
  · rename_i hc
    rw [List.mem_singleton.1 h]
    exact byte?_of_isPrintable hc
  split at h
  · exact hnumber (by decide) h
  split at h
  · exact hnumber (by decide) h
  · exact hnumber (by decide) h

theorem quoteFor_lt (s : List Char) : (quoteFor s).toNat < 0xE000 := by
  unfold quoteFor
  split <;> decide

end Quoted

/-- Every text can be encoded in quotes. -/
theorem encodes_quoted (e : Encoding) (s : String) : e.Encodes (quoted e s) := by
  have hquote : e.byte? (Quoted.quoteFor s.toList) = none :=
    Encoding.byte?_eq_none (.inl (Quoted.quoteFor_lt _))
  intro c hc
  rw [quoted, String.toList_ofList, Quoted.encode] at hc
  rcases List.mem_cons.1 hc with rfl | hc
  · exact hquote
  · rcases List.mem_append.1 hc with hc | hc
    · obtain ⟨d, -, hc⟩ := List.mem_flatMap.1 hc
      exact Quoted.byte?_of_mem_escape (Quoted.quoteFor_lt _) hc
    · rw [List.mem_singleton.1 hc]
      exact hquote

theorem encodes_hexByte (b : UInt8) : e.Encodes (Utf8.hexByte b) := by
  refine encodes_of_lt fun c hc => ?_
  rw [Utf8.hexByte, String.toList_ofList, List.mem_pair] at hc
  rcases hc with rfl | rfl
  · have hfirst : b.toNat / 16 = b.toNat / 16 % 16 := by
      have := b.toNat_lt
      omega
    rw [hfirst]
    exact digitChar_lt _
  · exact digitChar_lt _

end Text

/-! ### Reports -/

theorem Text.Utf8.Reason.encodes_message (r : Text.Utf8.Reason) : e.Encodes r.message := by
  cases r <;> exact encodes_of_isLow (by decide)

theorem Text.Utf8.Fault.encodes_message (f : Text.Utf8.Fault) : e.Encodes f.message := by
  have hoffset := Text.encodes_toString f.offset (e := e)
  unfold message
  dsimp only
  refine (((encodes_of_isLow (by decide)).append ?_).append (encodes_of_isLow (by decide))).append
    f.reason.encodes_message
  split
  · exact (((encodes_of_isLow (by decide)).append (Text.encodes_hexByte _)).append
      (encodes_of_isLow (by decide))).append hoffset
  · exact (((encodes_of_isLow (by decide)).append hoffset).append
      (encodes_of_isLow (by decide))).append (Text.encodes_toString _)

theorem Text.EncodeFault.encodes_message (f : Text.EncodeFault) : e.Encodes f.message := by
  have hoffset := Text.encodes_toString f.offset (e := e)
  have hbyte : e.Encodes (Text.surrogate f.first) :=
    (encodes_of_isLow (by decide)).append (Text.encodes_hexByte _)
  unfold message
  dsimp only
  refine ((encodes_of_isLow (by decide)).append ?_).append (encodes_of_isLow (by decide))
  split
  · exact (((encodes_of_isLow (by decide)).append hbyte).append
      (encodes_of_isLow (by decide))).append hoffset
  · exact (((encodes_of_isLow (by decide)).append hoffset).append
      (encodes_of_isLow (by decide))).append (Text.encodes_toString _)

theorem Refusal.encodes_message (r : Refusal) : e.Encodes r.message := by
  cases r with
  | unencodable fault => exact fault.encodes_message
  | missing | present | notDirectory | isDirectory | nameTooLong | workingDirectory
  | nullCharacter => exact encodes_of_isLow (by decide)

/-- A report can be encoded as the path that it quotes would be. -/
theorem FileError.encodes_report (f : FileError) : f.encoding.Encodes f.report := by
  unfold report
  split
  · rename_i n hn
    exact (((((encodes_of_isLow (by decide)).append (Text.encodes_toString n)).append
      (encodes_of_isLow (by decide))).append f.refusal.encodes_message).append
      (encodes_of_isLow (by decide))).append (Text.encodes_quoted _ _)
  · exact f.refusal.encodes_message

namespace FileTree

variable {t t' : FileTree} {p : Path} {f : FileError}

theorem encoding_of_place_error (h : t.place p = .error f) : f.encoding = t.encoding := by
  obtain ⟨r, -, rfl⟩ := mapError_eq_error_iff.1 h
  rfl

theorem encoding_of_readFile_error (h : t.readFile p = .error f) : f.encoding = t.encoding := by
  rcases bind_eq_error_iff.1 h with hplace | ⟨place, -, h⟩
  · exact encoding_of_place_error hplace
  · split at h <;> cases h <;> rfl

theorem encoding_of_writeFile_error {s : String} (h : t.writeFile p s = (.error f, t')) :
    f.encoding = t.encoding := by
  unfold writeFile at h
  split at h
  · rename_i hplace
    cases h
    exact encoding_of_place_error hplace
  · split at h
    · cases h
      rfl
    · split at h <;> cases h
      rfl

end FileTree

end Tabula
