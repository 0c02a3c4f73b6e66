import Tabula.Proofs.Text.Plain
import Tabula.Shell.Batch

/-!
# What can be printed

Texts are printed as they are if all of them can be encoded (`Emission.print_eq`). All texts are
printed in some way if those for the output can be encoded, and if they cannot, printing them breaks
off (`Emission.print_snd_eq_none_iff`).
-/

namespace Tabula

open Text (Encoding)

variable {e : Encoding} {es : List Emission}

/-! ### Texts -/

namespace Emission

/-- All texts for the output can be encoded. -/
def Printable (e : Encoding) (es : List Emission) : Prop :=
  ∀ x ∈ es, x.stream = .output → e.Encodes x.text

theorem encoded_eq_ok_iff {x : Emission} :
    (∃ y, x.encoded e = .ok y) ↔ (x.stream = .output → e.Encodes x.text) := by
  obtain ⟨stream, text⟩ := x
  cases stream with
  | error => simp [encoded]
  | output =>
    rw [← Encoding.fault?_eq_none_iff]
    cases hfault : e.fault? text <;> simp [encoded, hfault]

/-- Nothing keeps texts from being printed exactly if they are printable. -/
theorem print_snd_eq_none_iff : (print e es).2 = none ↔ Printable e es := by
  induction es with
  | nil => simp [print, Printable]
  | cons x es ih =>
    rw [Printable, List.forall_mem_cons, ← encoded_eq_ok_iff, print]
    cases x.encoded e with
    | error fault => simp
    | ok y => simpa [Printable] using ih

theorem encoded_eq {x : Emission} (h : e.Encodes x.text) : x.encoded e = .ok x := by
  obtain ⟨stream, text⟩ := x
  cases stream with
  | error => simp only [encoded, h.escaped_eq]
  | output => simp only [encoded, Encoding.fault?_eq_none_iff.2 h]

/-- Texts that can be encoded are printed as they are. -/
theorem print_eq (h : ∀ x ∈ es, e.Encodes x.text) : print e es = (es, none) := by
  induction es with
  | nil => rfl
  | cons x es ih =>
    obtain ⟨hx, hes⟩ := List.forall_mem_cons.1 h
    simp only [print, encoded_eq hx, ih hes]

/-! ### Lines -/

theorem encodes_line_iff {s : String} : e.Encodes (line s).text ↔ e.Encodes s := by
  have hbreak : e.Encodes "\n" := Encoding.encodes_of_isLow (by decide)
  rw [line, Encoding.encodes_append, and_iff_left hbreak]

theorem printable_lines_iff {lines : List String} :
    Printable e (lines.map line) ↔ ∀ s ∈ lines, e.Encodes s := by
  simp only [Printable, List.forall_mem_map, encodes_line_iff]
  exact forall₂_congr fun _ _ => ⟨fun h => h rfl, fun h _ => h⟩

/-- A response is printable if its lines can be encoded, other than those that are printed on the
stream for errors. -/
theorem printable_response_iff {s : String} : Printable e (response s) ↔
    ∀ l ∈ Text.stringLines s, isWarning l = false → e.Encodes l := by
  simp only [Printable, response, List.forall_mem_map]
  refine forall₂_congr fun l _ => ?_
  cases isWarning l with
  | false => exact ⟨fun h _ => encodes_line_iff.1 (h rfl), fun h _ => encodes_line_iff.2 (h rfl)⟩
  | true => exact iff_of_true nofun nofun

end Emission

theorem Text.encodes_of_mem_stringLines {s l : String} (hs : e.Encodes s)
    (hl : l ∈ stringLines s) : e.Encodes l := by
  obtain ⟨cs, hcs, rfl⟩ := List.mem_map.1 hl
  refine hs.of_subset fun c hc => ?_
  rw [String.toList_ofList] at hc
  exact mem_of_mem_lines hcs hc

namespace Shell

open Emission (Printable)

/-- A statement can be shown exactly if it can be encoded. -/
theorem printable_echo_iff {text : String} : Printable e (echo text) ↔ e.Encodes text := by
  have hbreak : e.Encodes "\n" := Encoding.encodes_of_isLow (by decide)
  have hparts : "\n".intercalate ((text.toList.splitOn '\n').map String.ofList) = text := by
    rw [← String.toList_inj, String.toList_intercalate, List.map_map]
    simp [Function.comp_def, List.intercalate_splitOn]
  have hled {lead s : String} (hlead : e.Encodes lead) :
      ((Emission.line (lead ++ s)).stream = .output → e.Encodes (Emission.line (lead ++ s)).text) ↔
        e.Encodes s := by
    rw [Emission.encodes_line_iff, Encoding.encodes_append, and_iff_right hlead]
    exact ⟨fun h => h rfl, fun h _ => h⟩
  unfold echo
  generalize (text.toList.splitOn '\n').map String.ofList = parts at hparts
  rw [← hparts, Encoding.encodes_intercalate hbreak]
  cases parts with
  | nil => simp [Printable]
  | cons first rest =>
    rw [Printable, List.forall_mem_cons, List.forall_mem_map, List.forall_mem_cons]
    refine and_congr (hled (Encoding.encodes_of_isLow (by decide))) (forall₂_congr fun l _ => ?_)
    exact hled (Encoding.encodes_of_isLow (by decide))

/-! ### Printing -/

variable {s : State}

/-- Texts that can be encoded are printed as they are. -/
theorem run_emit (h : ∀ x ∈ es, s.world.files.encoding.Encodes x.text) :
    (emit es).run s = .ok () { s with output := s.output ++ es } := by
  simp only [emit, EStateM.run, Emission.print_eq h]

theorem emit_nil : emit [] = pure () := by
  funext s
  have hnothing : (emit []).run s = .ok () { s with output := s.output ++ [] } := run_emit nofun
  rwa [List.append_nil] at hnothing

theorem exists_run_emit (h : Printable s.world.files.encoding es) :
    ∃ output, (emit es).run s = .ok () ⟨s.world, output⟩ := by
  refine ⟨s.output ++ (Emission.print s.world.files.encoding es).1, ?_⟩
  cases hprint : Emission.print s.world.files.encoding es with
  | mk printed fault? =>
    have hnone := Emission.print_snd_eq_none_iff.2 h
    rw [hprint] at hnone
    obtain rfl : fault? = none := hnone
    simp only [emit, EStateM.run, hprint]

theorem exists_run_emit_error (h : ¬ Printable s.world.files.encoding es) :
    ∃ fault s', (emit es).run s = .error (.unprintable fault) s' := by
  cases hprint : Emission.print s.world.files.encoding es with
  | mk printed fault? =>
    rw [← Emission.print_snd_eq_none_iff, hprint] at h
    obtain ⟨fault, rfl⟩ := Option.ne_none_iff_exists'.1 h
    refine ⟨fault, { s with output := s.output ++ printed }, ?_⟩
    simp only [emit, EStateM.run, hprint]

end Shell

end Tabula
