import Tabula.Proofs.Command.Refused
import Tabula.Proofs.Table.Encoded

/-!
# Statements that can be encoded

The parser only cuts a text and puts parts of it together. So of a text that can be encoded it reads
a command all texts of which can be (`Command.encoded_of_parse`), or it fails with a message that
can be (`StatementError.encodes_of_parse`).
-/

namespace Tabula

open Text (Encoding)

variable {e : Encoding} {α β : Type}

/-! ### Tokens -/

theorem Keyword.encodes_spelling (k : Keyword) : e.Encodes k.spelling := by
  cases k <;> exact Encoding.encodes_of_isLow (by decide)

theorem Kind.encodes_of_reserved? {word : String} {kind : Kind} (h : reserved? word = some kind) :
    e.Encodes word := by
  unfold reserved? at h
  split at h
  · rename_i k hk
    rw [Keyword.ofSpelling?_eq_some_iff.1 hk]
    exact k.encodes_spelling
  · have hwords : ∀ s ∈ ["NULL", "TRUE", "FALSE"], e.Encodes s :=
      Encoding.forall_encodes_of_isLow (by decide)
    refine hwords word ?_
    split at h
    · simp_all
    · split at h <;> simp_all

theorem encodes_of_mem_statementTokens {text : String} {tokens : List (Token Kind)}
    (htext : e.Encodes text) (h : statementTokens text = .ok tokens) {t : Token Kind}
    (ht : t ∈ tokens) : e.Encodes t.text := by
  obtain ⟨s, l, hsuffix, hl, -, hword⟩ := exists_lexeme_of_mem_scan (scan_of_statementTokens h) ht
  obtain ⟨r, -, rest, rfl, hgives⟩ := (Lexeme.first?_eq_some_iff.1 hl).exists_gives
  have hsource : e.Encodes (String.ofList l.source) := htext.of_subset fun c hc => by
    rw [String.toList_ofList] at hc
    exact hsuffix.subset (List.mem_append_left _ hc)
  rw [hword]
  generalize l = l at hgives hsource
  cases hgives with
  | reserved _ _ hreserved => exact Kind.encodes_of_reserved? hreserved
  | string =>
    exact hsource.of_subset fun c hc => by
      rw [String.toList_ofList] at hc ⊢
      exact List.mem_cons_of_mem _ (List.mem_append_left _ hc)
  | _ => exact hsource

/-- All tokens that a cursor may come to can be encoded. -/
structure Cursor.Encoded (c : Cursor Kind) (e : Encoding) : Prop where
  ahead : ∀ t ∈ c.ahead, e.Encodes t.text
  last : e.Encodes c.last.text

namespace Cursor.Encoded

variable {c : Cursor Kind}

theorem current (h : c.Encoded e) : e.Encodes c.current.text := by
  obtain ⟨ahead, last⟩ := c
  cases ahead with
  | nil => exact h.last
  | cons t ts => exact h.ahead t (by simp)

theorem advance (h : c.Encoded e) : c.advance.Encoded e :=
  ⟨fun t ht => h.ahead t (List.mem_of_mem_tail ht), h.last⟩

end Cursor.Encoded

/-! ### Messages -/

/-- The texts that the wording of what is wanted quotes. -/
def Wanted.texts : Wanted → List String
  | attributeName place | closeParen place => [place]
  | keyword _ after => [after]
  | andBetween what | part what => [what]
  | assignment column => [column]
  | literal found => [found]
  | _ => []

theorem Wanted.encodes_message {w : Wanted} (h : ∀ s ∈ w.texts, e.Encodes s) :
    e.Encodes w.message := by
  have hfixed {s : String} (hs : Text.isLow s) : e.Encodes s := Encoding.encodes_of_isLow hs
  have hwords (ks : List Keyword) : e.Encodes (message.words ks) :=
    (Encoding.encodes_intercalate (hfixed (by decide))).2
      (List.forall_mem_map.2 fun k _ => k.encodes_spelling)
  cases w with
  | databaseName after | tableName after => exact (hfixed (by decide)).append (hwords after)
  | databaseOrTable after => exact (hfixed (by decide)).append after.encodes_spelling
  | starOrAttributeName | openParen | alteration | terminator => exact hfixed (by decide)
  | attributeName s | closeParen s | andBetween s | assignment s | part s =>
    exact (hfixed (by decide)).append (h s (by simp [texts]))
  | keyword k after =>
    have hk : e.Encodes ("Expected " ++ k.spelling) :=
      (hfixed (by decide)).append k.encodes_spelling
    exact (hk.append (hfixed (by decide))).append (h after (by simp [texts]))
  | literal found =>
    exact ((hfixed (by decide)).append (h found (by simp [texts]))).append (hfixed (by decide))

theorem LexicalError.encodes_message {text : String} {error : LexicalError}
    (htext : e.Encodes text) (h : statementTokens text = .error error) :
    e.Encodes error.message := by
  cases error with
  | unrecognized c pos =>
    have hc : c ∈ text.toList := List.mem_of_getElem? (Refused.unreadable
      (refused_of_parse_error (parse_of_statementTokens_error h))).at_pos
    have hchar : e.Encodes (toString c) := htext.of_subset (by simp [toString, hc])
    have hplace : e.Encodes "' at position " := Encoding.encodes_of_isLow (by decide)
    exact (((Encoding.encodes_of_isLow (by decide)).append hchar).append hplace).append
      (Text.encodes_toString pos)
  | noTerminator =>
    have hfixed : e.Encodes "Invalid syntax: ';' is expected" :=
      Encoding.encodes_of_isLow (by decide)
    exact hfixed
  | secondTerminator =>
    have hfixed : e.Encodes "Invalid syntax: more than one ';' found" :=
      Encoding.encodes_of_isLow (by decide)
    exact hfixed

/-! ### Commands -/

def Alteration.texts : Alteration → List String
  | other word => [word]
  | _ => []

namespace Command

/-- All texts in a command. -/
def texts : Command → List String
  | use database | createDatabase database | dropDatabase database => [database]
  | createTable table columns => table :: columns
  | dropTable table => [table]
  | alterTable table alteration column => table :: column :: alteration.texts
  | insert table values => table :: values
  | select table columns condition => table :: columns.names ++ condition.toList
  | update table assignments condition =>
    table :: condition :: assignments.map Prod.fst ++ assignments.map Prod.snd
  | delete table condition => [table, condition]
  | join leftTable rightTable leftColumn rightColumn =>
    [leftTable, rightTable, leftColumn, rightColumn]

/-- All texts in the command can be encoded. -/
def Encoded (command : Command) (e : Encoding) : Prop := ∀ s ∈ command.texts, e.Encodes s

theorem values_subset_texts (command : Command) : command.values ⊆ command.texts := by
  intro v hv
  cases command with
  | insert table values => exact List.mem_cons_of_mem table hv
  | update table assignments condition => exact List.mem_append_right _ hv
  | _ => cases hv

end Command

/-! ### Parsers -/

namespace Parser

/-- On tokens that can be encoded a parser leaves such tokens and a result of which `said` holds, or
it fails with a message that can be encoded. -/
def Speaks (e : Encoding) (p : Parser α) (said : α → Prop) : Prop :=
  ∀ ⦃c : Cursor Kind⦄, c.Encoded e →
    (∀ a d, p.run c = .ok (a, d) → said a ∧ d.Encoded e) ∧
      ∀ error, p.run c = .error error → e.Encodes error.message

variable {p : Parser α} {f : α → Parser β} {P : α → Prop} {Q : β → Prop} {wanted : Wanted}

theorem speaks_iff : Speaks e p P ↔ ∀ c : Cursor Kind, c.Encoded e → match p.run c with
    | .ok (a, d) => P a ∧ d.Encoded e
    | .error error => e.Encodes error.message := by
  constructor
  · intro h c hc
    obtain ⟨hok, herror⟩ := h hc
    cases hrun : p.run c with
    | ok result => exact hok _ _ hrun
    | error error => exact herror error hrun
  · intro h c hc
    have hrun := h c hc
    refine ⟨fun a d hok => ?_, fun error herror => ?_⟩
    · rwa [hok] at hrun
    · rwa [herror] at hrun

theorem speaks_return {a : α} (h : P a) : Speaks e (pure a) P :=
  speaks_iff.2 fun _ hc => ⟨h, hc⟩

theorem Speaks.bind (hp : Speaks e p P) (hf : ∀ a, P a → Speaks e (f a) Q) :
    Speaks e (p >>= f) Q := by
  refine speaks_iff.2 fun c hc => ?_
  have hfirst := speaks_iff.1 hp c hc
  rw [StateT.run_bind]
  cases hrun : p.run c with
  | error error =>
    rw [hrun] at hfirst
    exact hfirst
  | ok result =>
    rw [hrun] at hfirst
    exact speaks_iff.1 (hf result.1 hfirst.1) result.2 hfirst.2

theorem speaks_get : Speaks e get (·.Encoded e) := speaks_iff.2 fun _ hc => ⟨hc, hc⟩

theorem speaks_set {c : Cursor Kind} (hc : c.Encoded e) : Speaks e (set c) fun _ => True :=
  speaks_iff.2 fun _ _ => ⟨trivial, hc⟩

theorem speaks_throw {pos : Nat} (h : ∀ s ∈ wanted.texts, e.Encodes s) :
    Speaks e (throw (.grammar wanted pos)) P :=
  speaks_iff.2 fun _ _ => Wanted.encodes_message h

theorem speaks_fail (h : ∀ s ∈ wanted.texts, e.Encodes s) : Speaks e (fail wanted) P :=
  speaks_get.bind fun _ _ => speaks_throw h

theorem speaks_take (k : Kind) (h : ∀ s ∈ wanted.texts, e.Encodes s) :
    Speaks e (take k wanted) fun t => e.Encodes t.text := by
  refine speaks_get.bind fun c hc => ?_
  by_cases hk : c.current.kind = k
  · simp only [Cursor.expect, if_pos hk]
    exact (speaks_set hc.advance).bind fun _ _ => speaks_return hc.current
  · simp only [Cursor.expect, if_neg hk]
    exact speaks_throw h

theorem speaks_skip (k : Kind) : Speaks e (skip k) fun _ => True := by
  refine speaks_get.bind fun c hc => ?_
  split
  · exact (speaks_set hc.advance).bind fun _ _ => speaks_return trivial
  · exact speaks_return trivial

theorem speaks_name (h : ∀ s ∈ wanted.texts, e.Encodes s) :
    Speaks e (name wanted) e.Encodes :=
  (speaks_take .identifier h).bind fun _ ht => speaks_return ht

theorem speaks_literal : Speaks e literal e.Encodes := by
  refine speaks_get.bind fun c hc => ?_
  split
  · exact (speaks_set hc.advance).bind fun _ _ => speaks_return hc.current
  · have hfound : e.Encodes c.current.describe := by
      unfold Token.describe
      split
      · exact Encoding.encodes_of_isLow (by decide)
      · exact hc.current
    exact speaks_fail (by simpa [Wanted.texts] using hfound)

theorem speaks_commaList (hp : Speaks e p P) :
    Speaks e (commaList p) fun as => ∀ a ∈ as, P a := by
  intro c hc
  change (∀ as d, commaList p c = .ok (as, d) → _) ∧ ∀ error, commaList p c = .error error → _
  fun_induction commaList p c with
  | case1 c error hfirst =>
    refine ⟨by simp, fun _ hrun => ?_⟩
    cases hrun
    exact (hp hc).2 error hfirst
  | case2 c a d hfirst hcomma hshorter error hrest ih =>
    refine ⟨by simp, fun _ hrun => ?_⟩
    cases hrun
    exact (ih ((hp hc).1 a d hfirst).2.advance).2 error hrest
  | case3 c a d hfirst hcomma hshorter as d' hrest ih =>
    refine ⟨fun _ _ hrun => ?_, by simp⟩
    cases hrun
    obtain ⟨ha, hd⟩ := (hp hc).1 a d hfirst
    obtain ⟨has, hd'⟩ := (ih hd.advance).1 as d' hrest
    exact ⟨List.forall_mem_cons.2 ⟨ha, has⟩, hd'⟩
  | case4 c a d hfirst hcomma hnot =>
    refine ⟨fun _ _ hrun => ?_, by simp⟩
    cases hrun
    obtain ⟨ha, hd⟩ := (hp hc).1 a d hfirst
    exact ⟨by simpa using ha, hd⟩
  | case5 c a d hfirst hcomma =>
    refine ⟨fun _ _ hrun => ?_, by simp⟩
    cases hrun
    obtain ⟨ha, hd⟩ := (hp hc).1 a d hfirst
    exact ⟨by simpa using ha, hd⟩

section

variable {g : String → Parser β} {h : Bool → Parser β}

/-- What is wanted has a fixed wording. -/
theorem speaks_take_bind {k : Kind} {f : Token Kind → Parser β}
    (hwanted : ∀ s ∈ wanted.texts, Text.isLow s)
    (hf : ∀ t, Speaks e (f t) Q) : Speaks e (take k wanted >>= f) Q :=
  (speaks_take k (Encoding.forall_encodes_of_isLow hwanted)).bind fun t _ => hf t

theorem speaks_name_bind (hwanted : ∀ s ∈ wanted.texts, Text.isLow s)
    (hg : ∀ n, e.Encodes n → Speaks e (g n) Q) : Speaks e (name wanted >>= g) Q :=
  (speaks_name (Encoding.forall_encodes_of_isLow hwanted)).bind hg

theorem speaks_skip_bind {k : Kind} (hthen : Speaks e (h true) Q) (helse : Speaks e (h false) Q) :
    Speaks e (skip k >>= h) Q := by
  refine (speaks_skip k).bind fun b _ => ?_
  cases b
  · exact helse
  · exact hthen

end

theorem speaks_names (hwanted : ∀ s ∈ wanted.texts, Text.isLow s) :
    Speaks e (names wanted) fun ns => ∀ n ∈ ns, e.Encodes n :=
  speaks_commaList (speaks_name (Encoding.forall_encodes_of_isLow hwanted))

theorem speaks_assignment :
    Speaks e assignment fun a => e.Encodes a.1 ∧ e.Encodes a.2 := by
  refine speaks_name_bind (by decide) fun column hcolumn => ?_
  refine (speaks_take _ (by simpa [Wanted.texts] using hcolumn)).bind fun _ _ => ?_
  exact speaks_literal.bind fun value hvalue => speaks_return ⟨hcolumn, hvalue⟩

theorem encodes_spelled {t : Token Kind} (h : e.Encodes t.text) : e.Encodes (spelled t) := by
  have hquote : e.Encodes "'" := Encoding.encodes_of_isLow (by decide)
  unfold spelled
  split
  · exact (hquote.append h).append hquote
  · exact h

theorem speaks_condition : Speaks e condition e.Encodes := by
  refine speaks_get.bind fun c hc => ?_
  dsimp only
  split
  · exact (speaks_fail (Encoding.forall_encodes_of_isLow (by decide))).bind fun _ h => h
  · have hrest : Cursor.Encoded { c with ahead := c.ahead.dropWhile inCondition } e :=
      ⟨fun t ht => hc.ahead t ((List.dropWhile_sublist _).subset ht), hc.last⟩
    have hblank : e.Encodes " " := Encoding.encodes_of_isLow (by decide)
    refine (speaks_set hrest).bind fun _ _ => speaks_return ?_
    refine (Encoding.encodes_intercalate hblank).2 (List.forall_mem_map.2 fun t ht => ?_)
    exact encodes_spelled (hc.ahead t ((List.takeWhile_sublist _).subset ht))

theorem speaks_alteration : Speaks e alteration fun a => ∀ s ∈ a.texts, e.Encodes s := by
  refine speaks_skip_bind (speaks_return nofun) ?_
  refine speaks_skip_bind (speaks_return nofun) ?_
  exact speaks_fail (Encoding.forall_encodes_of_isLow (by decide))

theorem speaks_projection : Speaks e projection fun p => ∀ n ∈ p.names, e.Encodes n := by
  refine speaks_skip_bind (speaks_return (Encoding.forall_encodes_of_isLow (by decide))) ?_
  exact (speaks_names (by decide)).bind fun names hnames => speaks_return hnames

/-! ### The parsers of commands -/

theorem speaks_use : Speaks e use (·.Encoded e) :=
  speaks_name_bind (by decide) fun n hn => speaks_return (by simpa [Command.Encoded, Command.texts])

theorem speaks_create : Speaks e create (·.Encoded e) := by
  refine speaks_skip_bind ?_ ?_
  · refine speaks_name_bind (by decide) fun n hn => speaks_return ?_
    simpa [Command.Encoded, Command.texts]
  · refine speaks_take_bind (by decide) fun _ => ?_
    refine speaks_name_bind (by decide) fun n hn => ?_
    refine speaks_skip_bind ?_ ?_
    · refine (speaks_names (by decide)).bind fun columns hcolumns => ?_
      refine speaks_take_bind (by decide) fun _ => speaks_return ?_
      exact List.forall_mem_cons.2 ⟨hn, hcolumns⟩
    · exact speaks_return (by simpa [Command.Encoded, Command.texts])

theorem speaks_drop : Speaks e drop (·.Encoded e) := by
  refine speaks_skip_bind ?_ ?_
  · refine speaks_name_bind (by decide) fun n hn => speaks_return ?_
    simpa [Command.Encoded, Command.texts]
  · refine speaks_take_bind (by decide) fun _ => ?_
    refine speaks_name_bind (by decide) fun n hn => speaks_return ?_
    simpa [Command.Encoded, Command.texts]

theorem speaks_alter : Speaks e alter (·.Encoded e) := by
  refine speaks_take_bind (by decide) fun _ => ?_
  refine speaks_name_bind (by decide) fun n hn => ?_
  refine speaks_alteration.bind fun alteration halteration => ?_
  refine speaks_name_bind (by decide) fun c hc => speaks_return ?_
  exact List.forall_mem_cons.2 ⟨hn, List.forall_mem_cons.2 ⟨hc, halteration⟩⟩

theorem speaks_insert : Speaks e insert (·.Encoded e) := by
  refine speaks_take_bind (by decide) fun _ => ?_
  refine speaks_name_bind (by decide) fun n hn => ?_
  refine speaks_take_bind (by decide) fun _ => ?_
  refine speaks_take_bind (by decide) fun _ => ?_
  refine (speaks_commaList speaks_literal).bind fun values hvalues => ?_
  refine speaks_take_bind (by decide) fun _ => speaks_return ?_
  exact List.forall_mem_cons.2 ⟨hn, hvalues⟩

theorem speaks_select : Speaks e select (·.Encoded e) := by
  refine speaks_projection.bind fun columns hcolumns => ?_
  refine speaks_take_bind (by decide) fun _ => ?_
  refine speaks_name_bind (by decide) fun n hn => ?_
  refine speaks_skip_bind ?_ ?_
  · refine speaks_condition.bind fun condition hcondition => speaks_return ?_
    refine List.forall_mem_append.2 ⟨List.forall_mem_cons.2 ⟨hn, hcolumns⟩, ?_⟩
    simpa using hcondition
  · refine speaks_return (List.forall_mem_append.2 ⟨List.forall_mem_cons.2 ⟨hn, hcolumns⟩, ?_⟩)
    simp

theorem speaks_update : Speaks e update (·.Encoded e) := by
  refine speaks_name_bind (by decide) fun n hn => ?_
  refine speaks_take_bind (by decide) fun _ => ?_
  refine (speaks_commaList speaks_assignment).bind fun assignments hassignments => ?_
  refine speaks_take_bind (by decide) fun _ => ?_
  refine speaks_condition.bind fun condition hcondition => speaks_return ?_
  refine List.forall_mem_append.2 ⟨?_, List.forall_mem_map.2 fun a ha => (hassignments a ha).2⟩
  refine List.forall_mem_cons.2 ⟨hn, List.forall_mem_cons.2 ⟨hcondition, ?_⟩⟩
  exact List.forall_mem_map.2 fun a ha => (hassignments a ha).1

theorem speaks_delete : Speaks e delete (·.Encoded e) := by
  refine speaks_take_bind (by decide) fun _ => ?_
  refine speaks_name_bind (by decide) fun n hn => ?_
  refine speaks_take_bind (by decide) fun _ => ?_
  refine speaks_condition.bind fun condition hcondition => speaks_return ?_
  simpa [Command.Encoded, Command.texts] using ⟨hn, hcondition⟩

theorem speaks_join : Speaks e join (·.Encoded e) := by
  refine speaks_name_bind (by decide) fun l hl => ?_
  refine speaks_take_bind (by decide) fun _ => ?_
  refine speaks_name_bind (by decide) fun r hr => ?_
  refine speaks_take_bind (by decide) fun _ => ?_
  refine speaks_name_bind (by decide) fun la hla => ?_
  refine speaks_take_bind (by decide) fun _ => ?_
  refine speaks_name_bind (by decide) fun ra hra => speaks_return ?_
  simpa [Command.Encoded, Command.texts] using ⟨hl, hr, hla, hra⟩

theorem speaks_body {k : Keyword} {body : Parser Command} (h : body? k = some body) :
    Speaks e body (·.Encoded e) := by
  cases k <;> cases h
  · exact speaks_use
  · exact speaks_create
  · exact speaks_drop
  · exact speaks_alter
  · exact speaks_insert
  · exact speaks_select
  · exact speaks_update
  · exact speaks_delete
  · exact speaks_join

theorem speaks_statement : Speaks e statement (·.Encoded e) := by
  refine speaks_get.bind fun c hc => ?_
  dsimp only
  split
  · have hfixed : e.Encodes "Invalid command type: " := Encoding.encodes_of_isLow (by decide)
    exact speaks_iff.2 fun _ _ => hfixed.append hc.current
  · rename_i body hbody
    obtain ⟨k, -, hbody⟩ := Option.bind_eq_some_iff.1 hbody
    refine (speaks_set hc.advance).bind fun _ _ => (speaks_body hbody).bind fun command h => ?_
    exact speaks_take_bind (by decide) fun _ => speaks_return h

end Parser

/-! ### Statements -/

variable {text : String}

theorem encoded_tokens {tokens : List (Token Kind)} (htext : e.Encodes text)
    (h : statementTokens text = .ok tokens) :
    Cursor.Encoded (⟨tokens, endToken text⟩ : Cursor Kind) e :=
  ⟨fun _ ht => encodes_of_mem_statementTokens htext h ht, Encoding.encodes_empty e⟩

/-- The command of a text that can be encoded has no text that cannot be. -/
theorem Command.encoded_of_parse {command : Command} (htext : e.Encodes text)
    (h : parse text = .ok command) : command.Encoded e := by
  obtain ⟨tokens, htokens, h⟩ := bind_eq_ok_iff.1 h
  obtain ⟨⟨result, d⟩, hrun, h⟩ := bind_eq_ok_iff.1 h
  cases h
  have hspeaks := Parser.speaks_statement (encoded_tokens htext (mapError_eq_ok_iff.1 htokens))
  exact (hspeaks.1 _ _ hrun).1

/-- What is said of a text that is no statement can be encoded if the text can be. -/
theorem StatementError.encodes_of_parse {error : StatementError} (htext : e.Encodes text)
    (h : Command.parse text = .error error) : e.Encodes error.message := by
  rcases bind_eq_error_iff.1 h with htokens | ⟨tokens, htokens, h⟩
  · obtain ⟨lexical, hlexical, rfl⟩ := mapError_eq_error_iff.1 htokens
    exact LexicalError.encodes_message htext hlexical
  · have htokens := encoded_tokens htext (mapError_eq_ok_iff.1 htokens)
    rcases bind_eq_error_iff.1 h with hrun | ⟨_, -, h⟩
    · exact (Parser.speaks_statement htokens).2 _ hrun
    · cases h

end Tabula
