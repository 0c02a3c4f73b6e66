import Tabula.Proofs.FileTree.Path
import Tabula.Proofs.Outcome
import Tabula.Shell.Arguments

/-!
# The root that arguments give

Whatever flags there are, the root of the databases is the one that is taken without arguments, or
one of the arguments (`Arguments.givesRoot_of_parse`). So it has no null character if none of the
arguments has one.
-/

namespace Tabula.Arguments

variable {args : List String} {root : Path} {p p' : Progress} {o o' : Options} {s : String}

/-- The root is one of the arguments, or the one that is taken if there is none. -/
def GivesRoot (args : List String) (root : Path) : Prop :=
  root = ({} : Options).root ∨ ∃ s ∈ args, root = Path.ofString s

theorem GivesRoot.nullFree (h : GivesRoot args root) (hargs : ∀ s ∈ args, '\x00' ∉ s.toList) :
    root.NullFree := by
  obtain rfl | ⟨s, hs, rfl⟩ := h
  · decide
  · exact Path.nullFree_ofString (hargs s hs)

/-! ### One argument -/

theorem eq_of_noFlag {t : String} (h : noFlag s = .plain t) : t = s := by
  unfold noFlag at h
  split at h
  · exact (Word.plain.inj h).symm
  · cases h

theorem eq_of_longWord? {body : List Char} {t : String} (h : longWord? s body = some (.plain t)) :
    t = s := by
  unfold longWord? at h
  dsimp only at h
  split at h
  · exact eq_of_noFlag (Option.some.inj h)
  · cases h
  · cases h

/-- An argument that is plain is taken as it is. -/
theorem eq_of_word? {t : String} (h : word? s = some (.plain t)) : t = s := by
  unfold word? at h
  split at h
  · exact eq_of_longWord? h
  · split at h
    · cases h
    · exact eq_of_noFlag (Option.some.inj h)
  · exact (Word.plain.inj (Option.some.inj h)).symm

/-! ### Flags -/

theorem root_setValue (o : Options) (f : Flag) (word : String) :
    (setValue o f word).root = o.root := by
  cases f <;> rfl

theorem root_of_setFlags {fs : List Flag} (h : setFlags o fs = some o') : o'.root = o.root := by
  induction fs generalizing o with
  | nil =>
    cases h
    rfl
  | cons f fs ih =>
    cases f with
    | help => cases h
    | verbose => exact (ih h).trans rfl
    | command => exact ih h
    | file => exact ih h

/-- No flag gives the root, and none settles that there is a run. -/
theorem root_of_flags (p : Progress) (j : Joined) (next : Option Word) :
    (∀ o, p.flags j next ≠ .error (.run o)) ∧
    ∀ p', p.flags j next = .ok p' → p'.options.root = p.options.root := by
  unfold Progress.flags
  split
  · exact ⟨by simp, by simp⟩
  · split
    · exact ⟨by simp, by simp⟩
    · rename_i hflags
      refine ⟨by simp, fun p' h => ?_⟩
      cases h
      rw [← root_of_setFlags hflags]
      split
      · exact root_setValue _ _ _
      · rfl

/-! ### All arguments -/

theorem givesRoot_plain (hp : GivesRoot args p.options.root) (hs : s ∈ args) :
    GivesRoot args (p.plain s).options.root := by
  unfold Progress.plain
  split
  · exact hp
  · exact .inr ⟨s, hs, rfl⟩

theorem givesRoot_foldl_plain {plain : List String} (hp : GivesRoot args p.options.root)
    (hplain : ∀ s ∈ plain, s ∈ args) :
    GivesRoot args (plain.foldl Progress.plain p).options.root := by
  induction plain generalizing p with
  | nil => exact hp
  | cons s plain ih =>
    obtain ⟨hs, hplain⟩ := List.forall_mem_cons.1 hplain
    exact ih (givesRoot_plain hp hs) hplain

theorem givesRoot_close {rest : Option (List String)} (hp : GivesRoot args p.options.root)
    (hrest : ∀ plain ∈ rest, ∀ s ∈ plain, s ∈ args) (h : p.close rest = .run o) :
    GivesRoot args o.root := by
  have hend : ∀ q : Progress, GivesRoot args q.options.root →
      (if q.excess then .misuse else .run q.options : Invocation) = .run o →
      GivesRoot args o.root := by
    intro q hq h
    split at h
    · cases h
    · cases h
      exact hq
  cases rest with
  | none => exact hend p hp h
  | some plain =>
    refine hend _ (givesRoot_foldl_plain ?_ (hrest plain rfl)) h
    split <;> exact hp

/-- What comes of the flags of one argument, if they are clear, and whether the next argument is the
value of the last. -/
def Progress.take (p : Progress) (next : Option Word) :
    Option Joined → Except Invocation (Progress × Bool)
  | none => .error .misuse
  | some j => (p.flags j next).map fun p => (p, j.takesNext)

/-- What comes of one argument. -/
def Progress.word (p : Progress) (next : Option Word) : Word → Except Invocation (Progress × Bool)
  | .plain s => .ok (p.plain s, false)
  | .unknown => .ok ({ p with rootLast := false, excess := true }, false)
  | .short f text => p.take next (short? f text)
  | .long f value => p.take next (alone? f value)

theorem read_cons (p : Progress) (taken : Bool) (rest : Option (List String)) (w : Word)
    (ws : List Word) : read p taken rest (w :: ws) =
      if taken then read p false rest ws
      else match p.word ws.head? w with
        | .error outcome => outcome
        | .ok (p, taken) => read p taken rest ws := by
  cases w <;> rfl

theorem root_of_take (p : Progress) (next : Option Word) (j? : Option Joined) :
    (∀ o, p.take next j? ≠ .error (.run o)) ∧
    ∀ p' taken, p.take next j? = .ok (p', taken) → p'.options.root = p.options.root := by
  cases j? with
  | none => exact ⟨by simp [Progress.take], by simp [Progress.take]⟩
  | some j =>
    obtain ⟨herror, hok⟩ := root_of_flags p j next
    rw [Progress.take]
    cases hflags : p.flags j next with
    | error outcome =>
      refine ⟨fun o h => ?_, nofun⟩
      cases h
      exact herror o hflags
    | ok q =>
      refine ⟨nofun, fun p' taken h => ?_⟩
      cases h
      exact hok q hflags

theorem givesRoot_word (next : Option Word) {w : Word} (hp : GivesRoot args p.options.root)
    (hw : ∀ s, w = .plain s → s ∈ args) :
    (∀ o, p.word next w ≠ .error (.run o)) ∧
    ∀ p' taken, p.word next w = .ok (p', taken) → GivesRoot args p'.options.root := by
  cases w with
  | plain s =>
    refine ⟨nofun, fun p' taken h => ?_⟩
    cases h
    exact givesRoot_plain hp (hw s rfl)
  | unknown =>
    refine ⟨nofun, fun p' taken h => ?_⟩
    cases h
    exact hp
  | short f text =>
    obtain ⟨herror, hok⟩ := root_of_take p next (short? f text)
    exact ⟨herror, fun p' taken h => by rw [hok p' taken h]; exact hp⟩
  | long f value =>
    obtain ⟨herror, hok⟩ := root_of_take p next (alone? f value)
    exact ⟨herror, fun p' taken h => by rw [hok p' taken h]; exact hp⟩

theorem givesRoot_read {taken : Bool} {rest : Option (List String)} {words : List Word}
    (hp : GivesRoot args p.options.root) (hrest : ∀ plain ∈ rest, ∀ s ∈ plain, s ∈ args)
    (hwords : ∀ s, .plain s ∈ words → s ∈ args) (h : read p taken rest words = .run o) :
    GivesRoot args o.root := by
  induction words generalizing p taken with
  | nil => exact givesRoot_close hp hrest h
  | cons w words ih =>
    have hlater : ∀ s, .plain s ∈ words → s ∈ args := fun s hs =>
      hwords s (List.mem_cons_of_mem w hs)
    obtain ⟨herror, hok⟩ := givesRoot_word words.head? hp fun s hs =>
      hwords s (hs ▸ List.mem_cons_self)
    rw [read_cons] at h
    split at h
    · exact ih hp hlater h
    · split at h
      · rename_i outcome hword
        exact absurd (h ▸ hword) (herror o)
      · rename_i p' taken' hword
        exact ih (hok p' taken' hword) hlater h

/-- The root of a run is one of its arguments, unless it is the one that needs none. -/
theorem givesRoot_of_parse (h : parse args = .run o) : GivesRoot args o.root := by
  unfold parse at h
  dsimp only at h
  split at h
  · cases h
  · rename_i words hbefore
    refine givesRoot_read (.inl rfl) ?_ ?_ h
    · intro plain hplain s hs
      split at hplain
      · cases hplain
        exact List.dropWhile_subset _ (List.mem_of_mem_tail hs)
      · cases hplain
    · intro s hs
      obtain ⟨a, ha, hword⟩ := exists_of_mapM_eq_some hbefore hs
      rw [eq_of_word? hword]
      exact List.takeWhile_subset _ ha

end Tabula.Arguments
