import BuildFix.Proofs.Store.Artifacts

/-!
# What effects do to files

The files of a store are what a run is judged by, and a directory that was made is no
change to them (`fileAt?`).

A store may refuse an effect for reasons that are not its own, such as a file that is
locked or a disk that is full.  What is said here holds for every way to carry out
effects that is `Cautious`: what is not refused is done as the store does it, and what is
refused changes no file.

Then a file that changed holds what was written to a path that leads to it, whether or
not some effect was refused (`Performed`).  If none was, every path that was written to
leads to a file that holds what was written to it, or what was written there by another
path (`exists_fileAt?_of_perform`).
-/

namespace BuildFix

namespace Store

variable {s s' s'' : Store} {p : Path} {key other : Key} {content : Content} {text : String}
  {e : Effect} {es : List Effect} {refused : Option WriteError}
  {step : Store → Effect → Store × Option WriteError}

/-! ## Files -/

/-- What the file at a key holds, if there is one. -/
def fileAt? (s : Store) (key : Key) : Option Content :=
  match s.get? key with
  | some (.file content) => some content
  | _ => none

theorem fileAt?_eq_some_iff : s.fileAt? key = some content ↔ s.get? key = some (.file content) := by
  unfold fileAt?
  split
  next content' h => simp [h]
  next hne => simpa using hne content

theorem fileAt?_congr (h : s'.get? key = s.get? key) : s'.fileAt? key = s.fileAt? key := by
  rw [fileAt?, h, fileAt?]

theorem fileAt?_of_dir (h : s.get? key = some .dir) : s.fileAt? key = none := by
  rw [fileAt?, h]

theorem fileAt?_of_none (h : s.get? key = none) : s.fileAt? key = none := by
  rw [fileAt?, h]

/-- New directories are no change to the files. -/
theorem DirsAdded.fileAt?_eq (h : s.DirsAdded s') (key : Key) : s'.fileAt? key = s.fileAt? key := by
  rcases h.get? key with heq | ⟨hnone, hdir⟩
  · exact fileAt?_congr heq
  · rw [fileAt?_of_dir hdir, fileAt?_of_none hnone]

namespace Written

theorem fileAt?_self (h : s.Written s' p content key) : s'.fileAt? key = some content :=
  fileAt?_eq_some_iff.2 h.get?_self

theorem fileAt?_other (h : s.Written s' p content key) (hne : other ≠ key) :
    s'.fileAt? other = s.fileAt? other := by
  rcases h.get?_other other hne with heq | ⟨hnone, hdir⟩
  · exact fileAt?_congr heq
  · rw [fileAt?_of_dir hdir, fileAt?_of_none hnone]

end Written

/-! ## Refusals -/

/-- A way to carry out effects that may refuse more than the store does. -/
structure Cautious (step : Store → Effect → Store × Option WriteError) : Prop where
  /-- What is not refused is done as the store does it. -/
  accepts : ∀ s e, (step s e).2 = none → step s e = s.apply e
  /-- What is refused adds directories at most. -/
  refuses : ∀ s e, s.WellFormed → (step s e).2.isSome = true → s.DirsAdded (step s e).1

/-- The store itself is cautious. -/
theorem cautious_apply : Cautious Store.apply where
  accepts _ _ _ := rfl
  refuses s e hs hrefused := by
    cases e with
    | write p text =>
        rcases hs.write_cases p (.text text) with ⟨-, -, hgrown⟩ | ⟨hnone, -⟩
        · exact hgrown.dirsAdded
        · have hnone : (s.apply (.write p text)).2 = none := hnone
          rw [hnone] at hrefused
          cases hrefused
    | makeDir p => exact (hs.makeDirs p).dirsAdded

/-- The store where some effects are refused before anything is done. -/
def applyUnless (locked : Effect → Option WriteError) (s : Store) (e : Effect) :
    Store × Option WriteError :=
  match locked e with
  | some refusal => (s, some refusal)
  | none => s.apply e

theorem cautious_applyUnless (locked : Effect → Option WriteError) :
    Cautious (applyUnless locked) where
  accepts s e hnone := by
    unfold applyUnless at hnone ⊢
    split at hnone
    next => cases hnone
    next hfree => rfl
  refuses s e hs hrefused := by
    unfold applyUnless at hrefused ⊢
    split
    next => exact .refl s
    next hfree =>
      rw [hfree] at hrefused
      exact cautious_apply.refuses s e hs hrefused

/-! ## Effects -/

/-- What came of effects, as far as they were carried out: what was there is there, and a
file that changed holds what was written to a path that leads to it. -/
structure Performed (s s' : Store) (es : List Effect) : Prop where
  /-- What was there is there. -/
  toExtends : s.Extends s'
  /-- A file is as it was, or as one of the effects wrote it. -/
  fileAt?_eq : ∀ key, s'.fileAt? key = s.fileAt? key ∨
    ∃ q text, .write q text ∈ es ∧ s'.walk q = .ok key ∧ s'.fileAt? key = some (.text text)

namespace Performed

theorem of_dirsAdded (h : s.DirsAdded s') (es : List Effect) : s.Performed s' es :=
  ⟨h.toExtends, fun key => .inl (h.fileAt?_eq key)⟩

/-- A file that some effect wrote holds what some effect wrote until the end. -/
theorem fileAt?_written (h : s.Performed s' es) (hfile : s.fileAt? key = some (.text text)) :
    s'.fileAt? key = some (.text text) ∨
      ∃ q text, .write q text ∈ es ∧ s'.walk q = .ok key ∧ s'.fileAt? key = some (.text text) :=
  (h.fileAt?_eq key).imp_left fun heq => heq.trans hfile

/-- The first effect and then the others. -/
theorem cons (hs : s.WellFormed) (happly : s.apply e = (s', none)) (h : s'.Performed s'' es) :
    s.Performed s'' (e :: es) := by
  obtain ⟨-, hextends⟩ := Effect.extends_of_apply hs happly
  refine ⟨hextends.trans h.toExtends, fun key => ?_⟩
  rcases h.fileAt?_eq key with heq | ⟨q, text, hq, hwalk, hfile⟩
  · rw [heq]
    cases e with
    | write p text =>
        obtain ⟨key', hwritten⟩ := Effect.written_of_apply hs happly
        by_cases hkey : key = key'
        · subst hkey
          have hwalk := h.toExtends.walk (resolve_eq_ok_iff.1 hwritten.resolve).2
          exact .inr ⟨p, text, List.mem_cons_self, hwalk, hwritten.fileAt?_self⟩
        · exact .inl (hwritten.fileAt?_other hkey)
    | makeDir p => exact .inl ((Effect.grown_of_apply hs happly).dirsAdded.fileAt?_eq key)
  · exact .inr ⟨q, text, List.mem_cons_of_mem e hq, hwalk, hfile⟩

end Performed

namespace Cautious

/-- What effects do to the files, whether or not one of them is refused. -/
theorem performed (hstep : Cautious step) (hs : s.WellFormed)
    (h : Effect.perform step s es = (s', refused)) : s.Performed s' es := by
  induction es generalizing s with
  | nil =>
      cases h
      exact .of_dirsAdded (.refl _) []
  | cons e es ih =>
      rw [Effect.perform] at h
      split at h
      next mid hmid =>
        have happly : s.apply e = (mid, none) := by
          rw [← hmid, hstep.accepts s e (by rw [hmid])]
        exact .cons hs happly (ih (Effect.extends_of_apply hs happly).1 h)
      next mid refusal hmid =>
        cases h
        have hadded := hstep.refuses s e hs (by rw [hmid]; rfl)
        rw [hmid] at hadded
        exact .of_dirsAdded hadded _

/-- Effects of which none is refused are carried out as the store does it. -/
theorem perform_apply (hstep : Cautious step) (h : Effect.perform step s es = (s', none)) :
    Effect.perform Store.apply s es = (s', none) := by
  induction es generalizing s with
  | nil => exact h
  | cons e es ih =>
      rw [Effect.perform] at h
      split at h
      next mid hmid =>
        have happly : s.apply e = (mid, none) := by
          rw [← hmid, hstep.accepts s e (by rw [hmid])]
        rw [Effect.perform, happly]
        exact ih h
      next => cases h

end Cautious

/-- If nothing was refused, a path that was written to leads to a file that one of the
effects wrote. -/
theorem exists_fileAt?_of_perform (hs : s.WellFormed)
    (h : Effect.perform Store.apply s es = (s', none)) (hmem : .write p text ∈ es) :
    ∃ key q text, s'.walk p = .ok key ∧ .write q text ∈ es ∧ s'.walk q = .ok key ∧
      s'.fileAt? key = some (.text text) := by
  obtain ⟨before, after, rfl⟩ := List.append_of_mem hmem
  obtain ⟨mid, hmid, h⟩ := Effect.perform_append h
  obtain ⟨next, hnext, h⟩ := Effect.perform_cons h
  obtain ⟨key, hwritten⟩ := Effect.written_of_apply (Effect.extends_of_perform hs hmid).1 hnext
  have hrest := cautious_apply.performed hwritten.wellFormed h
  have hwalk := hrest.toExtends.walk (resolve_eq_ok_iff.1 hwritten.resolve).2
  rcases hrest.fileAt?_written hwritten.fileAt?_self with hfile | ⟨q, text', hq, hwalk', hfile⟩
  · exact ⟨key, p, text, hwalk, hmem, hwalk, hfile⟩
  · exact ⟨key, q, text', hwalk, List.mem_append_right _ (List.mem_cons_of_mem _ hq), hwalk', hfile⟩

end Store

end BuildFix
