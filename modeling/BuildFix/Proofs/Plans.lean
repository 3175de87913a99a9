import BuildFix.Proofs.Changes

/-!
# The plan of a run

What a run is to write is a list of effects, its plan.  The writes of the trees that were
fixed stand first, in the order of the trees, and the files of the report stand last
(`plan_eq`).  The settings that a plan is made for need not be those of the run.

A *port* carries out effects.  It has a state of its own, and may refuse any effect for
any reason.  It is asked for the effects of a plan one by one until it refuses one, so
what it carried out is the part of the plan before its first refusal (`perform_noting`).

A run that only checks counts the trees that the same run would write if it were to write
(`length_treeWrites`).  So its verdict can be read off the plan of the other run.
-/

namespace BuildFix

/-! ## Ports -/

namespace Effect

section

variable {σ ε : Type} (step : σ → Effect → σ × Option ε) (s : σ) (e : Effect)
  (es done : List Effect)

/-- A port that also notes the effects it carried out, in order. -/
def noting (state : σ × List Effect) (e : Effect) : (σ × List Effect) × Option ε :=
  match step state.1 e with
  | (s, none) => ((s, state.2 ++ [e]), none)
  | (s, some refusal) => ((s, state.2), some refusal)

/-- The state of a port that was asked for effects one by one, whatever it answered. -/
def stateAfter (es : List Effect) : σ := es.foldl (fun s e => (step s e).1) s

/-- What a port says when it refuses the effect at a place of a list, after it was asked
for those before it. -/
def refusalAt? (es : List Effect) (n : Nat) : Option ε :=
  es[n]?.bind fun e => (step (stateAfter step s (es.take n)) e).2

/-- A port carries out the first `n` effects of a list and refuses the next one, unless
there is none. -/
structure StopsAt (n : Nat) : Prop where
  /-- There are so many effects. -/
  le : n ≤ es.length
  /-- The effects in front are carried out. -/
  accepts : ∀ i < n, refusalAt? step s es i = none
  /-- The next one is refused. -/
  refuses : n < es.length → refusalAt? step s es n ≠ none

theorem refusalAt?_zero : refusalAt? step s (e :: es) 0 = (step s e).2 := rfl

theorem refusalAt?_succ (n : Nat) :
    refusalAt? step s (e :: es) (n + 1) = refusalAt? step (step s e).1 es n := rfl

variable {step s e es}

/-- A port stops at once if it refuses the first effect. -/
theorem stopsAt_cons_zero_iff : StopsAt step s (e :: es) 0 ↔ (step s e).2 ≠ none := by
  constructor
  · intro h
    rw [← refusalAt?_zero step s e es]
    exact h.refuses (Nat.succ_pos _)
  · intro hrefuse
    exact ⟨Nat.zero_le _, fun i hi => absurd hi (Nat.not_lt_zero i), fun _ => hrefuse⟩

/-- A port stops later if it carries out the first effect and stops among the others. -/
theorem stopsAt_cons_succ_iff {n : Nat} : StopsAt step s (e :: es) (n + 1) ↔
    (step s e).2 = none ∧ StopsAt step (step s e).1 es n := by
  constructor
  · intro h
    refine ⟨h.accepts 0 (Nat.succ_pos n), Nat.le_of_succ_le_succ h.le, fun i hi => ?_, fun hn => ?_⟩
    · exact h.accepts (i + 1) (Nat.succ_lt_succ hi)
    · exact h.refuses (Nat.succ_lt_succ hn)
  · rintro ⟨haccept, h⟩
    refine ⟨Nat.succ_le_succ h.le, fun i hi => ?_, fun hn => ?_⟩
    · cases i with
      | zero => exact haccept
      | succ i => exact h.accepts i (Nat.lt_of_succ_lt_succ hi)
    · exact h.refuses (Nat.lt_of_succ_lt_succ hn)

/-- A port stops at one place. -/
theorem StopsAt.unique {m n : Nat} (hm : StopsAt step s es m) (hn : StopsAt step s es n) :
    m = n := by
  rcases Nat.lt_trichotomy m n with hlt | heq | hlt
  · exact absurd (hn.accepts m hlt) (hm.refuses (Nat.lt_of_lt_of_le hlt hn.le))
  · exact heq
  · exact absurd (hm.accepts n hlt) (hn.refuses (Nat.lt_of_lt_of_le hlt hm.le))

variable (step s es)

/-- The place where a port stops decides what it notes and what becomes of its state. -/
theorem perform_noting : ∃ n, StopsAt step s es n ∧
    perform (noting step) (s, done) es =
      ((stateAfter step s (es.take (n + 1)), done ++ es.take n), refusalAt? step s es n) := by
  induction es generalizing s done with
  | nil =>
      have hstops : StopsAt step s [] 0 :=
        ⟨Nat.le_refl 0, fun i hi => absurd hi (Nat.not_lt_zero i),
          fun h => absurd h (Nat.lt_irrefl 0)⟩
      refine ⟨0, hstops, ?_⟩
      rw [List.take_nil, List.take_nil, List.append_nil]
      rfl
  | cons e es ih =>
      cases hstep : step s e with
      | mk s' answer =>
          cases answer with
          | none =>
              obtain ⟨n, hstops, hperform⟩ := ih s' (done ++ [e])
              have haccept : (step s e).2 = none := by rw [hstep]
              have hstate : (step s e).1 = s' := by rw [hstep]
              rw [← hstate] at hstops hperform
              refine ⟨n + 1, stopsAt_cons_succ_iff.2 ⟨haccept, hstops⟩, ?_⟩
              rw [perform, noting, hstep]
              rw [hstep] at hperform
              simp only [hperform, List.append_assoc, List.singleton_append, List.take_succ_cons,
                refusalAt?_succ, stateAfter, List.foldl_cons, hstep]
          | some refusal =>
              refine ⟨0, stopsAt_cons_zero_iff.2 (by simp [hstep]), ?_⟩
              rw [perform, noting, refusalAt?_zero, hstep]
              simp [stateAfter, hstep]

/-- Noting what was carried out makes no difference to a port. -/
theorem perform_eq_noting : perform step s es =
    ((perform (noting step) (s, done) es).1.1, (perform (noting step) (s, done) es).2) := by
  induction es generalizing s done with
  | nil => rfl
  | cons e es ih =>
      rw [perform, perform, noting]
      cases hstep : step s e with
      | mk s' answer =>
          cases answer with
          | none => exact ih s' (done ++ [e])
          | some refusal => rfl

variable {step s es} in
/-- A port refuses an effect where it stops, if it refuses any. -/
theorem StopsAt.refusalAt?_ne_none_iff {n : Nat} (h : StopsAt step s es n) :
    refusalAt? step s es n ≠ none ↔ ∃ i, refusalAt? step s es i ≠ none := by
  refine ⟨fun hn => ⟨n, hn⟩, fun ⟨i, hi⟩ => h.refuses ?_⟩
  have hi' : i < es.length := by
    by_contra hle
    exact hi (by rw [refusalAt?, List.getElem?_eq_none (Nat.le_of_not_lt hle)]; rfl)
  by_contra hle
  exact hi (h.accepts i (by omega))

end

end Effect

/-! ## Plans -/

/-- An effect writes a tree if it writes the rewritten build file, as JSON with a line for
each item and a line end behind it, at the target of the tree. -/
def ProcessedTree.WrittenBy (outDir : Option Path) (t : ProcessedTree) (e : Effect) : Prop :=
  ∃ f, t.rewritten? = some f ∧ e = .write (t.target outDir) (f.toJson.pretty ++ "\n")

/-- The writes of the trees are those of the trees that were fixed. -/
theorem ProcessedTree.forall₂_writtenBy (outDir : Option Path) (trees : List ProcessedTree) :
    List.Forall₂ (WrittenBy outDir) (trees.filter (·.status == .fixed))
      (trees.filterMap (write? outDir)) := by
  induction trees with
  | nil => exact .nil
  | cons t trees ih =>
      cases hwrite : t.write? outDir with
      | none =>
          have hstatus : ¬(t.status == .fixed) = true := by
            rw [beq_iff_eq, ← t.isSome_write?_iff outDir, hwrite]
            exact Bool.false_ne_true
          rw [List.filter_cons, if_neg hstatus, List.filterMap_cons_none hwrite]
          exact ih
      | some e =>
          have hstatus : (t.status == .fixed) = true := by
            rw [beq_iff_eq, ← t.isSome_write?_iff outDir, hwrite]
            rfl
          rw [List.filter_cons, if_pos hstatus, List.filterMap_cons_some hwrite]
          obtain ⟨f, hf, rfl⟩ := Option.map_eq_some_iff.1 hwrite
          exact .cons ⟨f, hf, rfl⟩ ih

namespace Settings

variable (s : Settings) (o : Outcome) (r : Report) {source : Except String (List SourceTree)}

/-- What settings ask to be written for the outcome of a run, which may have been made with
other settings. -/
def plan : List Effect := Outcome.effects { o with mode := s.mode } s.outDir r

/-- The writes of trees that settings ask for. -/
def treeWrites : List Effect :=
  if s.check then [] else o.trees.filterMap (ProcessedTree.write? s.outDir)

theorem plan_eq : s.plan o r = s.treeWrites o ++
    match s.outDir with
    | some dir => r.effects dir
    | none => [] := by
  unfold plan Outcome.effects treeWrites mode
  cases s.check with
  | false => rfl
  | true => rfl

/-- A run that only checks is the run that writes, with another mode. -/
theorem run_check (check : Bool) : ({ s with check } : Settings).run source =
    (s.run source).map fun o => { o with mode := Settings.mode { s with check } } := by
  simp only [run]
  cases s.disabled.find? fun key => (Fixer.ofKey? key).isNone with
  | some key => rfl
  | none => cases source <;> rfl

/-- The trees that would change are those that are written otherwise. -/
theorem length_treeWrites (h : s.check = false) : (s.treeWrites o).length = o.pending := by
  rw [treeWrites, h, if_neg Bool.false_ne_true, List.length_filterMap_eq_countP]
  show _ = (o.trees.map ProcessedTree.entry).countP (·.status == .fixed)
  rw [List.countP_map]
  refine List.countP_congr fun t _ => ?_
  rw [t.isSome_write?_iff, Function.comp_apply, t.status_entry, beq_iff_eq]

end Settings

/-- The verdict of an outcome in a mode that only checks. -/
theorem Outcome.check_eq_iff {o : Outcome} (h : o.mode = .check) :
    (∀ n, o.check = .error (.pending n) ↔ 1 ≤ n ∧ o.pending = n) ∧
      (o.check = .ok () ↔ o.pending = 0) := by
  rw [check, h]
  by_cases hpending : 0 < o.pending
  · refine ⟨fun n => ?_, ?_⟩
    · simp only [hpending, and_self, if_true, Except.error.injEq, RunError.pending.injEq]
      omega
    · simp [hpending]
      omega
  · refine ⟨fun n => ?_, ?_⟩
    · simp only [hpending, and_false, if_false, reduceCtorEq, false_iff]
      omega
    · simp [hpending]
      omega

/-- A plan has one write for each tree that was fixed, in order, unless the settings say to
check only, and then, with an output directory, the directory, the report and the summary.
Whatever a port refuses, it carries out the part of the plan before its first refusal, and
the result is an error exactly when it refuses some effect of the plan.  The run that only
checks fails with the number of trees in the plan of the run that writes, if there are any,
and passes if there are none. -/
theorem Settings.writes_follow_plan (s : Settings) (o : Outcome) (r : Report)
    (source : Except String (List SourceTree)) :
    (s.plan o r = s.treeWrites o ++
        (match s.outDir with
          | some dir => [.makeDir dir, .write (dir.join ⟨"report.json"⟩) (r.toJson.pretty ++ "\n"),
              .write (dir.join ⟨"summary.md"⟩) r.summary]
          | none => []) ∧
      (s.check = true → s.treeWrites o = []) ∧
      (s.check = false → List.Forall₂ (ProcessedTree.WrittenBy s.outDir)
        (o.trees.filter (·.status == .fixed)) (s.treeWrites o))) ∧
    (∀ {σ ε : Type} (step : σ → Effect → σ × Option ε) (state : σ),
      ∃ n, Effect.StopsAt step state (s.plan o r) n ∧
        Effect.perform step state (s.plan o r) =
          (Effect.stateAfter step state ((s.plan o r).take (n + 1)),
            Effect.refusalAt? step state (s.plan o r) n) ∧
        (Effect.perform (Effect.noting step) (state, []) (s.plan o r)).1.2 =
          (s.plan o r).take n ∧
        ((Effect.perform step state (s.plan o r)).2 ≠ none ↔
          ∃ i, Effect.refusalAt? step state (s.plan o r) i ≠ none)) ∧
    ((∃ e, ({ s with check := false } : Settings).run source = .error e ∧
        ({ s with check := true } : Settings).run source = .error e) ∨
      ∃ writing checking, ({ s with check := false } : Settings).run source = .ok writing ∧
        ({ s with check := true } : Settings).run source = .ok checking ∧
        (∀ n, checking.check = .error (.pending n) ↔
          1 ≤ n ∧ (Settings.treeWrites { s with check := false } writing).length = n) ∧
        (checking.check = .ok () ↔
          (Settings.treeWrites { s with check := false } writing).length = 0)) := by
  refine ⟨⟨s.plan_eq o r, fun h => ?_, fun h => ?_⟩, fun step state => ?_, ?_⟩
  · rw [treeWrites, if_pos h]
  · rw [treeWrites, h, if_neg Bool.false_ne_true]
    exact ProcessedTree.forall₂_writtenBy s.outDir o.trees
  · obtain ⟨n, hstops, hnoted⟩ := Effect.perform_noting step state (s.plan o r) []
    have hperform := Effect.perform_eq_noting step state (s.plan o r) []
    rw [hnoted] at hperform
    refine ⟨n, hstops, hperform, ?_, ?_⟩
    · rw [hnoted, List.nil_append]
    · rw [hperform]
      exact hstops.refusalAt?_ne_none_iff
  · rw [run_check s false, run_check s true]
    cases s.run source with
    | error e => exact .inl ⟨e, rfl, rfl⟩
    | ok o =>
        refine .inr ⟨_, _, rfl, rfl, ?_⟩
        rw [length_treeWrites _ _ rfl]
        exact Outcome.check_eq_iff rfl

end BuildFix
