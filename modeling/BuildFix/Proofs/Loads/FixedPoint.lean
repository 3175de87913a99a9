import BuildFix.Proofs.Loads.Allotment

/-!
# Files that need no reconciling

A build file is `Reconciled` when the loads of every file of the table are
allotted the symbols it uses and none is missing.  Reconciling has nothing to do
exactly on such files (`reconcile_eq_none_iff_reconciled`).

Reconciling leaves every statement that is no managed load where it is
(`filter_reconciled`).  So the names that other loads bind stay the same, and
the names that are called stay the same but for `load` itself.  If `load` is no
symbol of the table, the used symbols stay the same, and what reconciling leaves
is reconciled (`reconciled_reconciled`).
-/

namespace BuildFix

namespace SymbolTable

variable {t : SymbolTable} {f : File} {file : SymbolFile}

/-- The loads of every file of the table are allotted its used symbols, and none
is missing. -/
def Reconciled (t : SymbolTable) (f : File) : Prop :=
  ∀ file ∈ t.files, t.Allotted (t.used f file) (loadsOf file.label f.stmts) ∧
    (loadsOf file.label f.stmts = [] → t.used f file = [])

/-! ## Nothing to do -/

theorem freshLoads_eq_nil
    (h : ∀ file ∈ t.files, loadsOf file.label f.stmts = [] → t.used f file = []) :
    t.freshLoads f = [] := by
  rw [freshLoads_eq, List.map_eq_nil_iff, List.filter_eq_nil_iff]
  intro file hf hneeds
  obtain ⟨hused, hnone⟩ := needsLoad_iff.1 hneeds
  exact hused (h file hf hnone)

theorem reviseStmts_kept {used : SymbolFile → List String} {seen : List String}
    (hu : ∀ file ∈ t.files, ∀ s ∈ used file, t.knows s = true) {stmts : List Expr}
    (h : ∀ file ∈ t.files, t.Allotted (wantedOf used seen file) (loadsOf file.label stmts)) :
    ∀ s ∈ t.reviseStmts used seen stmts, s.2 = .kept := by
  induction stmts generalizing seen with
  | nil =>
      intro s hs
      cases hs
  | cons stmt stmts ih =>
      intro s hs
      cases hm : t.managed? stmt with
      | none =>
          rw [reviseStmts, hm] at hs
          rcases List.mem_cons.1 hs with rfl | hs
          · rfl
          · refine ih (fun file hf => ?_) s hs
            rw [← loadsOf_cons_unmanaged stmts hf hm]
            exact h file hf
      | some g =>
          obtain ⟨hg, args, hl⟩ := managed?_eq_some hm
          have hfirst := h g hg
          rw [loadsOf_cons_load stmts hl] at hfirst
          rw [reviseStmts, hm] at hs
          rcases List.mem_cons.1 hs with rfl | hs
          · exact (reviseLoad_eq_kept_iff (wantedOf_knows hu hg) hl).2 hfirst.1
          · refine ih (fun file hf => ?_) s hs
            by_cases heq : g = file
            · subst heq
              rw [wantedOf_self]
              exact allotted_nil_iff.2 hfirst.2
            · have hne : g.label ≠ file.label := mt (eq_of_label_eq hg hf) heq
              rw [wantedOf_other hne.symm, ← loadsOf_cons_of_ne stmts hl hne]
              exact h file hf

/-- Reconciling has nothing to do exactly on reconciled files. -/
theorem reconcile_eq_none_iff_reconciled : t.reconcile f = none ↔ t.Reconciled f := by
  constructor
  · intro h file hf
    have hloads := t.allotted_reconciled f hf
    rwa [reconciled, h] at hloads
  · intro h
    rw [reconcile_eq_none_iff]
    exact ⟨freshLoads_eq_nil fun file hf => (h file hf).2,
      reviseStmts_kept (fun _ => used_knows) fun file hf => (h file hf).1⟩

/-! ## Statements that are no managed loads -/

theorem isSome_managed?_of_load? (hf : file ∈ t.files) {e : Expr} {args : List Expr}
    (hl : load? e = some (file.label, args)) : (t.managed? e).isSome = true := by
  rw [managed?_of_load? hf hl]
  rfl

theorem filter_revisedStmts {used : SymbolFile → List String} {seen : List String}
    {p : Expr → Bool} (hp : ∀ e, (t.managed? e).isSome = true → p e = false) (stmts : List Expr) :
    (t.revisedStmts used seen stmts).filter p = stmts.filter p := by
  induction stmts generalizing seen with
  | nil => rfl
  | cons stmt stmts ih =>
      cases hm : t.managed? stmt with
      | none => rw [revisedStmts_unmanaged stmts hm, List.filter_cons, List.filter_cons, ih]
      | some g =>
          obtain ⟨hg, args, hl⟩ := managed?_eq_some hm
          have hold : p stmt = false := hp stmt (isSome_managed?_of_load? hg hl)
          have hnew : ((t.reviseLoad (wantedOf used seen g) stmt).apply stmt).filter p = [] := by
            rw [List.filter_eq_nil_iff]
            intro e he
            obtain ⟨args', hl'⟩ := load?_of_mem_apply_reviseLoad hl he
            rw [hp e (isSome_managed?_of_load? hg hl')]
            simp
          rw [revisedStmts_managed stmts hm, List.filter_append, hnew, List.nil_append, ih,
            List.filter_cons_of_neg (by simp [hold])]

/-- Reconciling leaves the statements that are no managed loads, in their
order. -/
theorem filter_reconciled {p : Expr → Bool}
    (hp : ∀ e, (t.managed? e).isSome = true → p e = false) :
    (t.reconciled f).stmts.filter p = f.stmts.filter p := by
  have hfresh : (t.freshLoads f).filter p = [] := by
    rw [List.filter_eq_nil_iff]
    intro e he
    obtain ⟨file, hf, rfl⟩ := List.mem_map.1 he
    have hload : load? (freshLoad file (t.used f file)) = some (file.label, _) := rfl
    rw [hp _ (isSome_managed?_of_load? (List.mem_filter.1 hf).1 hload)]
    simp
  rw [stmts_reconciled, List.filter_append, hfresh, List.nil_append, filter_revisedStmts hp]

theorem exists_mem_reconciled {Q : Expr → Prop} (hQ : ∀ e, Q e → t.managed? e = none) :
    (∃ e ∈ (t.reconciled f).stmts, Q e) ↔ ∃ e ∈ f.stmts, Q e := by
  have hfilter : (t.reconciled f).stmts.filter (fun e => (t.managed? e).isNone) =
      f.stmts.filter fun e => (t.managed? e).isNone :=
    filter_reconciled fun e he => by simpa using he
  have hmem : ∀ e, Q e → (e ∈ (t.reconciled f).stmts ↔ e ∈ f.stmts) := by
    intro e he
    have h := congrArg (e ∈ ·) hfilter
    simpa [hQ e he] using h
  refine exists_congr fun e => ?_
  exact ⟨fun h => ⟨(hmem e h.2).1 h.1, h.2⟩, fun h => ⟨(hmem e h.2).2 h.1, h.2⟩⟩

theorem callName?_of_load? {e : Expr} {l : String × List Expr} (h : load? e = some l) :
    e.callName? = some "load" := by
  obtain ⟨_, _, _, _, rfl⟩ := eq_call_of_load? h
  rfl

theorem managed?_eq_none_of_callName? {e : Expr} (h : e.callName? ≠ some "load") :
    t.managed? e = none := by
  cases hl : load? e with
  | none => simp [managed?, hl]
  | some l => exact absurd (callName?_of_load? hl) h

theorem calls_reconciled {s : String} (hs : s ≠ "load") :
    (t.reconciled f).Calls s ↔ f.Calls s := by
  refine exists_mem_reconciled fun e he => managed?_eq_none_of_callName? ?_
  rw [he]
  simpa using hs

theorem bindsElsewhere_reconciled {s : String} :
    t.BindsElsewhere (t.reconciled f) s ↔ t.BindsElsewhere f s := by
  refine exists_mem_reconciled fun e => ?_
  rintro ⟨label, args, hl, hout, -⟩
  simp only [managed?, hl, Option.bind_some, List.find?_eq_none, beq_iff_eq]
  exact hout

/-! ## What reconciling leaves -/

/-- Reconciling keeps the used symbols if `load` is no symbol of the table. -/
theorem used_reconciled (hload : t.knows "load" = false) (hf : file ∈ t.files) :
    t.used (t.reconciled f) file = t.used f file := by
  have hiff : ∀ s ∈ file.symbols, s ∈ t.used (t.reconciled f) file ↔ s ∈ t.used f file := by
    intro s hs
    have hne : s ≠ "load" := by
      rintro rfl
      rw [(t.knows_iff "load").2 ⟨file, hf, hs⟩] at hload
      cases hload
    rw [mem_used_iff, mem_used_iff, calls_reconciled hne, bindsElsewhere_reconciled]
  refine List.filter_congr fun s hs => ?_
  have h := hiff s hs
  simp only [used, List.mem_filter, hs, true_and] at h
  exact Bool.eq_iff_iff.2 h

/-- What reconciling leaves is reconciled if `load` is no symbol of the table. -/
theorem reconciled_reconciled (hload : t.knows "load" = false) (f : File) :
    t.Reconciled (t.reconciled f) := by
  intro file hf
  rw [used_reconciled hload hf]
  exact t.allotted_reconciled f hf

end SymbolTable

end BuildFix
