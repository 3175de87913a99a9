import BuildFix.Loads.Reconcile
import Mathlib.Data.List.Basic

/-!
# Revising one load

`SymbolTable.reviseLoad` is given a load and the symbols it should have.  What
matters of a load is the set of symbols of the table among the arguments behind
its label, `symbolsAmong`, and a load `Carries` the wanted symbols when this set
is the wanted one.

There are three outcomes, and `reviseLoad_cases` says all there is to know of
each.  A load that carries what is wanted and has arguments is kept.  A load is
deleted only when nothing is wanted of it.  Any other load is replaced by one
with the same callee and the same label that carries what is wanted and has
arguments.  So a load is never left with its label alone.
-/

namespace BuildFix

namespace SymbolTable

variable {t : SymbolTable} {wanted : List String} {args rest : List Expr} {s : String}

/-! ## The symbols among arguments -/

/-- The symbols of the table among the string arguments, in order. -/
def symbolsAmong (t : SymbolTable) (args : List Expr) : List String :=
  args.filterMap fun arg => arg.string?.filter t.knows

/-- The symbols of the table among the arguments are the wanted ones. -/
def Carries (t : SymbolTable) (args : List Expr) (wanted : List String) : Prop :=
  ∀ s, s ∈ t.symbolsAmong args ↔ s ∈ wanted

theorem mem_symbolsAmong :
    s ∈ t.symbolsAmong args ↔ t.knows s = true ∧ ∃ arg ∈ args, arg.string? = some s := by
  simp only [symbolsAmong, List.mem_filterMap, Option.filter_eq_some_iff]
  constructor
  · rintro ⟨arg, ha, hs, hk⟩
    exact ⟨hk, arg, ha, hs⟩
  · rintro ⟨hk, arg, ha, hs⟩
    exact ⟨arg, ha, hs, hk⟩

@[simp] theorem symbolsAmong_nil : t.symbolsAmong [] = [] := rfl

/-- Arguments that carry no symbol have none among them. -/
theorem carries_nil_iff : t.Carries args [] ↔ t.symbolsAmong args = [] := by
  simp [Carries, List.eq_nil_iff_forall_not_mem]

/-- Without arguments nothing is carried. -/
theorem Carries.eq_nil_of_nil (h : t.Carries [] wanted) : wanted = [] := by
  rw [List.eq_nil_iff_forall_not_mem]
  intro s hs
  have := (h s).2 hs
  simp at this

theorem isManagedArg_iff {arg : Expr} :
    t.isManagedArg arg = true ↔ ∃ s, arg.string? = some s ∧ t.knows s = true := by
  simp [isManagedArg, Option.any_eq_true]

theorem isWantedArg_iff {arg : Expr} :
    t.isWantedArg wanted arg = true ↔
      ∃ s, arg.string? = some s ∧ t.knows s = true ∧ s ∈ wanted := by
  simp [isWantedArg, Option.any_eq_true]

/-! ## The arguments after a revision -/

/-- The arguments that are symbols of the table and wanted. -/
def presentArgs (t : SymbolTable) (wanted : List String) (rest : List Expr) : List Expr :=
  rest.filter (t.isWantedArg wanted)

/-- The wanted symbols that no argument is. -/
def missingSymbols (t : SymbolTable) (wanted : List String) (rest : List Expr) : List String :=
  wanted.filter fun s => !(t.presentArgs wanted rest).any (·.string? == some s)

/-- The arguments that are symbols of the table and not wanted. -/
def staleArgs (t : SymbolTable) (wanted : List String) (rest : List Expr) : List Expr :=
  rest.filter fun arg => t.isManagedArg arg && !t.isWantedArg wanted arg

/-- The symbols of a replaced load, kept and new ones sorted together. -/
def revisedSymbols (t : SymbolTable) (wanted : List String) (rest : List Expr) : List Expr :=
  (t.presentArgs wanted rest ++
    (t.missingSymbols wanted rest).map fun s => Expr.string s {}).mergeSort valueLE

/-- The arguments of a replaced load behind its label. -/
def revisedArgs (t : SymbolTable) (wanted : List String) (rest : List Expr) : List Expr :=
  t.revisedSymbols wanted rest ++ rest.filter fun arg => !t.isManagedArg arg

/-- Reading of `reviseLoad` through the names of its parts. -/
theorem reviseLoad_call (t : SymbolTable) (wanted : List String) (callee label : Expr)
    (rest : List Expr) (compact : Bool) (c : Comments) :
    t.reviseLoad wanted (.call callee (label :: rest) compact c) =
      if t.missingSymbols wanted rest = [] ∧ t.staleArgs wanted rest = [] then
        if rest = [] then .deleted else .kept
      else if t.revisedArgs wanted rest = [] then .deleted
      else .replaced (.call callee (label :: t.revisedArgs wanted rest) compact c) := by
  simp only [reviseLoad, Bool.and_eq_true, List.isEmpty_iff]
  simp only [revisedArgs, List.append_eq_nil_iff]
  rfl

theorem mem_missingSymbols :
    s ∈ t.missingSymbols wanted rest ↔ s ∈ wanted ∧ s ∉ t.symbolsAmong rest := by
  simp only [missingSymbols, presentArgs, List.mem_filter, Bool.not_eq_true', List.any_eq_false,
    beq_iff_eq, isWantedArg_iff, mem_symbolsAmong]
  constructor
  · rintro ⟨hs, h⟩
    refine ⟨hs, ?_⟩
    rintro ⟨hk, arg, ha, he⟩
    exact h arg ⟨ha, s, he, hk, hs⟩ he
  · rintro ⟨hs, h⟩
    refine ⟨hs, ?_⟩
    rintro arg ⟨ha, s', he', hk, -⟩ he
    rw [he] at he'
    cases he'
    exact h ⟨hk, arg, ha, he⟩

theorem missingSymbols_eq_nil_iff :
    t.missingSymbols wanted rest = [] ↔ ∀ s ∈ wanted, s ∈ t.symbolsAmong rest := by
  simp only [List.eq_nil_iff_forall_not_mem, mem_missingSymbols, not_and, not_not]

theorem staleArgs_eq_nil_iff :
    t.staleArgs wanted rest = [] ↔ ∀ s ∈ t.symbolsAmong rest, s ∈ wanted := by
  simp only [staleArgs, List.filter_eq_nil_iff, Bool.and_eq_true, Bool.not_eq_true',
    ← Bool.not_eq_true, isManagedArg_iff, isWantedArg_iff, mem_symbolsAmong]
  constructor
  · rintro h s ⟨hk, arg, ha, he⟩
    by_contra hs
    refine h arg ha ⟨⟨s, he, hk⟩, ?_⟩
    rintro ⟨s', he', -, hs'⟩
    rw [he] at he'
    cases he'
    exact hs hs'
  · rintro h arg ha ⟨⟨s, he, hk⟩, hn⟩
    exact hn ⟨s, he, hk, h s ⟨hk, arg, ha, he⟩⟩

/-- Nothing is missing and nothing is stale exactly when the wanted symbols are
carried. -/
theorem carries_iff :
    t.Carries rest wanted ↔ t.missingSymbols wanted rest = [] ∧ t.staleArgs wanted rest = [] := by
  rw [missingSymbols_eq_nil_iff, staleArgs_eq_nil_iff]
  constructor
  · intro h
    exact ⟨fun s => (h s).2, fun s => (h s).1⟩
  · rintro ⟨hm, hs⟩ s
    exact ⟨hs s, hm s⟩

/-- The revised arguments carry the wanted symbols. -/
theorem carries_revisedArgs (hw : ∀ s ∈ wanted, t.knows s = true) :
    t.Carries (t.revisedArgs wanted rest) wanted := by
  intro s
  rw [mem_symbolsAmong]
  constructor
  · rintro ⟨hk, arg, ha, he⟩
    simp only [revisedArgs, revisedSymbols, presentArgs, List.mem_append, List.mem_mergeSort,
      List.mem_filter, List.mem_map] at ha
    rcases ha with (⟨-, hwanted⟩ | ⟨s', hs', rfl⟩) | ⟨-, hother⟩
    · obtain ⟨s', he', -, hs'⟩ := isWantedArg_iff.1 hwanted
      rw [he] at he'
      cases he'
      exact hs'
    · cases he
      exact (mem_missingSymbols.1 hs').1
    · rw [isManagedArg_iff.2 ⟨s, he, hk⟩] at hother
      cases hother
  · intro hs
    refine ⟨hw s hs, ?_⟩
    simp only [revisedArgs, revisedSymbols, presentArgs, List.mem_append, List.mem_mergeSort,
      List.mem_filter, List.mem_map]
    by_cases hm : s ∈ t.missingSymbols wanted rest
    · exact ⟨.string s {}, .inl (.inr ⟨s, hm, rfl⟩), rfl⟩
    · rw [mem_missingSymbols, not_and, not_not] at hm
      obtain ⟨hk, arg, ha, he⟩ := mem_symbolsAmong.1 (hm hs)
      exact ⟨arg, .inl (.inl ⟨ha, isWantedArg_iff.2 ⟨s, he, hk, hs⟩⟩), he⟩

/-! ## The outcomes -/

/-- The outcomes of a revision, each with what it says of the load. -/
theorem reviseLoad_cases (hw : ∀ s ∈ wanted, t.knows s = true) (callee label : Expr)
    (rest : List Expr) (compact : Bool) (c : Comments) :
    (t.reviseLoad wanted (.call callee (label :: rest) compact c) = .kept ∧
        rest ≠ [] ∧ t.Carries rest wanted) ∨
      (t.reviseLoad wanted (.call callee (label :: rest) compact c) = .deleted ∧
        wanted = [] ∧ (rest ≠ [] → ¬t.Carries rest wanted)) ∨
      ∃ args, t.reviseLoad wanted (.call callee (label :: rest) compact c) =
          .replaced (.call callee (label :: args) compact c) ∧
        args ≠ [] ∧ t.Carries args wanted ∧ ¬t.Carries rest wanted := by
  rw [reviseLoad_call]
  by_cases hc : t.Carries rest wanted
  · rw [if_pos (carries_iff.1 hc)]
    by_cases hr : rest = []
    · subst hr
      exact .inr (.inl ⟨if_pos rfl, hc.eq_nil_of_nil, fun h => absurd rfl h⟩)
    · exact .inl ⟨if_neg hr, hr, hc⟩
  · rw [if_neg (mt carries_iff.2 hc)]
    have hrev : t.Carries (t.revisedArgs wanted rest) wanted := carries_revisedArgs hw
    by_cases hr : t.revisedArgs wanted rest = []
    · rw [hr] at hrev
      exact .inr (.inl ⟨if_pos hr, hrev.eq_nil_of_nil, fun _ => hc⟩)
    · exact .inr (.inr ⟨_, if_neg hr, hr, hrev, hc⟩)

/-- A load is a call of `load` on its label and its arguments. -/
theorem eq_call_of_load? {stmt : Expr} {label : String} (hl : load? stmt = some (label, args)) :
    ∃ calleeComments labelComments compact c, stmt =
      .call (.literal "load" calleeComments) (.string label labelComments :: args) compact c := by
  unfold load? at hl
  split at hl
  · cases hl
    exact ⟨_, _, _, _, rfl⟩
  · cases hl

/-- A load is kept exactly when it has arguments and carries what is wanted. -/
theorem reviseLoad_eq_kept_iff (hw : ∀ s ∈ wanted, t.knows s = true) {stmt : Expr}
    {label : String} {args : List Expr} (hl : load? stmt = some (label, args)) :
    t.reviseLoad wanted stmt = .kept ↔ args ≠ [] ∧ t.Carries args wanted := by
  obtain ⟨_, _, _, _, rfl⟩ := eq_call_of_load? hl
  rcases reviseLoad_cases hw _ _ _ _ _ with ⟨h, hr, hc⟩ | ⟨h, -, hn⟩ | ⟨_, h, -, -, hn⟩
  · rw [h]
    exact iff_of_true rfl ⟨hr, hc⟩
  · rw [h]
    exact iff_of_false (by simp) fun hk => hn hk.1 hk.2
  · rw [h]
    exact iff_of_false (by simp) fun hk => hn hk.2

end SymbolTable

end BuildFix
