import BuildFix.Proofs.PathOrder
import BuildFix.Proofs.Plans
import Mathlib.Data.List.Pairwise
import Mathlib.Data.List.Sort

/-!
# The order of trees

Trees that are handed over in memory are sorted by their paths.  Sorting moves trees and
loses none (`Path.sort_perm`), and the order of paths is linear.  So where no two paths have
the same components there is one sorted list, in whatever order the trees were handed over
(`Path.sort_eq_of_perm`), and nothing behind it can tell the difference.

Two runs may take place at different times, which the report tells.  Their plans are then
alike, effect by effect, and differ at most in the text of `report.json`.  Two ports that
answer alike as long as they were asked alike are asked for the same effects, up to that
text, and end alike (`Effect.AnswerAlike.perform`, `Effect.AnswerAlike.asked`).
-/

namespace BuildFix

/-! ## Sorted lists -/

namespace Path

section

variable {α : Type} (path : α → Path)

/-- The values of a list are in the order of their paths. -/
def Ordered (xs : List α) : Prop := xs.Pairwise fun x y => (path x).sortKey ≤ (path y).sortKey

theorem insertSorted_perm (x : α) (ys : List α) : (insertSorted path x ys).Perm (x :: ys) := by
  induction ys with
  | nil => exact .refl _
  | cons y ys ih =>
      rw [insertSorted]
      split
      · exact (ih.cons y).trans (.swap x y ys)
      · exact .refl _

theorem ordered_insertSorted {ys : List α} (x : α) (h : Ordered path ys) :
    Ordered path (insertSorted path x ys) := by
  induction ys with
  | nil => exact List.pairwise_singleton _ x
  | cons y ys ih =>
      obtain ⟨hy, hys⟩ := List.pairwise_cons.1 h
      rw [insertSorted]
      split
      next hle =>
        refine List.pairwise_cons.2 ⟨?_, ih hys⟩
        intro z hz
        rcases List.mem_cons.1 ((insertSorted_perm path x ys).mem_iff.1 hz) with rfl | hz
        · exact le_iff.1 hle
        · exact hy z hz
      next hle =>
        have hlt := (not_le.1 fun h => hle (le_iff.2 h)).le
        refine List.pairwise_cons.2 ⟨?_, h⟩
        intro z hz
        rcases List.mem_cons.1 hz with rfl | hz
        · exact hlt
        · exact hlt.trans (hy z hz)

/-- Values that are put into a sorted list are there besides those of the list. -/
theorem foldl_insertSorted_perm (xs ys : List α) :
    (xs.foldl (fun sorted x => insertSorted path x sorted) ys).Perm (xs ++ ys) := by
  induction xs generalizing ys with
  | nil => exact .refl _
  | cons x xs ih =>
      have hmoved :=
        (ih (insertSorted path x ys)).trans ((insertSorted_perm path x ys).append_left xs)
      exact hmoved.trans List.perm_middle

theorem ordered_foldl_insertSorted (xs : List α) {ys : List α} (h : Ordered path ys) :
    Ordered path (xs.foldl (fun sorted x => insertSorted path x sorted) ys) := by
  induction xs generalizing ys with
  | nil => exact h
  | cons x xs ih => exact ih (ordered_insertSorted path x h)

theorem sort_perm (xs : List α) : (sort path xs).Perm xs := by
  have h := foldl_insertSorted_perm path xs []
  rwa [List.append_nil] at h

theorem ordered_sort (xs : List α) : Ordered path (sort path xs) :=
  ordered_foldl_insertSorted path xs .nil

/-- Values whose paths differ have one sorted list. -/
theorem sort_eq_of_perm {xs ys : List α} (hperm : xs.Perm ys)
    (hpaths : xs.Pairwise fun x y => (path x).components ≠ (path y).components) :
    sort path xs = sort path ys := by
  have hsorted : (sort path xs).Perm (sort path ys) :=
    (sort_perm path xs).trans (hperm.trans (sort_perm path ys).symm)
  refine hsorted.eq_of_pairwise ?_ (ordered_sort path xs) (ordered_sort path ys)
  intro x y hx hy hxy hyx
  have hsymm : Std.Symm fun x y => (path x).components ≠ (path y).components :=
    ⟨fun _ _ h => h.symm⟩
  have hx' := (sort_perm path xs).mem_iff.1 hx
  have hy' := hperm.mem_iff.2 ((sort_perm path ys).mem_iff.1 hy)
  by_contra hne
  exact hpaths.forall hx' hy' hne (sortKey_eq_iff.1 (hxy.antisymm hyx))

end

end Path

/-! ## Ports that answer alike -/

namespace Effect

/-- The effects that a port is asked for: those before the first that it refuses, and that
one. -/
def asked {σ ε : Type} (step : σ → Effect → σ × Option ε) (s : σ) : List Effect → List Effect
  | [] => []
  | e :: es =>
      e :: match step s e with
        | (s, none) => asked step s es
        | (_, some _) => []

/-- A port is asked for the effects up to the place where it stops. -/
theorem StopsAt.asked_eq {σ ε : Type} {step : σ → Effect → σ × Option ε} {s : σ}
    {es : List Effect} {n : Nat} (h : StopsAt step s es n) : asked step s es = es.take (n + 1) := by
  induction es generalizing s n with
  | nil => rfl
  | cons e es ih =>
      rw [asked, List.take_succ_cons]
      cases n with
      | zero =>
          have hrefuse := stopsAt_cons_zero_iff.1 h
          cases hstep : step s e with
          | mk s' answer =>
              cases answer with
              | none => exact absurd (congrArg Prod.snd hstep) hrefuse
              | some refusal => rfl
      | succ n =>
          obtain ⟨haccept, hrest⟩ := stopsAt_cons_succ_iff.1 h
          rw [← ih hrest]
          cases hstep : step s e with
          | mk s' answer =>
              rw [hstep] at haccept
              cases haccept
              rfl

/-- Two ports, with a relation between their states, give the same answer to related
effects and keep their states related. -/
structure AnswerAlike {σ σ' ε : Type} (Q : Effect → Effect → Prop)
    (step : σ → Effect → σ × Option ε) (step' : σ' → Effect → σ' × Option ε)
    (R : σ → σ' → Prop) : Prop where
  /-- The states stay related. -/
  state : ∀ {s s' e e'}, R s s' → Q e e' → R (step s e).1 (step' s' e').1
  /-- The answers are the same. -/
  answer : ∀ {s s' e e'}, R s s' → Q e e' → (step s e).2 = (step' s' e').2

section

variable {σ σ' ε : Type} {Q : Effect → Effect → Prop} {step : σ → Effect → σ × Option ε}
  {step' : σ' → Effect → σ' × Option ε} {R : σ → σ' → Prop} {s : σ} {s' : σ'}
  {es es' : List Effect}

/-- What one effect keeps a list of effects keeps. -/
theorem AnswerAlike.perform (h : AnswerAlike Q step step' R) (hs : R s s')
    (hes : List.Forall₂ Q es es') :
    R (Effect.perform step s es).1 (Effect.perform step' s' es').1 ∧
      (Effect.perform step s es).2 = (Effect.perform step' s' es').2 := by
  induction hes generalizing s s' with
  | nil => exact ⟨hs, rfl⟩
  | @cons e e' es es' he _ ih =>
      have hstate := h.state hs he
      have hanswer := h.answer hs he
      rw [Effect.perform, Effect.perform]
      cases hstep : step s e with
      | mk t answer =>
          cases hstep' : step' s' e' with
          | mk t' answer' =>
              rw [hstep, hstep'] at hstate hanswer
              cases hanswer
              cases answer with
              | none => exact ih hstate
              | some refusal => exact ⟨hstate, rfl⟩

theorem AnswerAlike.asked (h : AnswerAlike Q step step' R) (hs : R s s')
    (hes : List.Forall₂ Q es es') :
    List.Forall₂ Q (Effect.asked step s es) (Effect.asked step' s' es') := by
  induction hes generalizing s s' with
  | nil => exact .nil
  | @cons e e' es es' he _ ih =>
      have hstate := h.state hs he
      have hanswer := h.answer hs he
      rw [Effect.asked, Effect.asked]
      refine .cons he ?_
      cases hstep : step s e with
      | mk t answer =>
          cases hstep' : step' s' e' with
          | mk t' answer' =>
              rw [hstep, hstep'] at hstate hanswer
              cases hanswer
              cases answer with
              | none => exact ih hstate
              | some refusal => exact .nil

end

/-! ## Plans of different times -/

/-- Two effects are the same, or write reports that differ only in the time that they tell,
as `report.json` in the output directory. -/
inductive Alike (outDir : Option Path) : Effect → Effect → Prop where
  /-- The same effect. -/
  | same (e : Effect) : Alike outDir e e
  /-- The report of another time. -/
  | report (dir : Path) (r : Report) (span : Span) (hdir : outDir = some dir) :
      Alike outDir (.write (dir.join ⟨"report.json"⟩) r.text)
        (.write (dir.join ⟨"report.json"⟩) { r with span }.text)

theorem forall₂_alike_self (outDir : Option Path) (es : List Effect) :
    List.Forall₂ (Alike outDir) es es := List.forall₂_same.2 fun e _ => .same e

end Effect

open Effect (Alike)

/-- The summary does not tell the time. -/
theorem Report.summary_span (r : Report) (span : Span) : { r with span }.summary = r.summary := rfl

/-- The plans of one outcome at two times are alike. -/
theorem Settings.plan_alike (s : Settings) (o : Outcome) (r : Report) (span : Span) :
    List.Forall₂ (Alike s.outDir) (s.plan o r) (s.plan o { r with span }) := by
  rw [plan_eq, plan_eq]
  refine List.rel_append (Effect.forall₂_alike_self s.outDir _) ?_
  cases hdir : s.outDir with
  | none => exact .nil
  | some dir =>
      show List.Forall₂ (Alike (some dir)) (r.effects dir) ({ r with span }.effects dir)
      rw [Report.effects, Report.effects, Report.summary_span]
      exact .cons (.same _) (.cons (.report dir r span rfl) (.cons (.same _) .nil))

/-! ## Runs -/

/-- Trees with pairwise different paths may be handed over in any order.  The run has the
same outcome, or stops with the same error, whatever its settings.  So the trees and their
order are the same, the reports differ at most in the time, a run that only checks ends in
the same way, and two ports that answer alike are asked for the same effects one by one, up
to the time in `report.json`, and end alike. -/
theorem Settings.run_order_irrelevant (s : Settings) {trees trees' : List SourceTree}
    (hperm : trees.Perm trees')
    (hpaths : trees.Pairwise fun t u => t.path.components ≠ u.path.components) :
    s.run (.ok (SourceTree.sorted trees)) = s.run (.ok (SourceTree.sorted trees')) ∧
      ∀ o o', s.run (.ok (SourceTree.sorted trees)) = .ok o →
        s.run (.ok (SourceTree.sorted trees')) = .ok o' →
        o.trees = o'.trees ∧ o.check = o'.check ∧
          ∀ tool span span', { o.report tool span with span := span' } = o'.report tool span' ∧
            List.Forall₂ (Alike s.outDir) (s.plan o (o.report tool span))
              (s.plan o' (o'.report tool span')) ∧
            ∀ {σ σ' ε : Type} (step : σ → Effect → σ × Option ε)
              (step' : σ' → Effect → σ' × Option ε) (R : σ → σ' → Prop) (state : σ) (state' : σ'),
              Effect.AnswerAlike (Alike s.outDir) step step' R → R state state' →
              List.Forall₂ (Alike s.outDir)
                  (Effect.asked step state (s.plan o (o.report tool span)))
                  (Effect.asked step' state' (s.plan o' (o'.report tool span'))) ∧
                R (Effect.perform step state (s.plan o (o.report tool span))).1
                  (Effect.perform step' state' (s.plan o' (o'.report tool span'))).1 ∧
                (Effect.perform step state (s.plan o (o.report tool span))).2 =
                  (Effect.perform step' state' (s.plan o' (o'.report tool span'))).2 := by
  have hsorted : SourceTree.sorted trees = SourceTree.sorted trees' :=
    Path.sort_eq_of_perm SourceTree.path hperm hpaths
  rw [hsorted]
  refine ⟨rfl, ?_⟩
  intro o o' ho ho'
  rw [ho] at ho'
  cases ho'
  refine ⟨rfl, rfl, ?_⟩
  intro tool span span'
  have hplan := s.plan_alike o (o.report tool span) span'
  refine ⟨rfl, hplan, ?_⟩
  intro σ σ' ε step step' R state state' halike hstate
  exact ⟨halike.asked hstate hplan, halike.perform hstate hplan⟩

/-- A tree in a directory. -/
def nestedTree : SourceTree := ⟨⟨"a/b.json"⟩, ⟨"a/b.json"⟩, .ok ⟨"a/b", []⟩⟩

/-- A tree whose path stands before that of `nestedTree` as a text, and behind it by its
components. -/
def dashedTree : SourceTree := ⟨⟨"a-b.json"⟩, ⟨"a-b.json"⟩, .ok ⟨"a-b", []⟩⟩

/-- Either order of the two trees makes the same run, with the tree in the directory first. -/
theorem dashedTree_order :
    ([dashedTree, nestedTree].Pairwise fun t u => t.path.components ≠ u.path.components) ∧
      ∃ o, ({} : Settings).run (.ok (SourceTree.sorted [dashedTree, nestedTree])) = .ok o ∧
        ({} : Settings).run (.ok (SourceTree.sorted [nestedTree, dashedTree])) = .ok o ∧
        o.trees.map ProcessedTree.path = [nestedTree.path, dashedTree.path] := by
  have hpaths : [dashedTree, nestedTree].Pairwise fun t u =>
      t.path.components ≠ u.path.components := by decide +kernel
  have horder := Settings.run_order_irrelevant {} (.swap nestedTree dashedTree []) hpaths
  exact ⟨hpaths, _, rfl, horder.1.symm.trans rfl, by decide +kernel⟩

end BuildFix
