import BuildFix.Proofs.Attributes
import BuildFix.Proofs.InPlace

/-!
# Several attributes set at once

Setting attributes of different names one after the other is one change of the
arguments (`foldl_setArg_eq`).  The first argument of each name gets the value in
its place, and all other arguments stay as they are.  The names that no argument
had come last, in the order in which they were set.

The induction is on the updates.  Setting one attribute either changes its first
argument in place (`setArg_first`) or adds one at the end (`setArg_new`), and
neither is seen by the updates of other names.
-/

namespace BuildFix

namespace Rule

variable {key : String} {value arg : Expr} {args : List Expr}
  {updates : List (String × Expr)}

/-! ## One attribute -/

theorem isArgOf_setValue_eq (other : String) (value arg : Expr) :
    isArgOf other (setValue value arg) = isArgOf other arg := by
  cases arg with
  | keyValue k v c => cases k <;> rfl
  | _ => rfl

/-- The first argument of an attribute gets the value in its place. -/
theorem setArg_first {before after : List Expr}
    (hbefore : ∀ a ∈ before, isArgOf key a = false) (harg : isArgOf key arg = true) :
    setArg key value (before ++ arg :: after) = before ++ setValue value arg :: after := by
  induction before with
  | nil => rw [List.nil_append, setArg, if_pos harg, List.nil_append]
  | cons a before ih =>
      obtain ⟨ha, hbefore⟩ := List.forall_mem_cons.1 hbefore
      rw [List.cons_append, setArg, if_neg (by simp [ha]), ih hbefore, List.cons_append]

/-- An attribute without an argument gets one at the end. -/
theorem setArg_new (h : ∀ a ∈ args, isArgOf key a = false) :
    setArg key value args = args ++ [.keyword key value] := by
  induction args with
  | nil => rfl
  | cons a args ih =>
      obtain ⟨ha, hargs⟩ := List.forall_mem_cons.1 h
      rw [setArg, if_neg (by simp [ha]), ih hargs, List.cons_append]

/-- Arguments have a first one of an attribute or none. -/
theorem first_or_none (key : String) (args : List Expr) :
    (∀ a ∈ args, isArgOf key a = false) ∨
      ∃ before arg after, args = before ++ arg :: after ∧
        (∀ a ∈ before, isArgOf key a = false) ∧ isArgOf key arg = true := by
  cases h : args.find? (isArgOf key) with
  | none => exact .inl (by simpa using List.find?_eq_none.1 h)
  | some arg =>
      obtain ⟨harg, before, after, hargs, hbefore⟩ := List.find?_eq_some_iff_append.1 h
      exact .inr ⟨before, arg, after, hargs, by simpa using hbefore, harg⟩

/-! ## Updates -/

/-- The argument with the new value of its attribute, if it is the first argument
of that attribute and the updates have one. -/
def updatedArg (updates : List (String × Expr)) (before : List Expr) (arg : Expr) : Expr :=
  match arg.keyword? with
  | none => arg
  | some (key, _) =>
      if before.any (isArgOf key) then arg
      else ((updates.lookup key).map fun value => setValue value arg).getD arg

/-- The arguments with the new values in their places. -/
def updatedArgs (updates : List (String × Expr)) (args : List Expr) : List Expr :=
  mapInPlace (fun before arg _ => updatedArg updates before arg) args

/-- The arguments for the attributes of the updates that had none. -/
def addedArgs (updates : List (String × Expr)) (args : List Expr) : List Expr :=
  (updates.filter fun u => !args.any (isArgOf u.1)).map fun u => .keyword u.1 u.2

theorem updatedArg_nil (before : List Expr) (arg : Expr) : updatedArg [] before arg = arg := by
  unfold updatedArg
  split
  · rfl
  · split <;> rfl

theorem updatedArg_of_isArgOf {before : List Expr} (h : isArgOf key arg = true) :
    updatedArg updates before arg =
      if before.any (isArgOf key) then arg
      else ((updates.lookup key).map fun value => setValue value arg).getD arg := by
  obtain ⟨v, hv⟩ := isArgOf_iff.1 h
  rw [updatedArg, hv]

/-- What an argument becomes depends on the attributes in front of it. -/
theorem updatedArg_congr {before before' : List Expr}
    (h : ∀ other, before.any (isArgOf other) = before'.any (isArgOf other)) :
    updatedArg updates before arg = updatedArg updates before' arg := by
  unfold updatedArg
  split
  · rfl
  · rw [h]

/-- An update is passed over by the arguments of other attributes, and by those
behind the first of its own. -/
theorem updatedArg_cons {before : List Expr}
    (h : isArgOf key arg = true → before.any (isArgOf key) = true) :
    updatedArg ((key, value) :: updates) before arg = updatedArg updates before arg := by
  unfold updatedArg
  split
  next => rfl
  next other v hk =>
    by_cases heq : other = key
    · subst heq
      have hbefore := h (isArgOf_iff.2 ⟨v, hk⟩)
      rw [if_pos hbefore, if_pos hbefore]
    · rw [List.lookup_cons, beq_false_of_ne heq]

theorem lookup_eq_none_of_notMem (h : key ∉ updates.map Prod.fst) : updates.lookup key = none := by
  rw [List.lookup_eq_none_iff]
  intro u hu
  rw [bne_iff_ne]
  rintro rfl
  exact h (List.mem_map_of_mem hu)

/-- An update does nothing to arguments of other attributes. -/
theorem updatedArgs_cons_of_none (h : ∀ a ∈ args, isArgOf key a = false) :
    updatedArgs ((key, value) :: updates) args = updatedArgs updates args := by
  refine mapInPlace_congr fun before a after hargs => updatedArg_cons fun ha => ?_
  rw [h a (by simp [hargs])] at ha
  cases ha

/-- An update that finds an argument changes it in place, and the updates of other
names do not see the change. -/
theorem updatedArgs_setArg_first {before after : List Expr}
    (hkey : key ∉ updates.map Prod.fst) (hbefore : ∀ a ∈ before, isArgOf key a = false)
    (harg : isArgOf key arg = true) :
    updatedArgs updates (before ++ setValue value arg :: after) =
      updatedArgs ((key, value) :: updates) (before ++ arg :: after) := by
  have hfront : updatedArgs ((key, value) :: updates) before = updatedArgs updates before :=
    updatedArgs_cons_of_none hbefore
  have hplace : updatedArg updates before (setValue value arg) =
      updatedArg ((key, value) :: updates) before arg := by
    have hnone : before.any (isArgOf key) = false := by simpa using hbefore
    rw [updatedArg_of_isArgOf (isArgOf_setValue harg), updatedArg_of_isArgOf harg,
      lookup_eq_none_of_notMem hkey, List.lookup_cons_self]
    simp [hnone]
  have hback : mapInPlace (fun front a _ =>
        updatedArg updates (before ++ setValue value arg :: front) a) after =
      mapInPlace (fun front a _ =>
        updatedArg ((key, value) :: updates) (before ++ arg :: front) a) after := by
    refine mapInPlace_congr fun front a _ _ => ?_
    rw [updatedArg_cons fun _ => by simp [harg]]
    refine updatedArg_congr fun other => ?_
    simp [isArgOf_setValue_eq]
  simp only [updatedArgs, mapInPlace_append, mapInPlace_cons, List.append_nil] at hfront ⊢
  rw [hfront, hplace, hback]

/-- An update that finds no argument adds one at the end, and the updates of other
names pass over it. -/
theorem updatedArgs_setArg_new (hkey : key ∉ updates.map Prod.fst)
    (h : ∀ a ∈ args, isArgOf key a = false) :
    updatedArgs updates (args ++ [.keyword key value]) =
      updatedArgs ((key, value) :: updates) args ++ [.keyword key value] := by
  have hlast : updatedArg updates args (.keyword key value) = .keyword key value := by
    rw [updatedArg_of_isArgOf (isArgOf_iff.2 ⟨value, rfl⟩), lookup_eq_none_of_notMem hkey]
    simp
  rw [updatedArgs_cons_of_none h]
  simp only [updatedArgs, mapInPlace_append, mapInPlace_cons, mapInPlace_nil, List.append_nil,
    hlast]

/-- Which arguments are added depends on the attributes that are there. -/
theorem addedArgs_congr {args' : List Expr}
    (h : ∀ u ∈ updates, args.any (isArgOf u.1) = args'.any (isArgOf u.1)) :
    addedArgs updates args = addedArgs updates args' := by
  rw [addedArgs, addedArgs]
  congr 1
  refine List.filter_congr fun u hu => ?_
  rw [h u hu]

/-- Setting attributes of different names one after the other. -/
theorem foldl_setArg_eq (h : (updates.map Prod.fst).Nodup) (args : List Expr) :
    updates.foldl (fun args u => setArg u.1 u.2 args) args =
      updatedArgs updates args ++ addedArgs updates args := by
  induction updates generalizing args with
  | nil =>
      have hsame : updatedArgs [] args = args :=
        (mapInPlace_eq_map fun _ a _ _ => updatedArg_nil _ a).trans args.map_id'
      rw [hsame]
      exact (List.append_nil args).symm
  | cons u updates ih =>
      obtain ⟨key, value⟩ := u
      obtain ⟨hkey, hupdates⟩ := List.nodup_cons.1 h
      rw [List.foldl_cons, ih hupdates]
      rcases first_or_none key args with hnone | ⟨before, arg, after, rfl, hbefore, harg⟩
      · have hadded : addedArgs updates (args ++ [.keyword key value]) =
            addedArgs updates args := by
          refine addedArgs_congr fun u hu => ?_
          have hne : key ≠ u.1 := by
            rintro rfl
            exact hkey (List.mem_map.2 ⟨u, hu, rfl⟩)
          simp [isArgOf, hne]
        have hnew : addedArgs ((key, value) :: updates) args =
            .keyword key value :: addedArgs updates args := by
          have hany : args.any (isArgOf key) = false := by simpa using hnone
          rw [addedArgs, List.filter_cons_of_pos (by simp [hany]), List.map_cons, addedArgs]
        rw [setArg_new hnone, updatedArgs_setArg_new hkey hnone, hadded, hnew, List.append_assoc]
        rfl
      · have hadded : addedArgs updates (before ++ setValue value arg :: after) =
            addedArgs ((key, value) :: updates) (before ++ arg :: after) := by
          rw [addedArgs, addedArgs, List.filter_cons_of_neg (by simp [harg])]
          exact addedArgs_congr fun u _ => by simp [isArgOf_setValue_eq]
        rw [setArg_first hbefore harg, updatedArgs_setArg_first hkey hbefore harg, hadded]

example :
    let arg (key value : String) := Expr.keyword key (.literal value {})
    let updates := [("cgo", .literal "True" {}), ("srcs", .literal "SRCS" {})]
    let args := [.literal "REST" {}, arg "srcs" "A", arg "deps" "B", arg "srcs" "C"]
    updatedArgs updates args ++ addedArgs updates args =
      [.literal "REST" {}, arg "srcs" "SRCS", arg "deps" "B", arg "srcs" "C",
        arg "cgo" "True"] := by
  rfl

end Rule

end BuildFix
