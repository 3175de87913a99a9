import BuildFix.Proofs.AttributeUpdates
import Mathlib.Data.List.Nodup
import Mathlib.Data.List.ReduceOption

/-!
# Rules under sequences of edits

A rule with one argument for each attribute is an ordered map, kept inside a list
with other arguments.  An edit sets an attribute or takes it out.  Sequences of
edits, of the same attribute or of different ones, keep the rule such a map
(`Rule.editAll_orderedMap`).

One edit changes the arguments one by one (`AttrEdit.onArg?`) and may add one at the
end (`AttrEdit.newArg?`), by `Rule.apply_eq`.  What becomes of an argument under a
whole sequence depends on the edits of its own attribute alone (`keptArg?`).  It is
gone if the attribute was ever erased, and otherwise has the value that was set last.
The induction is on the edits.  It is carried by the attributes being different.
-/

namespace BuildFix

/-! ## Edits -/

/-- A change of one attribute. -/
inductive AttrEdit where
  | set (key : String) (value : Expr)
  | erase (key : String)
deriving DecidableEq, Repr

namespace AttrEdit

/-- The attribute that is edited. -/
def key : AttrEdit → String
  | set key _ => key
  | erase key => key

/-- The value that the attribute has after the edit. -/
def value? : AttrEdit → Option Expr
  | set _ value => some value
  | erase _ => none

/-- The rule after the edit. -/
def apply : AttrEdit → Rule → Rule
  | set key value, r => r.setAttr key value
  | erase key, r => (r.takeAttr key).2

/-- What the edit makes of an argument. -/
def onArg? (e : AttrEdit) : Expr → Option Expr
  | .keyValue k v c =>
      if k.literal? = some e.key then e.value?.map fun value => .keyValue k value c
      else some (.keyValue k v c)
  | arg => some arg

/-- The argument that the edit adds, given the value that its attribute has. -/
def newArg? : AttrEdit → Option Expr → Option Expr
  | set key value, none => some (.keyword key value)
  | set _ _, some _ => none
  | erase _, _ => none

end AttrEdit

/-- The last edit of an attribute. -/
def lastEdit? (edits : List AttrEdit) (key : String) : Option AttrEdit :=
  (edits.filter (·.key == key)).getLast?

/-- What edits leave of the value of an attribute: nothing if one of them erases it, and
otherwise the value that was set last. -/
def keptValue? (edits : List AttrEdit) (key : String) (value : Expr) : Option Expr :=
  if .erase key ∈ edits then none
  else match lastEdit? edits key with
    | none => some value
    | some e => e.value?

/-- What edits make of an argument that is there before the first. -/
def keptArg? (edits : List AttrEdit) : Expr → Option Expr
  | .keyValue k v c =>
      match k.literal? with
      | none => some (.keyValue k v c)
      | some key => (keptValue? edits key v).map fun value => .keyValue k value c
  | arg => some arg

/-- Decide whether no edit is of the attribute of an argument. -/
def untouched (edits : List AttrEdit) (arg : Expr) : Bool :=
  edits.all fun e => !Rule.isArgOf e.key arg

namespace Rule

/-- Each attribute has one argument. -/
def DistinctAttrs (r : Rule) : Prop := (r.attrs.map Prod.fst).Nodup

instance (r : Rule) : Decidable r.DistinctAttrs :=
  inferInstanceAs (Decidable (List.Nodup _))

/-- The rule after edits, made one after the other. -/
def editAll (r : Rule) (edits : List AttrEdit) : Rule := edits.foldl (fun r e => e.apply r) r

/-- The value an attribute has after edits. -/
def valueAfter? (r : Rule) (edits : List AttrEdit) (key : String) : Option Expr :=
  match lastEdit? edits key with
  | none => r.attr? key
  | some e => e.value?

/-- The argument that is added by one of several edits, as the edits behind it
leave it. -/
def lateArg? (r : Rule) (before : List AttrEdit) (e : AttrEdit) (after : List AttrEdit) :
    Option Expr :=
  (e.newArg? (r.valueAfter? before e.key)).bind (keptArg? after)

/-- The arguments that edits add, in the order of the edits. -/
def lateArgs (r : Rule) (edits : List AttrEdit) : List Expr :=
  (mapInPlace r.lateArg? edits).reduceOption

variable {r : Rule} {key : String} {value arg : Expr} {args : List Expr}
  {e : AttrEdit} {edits : List AttrEdit}

/-! ## One argument for each attribute -/

theorem mem_attrs_map_fst :
    key ∈ (args.filterMap Expr.keyword?).map Prod.fst ↔ ∃ a ∈ args, isArgOf key a = true := by
  simp only [List.mem_map, List.mem_filterMap, isArgOf_iff]
  constructor
  · rintro ⟨⟨_, v⟩, ⟨a, ha, hv⟩, rfl⟩
    exact ⟨a, ha, v, hv⟩
  · rintro ⟨a, ha, v, hv⟩
    exact ⟨(key, v), ⟨a, ha, hv⟩, rfl⟩

theorem attr?_eq_none_iff : r.attr? key = none ↔ ∀ a ∈ r.args, isArgOf key a = false := by
  have hmem : r.attr? key = none ↔ key ∉ r.attrs.map Prod.fst := by
    rw [attr?, List.lookup_eq_none_iff]
    simp only [List.mem_map, bne_iff_ne, not_exists, not_and]
    exact forall₂_congr fun _ _ => ne_comm
  rw [hmem, attrs, mem_attrs_map_fst]
  simp

/-- The first argument of an attribute gives its value. -/
theorem attr?_of_first {before after : List Expr} (hargs : r.args = before ++ arg :: after)
    (hbefore : ∀ a ∈ before, isArgOf key a = false) (harg : arg.keyword? = some (key, value)) :
    r.attr? key = some value := by
  have hnone : (before.filterMap Expr.keyword?).lookup key = none :=
    attr?_eq_none_iff (r := { r with args := before }).2 hbefore
  rw [attr?, attrs, hargs, List.filterMap_append, List.lookup_append, hnone,
    List.filterMap_cons_some harg, List.lookup_cons_self]
  rfl

/-- Where the attributes are different, the first argument of one is the only one. -/
theorem DistinctAttrs.after_first {before after : List Expr} (h : r.DistinctAttrs)
    (hargs : r.args = before ++ arg :: after) (harg : isArgOf key arg = true) :
    ∀ a ∈ after, isArgOf key a = false := by
  intro a ha
  obtain ⟨v, hv⟩ := isArgOf_iff.1 harg
  rw [DistinctAttrs, attrs, hargs, List.filterMap_append, List.filterMap_cons_some hv,
    List.map_append, List.map_cons] at h
  have hkey := (List.nodup_cons.1 h.of_append_right).1
  rw [mem_attrs_map_fst] at hkey
  exact Bool.eq_false_iff.2 fun haKey => hkey ⟨a, ha, haKey⟩

theorem argValue?_of_keyword? (h : arg.keyword? = some (key, value)) :
    argValue? arg = some value := by
  cases arg with
  | keyValue k v c =>
      rw [Expr.keyword?, Option.map_eq_some_iff] at h
      obtain ⟨_, -, hv⟩ := h
      exact congrArg some (Prod.ext_iff.1 hv).2
  | _ => cases h

/-- Taking an attribute out gives the value that it had, and erases it. -/
theorem takeAttr_eq (r : Rule) (key : String) :
    r.takeAttr key = (r.attr? key, r.eraseAttr key) := by
  rw [takeAttr, eraseAttr, List.eraseP_eq_eraseIdx]
  rcases first_or_none key r.args with hnone | ⟨before, arg, after, hargs, hbefore, harg⟩
  · rw [List.findIdx?_eq_none_iff.2 hnone, attr?_eq_none_iff.2 hnone]
  · obtain ⟨v, hv⟩ := isArgOf_iff.1 harg
    have hidx : r.args.findIdx? (isArgOf key) = some before.length := by
      rw [hargs, List.findIdx?_append, List.findIdx?_eq_none_iff.2 hbefore,
        List.findIdx?_cons, harg]
      simp
    rw [hidx, attr?_of_first hargs hbefore hv]
    simp [hargs, argValue?_of_keyword? hv]

/-! ## One edit -/

theorem onArg?_eq (e : AttrEdit) (arg : Expr) :
    e.onArg? arg =
      if isArgOf e.key arg then e.value?.map fun value => setValue value arg else some arg := by
  cases arg with
  | keyValue k v c =>
      have hkey : isArgOf e.key (.keyValue k v c) = true ↔ k.literal? = some e.key := by
        rw [isArgOf_iff]
        simp [Expr.keyword?]
      rw [AttrEdit.onArg?]
      simp only [hkey, setValue]
  | _ => rfl

theorem onArg?_of_not (h : isArgOf e.key arg = false) : e.onArg? arg = some arg := by
  rw [onArg?_eq, h]
  rfl

theorem isArgOf_of_newArg? {current : Option Expr} (h : e.newArg? current = some arg) :
    isArgOf e.key arg = true := by
  cases e with
  | set key value =>
      cases current with
      | none =>
          cases h
          exact isArgOf_iff.2 ⟨value, rfl⟩
      | some _ => cases h
  | erase key => cases h

/-- An edit leaves arguments of other attributes as they are. -/
theorem filterMap_onArg?_of_none (h : ∀ a ∈ args, isArgOf e.key a = false) :
    args.filterMap e.onArg? = args := by
  rw [List.filterMap_congr fun a ha => onArg?_of_not (h a ha)]
  exact List.filterMap_some

/-- What an edit does where its attribute has no argument. -/
theorem apply_of_none (h : ∀ a ∈ r.args, isArgOf e.key a = false) :
    e.apply r = { r with args := r.args ++ (e.newArg? none).toList } := by
  cases e with
  | set key value =>
      have h : ∀ a ∈ r.args, isArgOf key a = false := h
      rw [AttrEdit.apply, setAttr, setArg_new h]
      rfl
  | erase key =>
      have h : ∀ a ∈ r.args, ¬isArgOf key a = true := by simpa [AttrEdit.key] using h
      rw [AttrEdit.apply, takeAttr_eq, eraseAttr, List.eraseP_of_forall_not h]
      simp [AttrEdit.newArg?]

/-- What an edit does where its attribute has an argument. -/
theorem apply_of_first {before after : List Expr} (hargs : r.args = before ++ arg :: after)
    (hbefore : ∀ a ∈ before, isArgOf e.key a = false) (harg : isArgOf e.key arg = true) :
    e.apply r = { r with args := before ++ (e.onArg? arg).toList ++ after } := by
  rw [onArg?_eq, if_pos harg]
  cases e with
  | set key value =>
      have hset : setArg key value r.args = before ++ setValue value arg :: after := by
        rw [hargs]
        exact setArg_first hbefore harg
      rw [AttrEdit.apply, setAttr, hset]
      simp [AttrEdit.value?]
  | erase key =>
      have hbefore : ∀ a ∈ before, ¬isArgOf key a = true := by
        simpa [AttrEdit.key] using hbefore
      have herase : r.args.eraseP (isArgOf key) = before ++ after := by
        rw [hargs, List.eraseP_append_right _ hbefore]
        exact congrArg (before ++ ·) (List.eraseP_cons_of_pos harg)
      rw [AttrEdit.apply, takeAttr_eq, eraseAttr, herase]
      simp [AttrEdit.value?]

/-- What an edit does to a rule: it changes the argument of its attribute in place
or takes it away, and if there is none, it may add one at the end. -/
theorem apply_eq (h : r.DistinctAttrs) (e : AttrEdit) :
    e.apply r = { r with
      args := r.args.filterMap e.onArg? ++ (e.newArg? (r.attr? e.key)).toList } := by
  rcases first_or_none e.key r.args with hnone | ⟨before, arg, after, hargs, hbefore, harg⟩
  · rw [filterMap_onArg?_of_none hnone, attr?_eq_none_iff.2 hnone, apply_of_none hnone]
  · -- The first argument of the attribute is the only one, so the others stay.
    obtain ⟨v, hv⟩ := isArgOf_iff.1 harg
    have hplaces : r.args.filterMap e.onArg? = before ++ (e.onArg? arg).toList ++ after := by
      rw [hargs, List.filterMap_append, List.filterMap_cons, filterMap_onArg?_of_none hbefore,
        filterMap_onArg?_of_none (h.after_first hargs harg)]
      cases e.onArg? arg <;> simp
    have hnew : e.newArg? (some v) = none := by cases e <;> rfl
    rw [hplaces, attr?_of_first hargs hbefore hv, hnew, Option.toList_none, List.append_nil]
    exact apply_of_first hargs hbefore harg

/-- Erasing an attribute leaves no argument of it. -/
theorem attr?_erase (h : r.DistinctAttrs) (key : String) :
    ((AttrEdit.erase key).apply r).attr? key = none := by
  rw [apply_eq h, attr?_eq_none_iff]
  intro a ha
  rw [AttrEdit.newArg?, Option.toList_none, List.append_nil, List.mem_filterMap] at ha
  obtain ⟨b, -, hb⟩ := ha
  cases hkey : isArgOf (AttrEdit.erase key).key b with
  | true =>
      rw [onArg?_eq, if_pos hkey] at hb
      cases hb
  | false =>
      rw [onArg?_of_not hkey] at hb
      cases hb
      exact hkey

/-- An edit decides its own attribute and leaves the others as they were. -/
theorem attr?_apply (h : r.DistinctAttrs) (e : AttrEdit) (key : String) :
    (e.apply r).attr? key = if e.key = key then e.value? else r.attr? key := by
  split
  next heq =>
    subst heq
    cases e with
    | set k value => exact attr?_setAttr_self r k value
    | erase k => exact attr?_erase h k
  next hne =>
    cases e with
    | set k value => exact attr?_setAttr_of_ne r value (Ne.symm hne)
    | erase k =>
        rw [AttrEdit.apply, takeAttr_eq]
        exact attr?_eraseAttr_of_ne r (Ne.symm hne)

/-- An edit leaves the attributes different. -/
theorem DistinctAttrs.apply (h : r.DistinctAttrs) (e : AttrEdit) : (e.apply r).DistinctAttrs := by
  cases e with
  | set key value =>
      rw [AttrEdit.apply, setAttr, DistinctAttrs, attrs]
      rcases first_or_none key r.args with hnone | ⟨before, arg, after, hargs, hbefore, harg⟩
      · have hnew : key ∉ r.attrs.map Prod.fst := by
          rw [attrs, mem_attrs_map_fst]
          simpa using hnone
        rw [setArg_new hnone, List.filterMap_append, List.map_append]
        have hkeys := List.Nodup.concat hnew h
        rw [List.concat_eq_append] at hkeys
        exact hkeys
      · obtain ⟨v, hv⟩ := isArgOf_iff.1 harg
        rw [DistinctAttrs, attrs, hargs] at h
        rw [hargs, setArg_first hbefore harg]
        simpa [List.filterMap_cons_some hv, List.filterMap_cons_some (keyword?_setValue harg)]
          using h
  | erase key =>
      rw [AttrEdit.apply, takeAttr_eq]
      exact h.sublist ((List.eraseP_sublist.filterMap _).map _)

/-- An edit leaves the arguments of other attributes as they are, in their order. -/
theorem filter_args_apply (h : r.DistinctAttrs) {p : Expr → Bool}
    (hp : ∀ a, isArgOf e.key a = true → p a = false) :
    (e.apply r).args.filter p = r.args.filter p := by
  have hplaces : ∀ a, (e.onArg? a).filter p = (some a).filter p := by
    intro a
    cases ha : isArgOf e.key a with
    | true =>
        rw [onArg?_eq, if_pos ha, Option.filter_some_neg (by simp [hp a ha])]
        cases e.value? with
        | none => rfl
        | some v => exact Option.filter_some_neg (by simp [hp _ (isArgOf_setValue ha)])
    | false => rw [onArg?_of_not ha]
  have hnew : (e.newArg? (r.attr? e.key)).toList.filter p = [] := by
    rw [List.filter_eq_nil_iff]
    intro a ha
    simp [hp a (isArgOf_of_newArg? (Option.mem_toList.1 ha))]
  rw [apply_eq h, List.filter_append, hnew, List.append_nil, List.filter_filterMap]
  simp only [hplaces]
  rw [← List.filter_filterMap, List.filterMap_some]

/-! ## Sequences of edits -/

theorem lastEdit?_cons : lastEdit? (e :: edits) key =
    (lastEdit? edits key).or (if e.key = key then some e else none) := by
  rw [lastEdit?, lastEdit?]
  by_cases heq : e.key = key
  · rw [List.filter_cons_of_pos (by simpa using heq), List.getLast?_cons, if_pos heq]
    cases (edits.filter (·.key == key)).getLast? <;> rfl
  · rw [List.filter_cons_of_neg (by simpa using heq), if_neg heq, Option.or_none]

theorem valueAfter?_nil (r : Rule) (key : String) : r.valueAfter? [] key = r.attr? key := rfl

/-- The first edit can be made before the others are looked at. -/
theorem valueAfter?_cons (h : r.DistinctAttrs) (e : AttrEdit) (edits : List AttrEdit)
    (key : String) :
    r.valueAfter? (e :: edits) key = (e.apply r).valueAfter? edits key := by
  rw [valueAfter?, valueAfter?, lastEdit?_cons, attr?_apply h]
  cases lastEdit? edits key with
  | none => by_cases heq : e.key = key <;> simp [heq]
  | some _ => rfl

theorem keptValue?_nil (key : String) (value : Expr) : keptValue? [] key value = some value := rfl

/-- The edits act on the value of an attribute in turn. -/
theorem keptValue?_cons (e : AttrEdit) (edits : List AttrEdit) (key : String) (value : Expr) :
    keptValue? (e :: edits) key value =
      if e.key = key then e.value?.bind (keptValue? edits key) else keptValue? edits key value := by
  by_cases heq : e.key = key
  · subst heq
    rw [if_pos rfl]
    cases e with
    | set key new =>
        have hmem : AttrEdit.erase key ∈ .set key new :: edits ↔ .erase key ∈ edits := by simp
        simp only [keptValue?, AttrEdit.key, AttrEdit.value?, Option.bind_some, hmem,
          lastEdit?_cons]
        cases lastEdit? edits key <;> simp
    | erase key =>
        have hmem : AttrEdit.erase key ∈ .erase key :: edits := List.mem_cons_self
        rw [keptValue?, AttrEdit.key, if_pos hmem]
        rfl
  · -- An edit of another attribute is neither the last one nor an erasure.
    have hmem : AttrEdit.erase key ∈ e :: edits ↔ .erase key ∈ edits := by
      rw [List.mem_cons, or_iff_right]
      rintro rfl
      exact heq rfl
    simp only [keptValue?, hmem, lastEdit?_cons, if_neg heq, Option.or_none]

theorem keptArg?_nil (arg : Expr) : keptArg? [] arg = some arg := by
  cases arg with
  | keyValue k v c => cases hk : k.literal? <;> simp [keptArg?, hk, keptValue?_nil]
  | _ => rfl

/-- The edits act on an argument in turn. -/
theorem keptArg?_cons (e : AttrEdit) (edits : List AttrEdit) (arg : Expr) :
    keptArg? (e :: edits) arg = (e.onArg? arg).bind (keptArg? edits) := by
  cases arg with
  | keyValue k v c =>
      cases hk : k.literal? with
      | none => simp [keptArg?, AttrEdit.onArg?, hk]
      | some key =>
          simp only [keptArg?, AttrEdit.onArg?, hk, keptValue?_cons, Option.some.injEq,
            eq_comm (a := key)]
          split
          next => cases e.value? <;> simp [keptArg?, hk]
          next => simp [keptArg?, hk]
  | _ => rfl

/-- What an edit adds is seen in the same way from before an earlier edit and from
behind it. -/
theorem lateArg?_cons (h : r.DistinctAttrs) (e : AttrEdit) :
    (fun before => r.lateArg? (e :: before)) = (e.apply r).lateArg? := by
  funext before e' after
  rw [lateArg?, lateArg?, valueAfter?_cons h]

theorem lateArgs_cons (h : r.DistinctAttrs) (e : AttrEdit) (edits : List AttrEdit) :
    r.lateArgs (e :: edits) =
      (e.newArg? (r.attr? e.key)).toList.filterMap (keptArg? edits) ++
        (e.apply r).lateArgs edits := by
  rw [lateArgs, lateArgs, mapInPlace_cons, lateArg?_cons h, lateArg?, valueAfter?_nil]
  cases e.newArg? (r.attr? e.key) with
  | none => rfl
  | some a => cases hk : keptArg? edits a <;> simp [hk]

theorem DistinctAttrs.editAll (h : r.DistinctAttrs) (edits : List AttrEdit) :
    (r.editAll edits).DistinctAttrs := by
  induction edits generalizing r with
  | nil => exact h
  | cons e edits ih => exact ih (h.apply e)

theorem attr?_editAll (h : r.DistinctAttrs) (edits : List AttrEdit) (key : String) :
    (r.editAll edits).attr? key = r.valueAfter? edits key := by
  induction edits generalizing r with
  | nil => rfl
  | cons e edits ih =>
      rw [valueAfter?_cons h]
      exact ih (h.apply e)

/-- Arguments of attributes that are not edited stay as they are, in their order. -/
theorem filter_args_editAll (h : r.DistinctAttrs) {p : Expr → Bool}
    (hp : ∀ e ∈ edits, ∀ a, isArgOf e.key a = true → p a = false) :
    (r.editAll edits).args.filter p = r.args.filter p := by
  induction edits generalizing r with
  | nil => rfl
  | cons e edits ih =>
      obtain ⟨hpe, hpedits⟩ := List.forall_mem_cons.1 hp
      exact (ih (h.apply e) hpedits).trans (filter_args_apply h hpe)

/-- The arguments after edits are those of the rule, each as the edits leave it, and
behind them those that the edits add. -/
theorem editAll_eq (h : r.DistinctAttrs) (edits : List AttrEdit) :
    r.editAll edits = { r with
      args := r.args.filterMap (keptArg? edits) ++ r.lateArgs edits } := by
  induction edits generalizing r with
  | nil =>
      have hargs : r.args.filterMap (keptArg? []) ++ r.lateArgs [] = r.args := by
        rw [funext keptArg?_nil, List.filterMap_some]
        exact List.append_nil _
      rw [hargs]
      rfl
  | cons e edits ih =>
      have hargs : r.args.filterMap (keptArg? (e :: edits)) =
          (r.args.filterMap e.onArg?).filterMap (keptArg? edits) := by
        rw [List.filterMap_filterMap, funext (keptArg?_cons e edits)]
      rw [editAll, List.foldl_cons, ← editAll, ih (h.apply e), hargs, lateArgs_cons h,
        ← List.append_assoc, ← List.filterMap_append, apply_eq h e]

/-- Under any sequence of edits, a rule with one argument for each attribute behaves
as an ordered map.  The attributes stay different.  An attribute has the value of its
last edit, or that of the rule if there is none, and what is taken out is the value
that was there.  Each edit changes the argument of its attribute in its place, or adds
one behind all that are there.  All other arguments stay as they are and in their
order.  Nothing but the arguments changes. -/
theorem editAll_orderedMap (h : r.DistinctAttrs) (edits : List AttrEdit) :
    (r.editAll edits).DistinctAttrs ∧
      (∀ key, (r.editAll edits).attr? key = r.valueAfter? edits key) ∧
      (∀ before key after, edits = before ++ .erase key :: after →
        ((r.editAll before).takeAttr key).1 = (r.editAll before).attr? key) ∧
      (∀ before e after, edits = before ++ e :: after →
        e.apply (r.editAll before) = { r.editAll before with
          args := (r.editAll before).args.filterMap e.onArg? ++
            (e.newArg? ((r.editAll before).attr? e.key)).toList }) ∧
      (r.editAll edits).args.filter (untouched edits) = r.args.filter (untouched edits) ∧
      r.editAll edits = { r with
        args := r.args.filterMap (keptArg? edits) ++ r.lateArgs edits } := by
  have huntouched : ∀ e ∈ edits, ∀ a, isArgOf e.key a = true → untouched edits a = false := by
    intro e he a ha
    rw [untouched, List.all_eq_false]
    exact ⟨e, he, by simp [ha]⟩
  refine ⟨h.editAll edits, attr?_editAll h edits, fun before key _ _ => ?_,
    fun before e _ _ => apply_eq (h.editAll before) e, filter_args_editAll h huntouched,
    editAll_eq h edits⟩
  rw [takeAttr_eq]

/-- A library with an argument that is no attribute. -/
def macroLibrary : Rule where
  kind := "go_library"
  args := [.keyword "name" (.string "lib" {}), .literal "REST" {},
    .keyValue (.literal "srcs" {}) (.literal "SRCS" {}) { before := [⟨"# sorted"⟩] },
    .keyword "deps" (.literal "DEPS" {})]
  forceCompact := true

/-- Edits that set an attribute in place, add one twice, and move one to the end. -/
def macroEdits : List AttrEdit :=
  [.set "cgo" (.literal "False" {}), .erase "deps", .set "srcs" (.literal "GO_SRCS" {}),
    .set "deps" (.literal "GO_DEPS" {}), .erase "library", .set "cgo" (.literal "True" {})]

theorem macroLibrary_edited :
    macroLibrary.DistinctAttrs ∧
      (macroLibrary.editAll macroEdits).attr? "cgo" = some (.literal "True" {}) ∧
      ((macroLibrary.editAll (macroEdits.take 1)).takeAttr "deps").1 =
        some (.literal "DEPS" {}) ∧
      macroLibrary.editAll macroEdits = { macroLibrary with
        args := [.keyword "name" (.string "lib" {}), .literal "REST" {},
          .keyValue (.literal "srcs" {}) (.literal "GO_SRCS" {}) { before := [⟨"# sorted"⟩] },
          .keyword "cgo" (.literal "True" {}), .keyword "deps" (.literal "GO_DEPS" {})] } := by
  have hdistinct : macroLibrary.DistinctAttrs := by decide
  obtain ⟨-, hattr, htaken, -, -, hrule⟩ := editAll_orderedMap hdistinct macroEdits
  refine ⟨hdistinct, ?_, ?_, ?_⟩
  · rw [hattr]
    rfl
  · rw [htaken (macroEdits.take 1) "deps" (macroEdits.drop 2) rfl]
    rfl
  · rw [hrule]
    rfl

end Rule

end BuildFix
