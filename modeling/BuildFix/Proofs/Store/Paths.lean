import BuildFix.Store.Trees

/-!
# The parts of a path

A name has no slash, so it is one part of a path (`segments_name`), and a list of names
joined by slashes has the names as its parts (`segments_intercalate`).  A path with
another behind it has the parts of both (`segments_join`).  The exception is a slash at
the end of the first path.  It makes an empty part there, and the join has none.

Of the components nothing gets lost: joining a name adds the name as a component
(`components_join_name`).
-/

namespace BuildFix

/-! ## Names -/

/-- A text that can name a file or a directory. -/
structure IsName (name : String) : Prop where
  /-- It is not empty. -/
  ne_empty : name ≠ ""
  /-- It is not the directory itself. -/
  ne_here : name ≠ "."
  /-- It is not the directory above. -/
  ne_up : name ≠ ".."
  /-- It has no slash. -/
  noSlash : '/' ∉ name.toList
  /-- It has no NUL character. -/
  noNul : '\x00' ∉ name.toList
  /-- It is not too long. -/
  size_le : name.utf8ByteSize ≤ Store.nameLimit

theorem isName_iff {name : String} : IsName name ↔
    (name ≠ "" ∧ name ≠ "." ∧ name ≠ "..") ∧
      ('/' ∉ name.toList ∧ '\x00' ∉ name.toList) ∧ name.utf8ByteSize ≤ Store.nameLimit :=
  ⟨fun h => ⟨⟨h.ne_empty, h.ne_here, h.ne_up⟩, ⟨h.noSlash, h.noNul⟩, h.size_le⟩,
    fun h => ⟨h.1.1, h.1.2.1, h.1.2.2, h.2.1.1, h.2.1.2, h.2.2⟩⟩

instance (name : String) : Decidable (IsName name) := decidable_of_iff _ isName_iff.symm

namespace Path

variable {p q : Path} {name segment : String} {names : List String}

theorem component?_eq_name (h : IsName name) : component? name = some (.name name) := by
  simp [component?, h.ne_empty, h.ne_here, h.ne_up]

/-! ## Splitting at slashes -/

theorem splitSlash_ne_nil (cs : List Char) : splitSlash cs ≠ [] := by
  cases cs with
  | nil => exact List.cons_ne_nil _ _
  | cons c cs =>
      rw [splitSlash]
      split
      · exact List.cons_ne_nil _ _
      · split <;> exact List.cons_ne_nil _ _

theorem splitSlash_of_notMem {cs : List Char} (h : '/' ∉ cs) : splitSlash cs = [cs] := by
  induction cs with
  | nil => rfl
  | cons c cs ih =>
      rw [List.mem_cons, not_or] at h
      rw [splitSlash, if_neg (Ne.symm h.1), ih h.2]

theorem splitSlash_append (as bs : List Char) :
    splitSlash (as ++ '/' :: bs) = splitSlash as ++ splitSlash bs := by
  induction as with
  | nil => simp [splitSlash]
  | cons a as ih =>
      rw [List.cons_append, splitSlash, splitSlash, ih]
      split
      · rfl
      · cases h : splitSlash as with
        | nil => exact absurd h (splitSlash_ne_nil as)
        | cons s ss => rfl

/-- A part has no slash and only characters of the text. -/
theorem of_mem_splitSlash {cs s : List Char} (h : s ∈ splitSlash cs) : '/' ∉ s ∧ s ⊆ cs := by
  induction cs generalizing s with
  | nil =>
      rw [List.mem_singleton.1 h]
      exact ⟨List.not_mem_nil, List.Subset.refl _⟩
  | cons c cs ih =>
      rw [splitSlash] at h
      split at h
      next =>
        rcases List.mem_cons.1 h with rfl | h
        · exact ⟨List.not_mem_nil, List.nil_subset _⟩
        · exact ⟨(ih h).1, List.subset_cons_of_subset c (ih h).2⟩
      next hc =>
        split at h
        next hnil => exact absurd hnil (splitSlash_ne_nil cs)
        next t ts hcons =>
          have hsub {u : List Char} (hu : u ∈ t :: ts) : '/' ∉ u ∧ u ⊆ cs := ih (hcons ▸ hu)
          rcases List.mem_cons.1 h with rfl | h
          · have ht := hsub List.mem_cons_self
            exact ⟨fun hmem => (List.mem_cons.1 hmem).elim (fun hs => hc hs.symm) ht.1,
              List.cons_subset_cons c ht.2⟩
          · have ht := hsub (List.mem_cons_of_mem t h)
            exact ⟨ht.1, List.subset_cons_of_subset c ht.2⟩

/-! ## Segments -/

theorem segments_ne_nil (p : Path) : p.segments ≠ [] := by
  rw [segments, Ne, List.map_eq_nil_iff]
  exact splitSlash_ne_nil _

theorem segments_name (h : '/' ∉ name.toList) : (Path.mk name).segments = [name] := by
  rw [segments, splitSlash_of_notMem h, List.map_singleton, String.ofList_toList]

theorem segments_slash (a b : String) :
    (Path.mk (a ++ "/" ++ b)).segments = (Path.mk a).segments ++ (Path.mk b).segments := by
  simp only [segments, String.toList_append, List.append_assoc, ← List.map_append]
  exact congrArg _ (splitSlash_append a.toList b.toList)

theorem segments_intercalate (hne : names ≠ []) (h : ∀ name ∈ names, '/' ∉ name.toList) :
    (Path.mk ("/".intercalate names)).segments = names := by
  induction names with
  | nil => exact absurd rfl hne
  | cons name names ih =>
      rw [List.forall_mem_cons] at h
      cases names with
      | nil => rw [String.intercalate_singleton, segments_name h.1]
      | cons name' names =>
          rw [String.intercalate_cons_cons, segments_slash, segments_name h.1,
            ih (List.cons_ne_nil _ _) h.2, List.singleton_append]

/-- A path that is made of names joined by slashes. -/
structure MadeOf (p : Path) (names : List String) : Prop where
  /-- There is a name. -/
  ne_nil : names ≠ []
  /-- The names are names. -/
  isName : ∀ name ∈ names, IsName name
  /-- They are joined by slashes. -/
  text_eq : p.text = "/".intercalate names

theorem madeOf_name (h : IsName name) : (Path.mk name).MadeOf [name] where
  ne_nil := List.cons_ne_nil _ _
  isName x hx := by rwa [List.mem_singleton.1 hx]
  text_eq := String.intercalate_singleton.symm

theorem MadeOf.segments_eq (h : p.MadeOf names) : p.segments = names := by
  obtain ⟨text⟩ := p
  cases h.text_eq
  exact segments_intercalate h.ne_nil fun name hname => (h.isName name hname).noSlash

/-- The names that a path is made of are determined, and so is the path. -/
theorem MadeOf.inj {names' : List String} (h : p.MadeOf names) (h' : q.MadeOf names') :
    names = names' ↔ p = q := by
  constructor
  · rintro rfl
    obtain ⟨text⟩ := p
    obtain ⟨text'⟩ := q
    cases h.text_eq
    cases h'.text_eq
    rfl
  · rintro rfl
    rw [← h.segments_eq, ← h'.segments_eq]

/-- A path that starts at the root has an empty part in front. -/
theorem segments_of_isAbsolute (h : p.isAbsolute = true) : ∃ ss, p.segments = "" :: ss := by
  obtain ⟨text⟩ := p
  simp only [isAbsolute, beq_iff_eq, List.head?_eq_some_iff] at h
  obtain ⟨cs, hcs⟩ := h
  exact ⟨(splitSlash cs).map String.ofList, by simp [segments, hcs, splitSlash]⟩

theorem MadeOf.isAbsolute_eq (h : p.MadeOf names) : p.isAbsolute = false := by
  rw [← Bool.not_eq_true]
  intro habs
  obtain ⟨ss, hss⟩ := segments_of_isAbsolute habs
  rw [h.segments_eq] at hss
  exact (h.isName "" (by rw [hss]; exact List.mem_cons_self)).ne_empty rfl

/-! ## Joining -/

/-- A path with another behind it starts where it did. -/
theorem isAbsolute_join (hq : q.isAbsolute = false) : (p.join q).isAbsolute = p.isAbsolute := by
  unfold join
  simp only [hq, Bool.false_or, decide_eq_true_eq]
  split
  next hp =>
    rw [hq]
    simp [isAbsolute, hp]
  next hp =>
    obtain ⟨c, cs, hcs⟩ := List.exists_cons_of_ne_nil (mt String.toList_eq_nil_iff.1 hp)
    split <;> simp [isAbsolute, String.toList_append, hcs]

/-- The parts of a join are those of both paths, but for the empty part that a slash
at the end of the first one makes. -/
theorem segments_join (hp : p.text ≠ "") (hq : q.isAbsolute = false) :
    (p.join q).segments = p.segments ++ q.segments ∨
      ∃ s ss, p.segments = s :: (ss ++ [""]) ∧ (p.join q).segments = s :: (ss ++ q.segments) := by
  unfold join
  simp only [hq, hp, Bool.false_or, decide_false, Bool.false_eq_true, if_false]
  split
  next hlast =>
    obtain ⟨cs, hcs⟩ := List.getLast?_eq_some_iff.1 hlast
    have htext : p.text = String.ofList cs ++ "/" := by
      rw [← String.ofList_toList (s := p.text), hcs, String.ofList_append]
    obtain ⟨s, ss, hss⟩ := List.exists_cons_of_ne_nil (segments_ne_nil ⟨String.ofList cs⟩)
    refine .inr ⟨s, ss, ?_, ?_⟩
    · have hslash := segments_slash (String.ofList cs) ""
      rw [String.append_empty, ← htext, hss] at hslash
      exact hslash
    · rw [htext, segments_slash, hss, List.cons_append]
  next => exact .inl (segments_slash _ _)

theorem components_of_segments {ss : List String} (h : p.segments = segment :: ss) :
    p.components = (if p.isAbsolute then [.root] else if segment = "." then [.here]
      else (component? segment).toList) ++ ss.filterMap component? := by
  rw [components, h]

/-- A name in the last part of a path is its last component. -/
theorem fileName?_of_segments {ss : List String} (h : p.segments = ss ++ [segment])
    (hc : component? segment = some (.name name)) : p.fileName? = some name := by
  have hlast : p.components.getLast? = some (.name name) := by
    cases ss with
    | nil =>
        have habs : ¬p.isAbsolute = true := by
          intro habs
          obtain ⟨ss, hss⟩ := segments_of_isAbsolute habs
          rw [hss] at h
          cases h
          cases hc
        have hhere : segment ≠ "." := by
          rintro rfl
          cases hc
        rw [components_of_segments h, if_neg habs, if_neg hhere, hc]
        rfl
    | cons s ss =>
        rw [List.cons_append] at h
        rw [components_of_segments h, List.filterMap_append, ← List.append_assoc]
        simp [hc]
  rw [fileName?, hlast]

/-- Joining a name adds it as a component. -/
theorem components_join_name (h : IsName name) :
    (p.join ⟨name⟩).components = p.components ++ [.name name] := by
  have habs := (madeOf_name h).isAbsolute_eq
  have hlast (ss : List String) :
      (ss ++ [name]).filterMap component? = ss.filterMap component? ++ [.name name] := by
    simp [component?_eq_name h]
  by_cases hp : p.text = ""
  · obtain ⟨text⟩ := p
    subst hp
    have hjoin : (Path.mk "").join ⟨name⟩ = ⟨name⟩ := by simp [join]
    rw [hjoin, components_of_segments (segments_name h.noSlash), habs,
      component?_eq_name h, if_neg Bool.false_ne_true, if_neg h.ne_here]
    rfl
  · have hjoin := segments_join hp habs
    rw [segments_name h.noSlash] at hjoin
    rcases hjoin with hjoin | ⟨s, ss, hp, hjoin⟩
    · obtain ⟨s, ss, hss⟩ := List.exists_cons_of_ne_nil p.segments_ne_nil
      rw [hss, List.cons_append] at hjoin
      rw [components_of_segments hjoin, components_of_segments hss, isAbsolute_join habs, hlast,
        List.append_assoc]
    · have hempty : (ss ++ [""]).filterMap component? = ss.filterMap component? := by
        simp [component?]
      rw [components_of_segments hjoin, components_of_segments hp, isAbsolute_join habs, hlast,
        hempty, List.append_assoc]

theorem components_below (h : ∀ name ∈ names, IsName name) :
    (p.below names).components = p.components ++ names.map .name := by
  induction names generalizing p with
  | nil => exact (List.append_nil _).symm
  | cons name names ih =>
      rw [List.forall_mem_cons] at h
      show ((p.join ⟨name⟩).below names).components = _
      rw [ih h.2, components_join_name h.1, List.append_assoc]
      rfl

end Path

end BuildFix
