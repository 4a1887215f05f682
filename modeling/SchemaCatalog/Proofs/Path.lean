import SchemaCatalog.Proofs.FileTree

/-!
# SchemaCatalog.Proofs.Path

Paths taken apart and put together.

A text splits at every slash in it (`splitAt_append`), and a text that ends where one of its parts
ends has the parts up to that one (`splitAt_take`). So the paths above a path are found one from
the other: above the next one stand those that are further above (`above_parent`). A name put
behind a directory is the last part of the whole (`fileName?_join`), and it leads to the place of
that name below wherever the directory leads (`leadsTo_join`).
-/

namespace SchemaCatalog.Path

/-! ## Parts between slashes -/

section Split

variable {start stop : Nat} {c : Char} {cs part : List Char}
  {others pre post : List (List Char × Nat)}

theorem splitAt_slash (start : Nat) (cs : List Char) :
    splitAt start ('/' :: cs) = ([], start) :: splitAt (start + 1) cs := by
  rw [splitAt, if_pos rfl]

theorem splitAt_of_ne (hc : c ≠ '/') (h : splitAt (start + 1) cs = (part, stop) :: others) :
    splitAt start (c :: cs) = (c :: part, stop) :: others := by
  rw [splitAt, if_neg hc, h]

theorem exists_splitAt (start : Nat) (cs : List Char) :
    ∃ part stop others, splitAt start cs = (part, stop) :: others := by
  induction cs generalizing start with
  | nil => exact ⟨_, _, _, rfl⟩
  | cons c cs ih =>
    by_cases hc : c = '/'
    · subst hc
      exact ⟨_, _, _, splitAt_slash start cs⟩
    · obtain ⟨part, stop, others, h⟩ := ih (start + 1)
      exact ⟨_, _, _, splitAt_of_ne hc h⟩

/-- A text splits at every slash in it. -/
theorem splitAt_append (start : Nat) (cs ds : List Char) :
    splitAt start (cs ++ '/' :: ds) = splitAt start cs ++ splitAt (start + cs.length + 1) ds := by
  induction cs generalizing start with
  | nil => exact splitAt_slash start ds
  | cons c cs ih =>
    have hnext := ih (start + 1)
    rw [Nat.add_assoc start, Nat.add_comm 1, ← Nat.add_assoc] at hnext
    by_cases hc : c = '/'
    · subst hc
      rw [List.cons_append, splitAt_slash, splitAt_slash, hnext, List.cons_append]
      rfl
    · obtain ⟨part, stop, others, h⟩ := exists_splitAt (start + 1) cs
      rw [h, List.cons_append] at hnext
      rw [List.cons_append, splitAt_of_ne hc hnext, splitAt_of_ne hc h, List.cons_append]
      rfl

theorem splitAt_of_not_mem (start : Nat) (h : '/' ∉ cs) :
    splitAt start cs = [(cs, start + cs.length)] := by
  induction cs generalizing start with
  | nil => rfl
  | cons c cs ih =>
    rw [List.mem_cons, not_or] at h
    rw [splitAt_of_ne (Ne.symm h.1) (ih (start + 1) h.2), List.length_cons]
    congr 2
    omega

theorem bounds_of_mem (h : (part, stop) ∈ splitAt start cs) :
    start + part.length ≤ stop ∧ stop ≤ start + cs.length := by
  induction cs generalizing start part with
  | nil =>
    rw [splitAt, List.mem_singleton] at h
    cases h
    simp
  | cons c cs ih =>
    rw [List.length_cons]
    by_cases hc : c = '/'
    · subst hc
      rw [splitAt_slash, List.mem_cons] at h
      rcases h with h | h
      · cases h
        exact ⟨Nat.le_refl _, by omega⟩
      · have := ih h
        omega
    · obtain ⟨first, end', others, hsplit⟩ := exists_splitAt (start + 1) cs
      rw [splitAt_of_ne hc hsplit, List.mem_cons] at h
      rcases h with h | h
      · cases h
        have := ih (by rw [hsplit]; exact List.mem_cons_self)
        rw [List.length_cons]
        omega
      · have := ih (by rw [hsplit]; exact List.mem_cons_of_mem _ h)
        omega

/-- A text that ends where one of its parts ends has the parts up to that one. -/
theorem splitAt_take (h : splitAt start cs = pre ++ (part, stop) :: post) :
    splitAt start (cs.take (stop - start)) = pre ++ [(part, stop)] := by
  induction cs generalizing start pre part with
  | nil =>
    rw [splitAt] at h
    cases pre with
    | nil =>
      cases h
      simp [splitAt]
    | cons first pre => simp at h
  | cons c cs ih =>
    -- A part that is not the first is a part of the rest, and ends in it.
    have htake : ∀ {pre part}, splitAt (start + 1) cs = pre ++ (part, stop) :: post →
        (c :: cs).take (stop - start) = c :: cs.take (stop - (start + 1)) := by
      intro pre part h
      have hstop := (bounds_of_mem (by rw [h]; exact List.mem_append_right _ List.mem_cons_self)).1
      rw [← List.take_succ_cons]
      congr 1
      omega
    by_cases hc : c = '/'
    · subst hc
      rw [splitAt_slash] at h
      cases pre with
      | nil =>
        cases h
        simp [splitAt]
      | cons first pre =>
        obtain ⟨rfl, hrest⟩ := List.cons.inj h
        rw [htake hrest, splitAt_slash, ih hrest]
        rfl
    · obtain ⟨first, end', others, hsplit⟩ := exists_splitAt (start + 1) cs
      rw [splitAt_of_ne hc hsplit] at h
      cases pre with
      | nil =>
        cases h
        have hrest : splitAt (start + 1) cs = [] ++ (first, stop) :: post := hsplit
        rw [htake hrest, splitAt_of_ne hc (ih hrest)]
        rfl
      | cons whole pre =>
        obtain ⟨rfl, rfl⟩ := List.cons.inj h
        have hrest : splitAt (start + 1) cs = ((first, end') :: pre) ++ (part, stop) :: post :=
          hsplit
        rw [htake hrest, splitAt_of_ne hc (ih hrest)]
        rfl

end Split

/-! ## Parts that count -/

/-- A part counts unless it is empty or a single point. -/
def counts (part : List Char × Nat) : Bool := part.1 ≠ [] && part.1 ≠ ['.']

/-- The parts that count; a single point does at the start. -/
def counted (all : List (List Char × Nat)) : List (List Char × Nat) :=
  match all with
  | (['.'], stop) :: rest => (['.'], stop) :: rest.filter counts
  | _ => all.filter counts

theorem parts_eq (p : Path) : p.parts = counted (splitAt 0 p.text.toList) := rfl

variable {p parent : Path} {name : String} {a : List Char × Nat}
  {all kept more : List (List Char × Nat)}

theorem counted_concat (hcounts : counts a = true) (all : List (List Char × Nat)) :
    counted (all ++ [a]) = counted all ++ [a] := by
  have hfilter : ∀ rest, (rest ++ [a]).filter counts = rest.filter counts ++ [a] := by
    simp [hcounts]
  cases all with
  | nil =>
    unfold counted
    split
    · rename_i heq
      cases heq
      cases hcounts
    · exact hfilter []
  | cons first rest =>
    unfold counted
    split
    · rename_i heq
      cases heq
      exact congrArg (_ :: ·) (hfilter rest)
    · rename_i hno
      split
      · rename_i heq
        cases heq
        exact (hno _ _ rfl).elim
      · exact hfilter (first :: rest)

theorem of_mem_counted (h : a ∈ counted all) : a.1 ≠ [] ∧ a ∈ all := by
  unfold counted at h
  split at h
  · rcases List.mem_cons.1 h with rfl | h
    · exact ⟨by simp, List.mem_cons_self⟩
    · obtain ⟨hmem, hcounts⟩ := List.mem_filter.1 h
      exact ⟨by simp [counts] at hcounts; exact hcounts.1, List.mem_cons_of_mem _ hmem⟩
  · obtain ⟨hmem, hcounts⟩ := List.mem_filter.1 h
    exact ⟨by simp [counts] at hcounts; exact hcounts.1, hmem⟩

theorem filter_eq_append_cons {α : Type} {test : α → Bool} {l kept more : List α} {a : α}
    (h : l.filter test = kept ++ a :: more) :
    ∃ pre post, l = pre ++ a :: post ∧ (pre ++ [a]).filter test = kept ++ [a] := by
  induction l generalizing kept with
  | nil => simp at h
  | cons x l ih =>
    cases htest : test x with
    | true =>
      rw [List.filter_cons_of_pos htest] at h
      cases kept with
      | nil =>
        cases h
        exact ⟨[], l, rfl, by simp [htest]⟩
      | cons k kept =>
        obtain ⟨rfl, hrest⟩ := List.cons.inj h
        obtain ⟨pre, post, rfl, hpre⟩ := ih hrest
        refine ⟨x :: pre, post, rfl, ?_⟩
        rw [List.cons_append, List.filter_cons_of_pos htest, hpre]
        rfl
    | false =>
      rw [List.filter_cons_of_neg (by simp [htest])] at h
      obtain ⟨pre, post, rfl, hpre⟩ := ih h
      refine ⟨x :: pre, post, rfl, ?_⟩
      rw [List.cons_append, List.filter_cons_of_neg (by simp [htest]), hpre]

theorem counted_eq_append_cons (h : counted all = kept ++ a :: more) :
    ∃ pre post, all = pre ++ a :: post ∧ counted (pre ++ [a]) = kept ++ [a] := by
  unfold counted at h
  split at h
  · rename_i stop rest
    cases kept with
    | nil =>
      cases h
      exact ⟨[], rest, rfl, rfl⟩
    | cons k kept =>
      obtain ⟨rfl, hrest⟩ := List.cons.inj h
      obtain ⟨pre, post, rfl, hpre⟩ := filter_eq_append_cons hrest
      exact ⟨(['.'], stop) :: pre, post, rfl, congrArg ((['.'], stop) :: ·) hpre⟩
  · rename_i hno
    obtain ⟨pre, post, rfl, hpre⟩ := filter_eq_append_cons h
    refine ⟨pre, post, rfl, ?_⟩
    unfold counted
    split
    · rename_i stop rest heq
      rw [List.append_cons, heq] at hno
      exact absurd rfl (hno stop _)
    · exact hpre

/-! ## The paths above -/

theorem isAbsolute_take {stop : Nat} (h : 0 < stop) :
    isAbsolute ⟨String.ofList (p.text.toList.take stop)⟩ = p.isAbsolute := by
  rw [isAbsolute, isAbsolute, String.toList_ofList]
  cases p.text.toList with
  | nil => simp
  | cons c cs =>
    obtain ⟨n, rfl⟩ := Nat.exists_eq_succ_of_ne_zero (Nat.ne_of_gt h)
    rfl

theorem stop_pos_of_mem (h : a ∈ p.parts) : 0 < a.2 := by
  rw [parts_eq] at h
  obtain ⟨hne, hmem⟩ := of_mem_counted h
  have hlow := (bounds_of_mem hmem).1
  have hlength := List.length_pos_iff.2 hne
  omega

theorem stop_le_of_mem_take {n : Nat}
    (h : a ∈ parts ⟨String.ofList (p.text.toList.take n)⟩) : a.2 ≤ n := by
  rw [parts_eq, String.toList_ofList] at h
  have hhigh := (bounds_of_mem (of_mem_counted h).2).2
  rw [List.length_take] at hhigh
  omega

/-- A path that is cut where one of its parts ends has the parts up to that one. -/
theorem parts_take (h : p.parts = kept ++ a :: more) :
    parts ⟨String.ofList (p.text.toList.take a.2)⟩ = kept ++ [a] := by
  rw [parts_eq] at h
  obtain ⟨pre, post, hall, hpre⟩ := counted_eq_append_cons h
  rw [parts_eq, String.toList_ofList, ← hpre, ← splitAt_take hall, Nat.sub_zero]

/-- The paths above the one that is next above a path are those that are further above it. -/
theorem above_parent {above : List Path} (h : p.above = parent :: above) :
    parent.above = above := by
  rw [Path.above] at h
  cases hparts : p.parts.reverse with
  | nil => simp [hparts] at h
  | cons last outer =>
    rw [hparts] at h
    cases outer with
    | nil =>
      obtain ⟨rfl, rfl⟩ := List.cons.inj h
      cases p.isAbsolute <;> rfl
    | cons part outer =>
      have hsplit : p.parts = outer.reverse ++ part :: [last] := by
        rw [← List.reverse_reverse p.parts, hparts]
        simp
      have hparent := parts_take hsplit
      have hstop : 0 < part.2 := stop_pos_of_mem (by rw [hsplit]; simp)
      have htake : ∀ further ∈ outer, (p.text.toList.take part.2).take further.2 =
          p.text.toList.take further.2 := by
        intro further hfurther
        have hle : further.2 ≤ part.2 :=
          stop_le_of_mem_take (by rw [hparent]; simp [hfurther])
        rw [List.take_take, Nat.min_eq_left hle]
      simp only [List.map_cons, List.cons_append, List.cons.injEq] at h
      obtain ⟨rfl, rfl⟩ := h
      rw [Path.above, hparent, List.reverse_append, List.reverse_reverse]
      simp only [List.reverse_cons, List.reverse_nil, List.nil_append, List.cons_append,
        String.toList_ofList, isAbsolute_take hstop]
      congr 1
      exact List.map_congr_left fun further hfurther => by rw [htake further hfurther]

/-! ## Names in directories -/

/-- A name of one part that goes down: no points, no slash. -/
structure IsName (name : String) : Prop where
  slash : '/' ∉ name.toList
  empty : name ≠ ""
  point : name ≠ "."
  points : name ≠ ".."

/-- A name in a directory stands behind a slash, which may be the last character of the
directory. -/
theorem join_cases (hname : IsName name) (dir : Path) :
    (dir.text = "" ∧ dir.join name = ⟨name⟩) ∨
    ∃ front, (dir.text.toList = front ∨ dir.text.toList = front ++ ['/']) ∧ dir.text ≠ "" ∧
      (dir.join name).text.toList = front ++ '/' :: name.toList := by
  have hhead : name.toList.head? ≠ some '/' := fun h => hname.slash (List.mem_of_mem_head? h)
  rw [join, if_neg hhead]
  split
  · rename_i hlast
    exact .inl ⟨by simpa using hlast, rfl⟩
  · rename_i hlast
    obtain ⟨front, hfront⟩ := List.getLast?_eq_some_iff.1 hlast
    refine .inr ⟨front, .inr hfront, by rintro h; simp [h] at hlast, ?_⟩
    simp [hfront]
  · rename_i hlast
    exact .inr ⟨_, .inl rfl, by rintro h; simp [h] at hlast, by simp⟩

/-- The last part of a name in a directory is the name. -/
theorem splitAt_join (hname : IsName name) (dir : Path) :
    ∃ before stop, splitAt 0 (dir.join name).text.toList = before ++ [(name.toList, stop)] := by
  rcases join_cases hname dir with ⟨_, hjoin⟩ | ⟨front, _, _, hjoin⟩
  · rw [hjoin]
    exact ⟨[], _, splitAt_of_not_mem 0 hname.slash⟩
  · rw [hjoin, splitAt_append, splitAt_of_not_mem _ hname.slash]
    exact ⟨_, _, rfl⟩

theorem fileName?_join (hname : IsName name) (dir : Path) :
    (dir.join name).fileName? = some name := by
  obtain ⟨before, stop, hsplit⟩ := splitAt_join hname dir
  have hempty : name.toList ≠ [] := fun h => hname.empty (String.toList_eq_nil_iff.1 h)
  have hpoint : name.toList ≠ ['.'] := fun h => hname.point (String.toList_injective h)
  have hcounts : counts (name.toList, stop) = true := by simp [counts, hempty, hpoint]
  have hpoints : name.toList ≠ ['.', '.'] := fun h => hname.points (String.toList_injective h)
  rw [fileName?, parts_eq, hsplit, counted_concat hcounts, List.getLast?_append]
  simp [hpoint, hpoints]

end SchemaCatalog.Path

namespace SchemaCatalog.FileTree

variable {t : FileTree} {cwd location : Location} {dir : Path} {name : String}

theorem base_join (hname : Path.IsName name) : base cwd (dir.join name) = base cwd dir := by
  have hhead : name.toList.head? ≠ some '/' := fun h => hname.slash (List.mem_of_mem_head? h)
  rw [base, base, Path.isAbsolute, Path.isAbsolute]
  rcases Path.join_cases hname dir with ⟨hdir, hjoin⟩ | ⟨front, hfront, hne, hjoin⟩
  · simp [hjoin, hdir, hhead]
  · rw [hjoin]
    rcases hfront with hfront | hfront
    · cases front with
      | nil => exact absurd (String.toList_eq_nil_iff.1 hfront) hne
      | cons c front => rw [hfront]; rfl
    · rw [hfront]
      cases front <;> rfl

theorem walk_name (hname : Path.IsName name) {place : Location} :
    t.walk place [name] = .ok location ↔
      t.entry? place = some .directory ∧ location = place ++ [name] := by
  rw [walk_cons_eq_ok, next, if_neg (by simp [hname.empty, hname.point]), if_neg hname.points, walk,
    Except.ok.injEq, eq_comm (a := location)]

/-- A name in a directory leads to the place below the directory. -/
theorem leadsTo_join (hname : Path.IsName name) : t.LeadsTo cwd (dir.join name) location ↔
    ∃ place, t.LeadsTo cwd dir place ∧ t.entry? place = some .directory ∧
      location = place ++ [name] := by
  have hstay : ∀ place goal, t.walk place [""] = .ok goal ↔
      t.entry? place = some .directory ∧ place = goal := by
    intro place goal
    rw [walk_cons_eq_ok, next, if_pos (.inl rfl), walk, Except.ok.injEq]
  rw [LeadsTo, base_join hname]
  simp only [LeadsTo]
  rcases Path.join_cases hname dir with ⟨hdir, hjoin⟩ | ⟨front, hfront, hne, hjoin⟩
  · have hnames : names dir = [""] := by simp [names, hdir, Path.splitAt]
    have hjoined : names (dir.join name) = [name] := by
      simp [names, hjoin, Path.splitAt_of_not_mem 0 hname.slash]
    rw [hnames, hjoined, walk_name hname]
    simp only [hstay]
    constructor
    · rintro ⟨hdirectory, rfl⟩
      exact ⟨_, ⟨hdirectory, rfl⟩, hdirectory, rfl⟩
    · rintro ⟨_, ⟨hdirectory, rfl⟩, _, rfl⟩
      exact ⟨hdirectory, rfl⟩
  · have hjoined : names (dir.join name) =
        ((Path.splitAt 0 front).map fun part => String.ofList part.1) ++ [name] := by
      rw [names, hjoin, Path.splitAt_append, Path.splitAt_of_not_mem _ hname.slash]
      simp
    rw [hjoined, walk_append_eq_ok]
    simp only [walk_name hname]
    rcases hfront with hfront | hfront
    · rw [names, hfront]
    · have hnames : names dir =
          ((Path.splitAt 0 front).map fun part => String.ofList part.1) ++ [""] := by
        rw [names, hfront, Path.splitAt_append]
        simp [Path.splitAt]
      rw [hnames]
      simp only [walk_append_eq_ok, hstay]
      constructor
      · rintro ⟨stop, hstop, hdirectory, rfl⟩
        exact ⟨stop, ⟨stop, hstop, hdirectory, rfl⟩, hdirectory, rfl⟩
      · rintro ⟨_, ⟨stop, hstop, hdirectory, rfl⟩, _, rfl⟩
        exact ⟨stop, hstop, hdirectory, rfl⟩

end SchemaCatalog.FileTree
