import SchemaCatalog.Proofs.Json.WrittenLiterals

/-!
# SchemaCatalog.Proofs.Json.Agreement

The reader and the grammar agree.

What the reader accepts is split at the places where one rule hands on to the next, by induction on
the steps (`all_sound`). What the grammar derives is read, by induction on the derivation
(`returns_of_written`, with one lemma for each rule): blanks are skipped wherever a rule may have
them, and only a numeral has to be told where it ends. So the grammar gives every text one value at
most, and the reader gives that one (`denotes_iff`).
-/

namespace SchemaCatalog.Json

namespace Reader

theorem exists_blanks (cs : List Char) :
    ∃ blanks, blanks.all isBlank = true ∧ cs = blanks ++ skip cs :=
  ⟨cs.takeWhile isBlank, List.all_takeWhile, List.takeWhile_append_dropWhile.symm⟩

theorem skip_cons {c : Char} {rest : List Char} (hc : isBlank c = false) :
    skip (c :: rest) = c :: rest :=
  skip_of_starts ⟨c, rest, rfl, hc⟩

/-! ## What is read is written -/

def ValuesSound (steps : Nat) : Prop :=
  ∀ cs j rest, value steps cs = some (j, rest) →
    ∃ blanks text, blanks.all isBlank = true ∧ Written (.value j) text ∧
      cs = blanks ++ (text ++ rest)

def ItemsSound (steps : Nat) : Prop :=
  ∀ cs list rest, items steps cs = some (list, rest) →
    ∃ text, Written (.items list) text ∧ cs = text ++ ']' :: rest

def MembersSound (steps : Nat) : Prop :=
  ∀ cs list rest, members steps cs = some (list, rest) →
    ∃ text, Written (.members list) text ∧ cs = text ++ '\x7d' :: rest

/-- A value with the blanks behind it. -/
theorem ValuesSound.element {steps : Nat} (h : ValuesSound steps) {cs rest : List Char} {j : Json}
    (hread : value steps cs = some (j, rest)) :
    ∃ text, Written (.element j) text ∧ cs = text ++ skip rest := by
  obtain ⟨before, text, hbefore, htext, hcs⟩ := h cs j rest hread
  obtain ⟨after, hafter, hrest⟩ := exists_blanks rest
  refine ⟨_, .element hbefore htext hafter, ?_⟩
  rw [hcs, List.append_assoc, List.append_assoc, ← hrest]

theorem itemsSound_succ {steps : Nat} (hvalue : ValuesSound steps) (hitems : ItemsSound steps) :
    ItemsSound (steps + 1) := by
  intro cs list rest h
  rw [items] at h
  split at h
  · cases h
  · rename_i item rest₁ hitem
    obtain ⟨text, htext, hcs⟩ := hvalue.element hitem
    split at h
    · rename_i rest₂ hcomma
      obtain ⟨⟨others, rest₃⟩, hothers, heq⟩ := Option.map_eq_some_iff.1 h
      cases heq
      obtain ⟨more, hmore, rfl⟩ := hitems _ _ _ hothers
      refine ⟨_, .nextItem htext hmore, ?_⟩
      rw [hcs, hcomma]
      simp
    · rename_i rest₂ hclose
      cases h
      exact ⟨_, .lastItem htext, by rw [hcs, hclose]⟩
    · cases h

theorem membersSound_succ {steps : Nat} (hvalue : ValuesSound steps)
    (hmembers : MembersSound steps) : MembersSound (steps + 1) := by
  intro cs list rest h
  obtain ⟨before, hbefore, hcs⟩ := exists_blanks cs
  rw [members] at h
  split at h
  case h_2 => cases h
  rename_i rest₁ hquote
  split at h
  · cases h
  rename_i key rest₂ hkey
  obtain ⟨name, hname, hsplit⟩ := written_of_string hkey
  obtain ⟨after, hafter, hrest₂⟩ := exists_blanks rest₂
  split at h
  case h_2 => cases h
  rename_i rest₃ hcolon
  split at h
  · cases h
  rename_i item rest₄ hitem
  obtain ⟨text, htext, rfl⟩ := hvalue.element hitem
  have hmember := Written.member hbefore hname hafter htext
  split at h
  · rename_i rest₅ hcomma
    obtain ⟨⟨others, rest₆⟩, hothers, heq⟩ := Option.map_eq_some_iff.1 h
    cases heq
    obtain ⟨more, hmore, rfl⟩ := hmembers _ _ _ hothers
    refine ⟨_, .nextMember hmember hmore, ?_⟩
    rw [hcs, hquote, hsplit, hrest₂, hcolon, hcomma]
    simp
  · rename_i rest₅ hclose
    cases h
    refine ⟨_, .lastMember hmember, ?_⟩
    rw [hcs, hquote, hsplit, hrest₂, hcolon, hclose]
    simp
  · cases h

theorem valuesSound_succ {steps : Nat} (hitems : ItemsSound steps)
    (hmembers : MembersSound steps) : ValuesSound (steps + 1) := by
  intro cs j rest h
  suffices hskip : ∃ text, Written (.value j) text ∧ skip cs = text ++ rest by
    obtain ⟨blanks, hblanks, hcs⟩ := exists_blanks cs
    obtain ⟨text, htext, hsplit⟩ := hskip
    exact ⟨blanks, text, hblanks, htext, by rw [← hsplit, ← hcs]⟩
  rw [value] at h
  split at h
  case h_1 hnull =>
    cases h
    exact ⟨_, .null, hnull⟩
  case h_2 htrue =>
    cases h
    exact ⟨_, .yes, htrue⟩
  case h_3 hfalse =>
    cases h
    exact ⟨_, .no, hfalse⟩
  case h_4 rest₁ hquote =>
    obtain ⟨⟨s, rest₂⟩, hstring, heq⟩ := Option.map_eq_some_iff.1 h
    cases heq
    obtain ⟨text, htext, hsplit⟩ := written_of_string hstring
    exact ⟨text, .string htext, by rw [hquote, hsplit]⟩
  case h_5 rest₁ hopen =>
    obtain ⟨blanks, hblanks, hrest₁⟩ := exists_blanks rest₁
    split at h
    · rename_i rest₂ hclose
      cases h
      exact ⟨_, .noItems hblanks, by rw [hopen, hrest₁, hclose]; simp⟩
    · obtain ⟨⟨list, rest₂⟩, hlist, heq⟩ := Option.map_eq_some_iff.1 h
      cases heq
      obtain ⟨text, htext, hsplit⟩ := hitems _ _ _ hlist
      exact ⟨_, .array (htext.pad_items hblanks), by rw [hopen, hrest₁, hsplit]; simp⟩
  case h_6 rest₁ hopen =>
    obtain ⟨blanks, hblanks, hrest₁⟩ := exists_blanks rest₁
    split at h
    · rename_i rest₂ hclose
      cases h
      exact ⟨_, .noMembers hblanks, by rw [hopen, hrest₁, hclose]; simp⟩
    · obtain ⟨⟨list, rest₂⟩, hlist, heq⟩ := Option.map_eq_some_iff.1 h
      cases heq
      obtain ⟨text, htext, hsplit⟩ := hmembers _ _ _ hlist
      exact ⟨_, .object (htext.pad_members hblanks), by rw [hopen, hrest₁, hsplit]; simp⟩
  case h_7 =>
    obtain ⟨⟨n, rest₁⟩, hnumeral, heq⟩ := Option.map_eq_some_iff.1 h
    cases heq
    obtain ⟨text, htext, hsplit⟩ := written_of_numeral hnumeral
    exact ⟨text, .number htext, hsplit⟩

theorem all_sound (steps : Nat) : ValuesSound steps ∧ ItemsSound steps ∧ MembersSound steps := by
  induction steps with
  | zero =>
    refine ⟨?_, ?_, ?_⟩
    · intro cs j rest h
      rw [value] at h
      cases h
    · intro cs list rest h
      rw [items] at h
      cases h
    · intro cs list rest h
      rw [members] at h
      cases h
  | succ steps ih =>
    obtain ⟨hvalues, hitems, hmembers⟩ := ih
    exact ⟨valuesSound_succ hitems hmembers, itemsSound_succ hvalues hitems,
      membersSound_succ hvalues hmembers⟩

/-! ## What is written is read -/

theorem items_close (steps : Nat) (rest : List Char) : items steps (']' :: rest) = none := by
  cases steps with
  | zero => rw [items]
  | succ steps =>
    cases steps with
    | zero => rw [items, value]
    | succ steps =>
      rw [items, value, skip_cons rfl]
      rfl

theorem members_close (steps : Nat) (rest : List Char) : members steps ('\x7d' :: rest) = none := by
  cases steps with
  | zero => rw [members]
  | succ steps =>
    rw [members, skip_cons rfl]
    rfl

/-- Items that are read are not taken for the closing bracket. -/
theorem value_of_items {steps : Nat} {cs rest : List Char} {list : List Json}
    (h : items steps cs = some (list, rest)) :
    value (steps + 1) ('[' :: cs) = some (.array list, rest) := by
  rw [value, skip_cons rfl]
  simp only
  rw [← items_skip] at h
  split
  · rename_i hclose
    rw [hclose, items_close] at h
    cases h
  · rw [h, Option.map_some]

theorem value_of_members {steps : Nat} {cs rest : List Char} {list : List (Option String × Json)}
    (h : members steps cs = some (list, rest)) :
    value (steps + 1) ('\x7b' :: cs) = some (.object list, rest) := by
  rw [value, skip_cons rfl]
  simp only
  rw [← members_skip] at h
  split
  · rename_i hclose
    rw [hclose, members_close] at h
    cases h
  · rw [h, Option.map_some]

/-- The reader gives a phrase back that is written so, whatever follows it. Of a value with blanks
behind it the reader leaves the blanks, and what it does with a member depends on what follows. -/
def Returns : Phrase → List Char → Prop
  | .value j, text => ∀ steps tail, 2 * text.length ≤ steps → Closes tail →
      value steps (text ++ tail) = some (j, tail)
  | .element j, text => ∀ steps tail, 2 * text.length ≤ steps → Closes tail →
      ∃ rest, value steps (text ++ tail) = some (j, rest) ∧ skip rest = skip tail
  | .items list, text => ∀ steps tail, 2 * text.length + 1 ≤ steps →
      items steps (text ++ ']' :: tail) = some (list, tail)
  | .member key j, text => ∀ steps tail, 2 * text.length ≤ steps → Closes tail →
      members (steps + 1) (text ++ tail) =
        match skip tail with
        | ',' :: rest => (members steps rest).map fun r => ((key, j) :: r.1, r.2)
        | '\x7d' :: rest => some ([(key, j)], rest)
        | _ => none
  | .members list, text => ∀ steps tail, 2 * text.length + 1 ≤ steps →
      members steps (text ++ '\x7d' :: tail) = some (list, tail)

theorem exists_steps {n steps : Nat} (h : 2 * (n + 1) ≤ steps) :
    ∃ steps', steps = steps' + 1 ∧ 2 * n + 1 ≤ steps' := by
  obtain ⟨steps', rfl⟩ := Nat.exists_eq_add_of_le' (Nat.le_trans (by omega : 1 ≤ 2 * (n + 1)) h)
  exact ⟨steps', rfl, by omega⟩

/-! ### Rules for values -/

theorem returns_number {n : Numeral} {cs : List Char} (h : WrittenNumeral n cs) :
    Returns (.value (.number n)) cs := by
  intro steps tail hsteps htail
  obtain ⟨c, rest, rfl, _⟩ := numeral_starts_of_written h
  obtain ⟨steps, rfl, _⟩ := exists_steps hsteps
  exact value_of_numeral h htail

theorem returns_string {s : Option String} {cs : List Char} (h : WrittenString s cs) :
    Returns (.value (.string s)) cs := by
  intro steps tail hsteps _
  obtain ⟨body, rfl, hread⟩ := string_of_written h tail
  obtain ⟨steps, rfl, _⟩ := exists_steps hsteps
  rw [List.cons_append, value, skip_cons rfl]
  simp only [hread, Option.map_some]

theorem returns_noItems {blanks : List Char} (hblanks : blanks.all isBlank = true) :
    Returns (.value (.array [])) ('[' :: (blanks ++ [']'])) := by
  intro steps tail hsteps _
  obtain ⟨steps, rfl, _⟩ := exists_steps hsteps
  rw [List.cons_append, value, skip_cons rfl]
  simp only [List.append_assoc, List.singleton_append, skip_blanks hblanks]
  rw [skip_cons rfl]
  rfl

theorem returns_noMembers {blanks : List Char} (hblanks : blanks.all isBlank = true) :
    Returns (.value (.object [])) ('\x7b' :: (blanks ++ ['\x7d'])) := by
  intro steps tail hsteps _
  obtain ⟨steps, rfl, _⟩ := exists_steps hsteps
  rw [List.cons_append, value, skip_cons rfl]
  simp only [List.append_assoc, List.singleton_append, skip_blanks hblanks]
  rw [skip_cons rfl]
  rfl

theorem returns_array {list : List Json} {cs : List Char} (h : Returns (.items list) cs) :
    Returns (.value (.array list)) ('[' :: (cs ++ [']'])) := by
  intro steps tail hsteps _
  obtain ⟨steps, rfl, hitems⟩ := exists_steps hsteps
  rw [List.cons_append, List.append_assoc]
  refine value_of_items (h steps tail ?_)
  rw [List.length_append] at hitems
  omega

theorem returns_object {list : List (Option String × Json)} {cs : List Char}
    (h : Returns (.members list) cs) :
    Returns (.value (.object list)) ('\x7b' :: (cs ++ ['\x7d'])) := by
  intro steps tail hsteps _
  obtain ⟨steps, rfl, hmembers⟩ := exists_steps hsteps
  rw [List.cons_append, List.append_assoc]
  refine value_of_members (h steps tail ?_)
  rw [List.length_append] at hmembers
  omega

theorem returns_element {j : Json} {before cs after : List Char}
    (hbefore : before.all isBlank = true) (h : Returns (.value j) cs)
    (hafter : after.all isBlank = true) : Returns (.element j) (before ++ (cs ++ after)) := by
  intro steps tail hsteps htail
  refine ⟨_, ?_, skip_blanks hafter⟩
  rw [List.append_assoc, List.append_assoc, ← value_skip, skip_blanks hbefore, value_skip]
  refine h steps _ ?_ (htail.behind hafter)
  simp only [List.length_append] at hsteps
  omega

/-! ### Rules for items and members -/

theorem returns_lastItem {j : Json} {cs : List Char} (h : Returns (.element j) cs) :
    Returns (.items [j]) cs := by
  intro steps tail hsteps
  obtain ⟨steps, rfl⟩ := Nat.exists_eq_add_of_le' (Nat.le_of_add_left_le hsteps)
  obtain ⟨rest, hread, hrest⟩ := h steps (']' :: tail) (by omega) (closes_cons (by decide))
  rw [items, hread]
  simp only
  rw [hrest, skip_cons rfl]
  rfl

theorem returns_nextItem {j : Json} {list : List Json} {cs others : List Char}
    (h : Returns (.element j) cs) (hothers : Returns (.items list) others) :
    Returns (.items (j :: list)) (cs ++ ',' :: others) := by
  intro steps tail hsteps
  obtain ⟨steps, rfl⟩ := Nat.exists_eq_add_of_le' (Nat.le_of_add_left_le hsteps)
  rw [List.length_append, List.length_cons] at hsteps
  obtain ⟨rest, hread, hrest⟩ :=
    h steps (',' :: (others ++ ']' :: tail)) (by omega) (closes_cons (by decide))
  rw [List.append_assoc, List.cons_append, items, hread]
  simp only
  rw [hrest, skip_cons rfl]
  simp only
  rw [hothers steps tail (by omega), Option.map_some]

theorem returns_member {key : Option String} {j : Json} {before name after cs : List Char}
    (hbefore : before.all isBlank = true) (hname : WrittenString key name)
    (hafter : after.all isBlank = true) (h : Returns (.element j) cs) :
    Returns (.member key j) (before ++ (name ++ (after ++ ':' :: cs))) := by
  intro steps tail hsteps htail
  simp only [List.length_append, List.length_cons] at hsteps
  obtain ⟨body, rfl, hkey⟩ := string_of_written hname (after ++ ':' :: (cs ++ tail))
  obtain ⟨rest, hread, hrest⟩ := h steps tail (by omega) htail
  rw [List.append_assoc, ← members_skip, skip_blanks hbefore, members_skip]
  simp only [List.cons_append, List.append_assoc]
  rw [members, skip_cons rfl]
  simp only [hkey]
  rw [skip_blanks hafter, skip_cons rfl]
  simp only [hread]
  exact hrest ▸ rfl

theorem returns_lastMember {key : Option String} {j : Json} {cs : List Char}
    (h : Returns (.member key j) cs) : Returns (.members [(key, j)]) cs := by
  intro steps tail hsteps
  obtain ⟨steps, rfl⟩ := Nat.exists_eq_add_of_le' (Nat.le_of_add_left_le hsteps)
  rw [h steps ('\x7d' :: tail) (by omega) (closes_cons (by decide)), skip_cons rfl]
  rfl

theorem returns_nextMember {key : Option String} {j : Json} {list : List (Option String × Json)}
    {cs others : List Char} (h : Returns (.member key j) cs)
    (hothers : Returns (.members list) others) :
    Returns (.members ((key, j) :: list)) (cs ++ ',' :: others) := by
  intro steps tail hsteps
  obtain ⟨steps, rfl⟩ := Nat.exists_eq_add_of_le' (Nat.le_of_add_left_le hsteps)
  rw [List.length_append, List.length_cons] at hsteps
  rw [List.append_assoc, List.cons_append,
    h steps (',' :: (others ++ '\x7d' :: tail)) (by omega) (closes_cons (by decide)), skip_cons rfl]
  simp only
  rw [hothers steps tail (by omega), Option.map_some]

theorem returns_of_written {p : Phrase} {text : List Char} (h : Written p text) :
    Returns p text := by
  induction h with
  | null | yes | no =>
    intro steps tail hsteps _
    obtain ⟨steps, rfl, _⟩ := exists_steps hsteps
    rw [List.cons_append, value, skip_cons rfl]
    rfl
  | number h => exact returns_number h
  | string h => exact returns_string h
  | noItems hblanks => exact returns_noItems hblanks
  | array _ ih => exact returns_array ih
  | noMembers hblanks => exact returns_noMembers hblanks
  | object _ ih => exact returns_object ih
  | element hbefore _ hafter ih => exact returns_element hbefore ih hafter
  | lastItem _ ih => exact returns_lastItem ih
  | nextItem _ _ ih ihothers => exact returns_nextItem ih ihothers
  | member hbefore hname hafter _ ih => exact returns_member hbefore hname hafter ih
  | lastMember _ ih => exact returns_lastMember ih
  | nextMember _ _ ih ihothers => exact returns_nextMember ih ihothers

end Reader

/-- The grammar and the reader agree on what a text denotes. -/
theorem denotes_iff {text : String} {j : Json} : Denotes text j ↔ read? text = some j := by
  rw [read?, readChars?]
  constructor
  · intro h
    obtain ⟨rest, hread, hrest⟩ := Reader.returns_of_written h (Reader.stepsFor text.toList) []
      (by rw [Reader.stepsFor]; omega) Reader.closes_nil
    rw [List.append_nil] at hread
    rw [hread]
    simp only
    rw [hrest]
    rfl
  · intro h
    split at h
    · rename_i j' rest hread
      split at h
      · rename_i hend
        cases h
        obtain ⟨cs, hcs, hsplit⟩ := (Reader.all_sound _).1.element hread
        rw [List.isEmpty_iff.1 hend, List.append_nil] at hsplit
        rw [Denotes, hsplit]
        exact hcs
      · cases h
    · cases h

end SchemaCatalog.Json
