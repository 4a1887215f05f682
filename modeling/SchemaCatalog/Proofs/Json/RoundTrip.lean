import SchemaCatalog.Proofs.Json.Literals

/-!
# SchemaCatalog.Proofs.Json.RoundTrip

Every value with whole numbers is read as it was written, in either layout.

The reader takes steps, and twice the length of the text it reads is enough of them, so the proof
is by induction on the steps and says the same of values, of items and of members
(`valuesReturn_succ`, `itemsReturn_succ`, `membersReturn_succ`). Blanks stand only where a rule
skips them.
-/

namespace SchemaCatalog.Json

/-- A value all of whose numbers are whole. -/
inductive Whole : Json → Prop
  | null : Whole .null
  | bool (value : Bool) : Whole (.bool value)
  | number (negative : Bool) (n : Nat) : Whole (.number ⟨negative, n, []⟩)
  | string (text : Option String) : Whole (.string text)
  | array {items : List Json} (h : ∀ item ∈ items, Whole item) : Whole (.array items)
  | object {members : List (Option String × Json)} (h : ∀ member ∈ members, Whole member.2) :
      Whole (.object members)

namespace Reader

/-! ## Blanks -/

/-- What starts with no blank. -/
def Starts (cs : List Char) : Prop := ∃ c rest, cs = c :: rest ∧ isBlank c = false

theorem skip_of_starts {cs : List Char} (h : Starts cs) : skip cs = cs := by
  obtain ⟨c, rest, rfl, hc⟩ := h
  rw [skip, List.dropWhile_cons_of_neg (by simp [hc])]

theorem skip_blanks {blanks cs : List Char} (h : blanks.all isBlank = true) :
    skip (blanks ++ cs) = skip cs := by
  rw [skip, skip, List.dropWhile_append_of_pos (List.all_eq_true.1 h)]

theorem all_gap (layout : Layout) (level : Nat) : (Writer.gap layout level).all isBlank = true := by
  cases layout with
  | compact => rfl
  | pretty =>
    have hspaces : ∀ c ∈ List.replicate (2 * level) ' ', isBlank c = true := by
      intro c hc
      rw [(List.mem_replicate.1 hc).2]
      rfl
    rw [Writer.gap, List.all_cons, List.all_eq_true.2 hspaces]
    rfl

/-! ## Values, items and members -/

/-- The reader gives every written value back in so many steps. -/
def ValuesReturn (steps : Nat) : Prop :=
  ∀ (j : Json) (layout : Layout) (level : Nat) (tail : List Char), Whole j → Closes tail →
    2 * (Writer.value layout level j).length ≤ steps →
    value steps (Writer.value layout level j ++ tail) = some (j, tail)

/-- The same of the items of an array. -/
def ItemsReturn (steps : Nat) : Prop :=
  ∀ (item : Json) (others : List Json) (layout : Layout) (level : Nat) (blanks tail : List Char),
    Whole item → (∀ other ∈ others, Whole other) → blanks.all isBlank = true →
    2 * ((Writer.value layout level item).length +
      (Writer.items layout level others).length) + 1 ≤ steps →
    items steps (Writer.value layout level item ++
      (Writer.items layout level others ++ (blanks ++ ']' :: tail))) = some (item :: others, tail)

/-- The same of the members of an object. -/
def MembersReturn (steps : Nat) : Prop :=
  ∀ (key : Option String) (item : Json) (others : List (Option String × Json)) (layout : Layout)
    (level : Nat) (blanks tail : List Char),
    Whole item → (∀ other ∈ others, Whole other.2) → blanks.all isBlank = true →
    2 * ((Writer.value layout level item).length +
      (Writer.members layout level others).length) + 1 ≤ steps →
    members steps (Writer.string key ++ (Writer.colon layout ++ (Writer.value layout level item ++
      (Writer.members layout level others ++ (blanks ++ '\x7d' :: tail))))) =
        some ((key, item) :: others, tail)

/-- Blanks close a number, as what comes behind them does. -/
theorem Closes.behind {blanks tail : List Char} (hblanks : blanks.all isBlank = true)
    (htail : Closes tail) : Closes (blanks ++ tail) := by
  cases blanks with
  | nil => exact htail
  | cons b blanks =>
    refine closes_cons ?_
    have hb := List.all_eq_true.1 hblanks b List.mem_cons_self
    simp only [isBlank, Bool.or_eq_true, decide_eq_true_eq] at hb
    rcases hb with ((rfl | rfl) | rfl) | rfl <;> decide

theorem closes_blanks {blanks tail : List Char} {c : Char} (hblanks : blanks.all isBlank = true)
    (hc : isDigit c = false ∧ c ≠ '.' ∧ c ≠ 'e' ∧ c ≠ 'E') : Closes (blanks ++ c :: tail) :=
  (closes_cons hc).behind hblanks

section Step

variable {steps : Nat} (hvalue : ValuesReturn steps) {item : Json} {layout : Layout} {level : Nat}
  {behind : List Char} (hitem : Whole item) (hbehind : Closes behind)
  (hsteps : 2 * (Writer.value layout level item).length ≤ steps)
include hvalue hitem hbehind hsteps

/-- One item, and then what follows it decides. -/
theorem items_step : items (steps + 1) (Writer.value layout level item ++ behind) =
    match skip behind with
    | ',' :: rest => (items steps rest).map fun r => (item :: r.1, r.2)
    | ']' :: rest => some ([item], rest)
    | _ => none := by
  rewrite [items, hvalue item layout level behind hitem hbehind hsteps]
  rfl

/-- One member, and then what follows it decides. -/
theorem members_step (key : Option String) :
    members (steps + 1)
      (Writer.string key ++ (Writer.colon layout ++ (Writer.value layout level item ++ behind))) =
    match skip behind with
    | ',' :: rest => (members steps rest).map fun r => ((key, item) :: r.1, r.2)
    | '\x7d' :: rest => some ([(key, item)], rest)
    | _ => none := by
  obtain ⟨blanks, hblanks, hcolon⟩ : ∃ blanks, blanks.all isBlank = true ∧
      Writer.colon layout = ':' :: blanks := by
    cases layout with
    | compact => exact ⟨[], rfl, rfl⟩
    | pretty => exact ⟨[' '], rfl, rfl⟩
  obtain ⟨body, hbody, hkey⟩ := string_written key
    (Writer.colon layout ++ (Writer.value layout level item ++ behind))
  have hread := hvalue item layout level behind hitem hbehind hsteps
  rw [← value_skip, ← skip_blanks hblanks, value_skip] at hread
  rw [hbody, List.cons_append, members, skip_of_starts ⟨_, _, rfl, rfl⟩]
  simp only [hkey]
  rw [hcolon, List.cons_append, skip_of_starts ⟨_, _, rfl, rfl⟩]
  simp only
  rewrite [hread]
  rfl

end Step

theorem itemsReturn_succ {steps : Nat} (hvalue : ValuesReturn steps) (hitems : ItemsReturn steps) :
    ItemsReturn (steps + 1) := by
  intro item others layout level blanks tail hitem hothers hblanks hsteps
  cases others with
  | nil =>
    rw [Writer.items, List.nil_append,
      items_step hvalue hitem (closes_blanks hblanks (by decide)) (by omega), skip_blanks hblanks,
      skip_of_starts ⟨_, _, rfl, rfl⟩]
    rfl
  | cons second others =>
    obtain ⟨hsecond, hothers⟩ := List.forall_mem_cons.1 hothers
    rw [Writer.items, List.length_cons, List.length_append, List.length_append] at hsteps
    have hrest := hitems second others layout level blanks tail hsecond hothers hblanks (by omega)
    rw [← items_skip, ← skip_blanks (all_gap layout level), items_skip] at hrest
    rw [Writer.items, List.cons_append, List.append_assoc, List.append_assoc,
      items_step hvalue hitem (closes_cons (by decide)) (by omega),
      skip_of_starts ⟨_, _, rfl, rfl⟩]
    simp only [hrest, Option.map_some]

theorem membersReturn_succ {steps : Nat} (hvalue : ValuesReturn steps)
    (hmembers : MembersReturn steps) : MembersReturn (steps + 1) := by
  intro key item others layout level blanks tail hitem hothers hblanks hsteps
  cases others with
  | nil =>
    rw [Writer.members, List.nil_append,
      members_step hvalue hitem (closes_blanks hblanks (by decide)) (by omega),
      skip_blanks hblanks, skip_of_starts ⟨_, _, rfl, rfl⟩]
    rfl
  | cons second others =>
    obtain ⟨key', second⟩ := second
    obtain ⟨hsecond, hothers⟩ := List.forall_mem_cons.1 hothers
    simp only [Writer.members, List.length_cons, List.length_append] at hsteps
    have hrest := hmembers key' second others layout level blanks tail hsecond hothers hblanks
      (by omega)
    rw [← members_skip, ← skip_blanks (all_gap layout level), members_skip] at hrest
    simp only [Writer.members, List.cons_append, List.append_assoc]
    rw [members_step hvalue hitem (closes_cons (by decide)) (by omega),
      skip_of_starts ⟨_, _, rfl, rfl⟩]
    simp only [hrest, Option.map_some]

theorem isBlank_of_numeral {c : Char} (hc : isDigit c = true ∨ c = '-') : isBlank c = false := by
  rw [Bool.eq_false_iff]
  intro hblank
  simp only [isBlank, Bool.or_eq_true, decide_eq_true_eq] at hblank
  rcases hblank with ((rfl | rfl) | rfl) | rfl <;> revert hc <;> decide

/-- A numeral is no other value. -/
theorem value_numeral (steps : Nat) {c : Char} {cs : List Char} (hc : isDigit c = true ∨ c = '-') :
    value (steps + 1) (c :: cs) = (numeral (c :: cs)).map fun r => (.number r.1, r.2) := by
  rw [value, skip_of_starts ⟨c, cs, rfl, isBlank_of_numeral hc⟩]
  split
  case h_7 => rfl
  all_goals
    rename_i heq
    cases heq
    exact absurd hc (by decide)

theorem value_string (steps : Nat) (s : Option String) (tail : List Char) :
    value (steps + 1) (Writer.string s ++ tail) = some (.string s, tail) := by
  obtain ⟨body, hbody, hread⟩ := string_written s tail
  rw [hbody, List.cons_append, value, skip_of_starts ⟨_, _, rfl, rfl⟩]
  simp only [hread, Option.map_some]

theorem numeral_starts (n : Json.Numeral) :
    ∃ c cs, Writer.numeral n = c :: cs ∧ (isDigit c = true ∨ c = '-') := by
  rw [Writer.numeral]
  cases n.negative with
  | true => exact ⟨'-', _, rfl, .inr rfl⟩
  | false =>
    rcases digits_cases n.whole with ⟨_, h⟩ | ⟨d, rest, h, _, hd⟩
    · exact ⟨'0', _, by rw [h]; rfl, .inl rfl⟩
    · exact ⟨d, _, by rw [h]; rfl, .inl hd⟩

/-- What a written value starts with is no blank and no closing bracket. -/
theorem value_starts (layout : Layout) (level : Nat) (j : Json) :
    ∃ c cs, Writer.value layout level j = c :: cs ∧ isBlank c = false ∧ c ≠ ']' := by
  cases j with
  | null => exact ⟨'n', _, rfl, rfl, by decide⟩
  | bool b => cases b <;> exact ⟨_, _, rfl, rfl, by decide⟩
  | number n =>
    obtain ⟨c, cs, hnumeral, hc⟩ := numeral_starts n
    refine ⟨c, cs, hnumeral, ?_, ?_⟩
    · exact isBlank_of_numeral hc
    · rintro rfl
      exact absurd hc (by decide)
  | string s =>
    obtain ⟨body, hbody, _⟩ := string_written s []
    exact ⟨'"', body, hbody, rfl, by decide⟩
  | array items => cases items <;> exact ⟨'[', _, rfl, rfl, by decide⟩
  | object members =>
    cases members with
    | nil => exact ⟨'\x7b', _, rfl, rfl, by decide⟩
    | cons first rest => exact ⟨'\x7b', _, rfl, rfl, by decide⟩

/-- Behind an opening bracket stands an item, when it is not the closing one. -/
theorem value_array (steps : Nat) {blanks cs : List Char} (hblanks : blanks.all isBlank = true)
    (hcs : ∃ c rest, cs = c :: rest ∧ isBlank c = false ∧ c ≠ ']') :
    value (steps + 1) ('[' :: (blanks ++ cs)) =
      (items steps cs).map fun r => (.array r.1, r.2) := by
  obtain ⟨c, rest, rfl, hblank, hc⟩ := hcs
  rw [value, skip_of_starts ⟨_, _, rfl, rfl⟩]
  simp only
  rw [skip_blanks hblanks, skip_of_starts ⟨c, rest, rfl, hblank⟩]
  split
  · rename_i heq
    cases heq
    exact absurd rfl hc
  · rfl

theorem value_object (steps : Nat) {blanks cs : List Char} (hblanks : blanks.all isBlank = true) :
    value (steps + 1) ('\x7b' :: (blanks ++ '"' :: cs)) =
      (members steps ('"' :: cs)).map fun r => (.object r.1, r.2) := by
  rw [value, skip_of_starts ⟨_, _, rfl, rfl⟩]
  simp only
  rw [skip_blanks hblanks, skip_of_starts ⟨_, _, rfl, rfl⟩]
  rfl

theorem array_returns {steps : Nat} (hitems : ItemsReturn steps) {list : List Json}
    (h : ∀ item ∈ list, Whole item) (layout : Layout) (level : Nat) (tail : List Char)
    (hsteps : 2 * (Writer.value layout level (.array list)).length ≤ steps + 1) :
    value (steps + 1) (Writer.value layout level (.array list) ++ tail) =
      some (.array list, tail) := by
  cases list with
  | nil =>
    rw [Writer.value, List.cons_append, value, skip_of_starts ⟨_, _, rfl, rfl⟩]
    rfl
  | cons first others =>
    obtain ⟨hfirst, hothers⟩ := List.forall_mem_cons.1 h
    simp only [Writer.value, List.length_cons, List.length_append] at hsteps
    have hread := hitems first others layout (level + 1) (Writer.gap layout level) tail hfirst
      hothers (all_gap layout level) (by omega)
    obtain ⟨c, cs, hstart, hc⟩ := value_starts layout (level + 1) first
    simp only [Writer.value, List.cons_append, List.append_assoc, List.nil_append]
    rw [value_array steps (all_gap layout (level + 1)) ⟨c, _, by rw [hstart, List.cons_append], hc⟩,
      hread]
    rfl

theorem object_returns {steps : Nat} (hmembers : MembersReturn steps)
    {list : List (Option String × Json)} (h : ∀ member ∈ list, Whole member.2) (layout : Layout)
    (level : Nat) (tail : List Char)
    (hsteps : 2 * (Writer.value layout level (.object list)).length ≤ steps + 1) :
    value (steps + 1) (Writer.value layout level (.object list) ++ tail) =
      some (.object list, tail) := by
  cases list with
  | nil =>
    rw [Writer.value, List.cons_append, value, skip_of_starts ⟨_, _, rfl, rfl⟩]
    rfl
  | cons first others =>
    obtain ⟨key, first⟩ := first
    obtain ⟨hfirst, hothers⟩ := List.forall_mem_cons.1 h
    simp only [Writer.value, List.length_cons, List.length_append] at hsteps
    have hread := hmembers key first others layout (level + 1) (Writer.gap layout level) tail
      hfirst hothers (all_gap layout level) (by omega)
    obtain ⟨body, hbody, _⟩ := string_written key []
    simp only [Writer.value, hbody, List.cons_append, List.append_assoc, List.nil_append]
      at hread ⊢
    rw [value_object steps (all_gap layout (level + 1)), hread]
    rfl

theorem valuesReturn_succ {steps : Nat} (hitems : ItemsReturn steps)
    (hmembers : MembersReturn steps) : ValuesReturn (steps + 1) := by
  intro j layout level tail hj htail hsteps
  cases hj with
  | null =>
    rw [Writer.value, List.cons_append, value, skip_of_starts ⟨_, _, rfl, rfl⟩]
    rfl
  | bool b =>
    cases b with
    | true =>
      rw [Writer.value, List.cons_append, value, skip_of_starts ⟨_, _, rfl, rfl⟩]
      rfl
    | false =>
      rw [Writer.value, List.cons_append, value, skip_of_starts ⟨_, _, rfl, rfl⟩]
      rfl
  | number negative n =>
    obtain ⟨c, cs, hnumeral, hc⟩ := numeral_starts ⟨negative, n, []⟩
    have hread := numeral_written negative n htail
    rw [Writer.value]
    rw [hnumeral, List.cons_append] at hread ⊢
    rw [value_numeral steps hc, hread]
    rfl
  | string s =>
    rw [Writer.value]
    exact value_string steps s tail
  | array h => exact array_returns hitems h layout level tail hsteps
  | object h => exact object_returns hmembers h layout level tail hsteps

theorem all_return (steps : Nat) :
    ValuesReturn steps ∧ ItemsReturn steps ∧ MembersReturn steps := by
  induction steps with
  | zero =>
    refine ⟨?_, ?_, ?_⟩
    · intro j layout level tail _ _ hsteps
      obtain ⟨c, cs, hstart, _⟩ := value_starts layout level j
      rw [hstart, List.length_cons] at hsteps
      omega
    · intro item others layout level blanks tail _ _ _ hsteps
      omega
    · intro key item others layout level blanks tail _ _ _ hsteps
      omega
  | succ steps ih =>
    obtain ⟨hvalues, hitems, hmembers⟩ := ih
    exact ⟨valuesReturn_succ hitems hmembers, itemsReturn_succ hvalues hitems,
      membersReturn_succ hvalues hmembers⟩

end Reader

/-- A value with whole numbers is read as it was written. -/
theorem read?_render (layout : Layout) {j : Json} (h : Whole j) :
    read? (j.render layout) = some j := by
  have hread := (Reader.all_return (Reader.stepsFor (j.chars layout))).1 j layout 0 [] h
    Reader.closes_nil (by rw [Reader.stepsFor, chars]; omega)
  rw [List.append_nil] at hread
  rw [read?, render, String.toList_ofList, readChars?, chars]
  rw [chars] at hread
  rw [hread]
  rfl

end SchemaCatalog.Json
