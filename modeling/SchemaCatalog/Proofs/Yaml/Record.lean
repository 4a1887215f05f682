import SchemaCatalog.Proofs.Yaml.FlowMapping
import SchemaCatalog.Yaml.Node.Reader

/-!
# SchemaCatalog.Proofs.Yaml.Record

A JSON object of texts and numbers as a YAML document.

The grammar takes one member after the other from the tokens (`reads_members`), so the document is
a mapping with an entry for every member, in order. All of them count when no two have the same
key, since a key in quotes is never a merge key (`entries?_members`).
-/

namespace SchemaCatalog.Yaml

/-- The node of a text or a number. -/
def Leaf.node (leaf : Leaf) : Node := .scalar none leaf.style leaf.content

/-- The entry of a member. -/
def memberPair (member : String × Leaf) : Node × Node :=
  (.scalar none .quoted member.1, member.2.node)

namespace Reader

section Reads

variable {α β : Type} {tokens tokens₁ tokens₂ : List Token}

/-- Reading succeeds with a result and leaves the tokens behind it. -/
def Reads (x : Read α) (tokens : List Token) (a : α) (behind : List Token) : Prop :=
  ∀ handles anchors, x ⟨tokens, handles, anchors⟩ = some (a, ⟨behind, handles, anchors⟩)

theorem reads_bind {x : Read α} {f : α → Read β} {a : α} {b : β} (hx : Reads x tokens a tokens₁)
    (hf : Reads (f a) tokens₁ b tokens₂) : Reads (x >>= f) tokens b tokens₂ := by
  intro handles anchors
  change (x ⟨tokens, handles, anchors⟩).bind (fun r => f r.1 r.2) = _
  rw [hx]
  exact hf handles anchors

theorem reads_pure (a : α) : Reads (pure a) tokens a tokens := fun _ _ => rfl

theorem reads_map {x : Read α} {a : α} (f : α → β) (hx : Reads x tokens a tokens₁) :
    Reads (f <$> x) tokens (f a) tokens₁ := by
  intro handles anchors
  change (x ⟨tokens, handles, anchors⟩).bind (fun r => some (f r.1, r.2)) = _
  rw [hx]
  rfl

theorem reads_peek (token : Token) (rest : List Token) :
    Reads peek (token :: rest) token (token :: rest) := fun _ _ => rfl

theorem reads_drop (token : Token) (rest : List Token) : Reads drop (token :: rest) () rest :=
  fun _ _ => rfl

end Reads

variable {n : Nat} {behind : List Token}

theorem reads_scalar (block indentless : Bool) (style : Style) (text : String) :
    Reads (node (n + 1) block indentless) (.scalar style text :: behind)
      (.scalar none style text) behind := fun _ _ => rfl

theorem reads_scalarUnless {stops : List Token} {style : Style} {text : String}
    (hstops : .scalar style text ∉ stops) (block indentless : Bool) :
    Reads (nodeUnless (n + 2) stops block indentless) (.scalar style text :: behind)
      (.scalar none style text) behind := by
  rw [nodeUnless]
  refine reads_bind (reads_bind (reads_peek _ _) (reads_pure _)) ?_
  rw [if_neg (by simpa using hstops)]
  exact reads_scalar _ _ _ _

theorem reads_value {stops : List Token} {style : Style} {text : String}
    (hstops : .scalar style text ∉ stops) (block : Bool) :
    Reads (valueAfter (n + 3) stops block) (.value :: .scalar style text :: behind)
      (.scalar none style text) behind := by
  rw [valueAfter]
  refine reads_bind (reads_peek _ _) ?_
  rw [if_pos rfl]
  exact reads_bind (reads_drop _ _) (reads_scalarUnless hstops _ _)

/-- What stands before a member. -/
def lead (first : Bool) : List Token := if first then [] else [.flowEntry]

theorem reads_member (first : Bool) (member : String × Leaf) {pairs : List (Node × Node)}
    {rest : List Token} (hrest : Reads (flowPairs (n + 3) false) rest pairs behind) :
    Reads (flowPairs (n + 4) first) (lead first ++ (memberTokens member ++ rest))
      (memberPair member :: pairs) behind := by
  have hpair : Reads (do
      let key ← nodeUnless (n + 3) [.value, .flowEntry, .flowMappingEnd] false false
      let value ← valueAfter (n + 3) [.flowEntry, .flowMappingEnd] false
      return (key, value) :: (← flowPairs (n + 3) false))
      ([.scalar .quoted member.1, .value, member.2.token] ++ rest) (memberPair member :: pairs)
      behind :=
    reads_bind (reads_scalarUnless (by simp) _ _) (reads_bind (reads_value (by simp) _)
      (reads_bind hrest (reads_pure _)))
  rw [flowPairs]
  cases first with
  | true =>
    refine reads_bind (reads_peek _ _) ?_
    exact reads_bind (reads_peek _ _) (reads_bind (reads_drop _ _) hpair)
  | false =>
    refine reads_bind (reads_peek _ _) ?_
    refine reads_bind (reads_peek _ _) (reads_bind (reads_drop _ _) ?_)
    exact reads_bind (reads_peek _ _) (reads_bind (reads_drop _ _) hpair)

theorem reads_members (n : Nat) (members : List (String × Leaf)) (behind : List Token) :
    Reads (flowPairs (n + members.length + 3) false)
      (members.flatMap (fun member => .flowEntry :: memberTokens member) ++
        .flowMappingEnd :: behind) (members.map memberPair) behind := by
  induction members with
  | nil =>
    rw [List.length_nil, Nat.add_zero, flowPairs]
    exact reads_bind (reads_peek _ _) (reads_bind (reads_drop _ _) (reads_pure _))
  | cons member members ih =>
    rw [List.length_cons, ← Nat.add_assoc, Nat.add_right_comm, List.flatMap_cons, List.append_assoc]
    exact reads_member false member ih

theorem reads_mapping {n : Nat} {member : String × Leaf} {members : List (String × Leaf)}
    (hn : members.length + 5 ≤ n) (behind : List Token) :
    Reads (node n true false)
      (.flowMappingStart :: (memberTokens member ++
        (members.flatMap (fun other => .flowEntry :: memberTokens other) ++
          .flowMappingEnd :: behind)))
      (.mapping none ((member :: members).map memberPair)) behind := by
  obtain ⟨m, rfl⟩ := Nat.exists_eq_add_of_le' hn
  have hpairs : Reads (flowPairs (m + members.length + 4) true) _ _ _ :=
    reads_member true member (reads_members m members behind)
  rw [show m + (members.length + 5) = m + members.length + 4 + 1 from rfl, node]
  refine reads_bind (reads_peek _ _) ?_
  refine reads_bind (reads_bind (reads_peek _ _) (reads_pure _)) ?_
  refine reads_bind (reads_peek _ _) ?_
  exact reads_bind (reads_drop _ _) (reads_bind (reads_map _ hpairs) (reads_pure _))

/-- A mapping on which the text ends is the only document. -/
theorem document?_of_reads {rest : List Token} {root : Node}
    (h : Reads (node (4 * (Token.flowMappingStart :: rest).length + 4) true false)
      (.flowMappingStart :: rest) root [.streamEnd]) :
    document? (.flowMappingStart :: rest) = some root := by
  have hcontent : content? [] (.flowMappingStart :: rest) = some root := by
    simp only [content?, isBoundary, Bool.false_eq_true, if_false, h [] []]
    rfl
  simpa [document?, isBoundary] using hcontent

end Reader

/-- A JSON object of texts and numbers is a YAML mapping of the same entries. -/
theorem read?_record (layout : Json.Layout) {members : List (String × Leaf)} (hne : members ≠ []) :
    read? (Json.record (jsonMembers members) |>.render layout) =
      some (.mapping none (members.map memberPair)) := by
  obtain ⟨member, members, rfl⟩ := List.exists_cons_of_ne_nil hne
  rw [read?, Json.render, String.toList_ofList, tokens_record]
  refine Reader.document?_of_reads (Reader.reads_mapping ?_ [.streamEnd])
  simp [memberTokens]
  omega

/-! ## What counts in the mapping -/

namespace Node

variable {members : List (String × Leaf)}

/-- A key in quotes takes over no entries, whatever it says. -/
theorem filter_members (members : List (String × Leaf)) :
    (members.map memberPair).filter (!·.1.isMergeKey) = members.map memberPair := by
  rw [List.filter_eq_self]
  intro pair hpair
  obtain ⟨member, _, rfl⟩ := List.mem_map.1 hpair
  rfl

theorem contributedByPairs?_members (members : List (String × Leaf)) :
    contributedByPairs? (members.map memberPair) = some [] := by
  induction members with
  | nil => rfl
  | cons member members ih =>
    rw [List.map_cons, memberPair, contributedByPairs?, ih]
    rfl

theorem distinct_keys (hnodup : (members.map (·.1)).Nodup) :
    distinct ((members.map memberPair).map (·.1)) = true := by
  induction members with
  | nil => rfl
  | cons member members ih =>
    rw [List.map_cons, List.nodup_cons] at hnodup
    simp only [List.map_cons, distinct, Bool.and_eq_true, Bool.not_eq_true', ih hnodup.2,
      and_true, List.any_eq_false]
    intro key hkey
    simp only [List.map_map, List.mem_map] at hkey hnodup
    obtain ⟨other, hother, rfl⟩ := hkey
    simp only [memberPair, same, Function.comp_apply, decide_true, Bool.true_and, decide_eq_true_eq]
    exact fun h => hnodup.1 ⟨other, hother, h.symm⟩

theorem entries?_members (hnodup : (members.map (·.1)).Nodup) :
    entries? (members.map memberPair) = some (members.map memberPair) := by
  rw [entries?, filter_members, if_pos (distinct_keys hnodup), contributedByPairs?_members]
  rfl

theorem isValid_members (hnodup : (members.map (·.1)).Nodup) :
    (Node.mapping none (members.map memberPair)).isValid = true := by
  have hpairs : arePairsValid (members.map memberPair) = true := by
    clear hnodup
    induction members with
    | nil => rfl
    | cons member members ih => simp [memberPair, arePairsValid, isValid, Leaf.node, ih]
  rw [isValid, entries?_members hnodup, hpairs]
  rfl

end Node

end SchemaCatalog.Yaml
