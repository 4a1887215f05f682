import SchemaCatalog.Proofs.Classification.Warnings

/-!
# SchemaCatalog.Proofs.Classification.Examples

What a generator of examples has to do with the rest of a type map.

The whole classification comes before the generator, so a run is the events of the classification,
then those of the generator, then the report of how the generator ended
(`classify_eq_of_typeMap?`). All that a generator can change is the examples, and one that fails
changes nothing. The statements are equations between runs, events included: that the generator is
asked once shows in its own events, which stand there once.
-/

namespace SchemaCatalog

theorem Logged.andThen_of_ok {ε α β : Type} {m : Logged (Except ε α)} {a : α}
    (h : m.value = .ok a) (f : α → Logged (Except ε β)) :
    m.andThen f = ⟨(f a).value, m.events ++ (f a).events⟩ := by
  obtain ⟨value, events⟩ := m
  cases h
  rfl

section Generator

variable {generator : ExampleGenerator} {d : Sdl.Document} {config : Config} {m : TypeMap}

theorem exampleValues_of_ok {values : OrderedMap Json}
    (h : (generator d config m).value = .ok values) (sdl : String) :
    exampleValues generator d config m sdl =
      ⟨values, (generator d config m).events ++ [.examplesGenerated values.size]⟩ := by
  rw [exampleValues]
  generalize generator d config m = answer at h
  obtain ⟨value, events⟩ := answer
  cases h
  rfl

theorem exampleValues_of_error {message : String}
    (h : (generator d config m).value = .error message) (sdl : String) :
    exampleValues generator d config m sdl =
      ⟨.empty, (generator d config m).events ++
        [.examplesFailed message, .examplesFailedOn sdl]⟩ := by
  rw [exampleValues]
  generalize generator d config m = answer at h
  obtain ⟨value, events⟩ := answer
  cases h
  rfl

theorem exampleValues_congr {other : ExampleGenerator}
    (h : other d config m = generator d config m) (sdl : String) :
    exampleValues other d config m sdl = exampleValues generator d config m sdl := by
  rw [exampleValues, exampleValues, h]

end Generator

/-- A run is the classification without examples, and then the generator with what that gives. -/
theorem classify_eq_of_typeMap? (c : Classifier) (config : Config) {sdl : String} {m : TypeMap}
    (accepted : (Sdl.parse sdl).2 = []) (hm : (Sdl.parse sdl).1.typeMap? c.naming = some m) :
    c.classify sdl config =
      ⟨.ok { m with
          exampleValues := (exampleValues c.examples (Sdl.parse sdl).1 config m sdl).value },
        (classifyDocument c.naming (Sdl.parse sdl).1).events ++
          (exampleValues c.examples (Sdl.parse sdl).1 config m sdl).events⟩ := by
  rw [Classifier.classify, parseSchema_of_clean accepted,
    Logged.andThen_of_ok (Logged.value_pure _), Logged.andThen_of_ok (value_classifyDocument hm)]
  simp only [Logged.value_bind, Logged.value_pure, Logged.events_bind, Logged.events_pure,
    List.nil_append, List.append_nil]

/-- For every accepted text, naming, configuration and generator, the run without a generator
gives the map and the events from which the run with the generator goes on: the generator is asked
with that map, what it gives are the examples, and when it fails there are none. Two generators
that agree there cannot be told apart. -/
theorem classify_contains_examples (c : Classifier) (config : Config) {sdl : String}
    (accepted : (Sdl.parse sdl).2 = []) :
    ∃ m before,
      Classifier.classify ⟨c.naming, .none⟩ sdl config =
        ⟨.ok m, before ++ [.examplesGenerated 0]⟩ ∧
      m.exampleValues = .empty ∧
      before.filter (·.level = .warn) = warningsAbout c.naming (Sdl.parse sdl).1 m ∧
      (∀ values, (c.examples (Sdl.parse sdl).1 config m).value = .ok values →
        c.classify sdl config = ⟨.ok { m with exampleValues := values },
          before ++ (c.examples (Sdl.parse sdl).1 config m).events ++
            [.examplesGenerated values.size]⟩) ∧
      (∀ message, (c.examples (Sdl.parse sdl).1 config m).value = .error message →
        c.classify sdl config = ⟨.ok m,
          before ++ (c.examples (Sdl.parse sdl).1 config m).events ++
            [.examplesFailed message, .examplesFailedOn sdl]⟩ ∧
        (Event.examplesFailed message).level = .debug ∧
        (Event.examplesFailed message).fields = [("error", message)] ∧
        (Event.examplesFailedOn sdl).level = .debug ∧
        (Event.examplesFailedOn sdl).fields = [("sdl", sdl)]) ∧
      ∀ generator, generator (Sdl.parse sdl).1 config m =
          c.examples (Sdl.parse sdl).1 config m →
        Classifier.classify ⟨c.naming, generator⟩ sdl config = c.classify sdl config := by
  obtain ⟨m, hm⟩ := (Sdl.complete_of_clean accepted).typeMap? c.naming
  have hempty : m.exampleValues = .empty := by
    obtain ⟨objects, unions, scalars, _, _, _, rfl⟩ := Sdl.Document.of_typeMap? hm
    rfl
  have hbare : { m with exampleValues := .empty } = m := by rw [← hempty]
  refine ⟨m, (classifyDocument c.naming (Sdl.parse sdl).1).events, ?_, hempty,
    warnings_classifyDocument hm, fun values h => ?_, fun message h => ?_, fun generator h => ?_⟩
  · rw [classify_eq_of_typeMap? ⟨c.naming, .none⟩ config accepted hm,
      exampleValues_of_ok (Logged.value_pure _), hbare]
    rfl
  · rw [classify_eq_of_typeMap? c config accepted hm, exampleValues_of_ok h, List.append_assoc]
  · rw [classify_eq_of_typeMap? c config accepted hm, exampleValues_of_error h, hbare,
      List.append_assoc]
    exact ⟨rfl, rfl, rfl, rfl, rfl⟩
  · rw [classify_eq_of_typeMap? ⟨c.naming, generator⟩ config accepted hm,
      classify_eq_of_typeMap? c config accepted hm, exampleValues_congr h]

/-- A generator that fails on a text with a type that is defined twice. -/
theorem classify_contains_failing_examples :
    (Sdl.parse "type A{f:B}type A{g:B}").2 = [] ∧ ∃ m before,
      Classifier.plain.classify "type A{f:B}type A{g:B}"
        ⟨"p", "d", "a", none, none, none, none⟩ = ⟨.ok m, before ++ [.examplesGenerated 0]⟩ ∧
      before.filter (·.level = .warn) = [.objectRedefined "A"] ∧
      Classifier.classify ⟨.identity, .failing "no scalar"⟩ "type A{f:B}type A{g:B}"
          ⟨"p", "d", "a", none, none, none, none⟩ =
        ⟨.ok m, before ++
          [.examplesFailed "no scalar", .examplesFailedOn "type A{f:B}type A{g:B}"]⟩ := by
  have accepted : (Sdl.parse "type A{f:B}type A{g:B}").2 = [] := by decide +kernel
  have hwarnings : (Classifier.plain.classify "type A{f:B}type A{g:B}"
      ⟨"p", "d", "a", none, none, none, none⟩).warnings = [.objectRedefined "A"] := by
    decide +kernel
  obtain ⟨m, before, hplain, _, _, _, hfailing, _⟩ := classify_contains_examples
    ⟨.identity, .failing "no scalar"⟩ ⟨"p", "d", "a", none, none, none, none⟩ accepted
  have hbare : Classifier.plain.classify "type A{f:B}type A{g:B}"
      ⟨"p", "d", "a", none, none, none, none⟩ = ⟨.ok m, before ++ [.examplesGenerated 0]⟩ := hplain
  rw [hbare, Logged.warnings, List.filter_append] at hwarnings
  refine ⟨accepted, m, before, hbare, (List.append_nil _).symm.trans hwarnings, ?_⟩
  rw [(hfailing "no scalar" rfl).1]
  simp [ExampleGenerator.failing]

end SchemaCatalog
