import EcatDevice.Proofs.Scoping
import EcatDevice.Source.Grammar

/-! # Names of a source text

Names that are read from a text consist of letters, digits, underscores and dots. So do the names
that statements make of them, and with these the whole symbol table of a program.
-/

namespace EcatDevice

open Source

namespace Source

/-! ## What parsers yield -/

open Source.Parser

/-- All that a parser can read has a property. -/
def Yields {α : Type} (p : Parser α) (P : α → Prop) : Prop :=
  ∀ text frontier a rest, (p text frontier).1 = some (a, rest) → P a

section Rules

variable {α β : Type} {p q : Parser α} {f : α → Parser β} {P : α → Prop} {Q : β → Prop}

theorem yields_pure {a : α} (holds : P a) : Yields (pure a) P := by
  intro text frontier b rest read
  cases read
  exact holds

theorem Yields.bind (first : Yields p P) (next : ∀ a, P a → Yields (f a) Q) :
    Yields (p >>= f) Q := by
  intro text frontier b rest read
  change (Parser.bind p f text frontier).1 = _ at read
  unfold Parser.bind at read
  split at read
  · next a middle after front =>
      refine next a (first text frontier a middle ?_) middle after b rest read
      rw [front]
  · cases read

/-- What comes first may be anything. -/
theorem Yields.behind (next : ∀ a, Yields (f a) Q) : Yields (p >>= f) Q :=
  Yields.bind (P := fun _ => True) (fun _ _ _ _ _ => trivial) fun a _ => next a

theorem Yields.orElse (first : Yields p P) (second : Yields q P) : Yields (p <|> q) P := by
  intro text frontier a rest read
  change (Parser.orElse p (fun _ => q) text frontier).1 = _ at read
  unfold Parser.orElse at read
  split at read
  · exact second _ _ _ _ read
  · exact first _ _ _ _ read

theorem Yields.named (rule : Rule) (yields : Yields p P) : Yields (Parser.named rule p) P := by
  intro text frontier a rest read
  unfold Parser.named at read
  split at read
  · cases read
  · exact yields _ _ _ _ read

theorem Yields.optional (yields : Yields p P) :
    Yields (Parser.optional p) fun read => ∀ a ∈ read, P a := by
  refine .orElse (yields.bind fun a holds => yields_pure ?_) (yields_pure nofun)
  rintro b ⟨⟩
  exact holds

theorem Yields.manyMore (yields : Yields p P) :
    Yields (Parser.manyMore p) fun read => ∀ a ∈ read, P a := by
  intro text frontier read rest made
  fun_induction Parser.manyMore p text frontier generalizing read rest with
  | case1 =>
      cases made
      exact List.forall_mem_nil _
  | case2 text frontier a behind after front _ as last final _ ih =>
      cases made
      have first : P a := yields _ frontier a behind (by rw [front])
      exact List.forall_mem_cons.mpr ⟨first, ih as last (by rw [‹Parser.manyMore p _ _ = _›])⟩
  | case3 => cases made
  | case4 text frontier a behind after front =>
      cases made
      exact List.forall_mem_singleton.mpr (yields _ frontier a behind (by rw [front]))

theorem Yields.many (yields : Yields p P) :
    Yields (Parser.many p) fun read => ∀ a ∈ read, P a := by
  refine .orElse (yields.bind fun a first => yields.manyMore.bind fun as later => ?_) ?_
  · exact yields_pure (List.forall_mem_cons.mpr ⟨first, later⟩)
  · exact yields_pure (List.forall_mem_nil _)

end Rules

/-! ## Names of drafts -/

/-- The text consists of letters, digits, underscores and dots. -/
def Spelled (name : String) : Prop :=
  ∀ c ∈ name.toList, isNameChar c = true

theorem lexStarted_yields {start continued : Char → Bool}
    (starts : ∀ c, start c = true → isNameChar c = true)
    (continues : ∀ c, continued c = true → isNameChar c = true) :
    Yields (lexeme (lexStarted start continued)) Spelled := by
  intro text frontier name rest read
  change lexStarted start continued text = _ at read
  unfold lexStarted at read
  split at read
  · split at read
    · next started =>
        cases read
        rw [Spelled, String.toList_ofList, List.forall_mem_cons]
        exact ⟨starts _ started, fun c inside => continues c (List.mem_takeWhile_imp inside)⟩
    · cases read
  · cases read

theorem isNameChar_of_isWordChar {c : Char} (word : isWordChar c = true) : isNameChar c = true := by
  simp [isNameChar, word]

theorem isNameChar_of_isNameStart {c : Char} (starts : isNameStart c = true) :
    isNameChar c = true := by
  refine isNameChar_of_isWordChar ?_
  simp only [isNameStart, isWordChar, Char.isAlphanum, Bool.or_eq_true] at starts ⊢
  exact starts.imp_left .inl

theorem name_spelled : Yields name Spelled :=
  .named _ (lexStarted_yields (fun _ => isNameChar_of_isNameStart) fun _ => id)

theorem ident_spelled : Yields ident Spelled :=
  .named _
    (lexStarted_yields (fun _ => isNameChar_of_isNameStart) fun _ => isNameChar_of_isWordChar)

/-- The name of an annotation is well spelled. -/
def Clause.Spelled : Clause → Prop
  | .property key _ => Source.Spelled key
  | _ => True

/-- All names that a draft declares are well spelled. -/
def Draft.Spelled : Draft → Prop
  | .make .. => True
  | .assign _ symbol _ => Source.Spelled symbol
  | .variable _ _ _ symbol clauses => Source.Spelled symbol ∧ ∀ clause ∈ clauses, clause.Spelled
  | .array _ _ _ symbol _ clauses => Source.Spelled symbol ∧ ∀ clause ∈ clauses, clause.Spelled
  | .record _ _ symbol _ clauses fields =>
    Source.Spelled symbol ∧ (∀ clause ∈ clauses, clause.Spelled) ∧
      ∀ field ∈ fields, Source.Spelled field.symbol

theorem indexSpec_spelled : Yields indexSpec Clause.Spelled :=
  .named _ (.behind fun _ => .behind fun _ => .behind fun _ => yields_pure trivial)

theorem defaultSpec_spelled : Yields defaultSpec Clause.Spelled :=
  .named _ (.behind fun _ => .behind fun _ => .behind fun _ => yields_pure trivial)

theorem description_spelled : Yields description Clause.Spelled :=
  .named _ (.behind fun _ => yields_pure trivial)

theorem property_spelled : Yields property Clause.Spelled := by
  refine .named _ (.behind fun _ => .behind fun _ => ident_spelled.bind fun key spelled => ?_)
  exact .behind fun _ => .behind fun _ => .behind fun _ => .behind fun _ => yields_pure spelled

theorem objectClause_spelled : Yields objectClause Clause.Spelled :=
  indexSpec_spelled.orElse (description_spelled.orElse property_spelled)

theorem arrayInit_spelled : Yields arrayInit Clause.Spelled := by
  refine .named _ (.behind fun _ => .behind fun _ => .behind fun _ => .behind fun _ => ?_)
  exact .behind fun _ => .behind fun _ => .behind fun _ => yields_pure trivial

theorem makeStatement_spelled : Yields makeStatement Draft.Spelled := by
  refine .behind fun _ => .named _ (.behind fun _ => .behind fun _ => .behind fun _ => ?_)
  exact .behind fun _ => .behind fun _ => .behind fun _ => .behind fun _ => yields_pure trivial

theorem assignStatement_spelled : Yields assignStatement Draft.Spelled := by
  refine .behind fun _ => .named _ (name_spelled.bind fun symbol spelled => ?_)
  refine .behind fun _ => .behind fun _ => .behind fun _ => .behind fun _ => .behind fun _ => ?_
  exact .behind fun _ => yields_pure spelled

theorem variableStatement_spelled : Yields variableStatement Draft.Spelled := by
  have clauses := (objectClause_spelled.orElse defaultSpec_spelled).many
  refine .behind fun _ => .named _ (.behind fun _ => .behind fun _ => .behind fun _ => ?_)
  refine .behind fun _ => name_spelled.bind fun symbol spelled => .behind fun _ => ?_
  refine clauses.bind fun clauses keys => .behind fun _ => .behind fun _ => ?_
  exact yields_pure ⟨spelled, keys⟩

theorem arrayStatement_spelled : Yields arrayStatement Draft.Spelled := by
  have clauses := objectClause_spelled.many
  refine .behind fun _ => .named _ (.behind fun _ => .behind fun _ => .behind fun _ => ?_)
  refine .behind fun _ => name_spelled.bind fun symbol spelled => .behind fun _ => ?_
  refine .behind fun _ => .behind fun _ => clauses.bind fun before keysBefore => ?_
  refine .behind fun _ => arrayInit_spelled.optional.bind fun values init => .behind fun _ => ?_
  refine clauses.bind fun after keysAfter => .behind fun _ => .behind fun _ => yields_pure ?_
  refine ⟨spelled, List.forall_mem_append.mpr ⟨List.forall_mem_append.mpr ⟨keysBefore, ?_⟩, ?_⟩⟩
  · exact fun clause member => init clause (Option.mem_toList.mp member)
  · exact keysAfter

theorem fieldStatement_spelled : Yields fieldStatement fun field => Spelled field.symbol := by
  refine .behind fun _ => .named _ (.behind fun _ => .behind fun _ => .behind fun _ => ?_)
  refine .behind fun _ => ident_spelled.bind fun symbol spelled => .behind fun _ => ?_
  exact .behind fun _ => .behind fun _ => .behind fun _ => yields_pure spelled

theorem recordStatement_spelled : Yields recordStatement Draft.Spelled := by
  refine .behind fun _ => .named _ (.behind fun _ => .behind fun _ => .behind fun _ => ?_)
  refine .behind fun _ => name_spelled.bind fun symbol spelled => .behind fun _ => ?_
  refine .behind fun _ => .behind fun _ => objectClause_spelled.many.bind fun clauses keys => ?_
  refine .behind fun _ => .behind fun _ => .behind fun _ => ?_
  refine fieldStatement_spelled.many.bind fun fields symbols => .behind fun _ => ?_
  exact .behind fun _ => .behind fun _ => .behind fun _ => yields_pure ⟨spelled, keys, symbols⟩

theorem statement_spelled : Yields statement Draft.Spelled :=
  makeStatement_spelled.orElse <| recordStatement_spelled.orElse <|
    arrayStatement_spelled.orElse <| variableStatement_spelled.orElse assignStatement_spelled

theorem drafts_spelled {source : List Char} {read : List Draft}
    (made : drafts source = .ok read) : ∀ draft ∈ read, draft.Spelled := by
  have whole : Yields file fun read => ∀ draft ∈ read, draft.Spelled := by
    refine .named _ (.behind fun _ => statement_spelled.many.bind fun read spelled => ?_)
    exact .behind fun _ => .behind fun _ => yields_pure spelled
  unfold drafts at made
  split at made
  · next read rest _ parsed =>
      cases made
      exact whole _ _ _ rest (by rw [parsed])
  · cases made

/-! ## Names of statements -/

theorem collect_spelled {source : List Char} {place : Location} {what : String}
    {clauses : List Clause} (spelled : ∀ clause ∈ clauses, clause.Spelled) {filled : Clauses}
    (made : Clauses.collect source place what clauses = .ok filled) :
    ∀ property ∈ filled.properties, Spelled property.key := by
  refine foldlM_keeps (P := fun c => ∀ property ∈ c.properties, Spelled property.key) ?_
    (List.forall_mem_nil _) made
  intro state clause next member before added
  cases clause with
  | index e | default e =>
      obtain ⟨_, -, added⟩ := Except.bind_eq_ok added
      obtain ⟨_, -, added⟩ := Except.bind_eq_ok added
      cases added
      exact before
  | description text | values items =>
      obtain ⟨_, -, added⟩ := Except.bind_eq_ok added
      cases added
      exact before
  | property key e =>
      obtain ⟨_, -, added⟩ := Except.bind_eq_ok added
      cases added
      exact List.forall_mem_append.mpr
        ⟨before, List.forall_mem_singleton.mpr (spelled _ member)⟩

theorem Spelled.append {a b : String} (first : Spelled a) (second : Spelled b) :
    Spelled (a ++ b) := by
  rw [Spelled, String.toList_append]
  exact List.forall_mem_append.mpr ⟨first, second⟩

theorem Spelled.dotted {symbol key : String} (first : Spelled symbol) (second : Spelled key) :
    Spelled (symbol ++ "." ++ key) :=
  (first.append (List.all_eq_true.mp (by decide))).append second

theorem propertyNames_spelled {symbol : String} (spelled : Spelled symbol)
    {properties : List Property} (keys : ∀ property ∈ properties, Spelled property.key) :
    ∀ name ∈ propertyNames symbol properties, Spelled name :=
  List.forall_mem_map.mpr fun property member => spelled.dotted (keys property member)

theorem namesOf_spelled {s : RecordDecl} {symbol : String} (spelled : Spelled symbol)
    (keys : ∀ property ∈ s.properties, Spelled property.key)
    (symbols : ∀ field ∈ s.fields, Spelled field.symbol) :
    ∀ name ∈ s.namesOf symbol, Spelled name := by
  refine List.forall_mem_cons.mpr ⟨spelled, List.forall_mem_append.mpr ⟨?_, ?_⟩⟩
  · exact List.forall_mem_map.mpr fun field member => spelled.dotted (symbols field member)
  · exact propertyNames_spelled spelled keys

theorem instanceSymbol_spelled {s : RecordDecl} (spelled : Spelled s.symbol) (position : Nat) :
    Spelled (s.instanceSymbol position) := by
  refine (spelled.append (List.all_eq_true.mp (by decide))).append ?_
  intro c member
  rw [Text.decimal, if_neg (Int.natCast_nonneg position).not_gt, String.toList_ofList] at member
  have digit := Nat.isDigit_of_mem_toDigits (by decide) (by decide) member
  simp [isNameChar, isWordChar, Char.isAlphanum, digit]

theorem check_spelled {source : List Char} {draft : Draft} (spelled : draft.Spelled)
    {s : Statement} (made : draft.check source = .ok s) : ∀ name ∈ s.names, Spelled name := by
  cases draft with
  | make left generator args =>
      cases made
      exact List.forall_mem_nil _
  | assign left symbol value =>
      obtain ⟨_, -, made⟩ := Except.bind_eq_ok made
      cases made
      exact List.forall_mem_singleton.mpr spelled
  | «variable» left typeName access symbol clauses =>
      obtain ⟨filled, collected, made⟩ := Except.bind_eq_ok made
      cases made
      refine List.forall_mem_append.mpr ⟨?_, List.forall_mem_singleton.mpr spelled.1⟩
      exact propertyNames_spelled spelled.1 (collect_spelled spelled.2 collected)
  | array left typeName access symbol size clauses =>
      obtain ⟨_, -, made⟩ := Except.bind_eq_ok made
      obtain ⟨filled, collected, made⟩ := Except.bind_eq_ok made
      cases made
      refine List.forall_mem_append.mpr ⟨?_, List.forall_mem_singleton.mpr spelled.1⟩
      exact propertyNames_spelled spelled.1 (collect_spelled spelled.2 collected)
  | record left access symbol instances clauses fields =>
      obtain ⟨own, clausesSpelled, fieldsSpelled⟩ := spelled
      obtain ⟨_, -, made⟩ := Except.bind_eq_ok made
      obtain ⟨filled, collected, made⟩ := Except.bind_eq_ok made
      obtain ⟨declared, checked, made⟩ := Except.bind_eq_ok made
      cases made
      have keys := collect_spelled clausesSpelled collected
      have symbols : ∀ field ∈ declared, Spelled field.symbol := by
        intro field member
        obtain ⟨draft, present, given⟩ := mapM_mem checked member
        obtain ⟨_, -, given⟩ := Except.bind_eq_ok given
        cases given
        exact fieldsSpelled draft present
      rw [Statement.names]
      split
      · exact namesOf_spelled own keys symbols
      · intro name member
        obtain ⟨position, -, member⟩ := List.mem_flatMap.mp member
        exact namesOf_spelled (instanceSymbol_spelled own position) keys symbols name member

theorem parse_spelled {source : String} {statements : List Statement}
    (parsed : parse source = .ok statements) :
    ∀ s ∈ statements, ∀ name ∈ s.names, Spelled name := by
  intro s member
  obtain ⟨read, drafted, parsed⟩ := Except.bind_eq_ok parsed
  obtain ⟨draft, present, checked⟩ := mapM_mem parsed member
  exact check_spelled (drafts_spelled drafted draft present) checked

end Source

/-! ## Names of programs -/

/-- Whatever is declared while a text is resolved has a well spelled name. -/
theorem Resolution.steps_spelled {engine : Regex.Engine} {source : String}
    {before after : List Statement} (parsed : parse source = .ok (before ++ after))
    {r : Resolution} (made : before.foldlM step { engine } = .ok r) {name : String}
    (declared : name ∈ r.symbols) : Spelled name := by
  have shown := (steps_scoped (start_shows engine) made).1
  obtain ⟨s, member, named⟩ := List.mem_flatMap.mp ((shown name).mp declared)
  exact parse_spelled parsed s (List.mem_append_left after member) name named

end EcatDevice
