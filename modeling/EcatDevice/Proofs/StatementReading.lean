import EcatDevice.Proofs.GrammarReading

/-! # Reading of printed statements

Each statement is read back by its own rule, and the rules in front of it fail: they stop at the
first token that they have in common with no other kind of statement. From this follows that parsing
undoes printing.
-/

namespace EcatDevice.Source

open Source.Parser

variable {more : List String}

/-! ## Declarations -/

theorem isToken_of_isTypeName {text : String} (valid : IsTypeName text) : isToken text = true := by
  rcases valid with ident | ⟨ident, digits, rfl, isIdent, -, -⟩
  · exact isToken_of_isStarted startsNames_isNameStart ident
  · obtain ⟨c, rest, spelled, first, -⟩ := isStarted_iff.mp isIdent
    have whole : (ident ++ "(" ++ digits ++ ")").toList
        = c :: (rest ++ '(' :: (digits.toList ++ [')'])) := by
      simp [spelled]
    exact isToken_of_front whole (startsNames_isNameStart.front first)

theorem typeName_consumes {text : String} (valid : IsTypeName text) :
    Consumes typeName (text :: more) more (· = text) :=
  Gives.named _ (consumes_lexeme (isToken_of_isTypeName valid)
    (lexTypeName_append valid (after_ends (by decide) more)))

theorem typeName_fails {text : List Char} (ends : Ends isNameStart text) : Fails typeName text := by
  refine Fails.named _ (fails_lexeme ?_)
  rw [lexTypeName, lexIdent, lexStarted_none ends]
  rfl

/-- Access keywords and the symbol of a declaration. -/
def accessed {β : Type} (symbol : Parser String) (k : Access → String → Parser β) : Parser β := do
  let access ← access
  blanks
  let symbol ← symbol
  blanks
  k access symbol

/-- The parts that all declarations with a type start with. -/
def declared {β : Type} (symbol : Parser String) (k : String → Access → String → Parser β) :
    Parser β := do
  let typeName ← typeName
  blanks
  accessed symbol (k typeName)

section Declared

variable {β : Type} {p : Parser String} {type symbol : String} {a : Access} {middle : List String}
  {post : β → List Char → Prop} (small : a.Printable) {continued : Char → Bool}
  (started : isStarted isNameStart continued symbol = true) (free : NoKeyword symbol)
  (reads : Consumes p (symbol :: middle) middle (· = symbol))
include small started free reads

theorem accessed_gives {k : Access → String → Parser β} (gives : Gives (k a symbol) middle post) :
    Gives (accessed p k) (a.tokens ++ symbol :: middle) post := by
  refine (access_takes small (isToken_of_isStarted startsNames_isNameStart started)
    (leadsWord_of_isStarted started) free).andThen ?_
  rintro _ rfl
  refine reads.takes.andThen ?_
  rintro _ rfl
  exact gives

theorem accessed_fails {k : Access → String → Parser β}
    (fails : Fails (k a symbol) (ahead middle)) :
    Fails (accessed p k) (ahead (a.tokens ++ symbol :: middle)) := by
  refine (access_takes small (isToken_of_isStarted startsNames_isNameStart started)
    (leadsWord_of_isStarted started) free).andThen_fails ?_
  rintro _ rfl
  refine reads.takes.andThen_fails ?_
  rintro _ rfl
  exact fails

theorem declared_gives (valid : IsTypeName type) {k : String → Access → String → Parser β}
    (gives : Gives (k type a symbol) middle post) :
    Gives (declared p k) (type :: (a.tokens ++ symbol :: middle)) post := by
  refine (typeName_consumes valid).takes.andThen ?_
  rintro _ rfl
  exact accessed_gives small started free reads gives

theorem declared_fails (valid : IsTypeName type) {k : String → Access → String → Parser β}
    (fails : Fails (k type a symbol) (ahead middle)) :
    Fails (declared p k) (ahead (type :: (a.tokens ++ symbol :: middle))) := by
  refine (typeName_consumes valid).takes.andThen_fails ?_
  rintro _ rfl
  exact accessed_fails small started free reads fails

end Declared

/-! ## Attributes -/

theorem objectAttributes_printable {index : Option Expr} (description : Option String)
    {properties : List Property} (validIndex : ∀ e ∈ index, e.Printable isName)
    (validProperties : ∀ p ∈ properties, p.Printable) :
    ∀ a ∈ objectAttributes index description properties, a.Printable ∧ a.IsObject := by
  intro a member
  simp only [objectAttributes, List.mem_append, List.mem_map, Option.mem_toList] at member
  rcases member with (⟨e, member, rfl⟩ | ⟨text, -, rfl⟩) | ⟨p, member, rfl⟩
  · exact ⟨validIndex e member, trivial⟩
  · exact ⟨trivial, trivial⟩
  · exact ⟨validProperties p member, trivial⟩

theorem default_printable {default : Option Expr} (valid : ∀ e ∈ default, e.Printable isName) :
    ∀ a ∈ default.toList.map Attribute.default, a.Printable := by
  intro a member
  obtain ⟨e, given, rfl⟩ := List.mem_map.mp member
  exact valid e (Option.mem_toList.mp given)

/-- The characters that attributes start with. -/
def attributeStarts : List Char := ['@', '"', '.', '=']

theorem ends_attributes {p : Char → Bool} (foreign : attributeStarts.any p = false)
    (attributes : List Attribute) (stop : Ends p (ahead more)) :
    Ends p (ahead (attributes.flatMap Attribute.tokens ++ more)) := by
  have starts : ∀ c ∈ attributeStarts, p c = false := fun c member =>
    Bool.eq_false_iff.mpr (List.any_eq_false.mp foreign c member)
  cases attributes with
  | nil => exact stop
  | cons a attributes =>
      cases a with
      | index e => exact ends_ahead rfl ⟨starts '@' (by decide), by decide⟩
      | description text => exact ends_ahead (quoted_front text) ⟨starts '"' (by decide), by decide⟩
      | property p => exact ends_ahead rfl ⟨starts '.' (by decide), by decide⟩
      | default e => exact ends_ahead rfl ⟨starts '=' (by decide), by decide⟩

/-! ## Variables -/

theorem variable_tokens (d : VariableDecl) : (Statement.variable d).tokens ++ more =
    d.typeName :: (d.access.tokens ++ d.symbol ::
      ((objectAttributes d.index d.description d.properties
        ++ d.default.toList.map Attribute.default).flatMap Attribute.tokens ++ ";" :: more)) := by
  simp [Statement.tokens]

theorem variableStatement_consumes {d : VariableDecl} (printable : d.Printable) :
    Consumes variableStatement ((Statement.variable d).tokens ++ more) more
      (Statement.variable d).ReadAs := by
  have each : ReadsAll (objectClause <|> defaultSpec) Attribute.tokens Attribute.ReadAs
      (objectAttributes d.index d.description d.properties
        ++ d.default.toList.map Attribute.default) := by
    intro a member
    refine ⟨tokens_ne_nil a, fun _ => variableClause_consumes ?_⟩
    rcases List.mem_append.mp member with object | default
    · exact (objectAttributes_printable _ printable.index printable.properties a object).1
    · exact default_printable printable.default a default
  have stop : Fails (objectClause <|> defaultSpec) (ahead (";" :: more)) :=
    (objectClause_fails (ends_ahead rfl (by decide))).orElse
      ((fails_char (ends_ahead rfl (by decide))).bind.named _)
  rw [variable_tokens]
  refine Gives.left fun n => Gives.named _ (declared_gives printable.access printable.symbol.1
    printable.symbol.2 (name_consumes printable.symbol.1) printable.typeName.1 ?_)
  exact (many_takes each stop).andThen fun clauses read =>
    (char_consumes ';' (by decide)).map fun _ _ => Statement.variable_readAs read n

/-- No brackets follow the symbol of a variable. -/
theorem arrayStatement_fails_variable {d : VariableDecl} (printable : d.Printable) :
    Fails arrayStatement (ahead ((Statement.variable d).tokens ++ more)) := by
  rw [variable_tokens]
  refine (reads_left _).bind_fails (Fails.named _ (declared_fails printable.access
    printable.symbol.1 printable.symbol.2 (name_consumes printable.symbol.1)
    printable.typeName.1 ?_))
  exact ((fails_char (ends_attributes (by decide) _
    (ends_ahead rfl (by decide)))).bind.named _).bind

/-! ## Keywords in front -/

theorem keyword_consumes (rule : Rule) {word : String} (valid : isIdent word = true) :
    Consumes (named rule (lexeme (lexKeyword word))) (word :: more) more fun _ => True := by
  obtain ⟨alone, none⟩ := word_of_isIdent valid
  have lexed : lexKeyword word (word.toList ++ after more) = some ((), after more) := by
    rw [lexKeyword_append (leadsWord_of_isStarted valid) (after_ends (by decide) more), alone, none]
    exact if_pos rfl
  have proper := isToken_of_isStarted startsNames_isNameStart valid
  exact Gives.named _ ((consumes_lexeme proper lexed).imp fun _ _ => trivial)

section Keywords

variable {β : Type} {p : Parser β} {text word : String} (rule : Rule)
  (proper : isToken text = true) (leads : LeadsWord text)
include proper leads

/-- A rule that starts with a keyword fails where the keyword is no other than the leading word of
a token, and what follows it does not fit. -/
theorem keyword_fails (next : leadingWord text = word →
      Fails p (skipBlanks (trail text ++ after more))) :
    Fails (do named rule (lexeme (lexKeyword word)); blanks; p) (ahead (text :: more)) := by
  have lexed := lexKeyword_append leads (after_ends (by decide) more) word
  rw [ahead_cons proper]
  by_cases same : leadingWord text = word
  · rw [if_pos same] at lexed
    exact ((reads_lexeme lexed).named rule).bind_fails ((reads_blanks _).bind_fails (next same))
  · rw [if_neg same] at lexed
    exact ((fails_lexeme lexed).named rule).bind

end Keywords

/-- Neither an access keyword nor a name starts here, and nothing can be skipped. -/
def Stuck (text : List Char) : Prop :=
  Ends isWordChar text ∧ skipBlanks text = text

theorem stuck_ahead {token : String} {c : Char} {rest : List Char}
    (spelled : token.toList = c :: rest)
    (noWord : isWordChar c = false ∧ (isBlank c || c == '/') = false) :
    Stuck (ahead (token :: more)) :=
  ⟨ends_ahead spelled noWord, skipBlanks_ahead _⟩

theorem stuck_cons {c : Char} {text : List Char}
    (noWord : isWordChar c = false ∧ (isBlank c || c == '/') = false) : Stuck (c :: text) :=
  ⟨ends_cons.mpr noWord.1, skipBlanks_of_ends (ends_cons.mpr noWord.2)⟩

section Stuck

variable {β : Type} {text : List Char} (stuck : Stuck text)
include stuck

theorem Stuck.name_fails : Fails name text :=
  started_fails .name (stuck.1.mono fun _ => isWordChar_of_isNameStart)

theorem Stuck.accessed_fails {k : Access → String → Parser β} : Fails (accessed name k) text := by
  refine (access_reads_none stuck.1).bind_fails ((reads_blanks text).bind_fails ?_)
  rw [stuck.2]
  exact stuck.name_fails.bind

end Stuck

theorem makeStatement_fails {text : String} (proper : isToken text = true) (leads : LeadsWord text)
    (next : leadingWord text = "make" → Stuck (skipBlanks (trail text ++ after more))) :
    Fails makeStatement (ahead (text :: more)) :=
  (reads_left _).bind_fails (Fails.named _ (keyword_fails _ proper leads fun same =>
    (next same).name_fails.bind))

/-- A type is no make directive. -/
theorem makeStatement_fails_type {type : String} (valid : IsTypeName type) (other : type ≠ "make") :
    Fails makeStatement (ahead (type :: more)) := by
  refine makeStatement_fails (isToken_of_isTypeName valid) (leadsWord_of_isTypeName valid)
    fun same => ?_
  rcases trail_of_isTypeName valid with ⟨alone, -⟩ | ⟨rest, width⟩
  · exact absurd (alone.symm.trans same) other
  · rw [width, List.cons_append, skipBlanks_of_ends (ends_cons.mpr (by decide))]
    exact stuck_cons (by decide)

/-- Neither is a declaration with a type a record, although `record` may be a type: no brace
follows its attributes. -/
theorem recordStatement_fails_type {type symbol : String} {a : Access} (valid : IsTypeName type)
    (small : a.Printable) (started : isName symbol = true) (free : NoKeyword symbol)
    (attributes : List Attribute) (object : ∀ a ∈ attributes, a.Printable ∧ a.IsObject)
    (stop : Ends (fun c => isClauseStart c || c == '(' || c == '\x7b') (ahead more)) :
    Fails recordStatement (ahead
      (type :: (a.tokens ++ symbol :: (attributes.flatMap Attribute.tokens ++ more)))) := by
  have noInstance : Fails recordInstance
      (ahead (attributes.flatMap Attribute.tokens ++ more)) :=
    (fails_char (ends_attributes (by decide) attributes
      (stop.mono (by simp +contextual)))).bind.named _
  refine (reads_left _).bind_fails (Fails.named _ (keyword_fails _ (isToken_of_isTypeName valid)
    (leadsWord_of_isTypeName valid) fun _ => ?_))
  rcases trail_of_isTypeName valid with ⟨-, none⟩ | ⟨rest, width⟩
  · rw [none]
    refine accessed_fails small started free (name_consumes started) ?_
    refine (many_none noInstance).andThen_fails fun _ _ => ?_
    refine (objectClauses_takes object (stop.mono (by simp +contextual))).andThen_fails
      fun _ _ => ?_
    exact (fails_char (stop.mono (by simp +contextual))).bind
  · rw [width, List.cons_append, skipBlanks_of_ends (ends_cons.mpr (by decide))]
    exact Stuck.accessed_fails (stuck_cons (by decide))

/-! ## Arrays -/

theorem arraySize_consumes {size : Option Expr} (printable : ∀ e ∈ size, e.Printable isName) :
    Consumes arraySize ("[" :: (size.toList.map Expr.token ++ "]" :: more)) more
      (Option.Rel Expr.ReadAs size) := by
  have inside : Takes (optional expr) (size.toList.map Expr.token ++ "]" :: more) ("]" :: more)
      (Option.Rel Expr.ReadAs size) := by
    cases size with
    | none =>
        refine (optional_none ?_).imp fun _ same => same ▸ .none
        exact expr_fails (ends_ahead rfl (by decide))
    | some e =>
        refine (optional_some (expr_consumes (printable e rfl)).takes).imp ?_
        rintro _ ⟨draft, rfl, read⟩
        exact .some read
  exact Gives.named _ ((char_consumes '[' (by decide)).takes.andThen fun _ _ =>
    inside.andThen fun _ read => (char_consumes ']' (by decide)).map fun _ _ => read)

theorem listExpr_takes {first : Expr} {rest : List Expr}
    (printable : ∀ e ∈ first :: rest, e.Printable isWildName) :
    Takes listExpr (first.token :: (itemTokens rest ++ "\x7d" :: more)) ("\x7d" :: more)
      (List.Forall₂ Expr.ReadAs (first :: rest)) := by
  have each : ReadsAll (do char ','; blanks; listItem) (fun e => [",", e.token]) Expr.ReadAs rest :=
    fun e member => ⟨nofun, fun _ => (char_consumes ',' (by decide)).takes.andThen
      fun _ _ => listItem_consumes (printable e (List.mem_cons_of_mem _ member))⟩
  have stop : Fails (char ',') (ahead ("\x7d" :: more)) :=
    fails_char (ends_ahead rfl (by decide))
  refine Gives.named _ ?_
  refine (listItem_consumes (printable first List.mem_cons_self)).takes.andThen
    fun a readFirst => ?_
  refine (many_takes each stop.bind).andThen fun as readRest => ?_
  exact (optional_none stop).map fun _ _ => .cons readFirst readRest

theorem arrayInit_takes {values : List Expr} (printable : ∀ e ∈ values, e.Printable isWildName) :
    Takes (optional arrayInit) (listTokens values ++ ";" :: more) (";" :: more)
      (ListReadAs values) := by
  cases values with
  | nil =>
      refine (optional_none ?_).imp fun _ same => Or.inl ⟨same, rfl⟩
      exact (fails_char (ends_ahead rfl (by decide))).bind.named _
  | cons first rest =>
      have init : Consumes arrayInit (listTokens (first :: rest) ++ ";" :: more) (";" :: more)
          fun clause => ListReadAs (first :: rest) (some clause) := by
        rw [listTokens, List.cons_append, List.cons_append, List.cons_append, List.cons_append,
          List.cons_append, List.cons_append, List.append_assoc]
        refine Gives.named _ ?_
        refine (char_consumes '=' (by decide)).takes.andThen fun _ _ => ?_
        refine (char_consumes '\x7b' (by decide)).takes.andThen fun _ _ => ?_
        refine (optional_some (listExpr_takes printable)).andThen ?_
        rintro _ ⟨drafts, rfl, read⟩
        exact (char_consumes '\x7d' (by decide)).map fun _ _ => Or.inr ⟨drafts, rfl, read⟩
      refine (optional_some init.takes).imp ?_
      rintro _ ⟨clause, rfl, read⟩
      exact read

theorem array_tokens (d : ArrayDecl) : (Statement.array d).tokens ++ more =
    d.typeName :: (d.access.tokens ++ d.symbol :: "[" :: (d.size.toList.map Expr.token ++ "]" ::
      ((objectAttributes d.index d.description d.properties).flatMap Attribute.tokens
        ++ (listTokens d.values ++ ";" :: more)))) := by
  simp [Statement.tokens]

theorem arrayStatement_consumes {d : ArrayDecl} (printable : d.Printable) :
    Consumes arrayStatement ((Statement.array d).tokens ++ more) more
      (Statement.array d).ReadAs := by
  have object := objectAttributes_printable d.description printable.index printable.properties
  have stop : Ends isClauseStart (ahead (listTokens d.values ++ ";" :: more)) := by
    cases d.values with
    | nil => exact ends_ahead rfl (by decide)
    | cons first rest => exact ends_ahead rfl (by decide)
  have noMore : Fails objectClause (ahead (";" :: more)) :=
    objectClause_fails (ends_ahead rfl (by decide))
  rw [array_tokens]
  refine Gives.left fun n => Gives.named _ (declared_gives printable.access printable.symbol.1
    printable.symbol.2 (name_consumes printable.symbol.1) printable.typeName.1 ?_)
  refine (arraySize_consumes printable.size).takes.andThen fun size readSize => ?_
  refine (objectClauses_takes object stop).andThen fun clauses read => ?_
  refine (arrayInit_takes printable.values).andThen fun values readValues => ?_
  refine (many_none noMore).andThen ?_
  rintro _ rfl
  exact (char_consumes ';' (by decide)).map fun _ _ =>
    Statement.array_readAs readSize read readValues n

/-! ## Records -/

theorem recordInstance_consumes {i : Instance} (printable : i.index.Printable isName) :
    Consumes recordInstance (i.tokens ++ more) more i.ReadAs := by
  refine Gives.named _ ?_
  refine (char_consumes '(' (by decide)).takes.andThen fun _ _ => ?_
  refine (expr_consumes printable).takes.andThen fun draft read => ?_
  refine (char_consumes ',' (by decide)).takes.andThen fun _ _ => ?_
  refine (string_consumes i.description).takes.andThen fun text same => ?_
  exact (char_consumes ')' (by decide)).map fun _ _ => ⟨read, same⟩

theorem field_tokens (d : FieldDecl) : d.tokens ++ more =
    d.typeName :: (d.access.tokens ++ d.symbol ::
      (d.attributes.flatMap Attribute.tokens ++ ";" :: more)) := by
  simp [FieldDecl.tokens]

theorem fieldStatement_consumes {d : FieldDecl} (printable : d.Printable) :
    Consumes fieldStatement (d.tokens ++ more) more d.ReadAs := by
  have each : ReadsAll (indexSpec <|> defaultSpec <|> description) Attribute.tokens
      Attribute.ReadAs d.attributes := by
    intro a member
    refine ⟨tokens_ne_nil a, fun _ => ?_⟩
    rcases List.mem_append.mp member with object | default
    · have printable := objectAttributes_printable _ printable.subindex
        (List.forall_mem_nil _) a object
      refine fieldClause_consumes printable.1 ?_
      rintro p rfl
      simp [objectAttributes] at object
    · obtain ⟨e, given, rfl⟩ := List.mem_map.mp default
      refine fieldClause_consumes (printable.default e (Option.mem_toList.mp given)) ?_
      intro p property
      cases property
  have stop : Fails (indexSpec <|> defaultSpec <|> description) (ahead (";" :: more)) :=
    (indexSpec_fails (ends_ahead rfl (by decide))).orElse
      (((fails_char (ends_ahead rfl (by decide))).bind.named _).orElse
        (description_fails (ends_ahead rfl (by decide))))
  rw [field_tokens]
  refine Gives.left fun n => Gives.named _ (declared_gives printable.access printable.symbol.1
    printable.symbol.2 (ident_consumes printable.symbol.1) printable.typeName ?_)
  exact (many_takes each stop).andThen fun clauses read =>
    (char_consumes ';' (by decide)).map fun _ _ => FieldDecl.readAs_of_clauses read n

theorem record_tokens (d : RecordDecl) : (Statement.record d).tokens ++ more =
    "record" :: (d.access.tokens ++ d.symbol :: (d.instances.flatMap Instance.tokens
      ++ ((objectAttributes d.index d.description d.properties).flatMap Attribute.tokens
        ++ "\x7b" :: (d.fields.flatMap FieldDecl.tokens ++ "\x7d" :: ";" :: more)))) := by
  simp [Statement.tokens]

theorem recordStatement_consumes {d : RecordDecl} (printable : d.Printable) :
    Consumes recordStatement ((Statement.record d).tokens ++ more) more
      (Statement.record d).ReadAs := by
  have instances : ReadsAll recordInstance Instance.tokens Instance.ReadAs d.instances :=
    fun i member => ⟨nofun, fun _ => recordInstance_consumes (printable.instances i member)⟩
  have object := objectAttributes_printable d.description printable.index printable.properties
  have fields : ReadsAll fieldStatement FieldDecl.tokens FieldDecl.ReadAs d.fields :=
    fun field member => ⟨nofun, fun _ => fieldStatement_consumes (printable.fields field member)⟩
  have noInstance : ∀ more, Fails recordInstance (ahead
      ((objectAttributes d.index d.description d.properties).flatMap Attribute.tokens
        ++ "\x7b" :: more)) := fun _ =>
    (fails_char (ends_attributes (by decide) _ (ends_ahead rfl (by decide)))).bind.named _
  have noField : ∀ more, Fails fieldStatement (ahead ("\x7d" :: more)) := fun _ =>
    (reads_left _).bind_fails
      ((typeName_fails (ends_ahead rfl (by decide))).bind.named _)
  rw [record_tokens]
  refine Gives.left fun n => Gives.named _ ?_
  refine (keyword_consumes _ (by decide)).takes.andThen fun _ _ => ?_
  refine accessed_gives printable.access printable.symbol.1 printable.symbol.2
    (name_consumes printable.symbol.1) ?_
  refine (many_takes instances (noInstance _)).andThen fun _ readInstances => ?_
  refine (objectClauses_takes object (ends_ahead rfl (by decide))).andThen
    fun _ read => ?_
  refine (char_consumes '\x7b' (by decide)).takes.andThen fun _ _ => ?_
  refine (many_takes fields (noField _)).andThen fun _ readFields => ?_
  refine (char_consumes '\x7d' (by decide)).takes.andThen fun _ _ => ?_
  exact (char_consumes ';' (by decide)).map fun _ _ =>
    Statement.record_readAs readInstances read readFields n

/-! ## Directives and assignments -/

theorem make_tokens (d : Directive) : (Statement.make d).tokens ++ more =
    "make" :: d.generator :: (d.args.flatMap (fun arg => [quoted arg]) ++ ";" :: more) := by
  simp [Statement.tokens, List.map_eq_flatMap]

theorem makeStatement_consumes {d : Directive} (valid : isName d.generator = true) :
    Consumes makeStatement ((Statement.make d).tokens ++ more) more (Statement.make d).ReadAs := by
  have each : ReadsAll (string <|> named .makeArg (lexeme lexArg)) (fun arg => [quoted arg])
      (fun arg read => read = id arg) d.args :=
    fun arg _ => ⟨nofun, fun _ => Gives.orElse (string_consumes arg)⟩
  have stop : Fails (string <|> named .makeArg (lexeme lexArg)) (ahead (";" :: more)) :=
    ((fails_lexeme (lexString_none (ends_ahead rfl (by decide)))).named _).orElse
      ((fails_lexeme (lexRun_none (ends_ahead rfl (by decide)))).named _)
  rw [make_tokens]
  refine Gives.left fun n => Gives.named _ ?_
  refine (keyword_consumes _ (by decide)).takes.andThen fun _ _ => ?_
  refine (name_consumes valid).takes.andThen ?_
  rintro _ rfl
  refine (many_takes each stop).andThen fun args read => ?_
  refine (char_consumes ';' (by decide)).map fun _ _ => ?_
  rw [forall₂_eq_map read, List.map_id]
  exact fun source => ⟨_, rfl, rfl⟩

theorem assign_tokens (d : Assignment) : (Statement.assign d).tokens ++ more =
    d.symbol :: "=" :: d.value.token :: ";" :: more :=
  rfl

theorem assignStatement_consumes {d : Assignment} (valid : isName d.symbol = true)
    (printable : d.value.Printable isName) :
    Consumes assignStatement ((Statement.assign d).tokens ++ more) more
      (Statement.assign d).ReadAs := by
  rw [assign_tokens]
  refine Gives.left fun n => Gives.named _ ?_
  refine (name_consumes valid).takes.andThen ?_
  rintro _ rfl
  refine (char_consumes '=' (by decide)).takes.andThen fun _ _ => ?_
  refine (expr_consumes printable).takes.andThen fun draft read => ?_
  exact (char_consumes ';' (by decide)).map fun _ _ => Statement.assign_readAs read n

/-- Behind the leading word of an assigned name stands a dot or the equals sign. -/
theorem stuck_assigned {symbol : String} (valid : isName symbol = true) :
    Stuck (skipBlanks (trail symbol ++ after ("=" :: more))) := by
  rcases trail_of_isName valid with none | ⟨rest, dot⟩
  · rw [none]
    exact stuck_ahead rfl (by decide)
  · rw [dot, List.cons_append, skipBlanks_of_ends (ends_cons.mpr (by decide))]
    exact stuck_cons (by decide)

theorem recordStatement_fails_assigned {symbol : String} (valid : isName symbol = true) :
    Fails recordStatement (ahead (symbol :: "=" :: more)) :=
  (reads_left _).bind_fails (Fails.named _ (keyword_fails _
    (isToken_of_isStarted startsNames_isNameStart valid) (leadsWord_of_isStarted valid) fun _ =>
      (stuck_assigned valid).accessed_fails))

theorem declared_fails_assigned {β : Type} {k : String → Access → String → Parser β}
    {symbol : String} (valid : isName symbol = true) :
    Fails (declared name k) (ahead (symbol :: "=" :: more)) := by
  have ends : Ends isWordChar (after ("=" :: more)) := after_ends (by decide) _
  have noWidth : lexWidth (trail symbol ++ after ("=" :: more)) = none := by
    refine lexWidth_none ?_
    rcases trail_of_isName valid with none | ⟨rest, dot⟩
    · rw [none]
      exact after_ends (by decide) _
    · rw [dot]
      exact ends_cons.mpr (by decide)
  have lexed : lexTypeName (symbol.toList ++ after ("=" :: more)) =
      some (leadingWord symbol, trail symbol ++ after ("=" :: more)) := by
    simp only [lexTypeName, lexIdent_append valid ends, noWidth, Option.bind_eq_bind,
      Option.bind_some]
  rw [ahead_cons (isToken_of_isStarted startsNames_isNameStart valid)]
  exact ((reads_lexeme lexed).named _).bind_fails ((reads_blanks _).bind_fails
    (stuck_assigned valid).accessed_fails)

/-! ## All statements -/

theorem statement_consumes {s : Statement} (printable : s.Printable) :
    Consumes statement (s.tokens ++ more) more s.ReadAs := by
  match s, printable with
  | .make d, printable => exact Gives.orElse (makeStatement_consumes printable)
  | .record d, printable =>
      refine Gives.orElse_right (Gives.orElse (recordStatement_consumes printable)) ?_
      rw [record_tokens]
      exact makeStatement_fails (by decide) (leadsWord_of_isStarted (by decide : isIdent "record"))
        fun same => absurd same (by decide)
  | .array d, printable =>
      refine Gives.orElse_right (Gives.orElse_right
        (Gives.orElse (arrayStatement_consumes printable)) ?_) ?_
      · rw [array_tokens]
        exact recordStatement_fails_type printable.typeName.1 printable.access printable.symbol.1
          printable.symbol.2 [] (List.forall_mem_nil _)
          (ends_ahead rfl (by decide))
      · rw [array_tokens]
        exact makeStatement_fails_type printable.typeName.1 printable.typeName.2
  | .variable d, printable =>
      refine Gives.orElse_right (Gives.orElse_right (Gives.orElse_right
        (Gives.orElse (variableStatement_consumes printable)) ?_) ?_) ?_
      · exact arrayStatement_fails_variable printable
      · rw [variable_tokens, List.flatMap_append, List.append_assoc]
        refine recordStatement_fails_type printable.typeName.1 printable.access printable.symbol.1
          printable.symbol.2 _
          (objectAttributes_printable _ printable.index printable.properties) ?_
        cases d.default with
        | none => exact ends_ahead rfl (by decide)
        | some e => exact ends_ahead rfl (by decide)
      · rw [variable_tokens]
        exact makeStatement_fails_type printable.typeName.1 printable.typeName.2
  | .assign d, ⟨valid, printable⟩ =>
      refine Gives.orElse_right (Gives.orElse_right (Gives.orElse_right (Gives.orElse_right
        (assignStatement_consumes valid printable) ?_) ?_) ?_) ?_
      · exact (reads_left _).bind_fails ((declared_fails_assigned valid).named _)
      · exact (reads_left _).bind_fails ((declared_fails_assigned valid).named _)
      · exact recordStatement_fails_assigned valid
      · exact makeStatement_fails (isToken_of_isStarted startsNames_isNameStart valid)
          (leadsWord_of_isStarted valid) fun _ => stuck_assigned valid

theorem statement_fails {text : List Char} (ends : Ends isWordChar text) :
    Fails statement text := by
  have noStart : Ends isNameStart text := ends.mono fun _ => isWordChar_of_isNameStart
  have noKeyword : ∀ word, lexKeyword word text = none := by
    intro word
    rw [lexKeyword, lexRun_none ends]
    rfl
  refine Fails.orElse ?_ (Fails.orElse ?_ (Fails.orElse ?_ (Fails.orElse ?_ ?_)))
  · exact (reads_left _).bind_fails (((fails_lexeme (noKeyword _)).named _).bind.named _)
  · exact (reads_left _).bind_fails (((fails_lexeme (noKeyword _)).named _).bind.named _)
  · exact (reads_left _).bind_fails ((typeName_fails noStart).bind.named _)
  · exact (reads_left _).bind_fails ((typeName_fails noStart).bind.named _)
  · exact (reads_left _).bind_fails ((started_fails .name noStart).bind.named _)

/-! ## Whole texts -/

theorem file_reads {tree : List Statement} (printable : ∀ s ∈ tree, s.Printable) :
    ∃ drafts, Reads file (print tree).toList drafts [] ∧
      List.Forall₂ Statement.ReadAs tree drafts := by
  have each : ReadsAll statement Statement.tokens Statement.ReadAs tree := fun s member =>
    ⟨by cases s <;> nofun, fun _ => statement_consumes (printable s member)⟩
  have stop : Fails statement (ahead []) := by
    rw [ahead_nil]
    exact statement_fails (ends_nil _)
  obtain ⟨drafts, rest, read, between, all⟩ := many_takes each stop
  refine ⟨drafts, Reads.named _ ?_, all⟩
  refine (reads_blanks _).bind ?_
  rw [print, skipBlanks_intercalate, ← List.append_nil (tree.flatMap _)]
  refine read.bind ((reads_blanks _).bind ?_)
  rw [between, ahead_nil]
  exact ((reads_lexeme rfl).named _).bind (reads_pure drafts [])

/-- Parsing undoes printing, up to the places in the text. -/
theorem parse_print {tree : List Statement} (printable : ∀ s ∈ tree, s.Printable) :
    ∃ read, parse (print tree) = .ok read ∧
      read.map Statement.unplaced = tree.map Statement.unplaced := by
  obtain ⟨drafts, read, all⟩ := file_reads printable
  obtain ⟨statements, checked, same⟩ := mapM_ok_of_forall₂ Statement.unplaced
    (List.forall₂_map_left_iff.mpr (all.imp fun _ _ readAs => readAs (print tree).toList))
  refine ⟨statements, ?_, same⟩
  have drafted : Source.drafts (print tree).toList = .ok drafts := by
    rw [Source.drafts, read.eq]
  rw [parse, drafted]
  exact checked

/-- Two probes that are made from one template. -/
def probeDecl : RecordDecl where
  place := Location.start
  access := Access.read
  symbol := "probe"
  instances := [⟨.literal (.int 0x6000), "First"⟩, ⟨.symbol .index "probe_0", "Second"⟩]
  index := none
  description := none
  properties := [⟨"unit", .literal (.str "mm")⟩]
  fields := [
    { place := Location.start, typeName := "UINT", access := ⟨0x40⟩, symbol := "value",
      subindex := some (.literal (.int 5)), default := some (.symbol .default "make.gain"),
      description := some "" },
    { place := Location.start, typeName := "STRING(4)", access := Access.empty, symbol := "record",
      subindex := none, default := none, description := none }]

/-- Statements of all kinds. Keywords stand where names and types may stand, texts have quotes and
backslashes, and an integer is the least one. -/
def gaugeTree : List Statement := [
  .assign {
    place := Location.start, symbol := "make.gain", value := .literal (.int Int64.minValue) },
  .variable {
    place := Location.start, typeName := "record", access := ⟨0x1041⟩, symbol := "in.level",
    index := some (.literal (.int 0x2000)), default := some (.symbol .index "record"),
    description := some "a \"b\" \\ c", properties := [⟨"unit", .symbol .reference "gain"⟩] },
  .array {
    place := Location.start, typeName := "STRING(8)", access := Access.empty, symbol := "map",
    size := none, index := none, description := none, properties := [],
    values := [.symbol .reference "in.*", .symbol .default "?"] },
  .record probeDecl,
  .make { place := Location.start, generator := "make", args := ["a b.bin", "record"] }]

theorem probeDecl_printable : probeDecl.Printable where
  access := by decide
  symbol := by decide
  instances := by decide
  index := nofun
  properties := List.forall_mem_singleton.mpr ⟨by decide, by decide⟩
  fields := by
    refine List.forall_mem_cons.mpr ⟨?_, List.forall_mem_singleton.mpr ?_⟩
    · exact {
        typeName := Or.inl (by decide)
        access := by decide
        symbol := by decide
        subindex := by decide
        default := by decide }
    · exact {
        typeName := Or.inr ⟨"STRING", "4", by decide⟩
        access := by decide
        symbol := by decide
        subindex := nofun
        default := nofun }

theorem parse_print_gauge :
    print gaugeTree =
      "make.gain = -9223372036854775808 ; "
      ++ "record read_preop rx_pdo_mapping safe_parameter in.level @ 8192 "
      ++ "\"a \\\"b\\\" \\\\ c\" . unit = &gain = $record ; "
      ++ "STRING(8) map [ ] = \x7b &in.* , ? \x7d ; "
      ++ "record read_preop read_safeop read_op probe ( 24576 , \"First\" ) "
      ++ "( $probe_0 , \"Second\" ) . unit = \"mm\" \x7b "
      ++ "UINT rx_pdo_mapping value @ 5 \"\" = make.gain ; STRING(4) record ; \x7d ; "
      ++ "make make \"a b.bin\" \"record\" ;" ∧
    ∃ read, parse (print gaugeTree) = .ok read ∧
      read.map Statement.unplaced = gaugeTree.map Statement.unplaced := by
  refine ⟨by decide +kernel, parse_print ?_⟩
  refine List.forall_mem_cons.mpr ⟨⟨by decide, trivial⟩, List.forall_mem_cons.mpr ⟨?_,
    List.forall_mem_cons.mpr ⟨?_, List.forall_mem_cons.mpr ⟨probeDecl_printable,
      List.forall_mem_singleton.mpr ?_⟩⟩⟩⟩
  · exact {
      typeName := ⟨Or.inl (by decide), by decide⟩
      access := by decide
      symbol := by decide
      index := by decide
      properties := List.forall_mem_singleton.mpr ⟨by decide, by decide⟩
      default := by decide }
  · exact {
      typeName := ⟨Or.inr ⟨"STRING", "8", by decide⟩, by decide⟩
      access := by decide
      symbol := by decide
      size := nofun
      index := nofun
      properties := List.forall_mem_nil _
      values := by decide }
  · exact (by decide : isName "make" = true)

end EcatDevice.Source
