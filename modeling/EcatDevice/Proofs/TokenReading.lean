import EcatDevice.Proofs.LexemeReading

/-! # Parsers on rows of tokens

Rules for what a parser does in front of a row of tokens that single blanks divide: it reads the
first few of them and stops behind them, or it fails. None of this depends on the frontier, which
only the messages of errors show.
-/

namespace EcatDevice.Source

open Source.Parser

variable {α β : Type}

/-! ## Reading and failing -/

/-- The parser reads `a` from the text and leaves the rest. -/
def Reads (p : Parser α) (text : List Char) (a : α) (rest : List Char) : Prop :=
  ∀ frontier, (p text frontier).1 = some (a, rest)

/-- The parser reads nothing from the text. -/
def Fails (p : Parser α) (text : List Char) : Prop :=
  ∀ frontier, (p text frontier).1 = none

section Rules

variable {p q : Parser α} {f : α → Parser β} {text middle rest : List Char} {a : α} {b : β}

theorem reads_pure (a : α) (text : List Char) : Reads (pure a) text a text :=
  fun _ => rfl

theorem Reads.eq (read : Reads p text a rest) (frontier : Frontier) :
    p text frontier = (some (a, rest), (p text frontier).2) :=
  Prod.ext (read frontier) rfl

theorem Fails.eq (fails : Fails p text) (frontier : Frontier) :
    p text frontier = (none, (p text frontier).2) :=
  Prod.ext (fails frontier) rfl

theorem Reads.bind (first : Reads p text a middle) (next : Reads (f a) middle b rest) :
    Reads (p >>= f) text b rest := by
  intro frontier
  change (Parser.bind p f text frontier).1 = _
  rw [Parser.bind, first.eq frontier]
  exact next _

theorem Reads.bind_fails (first : Reads p text a middle) (next : Fails (f a) middle) :
    Fails (p >>= f) text := by
  intro frontier
  change (Parser.bind p f text frontier).1 = _
  rw [Parser.bind, first.eq frontier]
  exact next _

theorem Fails.bind (first : Fails p text) : Fails (p >>= f) text := by
  intro frontier
  change (Parser.bind p f text frontier).1 = _
  rw [Parser.bind, first.eq frontier]

theorem Reads.orElse (first : Reads p text a rest) : Reads (p <|> q) text a rest := by
  intro frontier
  change (Parser.orElse p (fun _ => q) text frontier).1 = _
  rw [Parser.orElse, first.eq frontier]

theorem Fails.orElse_reads (first : Fails p text) (second : Reads q text a rest) :
    Reads (p <|> q) text a rest := by
  intro frontier
  change (Parser.orElse p (fun _ => q) text frontier).1 = _
  rw [Parser.orElse, first.eq frontier]
  exact second _

theorem Fails.orElse (first : Fails p text) (second : Fails q text) : Fails (p <|> q) text := by
  intro frontier
  change (Parser.orElse p (fun _ => q) text frontier).1 = _
  rw [Parser.orElse, first.eq frontier]
  exact second _

theorem Reads.named (rule : Rule) (read : Reads p text a rest) :
    Reads (Parser.named rule p) text a rest := by
  intro frontier
  rw [Parser.named, read.eq frontier]

theorem Fails.named (rule : Rule) (fails : Fails p text) : Fails (Parser.named rule p) text := by
  intro frontier
  rw [Parser.named, fails.eq frontier]

theorem reads_lexeme {lexer : Lexer α} (lexed : lexer text = some (a, rest)) :
    Reads (lexeme lexer) text a rest :=
  fun _ => lexed

theorem fails_lexeme {lexer : Lexer α} (lexed : lexer text = none) : Fails (lexeme lexer) text :=
  fun _ => lexed

theorem reads_blanks (text : List Char) : Reads blanks text () (skipBlanks text) :=
  fun _ => rfl

theorem reads_left (text : List Char) : Reads left text text.length text :=
  fun _ => rfl

theorem reads_char (c : Char) (rest : List Char) : Reads (char c) (c :: rest) () rest :=
  reads_lexeme (if_pos rfl)

theorem fails_char {c : Char} (ends : Ends (· == c) text) : Fails (char c) text := by
  refine fails_lexeme ?_
  split
  · exact if_neg (by simpa using ends_cons.mp ends)
  · rfl

end Rules

/-! ## Rows of tokens -/

/-- What follows a token: each further token behind a blank. -/
def after : List String → List Char
  | [] => []
  | token :: tokens => ' ' :: (token.toList ++ after tokens)

/-- The text from the first of the tokens on. -/
def ahead (tokens : List String) : List Char :=
  skipBlanks (after tokens)

/-- A text that starts neither with a blank nor with a comment. -/
def isToken (text : String) : Bool :=
  match text.toList with
  | c :: _ => !isBlank c && c != '/'
  | [] => false

theorem skipBlanks_blank (text : List Char) : skipBlanks (' ' :: text) = skipBlanks text := by
  rw [skipBlanks, skipBlanks]
  rfl

theorem skipBlanks_of_ends {text : List Char} (ends : Ends (fun c => isBlank c || c == '/') text) :
    skipBlanks text = text := by
  have noBlank : text.dropWhile isBlank = text :=
    (ends.mono fun c blank => by simp [blank]).dropWhile_append []
  have noComment : afterComment? text = none := by
    unfold afterComment?
    split
    · exact absurd (ends_cons.mp ends) (by decide)
    · exact absurd (ends_cons.mp ends) (by decide)
    · rfl
  rw [skipBlanks]
  split
  · next rest same =>
      rw [noBlank, noComment] at same
      cases same
  · exact noBlank

theorem skipBlanks_idempotent (text : List Char) :
    skipBlanks (skipBlanks text) = skipBlanks text := by
  fun_induction skipBlanks text with
  | case1 text rest same ih => exact ih
  | case2 text same =>
      have noBlank : (text.dropWhile isBlank).dropWhile isBlank = text.dropWhile isBlank :=
        (ends_dropWhile isBlank text).dropWhile_append []
      rw [skipBlanks]
      split
      · next rest comment =>
          rw [noBlank, same] at comment
          cases comment
      · exact noBlank

theorem after_ends {p : Char → Bool} (blank : p ' ' = false) (tokens : List String) :
    Ends p (after tokens) := by
  cases tokens with
  | nil => exact ends_nil p
  | cons token tokens => exact ends_cons.mpr blank

theorem ahead_nil : ahead [] = [] :=
  skipBlanks_of_ends (ends_nil _)

theorem intercalate_cons (token : String) (tokens : List String) :
    (" ".intercalate (token :: tokens)).toList = token.toList ++ after tokens := by
  induction tokens generalizing token with
  | nil => simp [after]
  | cons next tokens ih =>
      rw [String.intercalate_cons_cons, String.toList_append, ih, after]
      simp

/-- Tokens in a row, from the first one on. -/
theorem skipBlanks_intercalate (tokens : List String) :
    skipBlanks (" ".intercalate tokens).toList = ahead tokens := by
  cases tokens with
  | nil => rfl
  | cons token tokens => rw [intercalate_cons, ahead, after, skipBlanks_blank]

theorem ahead_cons {token : String} (proper : isToken token = true) (tokens : List String) :
    ahead (token :: tokens) = token.toList ++ after tokens := by
  rw [ahead, after, skipBlanks_blank]
  refine skipBlanks_of_ends ?_
  unfold isToken at proper
  split at proper
  · next c rest spelled =>
      rw [spelled]
      refine ends_cons.mpr ?_
      simpa using proper
  · cases proper

theorem skipBlanks_ahead (tokens : List String) : skipBlanks (ahead tokens) = ahead tokens :=
  skipBlanks_idempotent _

/-- In front of the tokens the parser reads something with the given property. -/
def Gives (p : Parser α) (tokens : List String) (post : α → List Char → Prop) : Prop :=
  ∃ a rest, Reads p (ahead tokens) a rest ∧ post a rest

/-- The parser reads up to the tokens `more`, or up to the blank in front of them. -/
def Takes (p : Parser α) (tokens more : List String) (good : α → Prop) : Prop :=
  Gives p tokens fun a rest => skipBlanks rest = ahead more ∧ good a

/-- The parser reads a token last and leaves what follows it. -/
def Consumes (p : Parser α) (tokens more : List String) (good : α → Prop) : Prop :=
  Gives p tokens fun a rest => rest = after more ∧ good a

section Tokens

variable {p q : Parser α} {f : α → β} {k : α → Parser β} {tokens middle more : List String}
  {good : α → Prop} {best : β → Prop} {post : α → List Char → Prop} {next : β → List Char → Prop}

theorem Consumes.takes (consumes : Consumes p tokens more good) : Takes p tokens more good := by
  obtain ⟨a, rest, read, rfl, holds⟩ := consumes
  exact ⟨a, _, read, rfl, holds⟩

theorem Gives.named (rule : Rule) (gives : Gives p tokens post) :
    Gives (Parser.named rule p) tokens post := by
  obtain ⟨a, rest, read, holds⟩ := gives
  exact ⟨a, rest, read.named rule, holds⟩

theorem Gives.orElse (gives : Gives p tokens post) : Gives (p <|> q) tokens post := by
  obtain ⟨a, rest, read, holds⟩ := gives
  exact ⟨a, rest, read.orElse, holds⟩

theorem Gives.orElse_right (gives : Gives q tokens post) (fails : Fails p (ahead tokens)) :
    Gives (p <|> q) tokens post := by
  obtain ⟨a, rest, read, holds⟩ := gives
  exact ⟨a, rest, fails.orElse_reads read, holds⟩

theorem Gives.left {k : Nat → Parser α} (gives : ∀ n, Gives (k n) tokens post) :
    Gives (left >>= k) tokens post := by
  obtain ⟨a, rest, read, holds⟩ := gives (ahead tokens).length
  exact ⟨a, rest, (reads_left _).bind read, holds⟩

/-- One part, blanks, and what comes behind them. -/
theorem Takes.andThen (first : Takes p tokens middle good)
    (second : ∀ a, good a → Gives (k a) middle next) :
    Gives (do let a ← p; blanks; k a) tokens next := by
  obtain ⟨a, rest, read, between, holds⟩ := first
  obtain ⟨b, last, readNext, holdsNext⟩ := second a holds
  refine ⟨b, last, read.bind ((reads_blanks rest).bind ?_), holdsNext⟩
  rwa [between]

theorem Takes.andThen_fails (first : Takes p tokens middle good)
    (second : ∀ a, good a → Fails (k a) (ahead middle)) :
    Fails (do let a ← p; blanks; k a) (ahead tokens) := by
  obtain ⟨a, rest, read, between, holds⟩ := first
  refine read.bind_fails ((reads_blanks rest).bind_fails ?_)
  rw [between]
  exact second a holds

theorem Consumes.map (consumes : Consumes p tokens more good)
    (fine : ∀ a, good a → best (f a)) :
    Consumes (do let a ← p; return f a) tokens more best := by
  obtain ⟨a, rest, read, same, holds⟩ := consumes
  exact ⟨f a, rest, read.bind (reads_pure _ _), same, fine a holds⟩

theorem Takes.map (takes : Takes p tokens more good) (fine : ∀ a, good a → best (f a)) :
    Takes (do let a ← p; return f a) tokens more best := by
  obtain ⟨a, rest, read, same, holds⟩ := takes
  exact ⟨f a, rest, read.bind (reads_pure _ _), same, fine a holds⟩

theorem Consumes.imp {better : α → Prop} (consumes : Consumes p tokens more good)
    (fine : ∀ a, good a → better a) : Consumes p tokens more better := by
  obtain ⟨a, rest, read, same, holds⟩ := consumes
  exact ⟨a, rest, read, same, fine a holds⟩

theorem Takes.imp {better : α → Prop} (takes : Takes p tokens more good)
    (fine : ∀ a, good a → better a) : Takes p tokens more better := by
  obtain ⟨a, rest, read, same, holds⟩ := takes
  exact ⟨a, rest, read, same, fine a holds⟩

theorem consumes_lexeme {lexer : Lexer α} {token : String} (proper : isToken token = true) {a : α}
    (lexed : lexer (token.toList ++ after more) = some (a, after more)) :
    Consumes (lexeme lexer) (token :: more) more (· = a) := by
  refine ⟨a, after more, reads_lexeme ?_, rfl, rfl⟩
  rwa [ahead_cons proper]

/-! ## Repetition -/

theorem optional_some (takes : Takes p tokens more good) :
    Takes (optional p) tokens more fun o => ∃ a, o = some a ∧ good a :=
  Gives.orElse (takes.map fun a holds => ⟨a, rfl, holds⟩)

theorem optional_none (fails : Fails p (ahead more)) :
    Takes (optional p) more more (· = none) :=
  ⟨none, _, fails.bind.orElse_reads (reads_pure _ _), skipBlanks_ahead more, rfl⟩

theorem many_none (stop : Fails p (ahead more)) : Takes (many p) more more (· = []) :=
  ⟨[], _, stop.bind.orElse_reads (reads_pure _ _), skipBlanks_ahead more, rfl⟩

section Many

variable {γ : Type} {write : γ → List String} {means : γ → α → Prop}

/-- A parser that reads each of the items wherever it stands. -/
def ReadsAll (p : Parser α) (write : γ → List String) (means : γ → α → Prop) (items : List γ) :
    Prop :=
  ∀ item ∈ items, write item ≠ [] ∧
    ∀ more, Consumes p (write item ++ more) more (means item)

theorem length_after_append (front back : List String) :
    (after back).length + front.length ≤ (after (front ++ back)).length := by
  induction front with
  | nil => simp
  | cons token front ih =>
      simp only [List.cons_append, after, List.length_cons, List.length_append]
      omega

theorem manyMore_reads {items : List γ} (each : ReadsAll p write means items)
    (stop : Fails p (ahead more)) :
    ∃ as rest, Reads (manyMore p) (after (items.flatMap write ++ more)) as rest ∧
      skipBlanks rest = ahead more ∧ List.Forall₂ means items as := by
  induction items with
  | nil =>
      refine ⟨[], after more, fun frontier => ?_, rfl, .nil⟩
      rw [List.flatMap_nil, List.nil_append, manyMore, ← ahead, stop.eq frontier]
  | cons item items ih =>
      obtain ⟨written, reads⟩ := each item List.mem_cons_self
      obtain ⟨a, _, read, rfl, holds⟩ := reads (items.flatMap write ++ more)
      obtain ⟨as, rest, readAll, between, all⟩ :=
        ih fun other member => each other (List.mem_cons_of_mem _ member)
      refine ⟨a :: as, rest, fun frontier => ?_, between, .cons holds all⟩
      have shorter : (after (items.flatMap write ++ more)).length <
          (after ((item :: items).flatMap write ++ more)).length := by
        have longer := length_after_append (write item) (items.flatMap write ++ more)
        have some := List.length_pos_of_ne_nil written
        rw [List.flatMap_cons, List.append_assoc]
        omega
      rw [List.flatMap_cons, List.append_assoc] at shorter ⊢
      rw [manyMore, ← ahead, read.eq frontier]
      simp only [if_pos shorter]
      rw [readAll.eq]

theorem many_takes {items : List γ} (each : ReadsAll p write means items)
    (stop : Fails p (ahead more)) :
    Takes (many p) (items.flatMap write ++ more) more (List.Forall₂ means items) := by
  cases items with
  | nil =>
      obtain ⟨as, rest, read, between, rfl⟩ := many_none stop
      exact ⟨[], rest, read, between, .nil⟩
  | cons item items =>
      obtain ⟨-, reads⟩ := each item List.mem_cons_self
      obtain ⟨a, _, read, rfl, holds⟩ := reads (items.flatMap write ++ more)
      obtain ⟨as, rest, readAll, between, all⟩ :=
        manyMore_reads (fun other member => each other (List.mem_cons_of_mem _ member)) stop
      rw [List.flatMap_cons, List.append_assoc]
      exact ⟨a :: as, rest, (read.bind (readAll.bind (reads_pure (a :: as) rest))).orElse, between,
        .cons holds all⟩

end Many

end Tokens

end EcatDevice.Source
