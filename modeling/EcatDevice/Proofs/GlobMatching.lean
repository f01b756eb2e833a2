import EcatDevice.Glob
import Mathlib.Data.List.Forall2
import Mathlib.Data.List.Infix

/-! # Matching of patterns

What an expression means is said here without an engine, and so is what a pattern stands for. For an
engine that decides expressions, the translation of a pattern matches just the names that the
pattern stands for, as long as no line feed is in them.
-/

namespace EcatDevice

/-! ## Expressions -/

namespace Regex

/-- Items match from the place of a text on that has `rest` behind it. -/
inductive Spans (text : List Char) : List Item → List Char → Prop where
  | done {rest : List Char} : Spans text [] rest
  | start {items : List Item} (later : Spans text items text) : Spans text (.start :: items) text
  | stop {items : List Item} (later : Spans text items []) : Spans text (.stop :: items) []
  | any {items : List Item} {c : Char} {rest : List Char} (noFeed : c ≠ '\n')
      (later : Spans text items rest) : Spans text (.any :: items) (c :: rest)
  | run {items : List Item} {front rest : List Char} (noFeed : '\n' ∉ front)
      (later : Spans text items rest) : Spans text (.run :: items) (front ++ rest)
  | char {items : List Item} {c : Char} {rest : List Char} (later : Spans text items rest) :
      Spans text (.char c :: items) (c :: rest)

/-- Items match somewhere in a text. -/
def Occurs (items : List Item) (text : List Char) : Prop :=
  ∃ rest, rest <:+ text ∧ Spans text items rest

/-- The expression for an item. -/
def Item.written (engine : Engine) : Item → String
  | .start => "^"
  | .stop => "$"
  | .any => "."
  | .run => ".*"
  | .char c => engine.escape (String.singleton c)

/-- The expression for items, bound to both ends of the text. -/
def anchored (engine : Engine) (items : List Item) : String :=
  "^" ++ String.join (items.map (Item.written engine)) ++ "$"

/-- The engine accepts the expression for items, bound to both ends of the text, and decides it. -/
def Engine.Decides (engine : Engine) (items : List Item) : Prop :=
  ∃ test, engine.compile (anchored engine items) = .ok test ∧
    ∀ text : String, test text = true ↔ Occurs ([.start] ++ items ++ [.stop]) text.toList

section Inversion

variable {text rest : List Char} {items : List Item}

theorem spans_start : Spans text (.start :: items) rest ↔ rest = text ∧ Spans text items rest := by
  constructor
  · rintro ⟨⟩
    exact ⟨rfl, ‹_›⟩
  · rintro ⟨rfl, later⟩
    exact .start later

theorem spans_stop : Spans text (.stop :: items) rest ↔ rest = [] ∧ Spans text items rest := by
  constructor
  · rintro ⟨⟩
    exact ⟨rfl, ‹_›⟩
  · rintro ⟨rfl, later⟩
    exact .stop later

theorem spans_any : Spans text (.any :: items) rest ↔
    ∃ c more, rest = c :: more ∧ isAny c = true ∧ Spans text items more := by
  constructor
  · rintro (_ | _ | _ | ⟨noFeed, later⟩)
    exact ⟨_, _, rfl, bne_iff_ne.mpr noFeed, later⟩
  · rintro ⟨c, more, rfl, noFeed, later⟩
    exact .any (bne_iff_ne.mp noFeed) later

theorem spans_run : Spans text (.run :: items) rest ↔
    ∃ front more, rest = front ++ more ∧ (∀ c ∈ front, isAny c = true) ∧
      Spans text items more := by
  constructor
  · rintro (_ | _ | _ | _ | ⟨noFeed, later⟩)
    refine ⟨_, _, rfl, ?_, later⟩
    rintro c inside
    exact bne_iff_ne.mpr fun feed => noFeed (feed ▸ inside)
  · rintro ⟨front, more, rfl, noFeed, later⟩
    exact .run (fun inside => bne_iff_ne.mp (noFeed _ inside) rfl) later

theorem spans_char {c : Char} : Spans text (.char c :: items) rest ↔
    ∃ d more, rest = d :: more ∧ (d == c) = true ∧ Spans text items more := by
  constructor
  · rintro (_ | _ | _ | _ | _ | later)
    exact ⟨_, _, rfl, beq_self_eq_true _, later⟩
  · rintro ⟨d, more, rfl, same, later⟩
    obtain rfl := eq_of_beq same
    exact .char later

end Inversion

/-! ## The plain engine -/

/-- A row holds the answers to a question about all suffixes of a text, the longest first. -/
def Answers (question : List Char → Prop) (text : List Char) (row : List Bool) : Prop :=
  List.Forall₂ (fun rest answer => answer = true ↔ question rest) text.tails row

section Rows

variable {question other : List Char → Prop} {c : Char} {text : List Char} {row : List Bool}

theorem answers_nil : Answers question [] row ↔ ∃ b, (b = true ↔ question []) ∧ row = [b] := by
  refine List.forall₂_cons_left_iff.trans ?_
  simp only [List.forall₂_nil_left_iff, exists_eq_left, exists_and_left]

theorem answers_cons : Answers question (c :: text) row ↔
    ∃ b more, (b = true ↔ question (c :: text)) ∧ Answers question text more ∧ row = b :: more :=
  List.forall₂_cons_left_iff

theorem Answers.head (answers : Answers question text row) :
    ∃ b more, (b = true ↔ question text) ∧ row = b :: more := by
  cases text with
  | nil =>
      obtain ⟨b, about, rfl⟩ := answers_nil.mp answers
      exact ⟨b, [], about, rfl⟩
  | cons c text =>
      obtain ⟨b, more, about, -, rfl⟩ := answers_cons.mp answers
      exact ⟨b, more, about, rfl⟩

theorem Answers.congr (answers : Answers question text row)
    (same : ∀ rest, question rest ↔ other rest) : Answers other text row :=
  answers.imp fun rest _ about => about.trans (same rest)

theorem Answers.any (answers : Answers question text row) :
    row.any id = true ↔ ∃ rest, rest <:+ text ∧ question rest := by
  induction text generalizing row with
  | nil =>
      obtain ⟨b, about, rfl⟩ := answers_nil.mp answers
      simp [about]
  | cons c text ih =>
      obtain ⟨b, more, about, below, rfl⟩ := answers_cons.mp answers
      simp [List.suffix_cons_iff, about, ih below, or_and_right, exists_or]

theorem Answers.none (answers : Answers question text row)
    (never : ∀ rest, rest <:+ text → ¬ other rest) :
    Answers other text (row.map fun _ => false) := by
  induction text generalizing row with
  | nil =>
      obtain ⟨b, -, rfl⟩ := answers_nil.mp answers
      exact answers_nil.mpr ⟨false, by simp [never [] List.nil_suffix], rfl⟩
  | cons c text ih =>
      obtain ⟨b, more, -, below, rfl⟩ := answers_cons.mp answers
      refine answers_cons.mpr ⟨false, _, by simp [never _ List.suffix_rfl], ?_, rfl⟩
      exact ih below fun rest inside => never rest (inside.trans (List.suffix_cons c text))

theorem allRow_answers (text : List Char) :
    Answers (fun _ => True) text (List.replicate (text.length + 1) true) := by
  induction text with
  | nil => exact answers_nil.mpr ⟨true, by simp, rfl⟩
  | cons c text ih => exact answers_cons.mpr ⟨true, _, by simp, ih, rfl⟩

theorem startRow_answers (answers : Answers question text row) :
    Answers (fun rest => rest = text ∧ question rest) text (startRow row) := by
  cases text with
  | nil =>
      obtain ⟨b, about, rfl⟩ := answers_nil.mp answers
      exact answers_nil.mpr ⟨b, by simp [about], rfl⟩
  | cons c text =>
      obtain ⟨b, more, about, below, rfl⟩ := answers_cons.mp answers
      refine answers_cons.mpr ⟨b, _, by simp [about], below.none ?_, rfl⟩
      rintro rest inside ⟨rfl, -⟩
      exact absurd inside.length_le (by simp)

theorem stopRow_answers (answers : Answers question text row) :
    Answers (fun rest => rest = [] ∧ question rest) text (stopRow row) := by
  induction text generalizing row with
  | nil =>
      obtain ⟨b, about, rfl⟩ := answers_nil.mp answers
      exact answers_nil.mpr ⟨b, by simp [about], rfl⟩
  | cons c text ih =>
      obtain ⟨here, row, -, below, rfl⟩ := answers_cons.mp answers
      obtain ⟨next, more, -, rfl⟩ := below.head
      exact answers_cons.mpr ⟨false, _, by simp, ih below, rfl⟩

theorem charRow_answers (p : Char → Bool) (answers : Answers question text row) :
    Answers (fun whole => ∃ c rest, whole = c :: rest ∧ p c = true ∧ question rest) text
      (charRow p text row) := by
  induction text generalizing row with
  | nil => exact answers_nil.mpr ⟨false, by simp, rfl⟩
  | cons c text ih =>
      obtain ⟨here, row, -, below, rfl⟩ := answers_cons.mp answers
      obtain ⟨next, more, behind, rfl⟩ := below.head
      exact answers_cons.mpr ⟨p c && next, _, by simp [behind], ih below, rfl⟩

theorem run_cons {p : Char → Bool} :
    (∃ front rest, c :: text = front ++ rest ∧ (∀ d ∈ front, p d = true) ∧ question rest) ↔
      question (c :: text) ∨ p c = true ∧
        ∃ front rest, text = front ++ rest ∧ (∀ d ∈ front, p d = true) ∧ question rest := by
  constructor
  · rintro ⟨_ | ⟨d, front⟩, rest, same, passes, asked⟩
    · exact .inl (same ▸ asked)
    · obtain ⟨rfl, rfl⟩ := List.cons.inj same
      obtain ⟨first, others⟩ := List.forall_mem_cons.mp passes
      exact .inr ⟨first, front, rest, rfl, others, asked⟩
  · rintro (asked | ⟨first, front, rest, rfl, others, asked⟩)
    · exact ⟨[], _, rfl, by simp, asked⟩
    · exact ⟨c :: front, rest, rfl, List.forall_mem_cons.mpr ⟨first, others⟩, asked⟩

theorem runRow_answers (p : Char → Bool) (answers : Answers question text row) :
    Answers (fun whole => ∃ front rest, whole = front ++ rest ∧ (∀ c ∈ front, p c = true) ∧
      question rest) text (runRow p text row) := by
  induction text generalizing row with
  | nil =>
      obtain ⟨b, about, rfl⟩ := answers_nil.mp answers
      refine answers_nil.mpr ⟨b, ?_, rfl⟩
      simp [List.nil_eq, List.append_eq_nil_iff, about]
  | cons c text ih =>
      obtain ⟨here, row, about, below, rfl⟩ := answers_cons.mp answers
      obtain ⟨later, more, behind, same⟩ := (ih below).head
      refine answers_cons.mpr ⟨here || p c && later, runRow p text row, ?_, ih below, ?_⟩
      · simp only [Bool.or_eq_true, Bool.and_eq_true, about, behind, run_cons]
      · rw [runRow, same]

theorem rows_answers (text : List Char) (items : List Item) :
    Answers (Spans text items) text (rows text items) := by
  fun_induction rows text items with
  | case1 => exact (allRow_answers text).congr fun _ => iff_of_true trivial .done
  | case2 items ih => exact (startRow_answers ih).congr fun _ => spans_start.symm
  | case3 items ih => exact (stopRow_answers ih).congr fun _ => spans_stop.symm
  | case4 items ih => exact (charRow_answers _ ih).congr fun _ => spans_any.symm
  | case5 items ih => exact (runRow_answers _ ih).congr fun _ => spans_run.symm
  | case6 c items ih => exact (charRow_answers _ ih).congr fun _ => spans_char.symm

theorem occurs_iff (items : List Item) (text : List Char) :
    occurs items text = true ↔ Occurs items text :=
  (rows_answers text items).any

end Rows

/-- What the plain engine writes for items. -/
def plainText (items : List Item) : List Char :=
  items.flatMap fun item => (item.written .plain).toList

theorem plainText_cons (item : Item) (items : List Item) :
    plainText (item :: items) = (item.written .plain).toList ++ plainText items :=
  List.flatMap_cons

theorem written_char (c : Char) : ((Item.char c).written .plain).toList = escapeChar c := by
  simp [Item.written, Engine.plain]

/-- No item starts with a star, so `any` in front of others is not taken for `run`. -/
theorem plainText_noStar (items : List Item) (more : List Char) :
    plainText items ≠ '*' :: more := by
  cases items with
  | nil => exact (List.cons_ne_nil _ _).symm
  | cons item items =>
      rw [plainText_cons]
      cases item with
      | char c =>
          rw [written_char]
          unfold escapeChar
          split
          · simp
          · next plain =>
              rintro same
              obtain ⟨rfl, -⟩ := List.cons.inj same
              exact plain (by decide)
      | _ => simp [Item.written]

theorem read_escapeChar (c : Char) (rest : List Char) :
    read (escapeChar c ++ rest) = (read rest).map (.char c :: ·) := by
  unfold escapeChar
  split
  · rfl
  · next plain =>
      have other : c ≠ '^' ∧ c ≠ '$' ∧ c ≠ '.' ∧ c ≠ '\\' := by
        refine ⟨?_, ?_, ?_, ?_⟩ <;> rintro rfl <;> exact plain (by decide)
      rw [List.singleton_append, read, if_neg plain]
      all_goals simp [other]

theorem read_plainText (items : List Item) : read (plainText items) = some items := by
  induction items with
  | nil => rfl
  | cons item items ih =>
      rw [plainText_cons]
      cases item with
      | start => exact congrArg (Option.map (Item.start :: ·)) ih
      | stop => exact congrArg (Option.map (Item.stop :: ·)) ih
      | run => exact congrArg (Option.map (Item.run :: ·)) ih
      | any =>
          have single : read ('.' :: plainText items) = (read (plainText items)).map (.any :: ·) :=
            read.eq_5 _ (plainText_noStar items)
          exact single.trans (congrArg (Option.map (Item.any :: ·)) ih)
      | char c => rw [written_char, read_escapeChar, ih, Option.map_some]

theorem anchored_plain (items : List Item) :
    (anchored .plain items).toList = plainText ([.start] ++ items ++ [.stop]) := by
  simp [anchored, plainText, Item.written, String.toList_join, List.flatMap_map]

theorem compile_plain {expression : String} {items : List Item}
    (form : read expression.toList = some items) :
    Engine.plain.compile expression = .ok fun text => occurs items text.toList := by
  simp only [Engine.plain, form]

theorem plain_decides (items : List Item) : Engine.plain.Decides items := by
  have form : read (anchored .plain items).toList = some ([.start] ++ items ++ [.stop]) := by
    rw [anchored_plain, read_plainText]
  exact ⟨_, compile_plain form, fun text => occurs_iff _ _⟩

end Regex

/-! ## Patterns -/

namespace Glob

/-- A pattern stands for a text. -/
inductive Matches : List Char → List Char → Prop where
  | done : Matches [] []
  | run {pattern text : List Char} (front : List Char) (rest : Matches pattern text) :
      Matches ('*' :: pattern) (front ++ text)
  | one {pattern text : List Char} (c : Char) (rest : Matches pattern text) :
      Matches ('?' :: pattern) (c :: text)
  | same {c : Char} {pattern text : List Char} (noStar : c ≠ '*') (noMark : c ≠ '?')
      (rest : Matches pattern text) : Matches (c :: pattern) (c :: text)

/-- The item that a character of a pattern is translated to. -/
def item : Char → Regex.Item
  | '*' => .run
  | '?' => .any
  | c => .char c

theorem item_plain {c : Char} (noStar : c ≠ '*') (noMark : c ≠ '?') : item c = .char c := by
  unfold item
  split <;> simp_all

theorem piece_eq (engine : Regex.Engine) (c : Char) : piece engine c = (item c).written engine := by
  unfold piece
  split
  · rfl
  · rfl
  · next noStar noMark => rw [item_plain noStar noMark, Regex.Item.written]

section Inversion

variable {c : Char} {pattern text : List Char}

theorem matches_run : Matches ('*' :: pattern) text ↔
    ∃ front rest, text = front ++ rest ∧ Matches pattern rest := by
  constructor
  · intro whole
    cases whole with
    | run front later => exact ⟨front, _, rfl, later⟩
    | same noStar => exact absurd rfl noStar
  · rintro ⟨front, rest, rfl, later⟩
    exact .run front later

theorem matches_one : Matches ('?' :: pattern) text ↔
    ∃ d rest, text = d :: rest ∧ Matches pattern rest := by
  constructor
  · intro whole
    cases whole with
    | one d later => exact ⟨d, _, rfl, later⟩
    | same _ noMark => exact absurd rfl noMark
  · rintro ⟨d, rest, rfl, later⟩
    exact .one d later

theorem matches_same (noStar : c ≠ '*') (noMark : c ≠ '?') : Matches (c :: pattern) text ↔
    ∃ d rest, text = d :: rest ∧ (d == c) = true ∧ Matches pattern rest := by
  constructor
  · intro whole
    cases whole with
    | run => exact absurd rfl noStar
    | one => exact absurd rfl noMark
    | same _ _ later => exact ⟨c, _, rfl, beq_self_eq_true c, later⟩
  · rintro ⟨d, rest, rfl, same, later⟩
    obtain rfl := eq_of_beq same
    exact .same noStar noMark later

end Inversion

/-- Without line feeds, the items of a pattern reach the end of the text just if the pattern stands
for the rest of it. -/
theorem spans_iff_matches (text : List Char) {rest : List Char} (noFeed : '\n' ∉ rest)
    (pattern : List Char) :
    Regex.Spans text (pattern.map item ++ [.stop]) rest ↔ Matches pattern rest := by
  induction pattern generalizing rest with
  | nil =>
      constructor
      · rintro ⟨⟩
        exact .done
      · rintro ⟨⟩
        exact .stop .done
  | cons c pattern ih =>
      rw [List.map_cons, List.cons_append]
      by_cases star : c = '*'
      · subst star
        refine Regex.spans_run.trans (Iff.trans ?_ matches_run.symm)
        refine exists₂_congr fun front more => and_congr_right ?_
        rintro rfl
        obtain ⟨before, behind⟩ := not_or.mp (List.mem_append.not.mp noFeed)
        rw [ih behind]
        exact and_iff_right fun d inside => bne_iff_ne.mpr fun feed => before (feed ▸ inside)
      · by_cases mark : c = '?'
        · subst mark
          refine Regex.spans_any.trans (Iff.trans ?_ matches_one.symm)
          refine exists₂_congr fun d more => and_congr_right ?_
          rintro rfl
          obtain ⟨first, behind⟩ := List.ne_and_not_mem_of_not_mem_cons noFeed
          rw [ih behind]
          exact and_iff_right (bne_iff_ne.mpr first.symm)
        · rw [item_plain star mark, Regex.spans_char, matches_same star mark]
          refine exists₂_congr fun d more => and_congr_right ?_
          rintro rfl
          rw [ih (List.not_mem_of_not_mem_cons noFeed)]

theorem occurs_iff_matches {text : List Char} (noFeed : '\n' ∉ text) (pattern : List Char) :
    Regex.Occurs ([.start] ++ pattern.map item ++ [.stop]) text ↔ Matches pattern text := by
  rw [← spans_iff_matches text noFeed]
  constructor
  · rintro ⟨rest, -, spans⟩
    cases spans with
    | start later => exact later
  · intro spans
    exact ⟨text, List.suffix_refl text, .start spans⟩

theorem expression_eq (engine : Regex.Engine) (pattern : String) :
    expression engine pattern = Regex.anchored engine (pattern.toList.map item) := by
  rw [expression, Regex.anchored, List.map_map, funext (piece_eq engine)]
  rfl

/-- An engine that decides the expression for a pattern tells the names it stands for. -/
theorem matcher_decides {engine : Regex.Engine} {pattern : String}
    (decides : engine.Decides (pattern.toList.map item)) :
    ∃ test, matcher engine pattern = .ok test ∧
      ∀ name : String, '\n' ∉ name.toList →
        (test name = true ↔ Matches pattern.toList name.toList) := by
  obtain ⟨test, accepted, decided⟩ := decides
  refine ⟨test, ?_, ?_⟩
  · rw [matcher, expression_eq, accepted]
  · intro name noFeed
    rw [decided, occurs_iff_matches noFeed]

end Glob

end EcatDevice
