import EcatDevice.Proofs.Printing
import Mathlib.Data.List.TakeWhile
import Mathlib.Tactic

/-! # Reading of single tokens

Each lexer reads a printed token back and stops behind it, as long as what follows cannot go on with
the token.
-/

namespace EcatDevice

namespace Text

theorem digitValue_digitChar {d : Nat} (small : d < 16) : digitValue d.digitChar = d := by
  interval_cases d <;> decide

theorem readDigits_append (base : Nat) (digits : List Char) (c : Char) :
    readDigits base (digits ++ [c]) = readDigits base digits * base + digitValue c := by
  simp only [readDigits, List.foldl_append, List.foldl_cons, List.foldl_nil]

theorem readDigits_toDigits {base : Nat} (some : 1 < base) (few : base ≤ 16) (n : Nat) :
    readDigits base (Nat.toDigits base n) = n := by
  induction n using Nat.strong_induction_on with
  | _ n ih =>
      rw [Nat.toDigits_eq_if some]
      split
      · next small =>
          have alone := readDigits_append base [] n.digitChar
          rw [digitValue_digitChar (small.trans_le few)] at alone
          simpa [readDigits] using alone
      · next large =>
          rw [readDigits_append, ih (n / base) (Nat.div_lt_self (by omega) some),
            digitValue_digitChar ((Nat.mod_lt n (by omega)).trans_le few)]
          exact Nat.div_add_mod' n base

end Text

namespace Source

/-! ## Runs -/

/-- A text that does not go on with a character of a class. -/
def Ends (p : Char → Bool) (text : List Char) : Prop :=
  ∀ c ∈ text.head?, p c = false

theorem ends_nil (p : Char → Bool) : Ends p [] := nofun

theorem ends_cons {p : Char → Bool} {c : Char} {text : List Char} :
    Ends p (c :: text) ↔ p c = false := by
  simp [Ends]

theorem Ends.mono {p q : Char → Bool} {text : List Char} (ends : Ends p text)
    (weaker : ∀ c, q c = true → p c = true) : Ends q text := by
  intro c first
  by_contra goesOn
  have stops := ends c first
  rw [weaker c (by simpa using goesOn)] at stops
  cases stops

section Runs

variable {p start continued : Char → Bool} {run rest : List Char}

theorem Ends.takeWhile_append (ends : Ends p rest) (front : List Char) :
    (front ++ rest).takeWhile p = front.takeWhile p := by
  induction front with
  | nil =>
      cases rest with
      | nil => rfl
      | cons c rest => simp [ends_cons.mp ends]
  | cons c front ih => simp only [List.cons_append, List.takeWhile_cons, ih]

theorem Ends.dropWhile_append (ends : Ends p rest) (front : List Char) :
    (front ++ rest).dropWhile p = front.dropWhile p ++ rest := by
  induction front with
  | nil =>
      cases rest with
      | nil => rfl
      | cons c rest => simp [ends_cons.mp ends]
  | cons c front ih =>
      simp only [List.cons_append, List.dropWhile_cons, ih]
      split <;> rfl

theorem ends_dropWhile (p : Char → Bool) (text : List Char) : Ends p (text.dropWhile p) := by
  intro c first
  have head := List.head?_dropWhile_not p text
  rw [Option.mem_def.mp first] at head
  simpa using head

theorem takeWhile_run (all : ∀ c ∈ run, p c = true) (ends : Ends p rest) :
    (run ++ rest).takeWhile p = run := by
  rw [ends.takeWhile_append, List.takeWhile_eq_self_iff.mpr all]

theorem dropWhile_run (all : ∀ c ∈ run, p c = true) (ends : Ends p rest) :
    (run ++ rest).dropWhile p = rest := by
  rw [ends.dropWhile_append, List.dropWhile_eq_nil_iff.mpr all, List.nil_append]

theorem lexRun_append (nonempty : run ≠ []) (all : ∀ c ∈ run, p c = true) (ends : Ends p rest) :
    lexRun p (run ++ rest) = some (String.ofList run, rest) := by
  obtain ⟨c, more, rfl⟩ := List.exists_cons_of_ne_nil nonempty
  simp only [lexRun, takeWhile_run all ends, dropWhile_run all ends]

theorem lexRun_none (ends : Ends p rest) : lexRun p rest = none := by
  have none : rest.takeWhile p = [] := ends.takeWhile_append []
  simp only [lexRun, none]

theorem isStarted_iff {text : String} : isStarted start continued text = true ↔
    ∃ c more, text.toList = c :: more ∧ start c = true ∧ ∀ d ∈ more, continued d = true := by
  unfold isStarted
  split <;> simp [*]

theorem lexStarted_append {text : String} (valid : isStarted start continued text = true)
    (ends : Ends continued rest) :
    lexStarted start continued (text.toList ++ rest) = some (text, rest) := by
  obtain ⟨c, more, spelled, first, all⟩ := isStarted_iff.mp valid
  have back : String.ofList (c :: more) = text := by rw [← spelled, String.ofList_toList]
  simp only [spelled, List.cons_append, lexStarted, if_pos first, takeWhile_run all ends,
    dropWhile_run all ends, back]

theorem lexStarted_none (ends : Ends start rest) : lexStarted start continued rest = none := by
  cases rest with
  | nil => rfl
  | cons c rest => simp [lexStarted, ends_cons.mp ends]

end Runs

/-! ## Words -/

/-- What stands behind the leading word of a text. -/
def trail (text : String) : List Char :=
  text.toList.dropWhile isWordChar

/-- A text whose leading word is not empty. -/
def LeadsWord (text : String) : Prop :=
  ∃ c more, text.toList = c :: more ∧ isWordChar c = true

section Words

variable {text : String} {rest : List Char}

theorem lexWord_append (leads : LeadsWord text) (ends : Ends isWordChar rest) :
    lexRun isWordChar (text.toList ++ rest) = some (leadingWord text, trail text ++ rest) := by
  obtain ⟨c, more, spelled, first⟩ := leads
  have front : text.toList.takeWhile isWordChar = c :: more.takeWhile isWordChar := by
    rw [spelled, List.takeWhile_cons, if_pos first]
  simp only [lexRun, ends.takeWhile_append, ends.dropWhile_append, front, leadingWord, trail]

theorem lexKeyword_append (leads : LeadsWord text) (ends : Ends isWordChar rest) (word : String) :
    lexKeyword word (text.toList ++ rest) =
      if leadingWord text = word then some ((), trail text ++ rest) else none := by
  simp [lexKeyword, lexWord_append leads ends]

theorem lexAccess_append (leads : LeadsWord text) (ends : Ends isWordChar rest) :
    lexAccess (text.toList ++ rest) =
      (Access.ofKeyword? (leadingWord text)).map fun access => (access, trail text ++ rest) := by
  simp only [lexAccess, lexWord_append leads ends, Option.bind_eq_bind, Option.bind_some]
  cases Access.ofKeyword? (leadingWord text) <;> rfl

end Words

/-! ## Names -/

theorem isWordChar_of_isNameStart {c : Char} (first : isNameStart c = true) :
    isWordChar c = true := by
  simp only [isNameStart, isWordChar, Char.isAlphanum, Bool.or_eq_true] at first ⊢
  tauto

theorem leadsWord_of_isStarted {continued : Char → Bool} {text : String}
    (valid : isStarted isNameStart continued text = true) : LeadsWord text := by
  obtain ⟨c, more, spelled, first, -⟩ := isStarted_iff.mp valid
  exact ⟨c, more, spelled, isWordChar_of_isNameStart first⟩

theorem lexIdent_append {continued : Char → Bool} {text : String} {rest : List Char}
    (valid : isStarted isNameStart continued text = true) (ends : Ends isWordChar rest) :
    lexIdent (text.toList ++ rest) = some (leadingWord text, trail text ++ rest) := by
  obtain ⟨c, more, spelled, first, -⟩ := isStarted_iff.mp valid
  have word := isWordChar_of_isNameStart first
  simp only [lexIdent, lexStarted, spelled, List.cons_append, if_pos first, leadingWord, trail,
    List.takeWhile_cons_of_pos word, List.dropWhile_cons_of_pos word, ends.takeWhile_append,
    ends.dropWhile_append]

/-- An identifier is one word. -/
theorem word_of_isIdent {text : String} (valid : isIdent text = true) :
    leadingWord text = text ∧ trail text = [] := by
  obtain ⟨c, more, spelled, first, all⟩ := isStarted_iff.mp valid
  have word : ∀ d ∈ text.toList, isWordChar d = true := by
    simpa [spelled, isWordChar_of_isNameStart first] using all
  rw [leadingWord, trail, List.takeWhile_eq_self_iff.mpr word, List.dropWhile_eq_nil_iff.mpr word,
    String.ofList_toList]
  exact ⟨rfl, rfl⟩

/-- A name goes on behind its leading word with a dot, if it does. -/
theorem trail_of_isName {text : String} (valid : isName text = true) :
    trail text = [] ∨ ∃ more, trail text = '.' :: more := by
  obtain ⟨c, more, spelled, first, all⟩ := isStarted_iff.mp valid
  cases same : trail text with
  | nil => exact Or.inl rfl
  | cons d more =>
      have noWord : isWordChar d = false := by
        have ends := ends_dropWhile isWordChar text.toList
        rw [← trail, same] at ends
        exact ends_cons.mp ends
      have member : d ∈ text.toList :=
        (List.dropWhile_sublist isWordChar).subset (same ▸ List.mem_cons_self : d ∈ trail text)
      have dot : d = '.' := by
        rw [spelled, List.mem_cons] at member
        rcases member with rfl | member
        · rw [isWordChar_of_isNameStart first] at noWord
          cases noWord
        · simpa [isNameChar, noWord] using all d member
      exact Or.inr ⟨more, by rw [dot]⟩

/-- A type name goes on behind its leading word with a parenthesis, if it does. -/
theorem trail_of_isTypeName {text : String} (valid : IsTypeName text) :
    (leadingWord text = text ∧ trail text = []) ∨ ∃ more, trail text = '(' :: more := by
  rcases valid with ident | ⟨ident, digits, rfl, isIdent, -, -⟩
  · exact Or.inl (word_of_isIdent ident)
  · refine Or.inr ⟨digits.toList ++ [')'], ?_⟩
    have ends : Ends isWordChar ('(' :: (digits.toList ++ [')'])) := ends_cons.mpr (by decide)
    have spelled : (ident ++ "(" ++ digits ++ ")").toList =
        ident.toList ++ '(' :: (digits.toList ++ [')']) := by simp
    have none : ident.toList.dropWhile isWordChar = [] := (word_of_isIdent isIdent).2
    rw [trail, spelled, ends.dropWhile_append, none, List.nil_append]

theorem leadsWord_of_isTypeName {text : String} (valid : IsTypeName text) : LeadsWord text := by
  rcases valid with ident | ⟨ident, digits, rfl, isIdent, -, -⟩
  · exact leadsWord_of_isStarted ident
  · obtain ⟨c, more, spelled, first⟩ := leadsWord_of_isStarted isIdent
    exact ⟨c, more ++ '(' :: (digits.toList ++ [')']), by simp [spelled], first⟩

theorem lexWidth_none {rest : List Char} (ends : Ends (· == '(') rest) : lexWidth rest = none := by
  unfold lexWidth
  split
  · simp [ends_cons] at ends
  · rfl

theorem lexTypeName_append {text : String} (valid : IsTypeName text) {rest : List Char}
    (ends : Ends (fun c => isWordChar c || c == '(') rest) :
    lexTypeName (text.toList ++ rest) = some (text, rest) := by
  rcases valid with ident | ⟨ident, digits, rfl, isIdent, nonempty, all⟩
  · have word : lexIdent (text.toList ++ rest) = some (text, rest) :=
      lexStarted_append ident (ends.mono (by simp +contextual))
    have noWidth : lexWidth rest = none := lexWidth_none (ends.mono (by simp +contextual))
    simp [lexTypeName, word, noWidth]
  · have word : lexIdent (ident.toList ++ ('(' :: (digits.toList ++ ')' :: rest))) =
        some (ident, '(' :: (digits.toList ++ ')' :: rest)) :=
      lexStarted_append isIdent (ends_cons.mpr (by decide))
    have run : lexRun Char.isDigit (digits.toList ++ ')' :: rest) = some (digits, ')' :: rest) := by
      rw [lexRun_append (by simpa using nonempty) (by simpa using all) (ends_cons.mpr (by decide)),
        String.ofList_toList]
    have width : lexWidth ('(' :: (digits.toList ++ ')' :: rest)) =
        some ("(" ++ digits ++ ")", rest) := by
      simp [lexWidth, run]
    simp [lexTypeName, word, width, String.append_assoc]

/-! ## Texts -/

theorem lexStringBody_escape (c : Char) (rest : List Char) :
    lexStringBody (escape c ++ rest) =
      (lexStringBody rest).map fun (body, rest) => (c :: body, rest) := by
  unfold escape
  split
  · next special =>
      have same : unescape c = c := by
        rcases special with rfl | rfl <;> decide
      simp [lexStringBody, same]
  · next plain =>
      rw [not_or] at plain
      rw [List.singleton_append, lexStringBody.eq_def]
      split <;> simp_all

theorem lexStringBody_escaped (body rest : List Char) :
    lexStringBody (body.flatMap escape ++ '"' :: rest) = some (body, rest) := by
  induction body with
  | nil => simp [lexStringBody]
  | cons c body ih =>
      rw [List.flatMap_cons, List.append_assoc, lexStringBody_escape, ih]
      rfl

theorem lexString_quoted (text : String) (rest : List Char) :
    lexString ((quoted text).toList ++ rest) = some (text, rest) := by
  simp [quoted, lexString, lexStringBody_escaped]

theorem lexString_none {rest : List Char} (ends : Ends (· == '"') rest) :
    lexString rest = none := by
  unfold lexString
  split
  · simp [ends_cons] at ends
  · rfl

/-! ## Numbers -/

/-- What a number starts with. -/
def isNumberStart (c : Char) : Bool :=
  c.isDigit || c == '+' || c == '-'

theorem toList_decimal (n : Int) : (Text.decimal n).toList =
    (if n < 0 then "-" else "").toList ++ Nat.toDigits 10 n.natAbs := by
  unfold Text.decimal
  split <;> simp

theorem isDigit_toDigits (n : Nat) : ∀ c ∈ Nat.toDigits 10 n, c.isDigit = true :=
  fun _ => Nat.isDigit_of_mem_toDigits (by decide) (by decide)

section Numbers

variable {digits rest : List Char}

theorem lexSign_digits (nonempty : digits ≠ []) (all : ∀ c ∈ digits, c.isDigit = true) :
    lexSign (digits ++ rest) = ("", digits ++ rest) := by
  obtain ⟨c, more, rfl⟩ := List.exists_cons_of_ne_nil nonempty
  have digit : c.isDigit = true := all c List.mem_cons_self
  rw [List.cons_append]
  unfold lexSign
  split
  · next plus =>
      cases plus
      cases digit
  · next minus =>
      cases minus
      cases digit
  · rfl

theorem lexSign_decimal (n : Int) : lexSign ((Text.decimal n).toList ++ rest) =
    (if n < 0 then "-" else "", Nat.toDigits 10 n.natAbs ++ rest) := by
  rw [toList_decimal]
  split
  · rfl
  · exact lexSign_digits Nat.toDigits_ne_nil (isDigit_toDigits n.natAbs)

theorem lexHex_digits (all : ∀ c ∈ digits, c.isDigit = true) (ends : Ends isNameChar rest) :
    lexHex (digits ++ rest) = none := by
  unfold lexHex
  split
  · next marker tail same =>
      -- The marker is another digit, or it stands behind the token.
      have noMarker : marker.isDigit = true ∨ isNameChar marker = false := by
        match digits, same with
        | [], same =>
            cases same
            exact absurd (ends_cons.mp ends) (by decide)
        | [_], same =>
            cases same
            exact Or.inr (ends_cons.mp ends)
        | _ :: _ :: _, same =>
            cases same
            exact Or.inl (all marker (by simp))
      refine if_neg ?_
      rintro (rfl | rfl) <;> exact absurd noMarker (by decide)
  · rfl

theorem lexHex_decimal (n : Int) (ends : Ends isNameChar rest) :
    lexHex ((Text.decimal n).toList ++ rest) = none := by
  rw [toList_decimal]
  split
  · rfl
  · exact lexHex_digits (isDigit_toDigits _) ends

theorem lexRun_digits (nonempty : digits ≠ []) (all : ∀ c ∈ digits, c.isDigit = true)
    (ends : Ends isNameChar rest) :
    lexRun Char.isDigit (digits ++ rest) = some (String.ofList digits, rest) := by
  refine lexRun_append nonempty all (ends.mono fun c digit => ?_)
  simp [isNameChar, isWordChar, Char.isAlphanum, digit]

section Signed

variable {text : List Char} {sign : String} (signed : lexSign text = (sign, digits ++ rest))
  (nonempty : digits ≠ []) (all : ∀ c ∈ digits, c.isDigit = true) (ends : Ends isNameChar rest)
include signed nonempty all ends

theorem lexReal_signed : lexReal text = none := by
  simp only [lexReal, signed, lexRun_digits nonempty all ends, Option.bind_eq_bind,
    Option.bind_some]
  split
  · simp [ends_cons, isNameChar] at ends
  · rfl

theorem lexInt_signed : lexInt text = some (.int sign (String.ofList digits), rest) := by
  simp only [lexInt, signed, lexRun_digits nonempty all ends, Option.bind_eq_bind,
    Option.bind_some]

end Signed

theorem lexReal_decimal (n : Int) (ends : Ends isNameChar rest) :
    lexReal ((Text.decimal n).toList ++ rest) = none :=
  lexReal_signed (lexSign_decimal n) Nat.toDigits_ne_nil (isDigit_toDigits _) ends

theorem lexInt_decimal (n : Int) (ends : Ends isNameChar rest) :
    lexInt ((Text.decimal n).toList ++ rest) =
      some (.int (if n < 0 then "-" else "") (String.ofList (Nat.toDigits 10 n.natAbs)), rest) :=
  lexInt_signed (lexSign_decimal n) Nat.toDigits_ne_nil (isDigit_toDigits _) ends

end Numbers

theorem value?_decimal (n : Int64) :
    (Spelling.int (if n.toInt < 0 then "-" else "")
      (String.ofList (Nat.toDigits 10 n.toInt.natAbs))).value? = some (.int n) := by
  have same : (if (if n.toInt < 0 then "-" else "") = "-" then -(n.toInt.natAbs : Int)
      else n.toInt.natAbs) = n.toInt := by
    by_cases negative : n.toInt < 0
    · rw [if_pos negative, if_pos rfl]
      omega
    · rw [if_neg negative, if_neg (by decide)]
      omega
  have range : Int64.minValue.toInt ≤ n.toInt ∧ n.toInt ≤ Int64.maxValue.toInt :=
    ⟨n.le_toInt, Int.le_of_lt_add_one n.toInt_lt⟩
  simp only [Spelling.value?, String.toList_ofList, same,
    Text.readDigits_toDigits (by decide : 1 < 10) (by decide : 10 ≤ 16),
    Spelling.integer?, if_pos range, Int64.ofInt_toInt]

theorem number_none {text : List Char} (ends : Ends isNumberStart text) :
    lexHex text = none ∧ lexReal text = none ∧ lexInt text = none := by
  have noDigits : lexRun Char.isDigit text = none :=
    lexRun_none (ends.mono fun c digit => by simp [isNumberStart, digit])
  have noSign : lexSign text = ("", text) := by
    unfold lexSign
    split
    · exact absurd (ends_cons.mp ends) (by decide)
    · exact absurd (ends_cons.mp ends) (by decide)
    · rfl
  refine ⟨?_, by simp [lexReal, noSign, noDigits], by simp [lexInt, noSign, noDigits]⟩
  unfold lexHex
  split
  · exact absurd (ends_cons.mp ends) (by decide)
  · rfl

end Source

end EcatDevice
