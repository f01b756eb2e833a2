import EcatDevice.Proofs.DraftMeaning
import EcatDevice.Proofs.TokenReading

/-! # Reading of operands and clauses

The rules for operands, access keywords and clauses read their parts of a printed tree back. Where
one of several rules has to read, the rules in front of it fail.
-/

namespace EcatDevice

namespace Access

/-- A single permission is granted as a whole or not at all. -/
theorem and_single (a : Access) {entry : String × Access} (member : entry ∈ singles) :
    a.bits &&& entry.2.bits = if a.contains entry.2 then entry.2.bits else 0 := by
  have single : ∀ entry ∈ singles, ∃ i : Fin 16, entry.2.bits.toBitVec = BitVec.twoPow 16 i := by
    decide
  obtain ⟨i, bit⟩ := single entry member
  have either := BitVec.and_twoPow a.bits.toBitVec i
  rw [← bit, ← UInt16.toBitVec_and] at either
  split
  · next has => exact beq_iff_eq.mp has
  · next lacks =>
      split at either
      · exact absurd (beq_iff_eq.mpr (UInt16.toBitVec_inj.mp either)) lacks
      · exact UInt16.toBitVec_inj.mp either

/-- Of some single permissions those that a mask has make up the common bits. -/
theorem foldl_granted (a : Access) {entries : List (String × Access)}
    (single : ∀ entry ∈ entries, entry ∈ singles) (granted : Access) :
    ((entries.filter fun entry => a.contains entry.2).map Prod.snd).foldl (· ||| ·) granted =
      ⟨granted.bits ||| a.bits &&& entries.foldr (fun entry bits => entry.2.bits ||| bits) 0⟩ := by
  induction entries generalizing granted with
  | nil => simp
  | cons entry entries ih =>
      have common := and_single a (single entry List.mem_cons_self)
      have later := ih fun other member => single other (List.mem_cons_of_mem _ member)
      have both : ∀ x y z : UInt16, x &&& (y ||| z) = x &&& y ||| x &&& z := fun x y z =>
        UInt16.toBitVec_inj.mp BitVec.and_or_distrib_left
      rw [List.foldr_cons, both, common, ← UInt16.or_assoc, List.filter_cons]
      by_cases has : a.contains entry.2
      · rw [if_pos has, if_pos has, List.map_cons, List.foldl_cons, later]
        rfl
      · rw [if_neg has, if_neg has, later, UInt16.or_zero]

theorem foldl_singles {a : Access} (small : a.Printable) :
    ((singles.filter fun entry => a.contains entry.2).map Prod.snd).foldl (· ||| ·) empty = a := by
  have all : singles.foldr (fun entry bits => entry.2.bits ||| bits) 0 = 0x1fff := by decide
  have same : a.bits &&& 0x1fff = a.bits := by
    have short : a.bits.toNat < 2 ^ 13 := UInt16.lt_iff_toNat_lt.mp small
    apply UInt16.toNat.inj
    rw [UInt16.toNat_and]
    exact Nat.and_two_pow_sub_one_of_lt_two_pow short
  rw [foldl_granted a (fun _ => id), all, same]
  exact congrArg Access.mk (UInt16.zero_or)

end Access

def Attribute.Printable : Attribute → Prop
  | .index e | .default e => e.Printable Source.isName
  | .description _ => True
  | .property p => p.Printable

/-- An attribute that every object may have. -/
def Attribute.IsObject : Attribute → Prop
  | .default _ => False
  | _ => True

namespace Source

open Source.Parser

variable {more : List String}

/-! ## Fronts of tokens -/

theorem isToken_of_front {text : String} {c : Char} {rest : List Char}
    (spelled : text.toList = c :: rest) (front : (isBlank c || c == '/') = false) :
    isToken text = true := by
  simp_all [isToken]

/-- What a literal starts with. -/
def isLiteralStart (c : Char) : Bool :=
  isNumberStart c || c == '"'

/-- Characters that something else than a name starts with. -/
def isOtherStart (c : Char) : Bool :=
  isLiteralStart c || c == '&' || c == '$' || isBlank c || c == '/'

/-- A class of characters that names start with. -/
def StartsNames (start : Char → Bool) : Prop :=
  ∀ c, start c = true → isOtherStart c = false

theorem not_isDigit_of_isAlpha {c : Char} (letter : c.isAlpha = true) : c.isDigit = false := by
  by_contra digit
  have high : c.val ≤ '9'.val :=
    of_decide_eq_true (Bool.and_eq_true_iff.mp (Bool.eq_true_of_not_eq_false digit)).2
  rcases Bool.or_eq_true_iff.mp letter with upper | lower
  · have low : 'A'.val ≤ c.val := (of_decide_eq_true upper).1
    exact absurd (UInt32.le_trans low high) (by decide)
  · have low : 'a'.val ≤ c.val := of_decide_eq_true (Bool.and_eq_true_iff.mp lower).1
    exact absurd (UInt32.le_trans low high) (by decide)

theorem startsNames_isNameStart : StartsNames isNameStart := by
  intro c first
  have digit : c.isDigit = false := by
    rcases Bool.or_eq_true_iff.mp first with letter | underscore
    · exact not_isDigit_of_isAlpha letter
    · rw [beq_iff_eq.mp underscore]
      decide
  simp only [isOtherStart, isLiteralStart, isNumberStart, isBlank, digit, Bool.or_eq_false_iff,
    beq_eq_false_iff_ne]
  refine ⟨⟨⟨⟨⟨⟨⟨trivial, ?_⟩, ?_⟩, ?_⟩, ?_⟩, ?_⟩, ⟨⟨?_, ?_⟩, ?_⟩, ?_⟩, ?_⟩
  all_goals
    rintro rfl
    cases first

theorem startsNames_wild : StartsNames fun c => isNameStart c || isWildcard c := by
  intro c first
  rcases Bool.or_eq_true_iff.mp first with letter | wildcard
  · exact startsNames_isNameStart c letter
  · rcases Bool.or_eq_true_iff.mp wildcard with same | same <;>
      · rw [beq_iff_eq.mp same]
        decide

/-! ## Operands -/

section Operands

variable {start continued : Char → Bool} {text : String}

theorem StartsNames.front (starts : StartsNames start) {c : Char} (first : start c = true) :
    (isBlank c || c == '/') = false := by
  have other := starts c first
  simp only [isOtherStart, Bool.or_eq_false_iff] at other
  simp [other]

theorem isToken_of_isStarted (starts : StartsNames start)
    (valid : isStarted start continued text = true) : isToken text = true := by
  obtain ⟨c, rest, spelled, first, -⟩ := isStarted_iff.mp valid
  exact isToken_of_front spelled (starts.front first)

theorem started_reads (rule : Rule) (blank : continued ' ' = false)
    (valid : isStarted start continued text = true) (more : List String) :
    Reads (named rule (lexeme (lexStarted start continued))) (text.toList ++ after more) text
      (after more) :=
  (reads_lexeme (lexStarted_append valid (after_ends blank more))).named rule

theorem started_consumes (rule : Rule) (starts : StartsNames start) (blank : continued ' ' = false)
    (valid : isStarted start continued text = true) :
    Consumes (named rule (lexeme (lexStarted start continued))) (text :: more) more (· = text) := by
  refine ⟨text, _, ?_, rfl, rfl⟩
  rw [ahead_cons (isToken_of_isStarted starts valid)]
  exact started_reads rule blank valid more

theorem started_fails (rule : Rule) {rest : List Char} (ends : Ends start rest) :
    Fails (named rule (lexeme (lexStarted start continued))) rest :=
  (fails_lexeme (lexStarted_none ends)).named rule

end Operands

theorem isToken_quoted (text : String) : isToken (quoted text) = true :=
  isToken_of_front (by rw [quoted, String.toList_ofList]) (by decide)

theorem string_consumes (text : String) : Consumes string (quoted text :: more) more (· = text) :=
  (consumes_lexeme (isToken_quoted text) (lexString_quoted text _)).named .string

theorem isToken_decimal (n : Int) : isToken (Text.decimal n) = true := by
  have spelled := toList_decimal n
  split at spelled
  · exact isToken_of_front spelled (by decide)
  · obtain ⟨c, digits, same⟩ :=
      List.exists_cons_of_ne_nil (Nat.toDigits_ne_nil (n := n.natAbs) (b := 10))
    have digit : c.isDigit = true := isDigit_toDigits n.natAbs c (by simp [same])
    rw [same] at spelled
    refine isToken_of_front spelled ?_
    simp only [isBlank, Bool.or_eq_false_iff, beq_eq_false_iff_ne]
    refine ⟨⟨⟨⟨?_, ?_⟩, ?_⟩, ?_⟩, ?_⟩
    all_goals
      rintro rfl
      cases digit

theorem spelling_consumes {value : Value} (noReal : ∀ x, value ≠ .real x) :
    Consumes (named .hex (lexeme lexHex) <|> named .real (lexeme lexReal)
      <|> named .int (lexeme lexInt) <|> named .string (lexeme lexText))
      (value.token :: more) more (·.value? = some value) := by
  cases value with
  | real x => exact absurd rfl (noReal x)
  | int n =>
      have ends : Ends isNameChar (after more) := after_ends (by decide) more
      have front : ahead (Value.token (.int n) :: more) = _ :=
        ahead_cons (isToken_decimal n.toInt) more
      have read : Consumes (lexeme lexInt) (Value.token (.int n) :: more) more
          (·.value? = some (.int n)) :=
        (consumes_lexeme (isToken_decimal n.toInt) (lexInt_decimal n.toInt ends)).imp
          fun _ same => same ▸ value?_decimal n
      refine Gives.orElse_right (Gives.orElse_right (Gives.orElse (read.named _)) ?_) ?_
      · rw [front]
        exact (fails_lexeme (lexReal_decimal n.toInt ends)).named _
      · rw [front]
        exact (fails_lexeme (lexHex_decimal n.toInt ends)).named _
  | str text =>
      have front : ahead (Value.token (.str text) :: more) = _ :=
        ahead_cons (isToken_quoted text) more
      have noNumber : Ends isNumberStart ((quoted text).toList ++ after more) := by
        rw [quoted, String.toList_ofList, List.cons_append]
        exact ends_cons.mpr (by decide)
      obtain ⟨noHex, noReal, noInt⟩ := number_none noNumber
      have lexed : lexText ((quoted text).toList ++ after more) = some (.str text, after more) := by
        rw [lexText, lexString_quoted, Option.map_some]
      have read : Consumes (lexeme lexText) (Value.token (.str text) :: more) more
          (·.value? = some (.str text)) :=
        (consumes_lexeme (isToken_quoted text) lexed).imp fun _ same => same ▸ rfl
      refine Gives.orElse_right (Gives.orElse_right (Gives.orElse_right (read.named _) ?_) ?_) ?_
      · rw [front]
        exact (fails_lexeme noInt).named _
      · rw [front]
        exact (fails_lexeme noReal).named _
      · rw [front]
        exact (fails_lexeme noHex).named _

theorem literal_consumes {value : Value} (noReal : ∀ x, value ≠ .real x) :
    Consumes literal (value.token :: more) more (Expr.ReadAs (.literal value)) := by
  refine Gives.named _ (Gives.left fun n => (spelling_consumes noReal).map fun spelling same => ?_)
  intro source
  rw [DraftExpr.check, same]

/-- No literal is read where none starts. -/
theorem literal_fails {text : List Char} (ends : Ends isLiteralStart text) :
    Fails literal text := by
  obtain ⟨noHex, noReal, noInt⟩ :=
    number_none (ends.mono fun c number => by simp [isLiteralStart, number])
  have noText : lexText text = none := by
    rw [lexText, lexString_none (ends.mono fun c quote => by simp_all [isLiteralStart])]
    rfl
  refine Fails.named _ ((reads_left text).bind_fails (Fails.bind ?_))
  exact ((fails_lexeme noHex).named _).orElse (((fails_lexeme noReal).named _).orElse
    (((fails_lexeme noInt).named _).orElse ((fails_lexeme noText).named _)))

theorem operand_consumes (rule : Rule) {mark : Char} (front : (isBlank mark || mark == '/') = false)
    {p : Parser String} {name token : String} (spelled : token.toList = mark :: name.toList)
    (read : Reads p (name.toList ++ after more) name (after more)) (view : View) :
    Consumes (operand rule mark view p) (token :: more) more (Expr.ReadAs (.symbol view name)) := by
  refine Gives.named _ ⟨.symbol view name, after more, ?_, rfl, fun _ => rfl⟩
  rw [ahead_cons (isToken_of_front spelled front), spelled]
  exact (reads_char mark _).bind (read.bind (reads_pure _ _))

theorem operand_fails (rule : Rule) {mark : Char} (view : View) (p : Parser String)
    {text : List Char} (ends : Ends (· == mark) text) : Fails (operand rule mark view p) text :=
  (fails_char ends).bind.named rule

/-- The choice of operands, with names of any kind. -/
def operands (rule reference index : Rule) (p : Parser String) : Parser DraftExpr :=
  named rule <| literal <|> operand reference '&' .reference p <|> operand index '$' .index p
    <|> bare p

section Operands

variable {start continued : Char → Bool} (starts : StartsNames start)
include starts

theorem operands_consumes (rule reference index atom : Rule) (blank : continued ' ' = false)
    {e : Expr} (printable : e.Printable (isStarted start continued)) :
    Consumes (operands rule reference index (named atom (lexeme (lexStarted start continued))))
      (e.token :: more) more e.ReadAs := by
  refine Gives.named _ ?_
  match e, printable with
  | .literal (.int n), _ => exact Gives.orElse (literal_consumes nofun)
  | .literal (.str text), _ => exact Gives.orElse (literal_consumes nofun)
  | .symbol .default text, valid =>
      have token : Expr.token (.symbol .default text) = text := by simp [Expr.token, View.mark]
      have front : Ends isOtherStart (ahead (text :: more)) := by
        obtain ⟨c, rest, spelled, first, -⟩ := isStarted_iff.mp valid
        rw [ahead_cons (isToken_of_isStarted starts valid), spelled]
        exact ends_cons.mpr (starts c first)
      have read : Consumes (bare (named atom (lexeme (lexStarted start continued)))) (text :: more)
          more (Expr.ReadAs (.symbol .default text)) :=
        (started_consumes atom starts blank valid).map fun _ same _ => by
          rw [same, DraftExpr.check]
      rw [token]
      refine Gives.orElse_right (Gives.orElse_right (Gives.orElse_right read ?_) ?_) ?_
      · exact operand_fails _ _ _ (front.mono fun c dollar => by simp_all [isOtherStart])
      · exact operand_fails _ _ _ (front.mono fun c ampersand => by simp_all [isOtherStart])
      · exact literal_fails (front.mono fun c literal => by simp [isOtherStart, literal])
  | .symbol .reference text, valid =>
      have spelled : (Expr.token (.symbol .reference text)).toList = '&' :: text.toList := by
        simp [Expr.token, View.mark]
      have read := operand_consumes reference (by decide) spelled
        (started_reads atom blank valid more) .reference
      refine Gives.orElse_right (Gives.orElse read) (literal_fails ?_)
      rw [ahead_cons (isToken_of_front spelled (by decide)), spelled]
      exact ends_cons.mpr (by decide)
  | .symbol .index text, valid =>
      have spelled : (Expr.token (.symbol .index text)).toList = '$' :: text.toList := by
        simp [Expr.token, View.mark]
      have front := ahead_cons (isToken_of_front spelled (by decide)) more
      have read := operand_consumes index (by decide) spelled
        (started_reads atom blank valid more) .index
      rw [spelled] at front
      refine Gives.orElse_right (Gives.orElse_right (Gives.orElse read) ?_) ?_
      · exact operand_fails _ _ _ (front ▸ ends_cons.mpr (by decide))
      · exact literal_fails (front ▸ ends_cons.mpr (by decide))

end Operands

theorem expr_consumes {e : Expr} (printable : e.Printable isName) :
    Consumes expr (e.token :: more) more e.ReadAs :=
  operands_consumes startsNames_isNameStart .expr .refExpr .indexExpr .name (by decide) printable

theorem listItem_consumes {e : Expr} (printable : e.Printable isWildName) :
    Consumes listItem (e.token :: more) more e.ReadAs :=
  operands_consumes startsNames_wild .listItem .wildRef .wildIndex .wildName (by decide) printable

theorem name_consumes {text : String} (valid : isName text = true) :
    Consumes name (text :: more) more (· = text) :=
  started_consumes .name startsNames_isNameStart (by decide) valid

theorem ident_consumes {text : String} (valid : isIdent text = true) :
    Consumes ident (text :: more) more (· = text) :=
  started_consumes .ident startsNames_isNameStart (by decide) valid

theorem expr_fails {text : List Char}
    (ends : Ends (fun c => isLiteralStart c || c == '&' || c == '$' || isNameStart c) text) :
    Fails expr text := by
  refine Fails.named _ ((literal_fails ?_).orElse ((operand_fails _ _ _ ?_).orElse
    ((operand_fails _ _ _ ?_).orElse (started_fails .name ?_).bind)))
  all_goals exact ends.mono (by simp +contextual)

/-! ## Clauses -/

/-- A token of one character. -/
theorem char_consumes (c : Char) {token : String}
    (alone : token.toList = [c] ∧ (isBlank c || c == '/') = false) :
    Consumes (char c) (token :: more) more fun _ => True := by
  refine ⟨(), after more, ?_, rfl, trivial⟩
  rw [ahead_cons (isToken_of_front alone.1 alone.2), alone.1]
  exact reads_char c _

theorem indexSpec_consumes {e : Expr} (printable : e.Printable isName) :
    Consumes indexSpec ("@" :: e.token :: more) more (Attribute.index e).ReadAs :=
  Gives.named _ ((char_consumes '@' (by decide)).takes.andThen fun _ _ =>
    (expr_consumes printable).map fun _ read => read)

theorem defaultSpec_consumes {e : Expr} (printable : e.Printable isName) :
    Consumes defaultSpec ("=" :: e.token :: more) more (Attribute.default e).ReadAs :=
  Gives.named _ ((char_consumes '=' (by decide)).takes.andThen fun _ _ =>
    (expr_consumes printable).map fun _ read => read)

theorem description_consumes (text : String) :
    Consumes description (quoted text :: more) more (Attribute.description text).ReadAs :=
  Gives.named _ ((string_consumes text).map fun _ same => same)

theorem property_consumes {p : Property} (printable : p.Printable) :
    Consumes property ("." :: p.key :: "=" :: p.value.token :: more) more
      (Attribute.property p).ReadAs :=
  Gives.named _ ((char_consumes '.' (by decide)).takes.andThen fun _ _ =>
    (ident_consumes printable.key).takes.andThen fun _ same =>
      (char_consumes '=' (by decide)).takes.andThen fun _ _ =>
        (expr_consumes printable.value).map fun _ read => ⟨same, read⟩)

theorem ends_ahead {p : Char → Bool} {token : String} {c : Char} {rest : List Char}
    (spelled : token.toList = c :: rest) (stops : p c = false ∧ (isBlank c || c == '/') = false) :
    Ends p (ahead (token :: more)) := by
  rw [ahead_cons (isToken_of_front spelled stops.2), spelled]
  exact ends_cons.mpr stops.1

/-- What a clause of an object starts with. -/
def isClauseStart (c : Char) : Bool :=
  c == '@' || c == '"' || c == '.'

theorem indexSpec_fails {text : List Char} (ends : Ends (· == '@') text) : Fails indexSpec text :=
  (fails_char ends).bind.named _

theorem description_fails {text : List Char} (ends : Ends (· == '"') text) :
    Fails description text :=
  ((fails_lexeme (lexString_none ends)).named _).bind.named _

theorem objectClause_fails {text : List Char} (ends : Ends isClauseStart text) :
    Fails objectClause text := by
  refine (indexSpec_fails ?_).orElse ((description_fails ?_).orElse ((fails_char ?_).bind.named _))
  all_goals exact ends.mono (by simp +contextual [isClauseStart])

theorem quoted_front (text : String) :
    (quoted text).toList = '"' :: (text.toList.flatMap escape ++ ['"']) := by
  rw [quoted, String.toList_ofList]

theorem objectClause_consumes {a : Attribute} (printable : a.Printable) (object : a.IsObject) :
    Consumes objectClause (a.tokens ++ more) more a.ReadAs := by
  cases a with
  | index e => exact Gives.orElse (indexSpec_consumes printable)
  | description text =>
      refine Gives.orElse_right (Gives.orElse (description_consumes text)) ?_
      exact indexSpec_fails (ends_ahead (quoted_front text) (by decide))
  | property p =>
      refine Gives.orElse_right (Gives.orElse_right (property_consumes printable) ?_) ?_
      · exact description_fails (ends_ahead rfl (by decide))
      · exact indexSpec_fails (ends_ahead rfl (by decide))
  | default e => exact object.elim

theorem variableClause_consumes {a : Attribute} (printable : a.Printable) :
    Consumes (objectClause <|> defaultSpec) (a.tokens ++ more) more a.ReadAs := by
  cases a with
  | index e => exact Gives.orElse (objectClause_consumes printable trivial)
  | description text => exact Gives.orElse (objectClause_consumes printable trivial)
  | property p => exact Gives.orElse (objectClause_consumes printable trivial)
  | default e =>
      refine Gives.orElse_right (defaultSpec_consumes printable) ?_
      exact objectClause_fails (ends_ahead rfl (by decide))

theorem fieldClause_consumes {a : Attribute} (printable : a.Printable)
    (field : ∀ p, a ≠ .property p) :
    Consumes (indexSpec <|> defaultSpec <|> description) (a.tokens ++ more) more a.ReadAs := by
  cases a with
  | index e => exact Gives.orElse (indexSpec_consumes printable)
  | default e =>
      refine Gives.orElse_right (Gives.orElse (defaultSpec_consumes printable)) ?_
      exact indexSpec_fails (ends_ahead rfl (by decide))
  | description text =>
      refine Gives.orElse_right (Gives.orElse_right (description_consumes text) ?_) ?_
      · exact (fails_char (ends_ahead (quoted_front text) (by decide))).bind.named _
      · exact indexSpec_fails (ends_ahead (quoted_front text) (by decide))
  | property p => exact absurd rfl (field p)

theorem tokens_ne_nil (a : Attribute) : a.tokens ≠ [] := by
  cases a <;> nofun

theorem objectClauses_takes {attributes : List Attribute}
    (printable : ∀ a ∈ attributes, a.Printable ∧ a.IsObject)
    (stop : Ends isClauseStart (ahead more)) :
    Takes (many objectClause) (attributes.flatMap Attribute.tokens ++ more) more
      (List.Forall₂ Attribute.ReadAs attributes) :=
  many_takes (fun a member => ⟨tokens_ne_nil a, fun _ =>
    objectClause_consumes (printable a member).1 (printable a member).2⟩) (objectClause_fails stop)

/-! ## Access keywords -/

theorem forall₂_eq_map {α β : Type} {f : α → β} {items : List α} {read : List β}
    (same : List.Forall₂ (fun item b => b = f item) items read) : read = items.map f := by
  induction same with
  | nil => rfl
  | cons head _ ih => rw [List.map_cons, head, ih]

theorem singles_keywords : ∀ entry ∈ Access.singles,
    isIdent entry.1 = true ∧ Access.ofKeyword? entry.1 = some entry.2 := by
  decide

theorem accessKeyword_consumes {entry : String × Access} (member : entry ∈ Access.singles) :
    Consumes (named .accessKeyword (lexeme lexAccess)) (entry.1 :: more) more (· = entry.2) := by
  obtain ⟨ident, keyword⟩ := singles_keywords entry member
  obtain ⟨word, none⟩ := word_of_isIdent ident
  refine Gives.named _ (consumes_lexeme (isToken_of_isStarted startsNames_isNameStart ident) ?_)
  rw [lexAccess_append (leadsWord_of_isStarted ident) (after_ends (by decide) more), word, keyword,
    none]
  rfl

theorem accessKeyword_fails {text : List Char} (lexed : lexAccess text = none) :
    Fails (named .accessKeyword (lexeme lexAccess)) text :=
  (fails_lexeme lexed).named _

theorem access_takes {a : Access} (small : a.Printable) {symbol : String}
    (proper : isToken symbol = true) (leads : LeadsWord symbol) (free : NoKeyword symbol) :
    Takes access (a.tokens ++ symbol :: more) (symbol :: more) (· = a) := by
  have written : a.tokens = (Access.singles.filter fun entry => a.contains entry.2).flatMap
      fun entry => [entry.1] := by
    rw [Access.tokens, List.map_eq_flatMap]
  have stop : lexAccess (ahead (symbol :: more)) = none := by
    rw [ahead_cons proper, lexAccess_append leads (after_ends (by decide) more), free]
    rfl
  have each : ReadsAll (named .accessKeyword (lexeme lexAccess)) (fun entry => [entry.1])
      (fun entry granted => granted = entry.2)
      (Access.singles.filter fun entry => a.contains entry.2) := fun entry member =>
    ⟨List.cons_ne_nil _ _, fun _ => accessKeyword_consumes (List.mem_of_mem_filter member)⟩
  rw [written]
  refine Gives.named _ ((many_takes each (accessKeyword_fails stop)).map fun granted same => ?_)
  rw [forall₂_eq_map same]
  exact Access.foldl_singles small

/-- Where no word starts there is no access keyword. -/
theorem access_reads_none {text : List Char} (ends : Ends isWordChar text) :
    Reads access text Access.empty text := by
  have none : lexAccess text = none := by
    rw [lexAccess, lexRun_none ends]
    rfl
  have read : Reads (many (named .accessKeyword (lexeme lexAccess))) text [] text :=
    (accessKeyword_fails none).bind.orElse_reads (reads_pure _ _)
  exact (read.bind (reads_pure Access.empty text)).named _

end Source

end EcatDevice
