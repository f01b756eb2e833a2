import EcatDevice.Proofs.Declarations
import EcatDevice.Proofs.Insertions
import EcatDevice.Proofs.MappingArrays
import Mathlib

/-! # The outline of a dictionary

Which objects a program declares can be read off its syntax tree: `Statement.origins` lists them in
the order of the text, a record template with one object for each of its groups. The dictionary of
an accepted program has just these objects, in this order. An object has the index it asks for, and
otherwise the one behind the object before it. The last index of a resolution carries this from one
declaration to the next: it is always the index of the last object of the dictionary.
-/

namespace EcatDevice

/-! ## Objects of a syntax tree -/

/-- What an object of the dictionary is declared by. -/
inductive Origin where
  | variable (s : VariableDecl)
  | array (s : ArrayDecl)
  | record (s : RecordDecl)
  /-- a group of a record template, by its number -/
  | group (s : RecordDecl) (position : Nat) (i : Instance)
  deriving DecidableEq, Repr

/-- The objects that a statement declares, in order. -/
def Statement.origins : Statement → List Origin
  | .make _ => []
  | .assign _ => []
  | .variable s => [.variable s]
  | .array s => [.array s]
  | .record s =>
    if s.instances.isEmpty then [.record s]
    else s.instances.mapIdx fun position i => .group s position i

/-- Names and types of the fields. -/
def RecordDecl.outline (s : RecordDecl) : List (String × String) :=
  s.fields.map fun field => (field.symbol, field.typeName)

namespace Object

/-- The data has the names and the types of a list. -/
def HasFields (o : Object) (fields : List (String × String)) : Prop :=
  List.Forall₂
    (fun sub field => sub.symbol = field.1 ∧ BasicType.find field.2 = .ok sub.basicType)
    o.payload fields

/-- The data is that of an array: all of its type, with the expanded initializer list as default
values and zeros behind them up to the size that is declared. -/
structure HasElements (o : Object) (scope : Scope) (s : ArrayDecl) : Prop where
  types : ∀ sub ∈ o.payload, BasicType.find s.typeName = .ok sub.basicType
  defaults : ∃ values warnings zeros, scope.expandAll s.values = .ok (values, warnings) ∧
    o.payload.map SubObject.default = values ++ List.replicate zeros (.int 0) ∧
    (s.size = none → zeros = 0)
  size : ∀ e, s.size = some e → ∃ n, scope.eval e = .ok (.int n) ∧ n.toInt = o.payload.length

end Object

namespace Origin

def kind : Origin → ObjectKind
  | .variable _ => .variable
  | .array _ => .array
  | .record _ => .record
  | .group _ _ _ => .record

def symbol : Origin → String
  | .variable s => s.symbol
  | .array s => s.symbol
  | .record s => s.symbol
  | .group s position _ => s.symbol ++ "_" ++ Text.decimal position

/-- The index that is asked for. A group has its own, whatever the template says. -/
def index : Origin → Option Expr
  | .variable s => s.index
  | .array s => s.index
  | .record s => s.index
  | .group _ _ i => some i.index

/-- The state in which an object is declared if its statement starts in `r`: a group of a record
template comes behind the groups before it. -/
def meet (r : Resolution) : Origin → Except Error Resolution
  | .group s position _ =>
    let ignored := s.index.isSome || s.description.isSome
    Resolution.recordInstances s 0 (s.instances.take position)
      (r.warn (if ignored then [.ignored s.symbol] else []))
  | _ => .ok r

/-- What the declaration says about the data. -/
def Content (scope : Scope) (o : Object) : Origin → Prop
  | .variable s => o.HasFields [(s.symbol, s.typeName)]
  | .array s => o.HasElements scope s
  | .record s => o.HasFields s.outline
  | .group s _ _ => o.HasFields s.outline

/-- An object is as it is declared, its index aside. -/
structure Describes (origin : Origin) (scope : Scope) (o : Object) : Prop where
  kind : o.kind = origin.kind
  symbol : o.symbol = origin.symbol
  content : origin.Content scope o

/-- An object at a position of a dictionary has the index that is asked for, or the one behind the
object before it. -/
def Indexed (origin : Origin) (scope : Scope) (d : Dictionary) (p : Nat) (o : Object) : Prop :=
  match origin.index, p with
  | some e, _ => ∃ n, scope.eval e = .ok (.int n) ∧ n.toInt = o.index.toNat
  | none, 0 => o.index = 1
  | none, q + 1 =>
    ∃ previous, d.objects[q]? = some previous ∧ o.index.toNat = previous.index.toNat + 1

end Origin

/-! ## Marks -/

namespace Object

theorem hasFields_unmarked (o : Object) (fields : List (String × String)) :
    o.unmarked.HasFields fields ↔ o.HasFields fields := by
  unfold HasFields
  rw [payload_unmarked, List.forall₂_map_left_iff]
  rfl

theorem hasElements_unmarked (o : Object) (scope : Scope) (s : ArrayDecl) :
    o.unmarked.HasElements scope s ↔ o.HasElements scope s := by
  have types : (∀ sub ∈ o.unmarked.payload, BasicType.find s.typeName = .ok sub.basicType) ↔
      ∀ sub ∈ o.payload, BasicType.find s.typeName = .ok sub.basicType := by
    rw [payload_unmarked, List.forall_mem_map]
    rfl
  have defaults := o.defaults_unmarked
  have length : o.unmarked.payload.length = o.payload.length := by
    rw [payload_unmarked, List.length_map]
  constructor
  · intro elements
    exact ⟨types.mp elements.types, defaults ▸ elements.defaults, length ▸ elements.size⟩
  · intro elements
    exact ⟨types.mpr elements.types, defaults.symm ▸ elements.defaults,
      length.symm ▸ elements.size⟩

end Object

namespace Origin

theorem content_unmarked (origin : Origin) (scope : Scope) (o : Object) :
    origin.Content scope o.unmarked ↔ origin.Content scope o := by
  cases origin with
  | «variable» s => exact o.hasFields_unmarked _
  | array s => exact o.hasElements_unmarked scope s
  | record s => exact o.hasFields_unmarked _
  | group s position i => exact o.hasFields_unmarked _

/-- The declaration of an object says nothing about its marks. -/
theorem Describes.of_unmarked {origin : Origin} {scope : Scope} {o later : Object}
    (described : origin.Describes scope o) (same : later.unmarked = o.unmarked) :
    origin.Describes scope later where
  kind := (congrArg Object.kind same).trans described.kind
  symbol := (congrArg Object.symbol same).trans described.symbol
  content := by
    rw [← content_unmarked, same, content_unmarked]
    exact described.content

end Origin

/-- The object at a position is as it is declared in a scope. -/
def Dictionary.Outlines (d : Dictionary) (p : Nat) (scope : Scope) (origin : Origin) : Prop :=
  ∃ o, d.objects[p]? = some o ∧ origin.Describes scope o ∧ origin.Indexed scope d p o

theorem Dictionary.Outlines.grown {d later : Dictionary} {p : Nat} {scope : Scope} {origin : Origin}
    (outlined : d.Outlines p scope origin) (grown : d.Extends later) :
    later.Outlines p scope origin := by
  obtain ⟨o, found, described, indexed⟩ := outlined
  obtain ⟨next, foundNext, kept⟩ := grown p o found
  refine ⟨next, foundNext, described.of_unmarked kept.same, ?_⟩
  unfold Origin.Indexed at indexed ⊢
  rw [kept.index]
  split at indexed
  · exact indexed
  · exact indexed
  · obtain ⟨previous, place, behind⟩ := indexed
    obtain ⟨same, placeNext, keptBefore⟩ := grown _ previous place
    exact ⟨same, placeNext, keptBefore.index ▸ behind⟩

/-! ## Evaluation -/

theorem Scope.evalNat_ok {scope : Scope} {what : String} {limit n : Nat} {e : Expr}
    (made : scope.evalNat what limit e = .ok n) :
    ∃ value, scope.eval e = .ok (.int value) ∧ value.toInt = n ∧ n ≤ limit := by
  obtain ⟨value, int, made⟩ := Except.bind_eq_ok made
  obtain ⟨found, evaluated, int⟩ := Except.bind_eq_ok int
  split at int
  · cases int
    split at made
    · next inside =>
        cases made
        exact ⟨value, evaluated, by omega, by omega⟩
    · cases made
  · cases int

namespace Resolution

theorem nextIndex_some {r : Resolution} {symbol : String} {e : Expr} {index : UInt16}
    (made : r.nextIndex symbol (some e) = .ok index) :
    ∃ n, r.scope.eval e = .ok (.int n) ∧ n.toInt = index.toNat := by
  obtain ⟨n, evaluated, made⟩ := Except.bind_eq_ok made
  obtain ⟨value, whole, same, small⟩ := Scope.evalNat_ok evaluated
  cases made
  refine ⟨value, whole, ?_⟩
  rw [same, UInt16.toNat_ofNat_of_lt' (Nat.lt_succ_of_le small)]

theorem nextIndex_none {r : Resolution} {symbol : String} {index : UInt16}
    (made : r.nextIndex symbol none = .ok index) : index.toNat = r.lastIndex.toNat + 1 := by
  rw [nextIndex] at made
  split at made
  · next small =>
      cases made
      have bound := UInt16.lt_iff_toNat_lt.mp small
      rw [UInt16.toNat_add]
      simp at bound ⊢
      omega
  · cases made

/-! ## Objects of declarations -/

theorem variableOf_describes {r : Resolution} {s : VariableDecl} {object : Object}
    (made : r.variableOf s = .ok object) :
    (Origin.variable s).Describes r.scope object ∧
      r.nextIndex s.symbol s.index = .ok object.index := by
  obtain ⟨t, listed, made⟩ := Except.bind_eq_ok made
  obtain ⟨index, indexed, made⟩ := Except.bind_eq_ok made
  obtain ⟨default, -, made⟩ := Except.bind_eq_ok made
  obtain ⟨⟨_, properties⟩, -, made⟩ := Except.bind_eq_ok made
  cases made
  exact ⟨⟨rfl, rfl, .cons ⟨rfl, listed⟩ .nil⟩, indexed⟩

end Resolution

theorem Object.array_length {index : UInt16} {symbol description : String} {access : Access}
    {t : BasicType} {size : Option Nat} {values : List Value} {o : Object}
    (made : Object.array index symbol description access t size values = .ok o) :
    o.payload.length = size.getD values.length := by
  dsimp only [Object.array] at made
  split at made
  · cases made
  · next enough =>
      split at made
      · cases made
      · cases made
        change ((values ++ List.replicate (size.getD values.length - values.length)
          Value.zero).mapIdx (element index access t)).length = _
        rw [List.length_mapIdx, List.length_append, List.length_replicate]
        omega

theorem Object.array_hasElements {r : Resolution} {s : ArrayDecl} {t : BasicType} {index : UInt16}
    {description : String} {size : Option Nat} {values : List Value} {warnings : List Warning}
    {o : Object} (listed : BasicType.find s.typeName = .ok t)
    (sized : s.size.mapM (r.scope.evalNat (s.symbol ++ " size") 0xffffffffffffffff) = .ok size)
    (expanded : r.scope.expandAll s.values = .ok (values, warnings))
    (made : Object.array index s.symbol description s.access t size values = .ok o) :
    o.HasElements r.scope s := by
  obtain ⟨zeros, padded⟩ := (array_holdsValues made).padded
  have length := array_length made
  refine ⟨?_, ⟨values, warnings, zeros, expanded, padded, ?_⟩, ?_⟩
  · obtain ⟨filled, -, kind, -, subs⟩ := array_subs made
    intro sub member
    rw [payload, kind, subs] at member
    obtain ⟨i, _, rfl⟩ := List.mem_mapIdx.mp member
    exact listed
  · intro absent
    rw [absent] at sized
    cases sized
    have total := congrArg List.length padded
    rw [List.length_map, length, List.length_append, List.length_replicate] at total
    simpa using total
  · intro e present
    rw [present] at sized
    obtain ⟨n, evaluated, same⟩ := Except.bind_eq_ok sized
    obtain ⟨value, whole, equal, -⟩ := Scope.evalNat_ok evaluated
    cases same
    rw [length]
    exact ⟨value, whole, equal⟩

namespace Resolution

theorem arrayOf_describes {r : Resolution} {s : ArrayDecl} {object : Object}
    (made : r.arrayOf s = .ok object) :
    (Origin.array s).Describes r.scope object ∧
      r.nextIndex s.symbol s.index = .ok object.index := by
  obtain ⟨t, listed, made⟩ := Except.bind_eq_ok made
  obtain ⟨index, indexed, made⟩ := Except.bind_eq_ok made
  obtain ⟨size, sized, made⟩ := Except.bind_eq_ok made
  obtain ⟨⟨values, warnings⟩, expanded, made⟩ := Except.bind_eq_ok made
  obtain ⟨array, constructed, made⟩ := Except.bind_eq_ok made
  obtain ⟨⟨_, properties⟩, -, made⟩ := Except.bind_eq_ok made
  cases made
  have elements := Object.array_hasElements listed sized expanded constructed
  obtain ⟨_, _, rfl⟩ := Object.array_ok constructed
  exact ⟨⟨rfl, rfl, ⟨elements.types, elements.defaults, elements.size⟩⟩, indexed⟩

/-- The fields of a record under construction have the names and the types of the declared ones. -/
theorem addFields_outline {access : Access} {symbol description : String} {index : UInt16}
    {fields : List FieldDecl} {p next : Pending}
    (made : fields.foldlM (addField access symbol description index) p = .ok next) :
    ∃ added, next.fields = p.fields ++ added ∧ List.Forall₂ (fun (spec : FieldSpec) field =>
      spec.symbol = field.symbol ∧ BasicType.find field.typeName = .ok spec.basicType)
      added fields := by
  induction fields generalizing p with
  | nil =>
      cases made
      exact ⟨[], (List.append_nil _).symm, .nil⟩
  | cons field rest ih =>
      rw [List.foldlM_cons] at made
      obtain ⟨one, first, made⟩ := Except.bind_eq_ok made
      obtain ⟨_, _, basicType, _, -, -, listed, -, fields, -, -⟩ := addField_ok first
      obtain ⟨added, whole, each⟩ := ih made
      rw [fields, List.append_assoc, List.singleton_append] at whole
      exact ⟨_, whole, .cons ⟨rfl, listed⟩ each⟩

end Resolution

theorem Object.fieldSubs_outline {index : UInt16} {symbol : String} {previous : UInt8}
    {specs : List FieldSpec} {fields : List FieldDecl} {subs : List SubObject}
    (each : List.Forall₂ (fun (spec : FieldSpec) (field : FieldDecl) =>
      spec.symbol = field.symbol ∧ BasicType.find field.typeName = .ok spec.basicType) specs fields)
    (made : fieldSubs index symbol previous specs = .ok subs) :
    List.Forall₂ (fun (sub : SubObject) (field : String × String) =>
      sub.symbol = field.1 ∧ BasicType.find field.2 = .ok sub.basicType) subs
      (fields.map fun field => (field.symbol, field.typeName)) := by
  induction each generalizing previous subs with
  | nil =>
      cases made
      exact .nil
  | cons here _ ih =>
      obtain ⟨subindex, others, -, later, rfl⟩ := fieldSubs_cons.mp made
      exact .cons here (ih later)

namespace Resolution

theorem recordOf_describes {s : RecordDecl} {symbol description : String} {index : UInt16}
    {r : Resolution} {object : Object} (made : recordOf s symbol description index r = .ok object) :
    object.kind = .record ∧ object.symbol = symbol ∧ object.index = index ∧
      object.HasFields s.outline := by
  obtain ⟨start, record, made⟩ := Except.bind_eq_ok made
  obtain ⟨done, fields, made⟩ := Except.bind_eq_ok made
  obtain ⟨⟨_, properties⟩, -, made⟩ := Except.bind_eq_ok made
  cases made
  have kept : done.Kept index symbol description r.dictionary := addFields_kept ⟨rfl, record⟩ fields
  obtain ⟨added, whole, each⟩ := addFields_outline fields
  obtain ⟨-, subs, built, same⟩ := Object.record_ok kept.object
  rw [whole] at built
  rw [same]
  exact ⟨rfl, rfl, rfl, Object.fieldSubs_outline each built⟩

/-! ## The last object -/

/-- The last index is that of the last object, and zero before the first. -/
def Tracks (r : Resolution) : Prop :=
  r.lastIndex = (r.dictionary.objects.map Object.index).getLast?.getD 0

theorem Tracks.last {r : Resolution} (tracks : r.Tracks) {q : Nat}
    (count : r.dictionary.objects.length = q + 1) :
    (r.dictionary.objects.map Object.index)[q]? = some r.lastIndex := by
  have length : (r.dictionary.objects.map Object.index).length = q + 1 := by
    rw [List.length_map, count]
  rw [tracks, List.getLast?_eq_getElem?, length, Nat.add_sub_cancel,
    List.getElem?_eq_getElem (by omega)]
  rfl

/-- An object comes behind the others, marks aside. -/
structure Entered (object : Object) (r next : Resolution) : Prop where
  objects : next.dictionary.unmarked.objects = r.dictionary.unmarked.objects ++ [object.unmarked]
  lastIndex : next.lastIndex = object.index

theorem insert_entered {r annotated next : Resolution} {object : Object}
    (same : annotated.dictionary = r.dictionary) (made : annotated.insert object = .ok next) :
    Entered object r next := by
  obtain ⟨-, objects, -⟩ := insert_declares made
  refine ⟨?_, ?_⟩
  · rw [Dictionary.unmarked, objects, same, List.map_append]
    rfl
  · rw [insert_frame made]

namespace Entered

variable {object : Object} {r next : Resolution} (entered : Entered object r next)
include entered

theorem indices : next.dictionary.objects.map Object.index =
    r.dictionary.objects.map Object.index ++ [object.index] := by
  rw [← Dictionary.unmarked_indices, entered.objects, List.map_append,
    Dictionary.unmarked_indices]
  rfl

theorem length : next.dictionary.objects.length = r.dictionary.objects.length + 1 := by
  have same := congrArg List.length entered.indices
  simpa only [List.length_map, List.length_append, List.length_singleton] using same

theorem tracks : next.Tracks := by
  rw [Tracks, entered.lastIndex, entered.indices, List.getLast?_concat]
  rfl

theorem found : ∃ o, next.dictionary.objects[r.dictionary.objects.length]? = some o ∧
    o.unmarked = object.unmarked := by
  have last : next.dictionary.unmarked.objects[r.dictionary.objects.length]? =
      some object.unmarked := by
    rw [entered.objects, Dictionary.unmarked]
    simp
  rw [Dictionary.unmarked, List.getElem?_map] at last
  exact Option.map_eq_some_iff.mp last

end Entered

theorem Entered.indexed {origin : Origin} {r next : Resolution} {object : Object}
    (entered : Entered object r next) (tracks : r.Tracks)
    (asked : r.nextIndex origin.symbol origin.index = .ok object.index) :
    origin.Indexed r.scope next.dictionary r.dictionary.objects.length object := by
  unfold Origin.Indexed
  split
  · next e written =>
      rw [written] at asked
      exact nextIndex_some asked
  · next written first =>
      have zero : r.lastIndex = 0 := by
        rw [tracks, List.length_eq_zero_iff.mp first]
        rfl
      rw [written] at asked
      have one := nextIndex_none asked
      rw [zero] at one
      exact UInt16.toNat_inj.mp one
  · next q written behind =>
      rw [written] at asked
      -- The object before is the last one there, and nothing enters in front of it.
      have last := tracks.last behind
      have kept : (next.dictionary.objects.map Object.index)[q]? = some r.lastIndex := by
        rw [entered.indices, List.getElem?_append_left (List.getElem?_eq_some_iff.mp last).1]
        exact last
      rw [List.getElem?_map] at kept
      obtain ⟨previous, found, same⟩ := Option.map_eq_some_iff.mp kept
      exact ⟨previous, found, by rw [nextIndex_none asked, same]⟩

/-- An object enters as it is declared, with the index that comes next. -/
def Enrolled (origin : Origin) (r next : Resolution) : Prop :=
  ∃ object, Entered object r next ∧ origin.Describes r.scope object ∧
    r.nextIndex origin.symbol origin.index = .ok object.index

theorem Enrolled.outlines {origin : Origin} {r next : Resolution}
    (enrolled : Enrolled origin r next) (tracks : r.Tracks) :
    next.dictionary.Outlines r.dictionary.objects.length r.scope origin := by
  obtain ⟨object, entered, described, asked⟩ := enrolled
  obtain ⟨o, found, same⟩ := entered.found
  have index : o.index = object.index := by
    have whole := congrArg Object.index same
    exact whole
  have indexed := entered.indexed tracks asked
  unfold Origin.Indexed at indexed
  rw [← index] at indexed
  exact ⟨o, found, described.of_unmarked same, indexed⟩

/-! ## Declarations -/

theorem declareVariable_enrolled {r next : Resolution} {s : VariableDecl}
    (made : r.declareVariable s = .ok next) : Enrolled (.variable s) r next := by
  obtain ⟨object, annotated, added, constructed, same, inserted, rfl⟩ := declareVariable_insert made
  obtain ⟨described, indexed⟩ := variableOf_describes constructed
  have entered := insert_entered same inserted
  exact ⟨object, ⟨entered.objects, entered.lastIndex⟩, described, indexed⟩

theorem declareArray_enrolled {r next : Resolution} {s : ArrayDecl}
    (made : r.declareArray s = .ok next) : Enrolled (.array s) r next := by
  obtain ⟨object, annotated, added, constructed, same, inserted, after⟩ := declareArray_insert made
  obtain ⟨described, indexed⟩ := arrayOf_describes constructed
  have entered := insert_entered same inserted
  refine ⟨object, ?_, described, indexed⟩
  rw [after]
  split
  · next direction _ =>
      have tags := tags_kept s.symbol direction (object.payload.filterMap (·.default.int?))
        (added.publish s.symbol (.object object.index))
      have frame := tags_frame s.symbol direction (object.payload.filterMap (·.default.int?))
        (added.publish s.symbol (.object object.index))
      exact ⟨tags.2 ▸ entered.objects, frame.1.trans entered.lastIndex⟩
  · exact ⟨entered.objects, entered.lastIndex⟩

theorem recordObject_enrolled {s : RecordDecl} {symbol description : String} {index : UInt16}
    {r next : Resolution} (made : recordObject s symbol description index r = .ok next) :
    ∃ object, Entered object r next ∧ object.kind = .record ∧ object.symbol = symbol ∧
      object.index = index ∧ object.HasFields s.outline := by
  obtain ⟨object, annotated, constructed, same, inserted⟩ := recordObject_insert made
  exact ⟨object, insert_entered same inserted, recordOf_describes constructed⟩

theorem record_enrolled {s : RecordDecl} {description : String} {index : UInt16}
    {r next : Resolution} (indexed : r.nextIndex s.symbol s.index = .ok index)
    (made : recordObject s s.symbol description index r = .ok next) :
    Enrolled (.record s) r next := by
  obtain ⟨object, entered, kind, symbol, rfl, fields⟩ := recordObject_enrolled made
  exact ⟨object, entered, ⟨kind, symbol, fields⟩, indexed⟩

theorem group_enrolled {s : RecordDecl} {position : Nat} {i : Instance} {index : UInt16}
    {r next : Resolution}
    (indexed : r.scope.evalIndex (s.symbol ++ "_" ++ Text.decimal position ++ " index") i.index =
      .ok index)
    (made : recordObject s (s.symbol ++ "_" ++ Text.decimal position) i.description index r =
      .ok next) :
    Enrolled (.group s position i) r next := by
  obtain ⟨object, entered, kind, symbol, rfl, fields⟩ := recordObject_enrolled made
  exact ⟨object, entered, ⟨kind, symbol, fields⟩, indexed⟩

/-! ## Programs -/

/-- So many objects enter, and the last index follows them. -/
structure Counts (n : Nat) (r next : Resolution) : Prop where
  length : next.dictionary.objects.length = r.dictionary.objects.length + n
  tracks : r.Tracks → next.Tracks

theorem Counts.of_same {r next : Resolution} (dictionary : next.dictionary = r.dictionary)
    (lastIndex : next.lastIndex = r.lastIndex) : Counts 0 r next := by
  refine ⟨by rw [dictionary]; rfl, ?_⟩
  unfold Tracks
  rw [dictionary, lastIndex]
  exact id

theorem Counts.trans {first second : Nat} {r middle next : Resolution}
    (before : Counts first r middle) (behind : Counts second middle next) :
    Counts (first + second) r next := by
  refine ⟨?_, fun tracks => behind.tracks (before.tracks tracks)⟩
  rw [behind.length, before.length, Nat.add_assoc]

theorem Enrolled.counts {origin : Origin} {r next : Resolution}
    (enrolled : Enrolled origin r next) : Counts 1 r next := by
  obtain ⟨object, entered, -, -⟩ := enrolled
  exact ⟨entered.length, fun _ => entered.tracks⟩

theorem recordInstances_counts {s : RecordDecl} {position : Nat} {instances : List Instance}
    {r next : Resolution} (made : recordInstances s position instances r = .ok next) :
    Counts instances.length r next := by
  induction instances generalizing position r with
  | nil =>
      cases made
      exact .of_same rfl rfl
  | cons i rest ih =>
      rw [recordInstances] at made
      obtain ⟨index, indexed, made⟩ := Except.bind_eq_ok made
      obtain ⟨one, first, made⟩ := Except.bind_eq_ok made
      rw [List.length_cons, Nat.add_comm]
      exact (group_enrolled indexed first).counts.trans (ih made)

theorem step_counts {r next : Resolution} {s : Statement} (made : r.step s = .ok next) :
    Counts s.origins.length r next := by
  cases s with
  | make directive =>
      cases made
      exact .of_same rfl rfl
  | assign s =>
      obtain ⟨value, _, made⟩ := Except.bind_eq_ok made
      cases made
      exact .of_same rfl rfl
  | «variable» s => exact (declareVariable_enrolled made).counts
  | array s => exact (declareArray_enrolled made).counts
  | record s =>
      dsimp only [step, declareRecord] at made
      rw [Statement.origins]
      split at made
      · next alone =>
          obtain ⟨index, indexed, made⟩ := Except.bind_eq_ok made
          rw [if_pos alone]
          exact (record_enrolled indexed made).counts
      · next several =>
          rw [if_neg several, List.length_mapIdx]
          have counts := recordInstances_counts made
          exact ⟨counts.length, counts.tracks⟩

theorem steps_counts {statements : List Statement} {r next : Resolution}
    (made : statements.foldlM step r = .ok next) :
    Counts (statements.flatMap Statement.origins).length r next := by
  induction statements generalizing r with
  | nil =>
      cases made
      exact .of_same rfl rfl
  | cons s rest ih =>
      rw [List.foldlM_cons] at made
      obtain ⟨one, first, made⟩ := Except.bind_eq_ok made
      rw [List.flatMap_cons, List.length_append]
      exact (step_counts first).trans (ih made)

/-- Each group of a record template declares its object in the state behind the groups before. -/
theorem recordInstances_outlines {s : RecordDecl} {position : Nat} {instances : List Instance}
    {r next : Resolution} (tracks : r.Tracks)
    (made : recordInstances s position instances r = .ok next) {j : Nat} {i : Instance}
    (found : instances[j]? = some i) :
    ∃ middle, recordInstances s position (instances.take j) r = .ok middle ∧
      next.dictionary.Outlines (r.dictionary.objects.length + j) middle.scope
        (.group s (position + j) i) := by
  -- The first group goes from the row into the state, so its number and the objects grow together.
  induction instances generalizing position r j with
  | nil => cases found
  | cons head rest ih =>
      rw [recordInstances] at made
      obtain ⟨index, indexed, made⟩ := Except.bind_eq_ok made
      obtain ⟨one, first, behind⟩ := Except.bind_eq_ok made
      have enrolled := group_enrolled indexed first
      cases j with
      | zero =>
          cases found
          have grown := (recordInstances_changes behind).grown
          exact ⟨r, rfl, (enrolled.outlines tracks).grown grown⟩
      | succ j =>
          obtain ⟨middle, before, outlined⟩ := ih (enrolled.counts.tracks tracks) behind found
          refine ⟨middle, ?_, ?_⟩
          · rw [List.take_succ_cons, recordInstances]
            simp only [indexed, first, bind, Except.bind]
            exact before
          · rw [enrolled.counts.length, Nat.add_right_comm, Nat.add_right_comm position] at outlined
            exact outlined

theorem step_outlines {r next : Resolution} {s : Statement} (tracks : r.Tracks)
    (made : r.step s = .ok next) {j : Nat} {origin : Origin}
    (found : s.origins[j]? = some origin) :
    ∃ middle, origin.meet r = .ok middle ∧
      next.dictionary.Outlines (r.dictionary.objects.length + j) middle.scope origin := by
  have alone : ∀ {only : Origin}, [only][j]? = some origin → j = 0 ∧ only = origin := by
    intro only found
    rw [List.getElem?_singleton] at found
    split at found
    · next first => exact ⟨first, Option.some.inj found⟩
    · cases found
  cases s with
  | make directive => cases found
  | assign s => cases found
  | «variable» s =>
      obtain ⟨rfl, rfl⟩ := alone found
      exact ⟨r, rfl, (declareVariable_enrolled made).outlines tracks⟩
  | array s =>
      obtain ⟨rfl, rfl⟩ := alone found
      exact ⟨r, rfl, (declareArray_enrolled made).outlines tracks⟩
  | record s =>
      dsimp only [step, declareRecord] at made
      rw [Statement.origins] at found
      split at made
      · next single =>
          obtain ⟨index, indexed, made⟩ := Except.bind_eq_ok made
          rw [if_pos single] at found
          obtain ⟨rfl, rfl⟩ := alone found
          exact ⟨r, rfl, (record_enrolled indexed made).outlines tracks⟩
      · next several =>
          rw [if_neg several, List.getElem?_mapIdx] at found
          obtain ⟨i, place, rfl⟩ := Option.map_eq_some_iff.mp found
          have outlined := recordInstances_outlines (r := r.warn _) tracks made place
          rw [Nat.zero_add] at outlined
          exact outlined

end Resolution

/-- The objects of an accepted program are those that its statements declare, one for each and in
their order. Each one is as it is declared in the state where its declaration is met, and has the
index that it asks for there or else the one behind the object before it. -/
theorem resolve_outline {engine : Regex.Engine} {statements : List Statement} {c : Compiled}
    (made : resolve engine statements = .ok c) :
    c.device.dictionary.objects.length = (statements.flatMap Statement.origins).length ∧
      ∀ (before : List Statement) (s : Statement) (after : List Statement) (j : Nat)
        (origin : Origin), statements = before ++ s :: after → s.origins[j]? = some origin →
        ∃ (start r : Resolution) (o : Object),
          before.foldlM Resolution.step { engine } = .ok start ∧ origin.meet start = .ok r ∧
          c.device.dictionary.objects[(before.flatMap Statement.origins).length + j]? = some o ∧
          origin.Describes r.scope o ∧
          origin.Indexed r.scope c.device.dictionary
            ((before.flatMap Statement.origins).length + j) o := by
  obtain ⟨final, steps, made⟩ := Except.bind_eq_ok made
  cases made
  have start : ({ engine } : Resolution).Tracks := rfl
  refine ⟨(Resolution.steps_counts steps).length.trans (Nat.zero_add _), ?_⟩
  intro before s after j origin split found
  rw [split, List.foldlM_append] at steps
  obtain ⟨r, first, steps⟩ := Except.bind_eq_ok steps
  rw [List.foldlM_cons] at steps
  obtain ⟨next, here, later⟩ := Except.bind_eq_ok steps
  have counts := Resolution.steps_counts first
  have length : r.dictionary.objects.length = (before.flatMap Statement.origins).length :=
    counts.length.trans (Nat.zero_add _)
  obtain ⟨middle, met, outlined⟩ := Resolution.step_outlines (counts.tracks start) here found
  obtain ⟨o, place, described, indexed⟩ := outlined.grown (Resolution.steps_changes later).grown
  rw [length] at place indexed
  exact ⟨r, middle, o, first, met, place, described, indexed⟩

def outlineVariable : VariableDecl :=
  { place := ⟨1, 1⟩, typeName := "UINT", access := Access.read, symbol := "status", index := none,
    default := none, description := none, properties := [] }

/-- The second group takes its index from the first one. The index of the template itself names
nothing. -/
def outlineTemplate : RecordDecl :=
  { place := ⟨2, 1⟩, access := Access.read, symbol := "in",
    instances := [⟨.literal (.int 0x2000), "First"⟩, ⟨.symbol .default "in_0.next", "Second"⟩],
    index := some (.symbol .default "missing"), description := none,
    properties := [⟨"next", .literal (.int 0x2100)⟩],
    fields := [
      { place := ⟨3, 1⟩, typeName := "UINT", access := Access.empty, symbol := "level",
        subindex := none, default := none, description := none },
      { place := ⟨4, 1⟩, typeName := "BOOL", access := Access.empty, symbol := "valid",
        subindex := none, default := none, description := none }] }

def outlineArray : ArrayDecl :=
  { place := ⟨6, 1⟩, typeName := "UINT", access := Access.read, symbol := "limits",
    size := some (.symbol .default "count"), index := none, description := none, properties := [],
    values := [.literal (.int 7), .symbol .index "in_1"] }

/-- Objects of several kinds around a record template. -/
def outlineStatements : List Statement :=
  [.variable outlineVariable, .record outlineTemplate,
   .assign { place := ⟨5, 1⟩, symbol := "count", value := .literal (.int 4) },
   .array outlineArray]

theorem resolve_outline_template :
    ∃ c, resolve .plain outlineStatements = .ok c ∧
      c.device.dictionary.objects.map (fun o => (o.symbol, o.index.toNat)) =
        [("status", 1), ("in_0", 0x2000), ("in_1", 0x2100), ("limits", 0x2101)] ∧
      (∃ (start r : Resolution) (o : Object),
        (outlineStatements.take 1).foldlM Resolution.step { engine := .plain } = .ok start ∧
        Resolution.recordInstances outlineTemplate 0 (outlineTemplate.instances.take 1)
          (start.warn [.ignored "in"]) = .ok r ∧
        c.device.dictionary.objects[2]? = some o ∧
        o.HasFields [("level", "UINT"), ("valid", "BOOL")] ∧
        ∃ n, r.scope.eval (.symbol .default "in_0.next") = .ok (.int n) ∧
          n.toInt = o.index.toNat) ∧
      ∃ (r : Resolution) (o previous : Object),
        (outlineStatements.take 3).foldlM Resolution.step { engine := .plain } = .ok r ∧
        c.device.dictionary.objects[3]? = some o ∧ o.HasElements r.scope outlineArray ∧
        c.device.dictionary.objects[2]? = some previous ∧
        o.index.toNat = previous.index.toNat + 1 := by
  have outcome : (resolve .plain outlineStatements).toOption.map (fun c =>
      c.device.dictionary.objects.map fun o => (o.symbol, o.index.toNat)) =
      some [("status", 1), ("in_0", 0x2000), ("in_1", 0x2100), ("limits", 0x2101)] := by
    decide +kernel
  obtain ⟨c, made, objects⟩ := Option.map_eq_some_iff.mp outcome
  have same := Except.eq_ok_of_toOption made
  have each := (resolve_outline same).2
  obtain ⟨start, r, o, before, met, found, described, indexed⟩ :=
    each (outlineStatements.take 1) (.record outlineTemplate) (outlineStatements.drop 2) 1 _ rfl rfl
  obtain ⟨last, _, array, steps, here, place, elements, previous, behind, next⟩ :=
    each (outlineStatements.take 3) (.array outlineArray) [] 0 _ rfl rfl
  cases here
  exact ⟨c, same, objects, ⟨start, r, o, before, met, found, described.content, indexed⟩,
    last, array, previous, steps, place, elements.content, behind, next⟩

end EcatDevice
