import RuleLexer.TokenStream

/-!
# Stored forms

Tokens and what belongs to them can be stored as data: records are fields with
names, and kinds and modes are their names. Reading data back asks for every
field except the options', and leaves fields aside that it does not know. A
number must be a whole number of at most 64 bits.

Two other forms can be read, though they are never stored: a record
may be the list of all its values in order, and a name may be the only field of
a record, with nothing in it.

* `nat?_eq_some_iff`: which data are numbers;
* `name?_eq_some_iff`: which data are names;
* `values?_list`: a list of values reads as the record with these values;
* `ofDatum?_toDatum`: what was stored is read back, type by type.
-/

namespace RuleLexer

inductive Datum where
  | null
  | bool (value : Bool)
  | number (value : Int)
  /-- A number that is not written as a whole number. -/
  | fraction
  | text (value : String)
  | list (items : List Datum)
  | fields (entries : List (String × Datum))
  deriving Inhabited

namespace Datum

/-- The first field of a name. -/
def field? (name : String) : Datum → Option Datum
  | fields entries => (entries.find? (·.1 = name)).map Prod.snd
  | _ => none

/-- The values of a record with fields of these names, in the order of the names. -/
def values? (names : List String) : Datum → Option (List Datum)
  | fields entries => names.mapM fun name => (fields entries).field? name
  | list items => if items.length = names.length then some items else none
  | _ => none

/-- A name, or a record with nothing but a field of that name. -/
def name? : Datum → Option String
  | text name => some name
  | fields [(name, null)] => some name
  | _ => none

/-- Numbers end below this limit. -/
def limit : Nat := 0x10000000000000000

def nat? : Datum → Option Nat
  | number (.ofNat n) => if n < limit then some n else none
  | _ => none

def bool? : Datum → Option Bool
  | bool value => some value
  | _ => none

def text? : Datum → Option String
  | text value => some value
  | _ => none

def ofNat (n : Nat) : Datum := number (.ofNat n)

theorem nat?_eq_some_iff {d : Datum} {n : Nat} : d.nat? = some n ↔ d = ofNat n ∧ n < limit := by
  unfold nat?
  split
  · rename_i m
    simp only [ofNat, number.injEq, Int.ofNat.injEq]
    split
    · simp only [Option.some.injEq]
      constructor
      · rintro rfl; exact ⟨rfl, by assumption⟩
      · exact And.left
    · simp only [reduceCtorEq, false_iff, not_and]
      rintro rfl; assumption
  · rename_i h
    simp only [reduceCtorEq, false_iff, not_and]
    exact fun eq => absurd eq (h n)

theorem name?_eq_some_iff {d : Datum} {name : String} :
    d.name? = some name ↔ d = text name ∨ d = fields [(name, null)] := by
  unfold name?
  split <;> simp_all

theorem mapM_field?_cons {name : String} {names : List String} (absent : name ∉ names) (d : Datum)
    (entries : List (String × Datum)) :
    names.mapM (fun n => (fields ((name, d) :: entries)).field? n) =
      names.mapM (fun n => (fields entries).field? n) := by
  induction names with
  | nil => rfl
  | cons n names ih =>
    simp only [List.mem_cons, not_or] at absent
    simp only [List.mapM_cons, ih absent.2]
    simp [field?, absent.1]

/-- A list of values reads as the record that has them in its fields. -/
theorem values?_list {names : List String} {items : List Datum} (distinct : names.Nodup)
    (same : items.length = names.length) :
    (list items).values? names = (fields (names.zip items)).values? names := by
  simp only [values?, if_pos same]
  induction names generalizing items with
  | nil => simp_all
  | cons name names ih =>
    cases items with
    | nil => simp at same
    | cons d items =>
      simp only [List.length_cons, Nat.add_right_cancel_iff] at same
      have distinct := List.nodup_cons.mp distinct
      rw [List.zip_cons_cons, List.mapM_cons, mapM_field?_cons distinct.1, ← ih distinct.2 same]
      simp [field?]

@[simp]
theorem nat?_ofNat {n : Nat} (h : n < limit) : (ofNat n).nat? = some n :=
  nat?_eq_some_iff.mpr ⟨rfl, h⟩

end Datum

namespace Position

def toDatum (p : Position) : Datum :=
  .fields [("line", .ofNat p.line), ("column", .ofNat p.column)]

def ofDatum? (d : Datum) : Option Position := do
  let [line, column] ← d.values? ["line", "column"] | none
  return { line := ← line.nat?, column := ← column.nat? }

theorem ofDatum?_toDatum {p : Position} (line : p.line < Datum.limit)
    (column : p.column < Datum.limit) : ofDatum? p.toDatum = some p := by
  simp [ofDatum?, toDatum, Datum.values?, Datum.field?, line, column]

end Position

namespace Span

def toDatum (s : Span) : Datum := .fields [("start", .ofNat s.start), ("end", .ofNat s.stop)]

def ofDatum? (d : Datum) : Option Span := do
  let [start, stop] ← d.values? ["start", "end"] | none
  return { start := ← start.nat?, stop := ← stop.nat? }

theorem ofDatum?_toDatum {s : Span} (start : s.start < Datum.limit)
    (stop : s.stop < Datum.limit) : ofDatum? s.toDatum = some s := by
  simp [ofDatum?, toDatum, Datum.values?, Datum.field?, start, stop]

end Span

namespace TokenKind

def toDatum (kind : TokenKind) : Datum := .text kind.name

def ofDatum? (d : Datum) : Option TokenKind := do ofName? (← d.name?)

@[simp]
theorem ofDatum?_toDatum (kind : TokenKind) : ofDatum? kind.toDatum = some kind := by
  simp [ofDatum?, toDatum, Datum.name?, ofName?_name]

end TokenKind

namespace LineMode

def toDatum (mode : LineMode) : Datum := .text mode.name

def ofDatum? (d : Datum) : Option LineMode := do ofName? (← d.name?)

theorem ofDatum?_toDatum (mode : LineMode) : ofDatum? mode.toDatum = some mode := by
  simp [ofDatum?, toDatum, Datum.name?, ofName?_name]

end LineMode

namespace LexerOptions

def toDatum (options : LexerOptions) : Datum := .fields [("emit_trivia", .bool options.emitTrivia)]

/-- An option that is not given has its usual value. -/
def ofDatum? : Datum → Option LexerOptions
  | .fields entries =>
    match (Datum.fields entries).field? "emit_trivia" with
    | none => some {}
    | some d => do return { emitTrivia := ← d.bool? }
  | .list [] => some {}
  | .list [d] => do return { emitTrivia := ← d.bool? }
  | _ => none

theorem ofDatum?_toDatum (options : LexerOptions) : ofDatum? options.toDatum = some options := by
  simp [ofDatum?, toDatum, Datum.field?, Datum.bool?]

end LexerOptions

namespace Token

def toDatum (t : Token) : Datum :=
  .fields [("span", t.span.toDatum), ("depth", .ofNat t.depth), ("kind", t.kind.toDatum),
    ("context", t.context.toDatum), ("value", .text t.value)]

/-- Nothing is checked about how the fields fit together. -/
def ofDatum? (d : Datum) : Option Token := do
  let [span, depth, kind, context, value] ←
    d.values? ["span", "depth", "kind", "context", "value"] | none
  return {
    span := ← Span.ofDatum? span
    depth := ← depth.nat?
    kind := ← TokenKind.ofDatum? kind
    context := ← TokenKind.ofDatum? context
    value := ← value.text? }

theorem ofDatum?_toDatum {t : Token} (start : t.span.start < Datum.limit)
    (stop : t.span.stop < Datum.limit) (depth : t.depth < Datum.limit) :
    ofDatum? t.toDatum = some t := by
  simp [ofDatum?, toDatum, Datum.values?, Datum.field?, Datum.text?,
    Span.ofDatum?_toDatum start stop, depth]

end Token

namespace LocatedToken

def toDatum (t : LocatedToken) : Datum :=
  .fields [("token", t.token.toDatum), ("start_position", t.startPosition.toDatum),
    ("end_position", t.stopPosition.toDatum)]

def ofDatum? (d : Datum) : Option LocatedToken := do
  let [token, startPosition, stopPosition] ←
    d.values? ["token", "start_position", "end_position"] | none
  return {
    token := ← Token.ofDatum? token
    startPosition := ← Position.ofDatum? startPosition
    stopPosition := ← Position.ofDatum? stopPosition }

theorem ofDatum?_toDatum {t : LocatedToken}
    (span : t.token.span.start < Datum.limit ∧ t.token.span.stop < Datum.limit)
    (depth : t.token.depth < Datum.limit)
    (start : t.startPosition.line < Datum.limit ∧ t.startPosition.column < Datum.limit)
    (stop : t.stopPosition.line < Datum.limit ∧ t.stopPosition.column < Datum.limit) :
    ofDatum? t.toDatum = some t := by
  simp [ofDatum?, toDatum, Datum.values?, Datum.field?,
    Token.ofDatum?_toDatum span.1 span.2 depth, Position.ofDatum?_toDatum start.1 start.2,
    Position.ofDatum?_toDatum stop.1 stop.2]

end LocatedToken

end RuleLexer
