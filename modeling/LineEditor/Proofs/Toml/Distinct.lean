import LineEditor.Toml.Document
import Mathlib.Data.List.Nodup
import Mathlib.Tactic.Common

/-!
# Keys that stand once

What defines something twice is no document. So no table of a document has a key twice, be it the
outermost one or any table in it (`Entries.Distinct`). A table changes in two ways: an entry is
added under a key that was not there (`Distinct.concat`), or the value of a key is replaced
(`Distinct.replace`). Whatever a statement does on its way through the tables is made of these
(`Entries.Keeps`), and so are the tables in braces among the values that it holds (`ReadsDistinct`).
`Entries.distinct_of_parse?` follows statement by statement.
-/

namespace LineEditor.Toml

mutual

/-- No table in a value has a key twice. -/
inductive Value.Distinct : Value → Prop
  | text (s : List Char) : Value.Distinct (.text s)
  | integer (n : Int) : Value.Distinct (.integer n)
  | noInteger : Value.Distinct .noInteger
  | real (x : RealNumber) : Value.Distinct (.real x)
  | boolean (b : Bool) : Value.Distinct (.boolean b)
  | moment (m : Moment) : Value.Distinct (.moment m)
  | array {items : List Value} (h : ∀ item ∈ items, Value.Distinct item) :
    Value.Distinct (.array items)
  | table {kind : TableKind} {entries : Entries} (h : Entries.Distinct entries) :
    Value.Distinct (.table kind entries)
  | tables {items : List Entries} (h : ∀ entries ∈ items, Entries.Distinct entries) :
    Value.Distinct (.tables items)

/-- A table has no key twice, and neither has a table in it. -/
inductive Entries.Distinct : Entries → Prop
  | intro {entries : Entries} (keys : (entries.map Prod.fst).Nodup)
    (values : ∀ entry ∈ entries, Value.Distinct entry.2) : Entries.Distinct entries

end

namespace Value.Distinct

variable {items : List Entries} {entries : Entries} {kind : TableKind}

theorem of_table (h : (Value.table kind entries).Distinct) : entries.Distinct := by
  cases h
  assumption

theorem of_tables (h : (Value.tables items).Distinct) : ∀ entries ∈ items, entries.Distinct := by
  cases h
  assumption

/-- A table may be added to an array of tables. -/
theorem tables_concat (h : ∀ entries ∈ items, entries.Distinct) (hlast : entries.Distinct) :
    (Value.tables (items ++ [entries])).Distinct := by
  refine .tables fun t ht => ?_
  obtain hold | hnew := List.mem_append.1 ht
  · exact h t hold
  · rwa [List.mem_singleton.1 hnew]

end Value.Distinct

/-! ### Changes of a table -/

namespace Entries

variable {entries entries' : Entries} {items : List Entries} {key step : Key} {value : Value}
  {kind : TableKind} {change : Entries → Option Entries}

namespace Distinct

theorem keys (h : entries.Distinct) : (entries.map Prod.fst).Nodup := by
  cases h
  assumption

theorem values (h : entries.Distinct) : ∀ entry ∈ entries, entry.2.Distinct := by
  cases h
  assumption

theorem nil : Distinct [] := .intro List.nodup_nil fun _ hmem => (List.not_mem_nil hmem).elim

/-- What is found in a table is one of its values. -/
theorem lookup (h : entries.Distinct) (hvalue : entries.lookup key = some value) :
    value.Distinct := by
  obtain ⟨before, after, rfl, -⟩ := List.lookup_eq_some_iff.1 hvalue
  exact h.values (key, value) (List.mem_append_right _ List.mem_cons_self)

/-- A key that is not there may be added. -/
theorem concat (h : entries.Distinct) (hnone : entries.lookup key = none)
    (hvalue : value.Distinct) : Distinct (entries ++ [(key, value)]) := by
  have hnew : key ∉ entries.map Prod.fst := by
    intro hmem
    obtain ⟨entry, hentry, rfl⟩ := List.mem_map.1 hmem
    simpa using List.lookup_eq_none_iff.1 hnone entry hentry
  refine .intro ?_ fun entry hentry => ?_
  · rw [List.map_append]
    exact h.keys.append (List.nodup_singleton key) (by simpa using hnew)
  · obtain hold | hlast := List.mem_append.1 hentry
    · exact h.values entry hold
    · rw [List.mem_singleton.1 hlast]
      exact hvalue

/-- The value of a key may be replaced. -/
theorem replace (h : entries.Distinct) (key : Key) (hvalue : value.Distinct) :
    (entries.replace key value).Distinct := by
  have hkeys : (entries.replace key value).map Prod.fst = entries.map Prod.fst := by
    rw [Entries.replace, List.map_map]
    refine List.map_congr_left fun entry _ => ?_
    by_cases hkey : entry.1 = key <;> simp [hkey]
  refine .intro (hkeys ▸ h.keys) fun entry hentry => ?_
  obtain ⟨old, hold, rfl⟩ := List.mem_map.1 hentry
  split
  · exact hvalue
  · exact h.values old hold

end Distinct

/-- A change of tables makes no key stand twice. -/
def Keeps (change : Entries → Option Entries) : Prop :=
  ∀ t t' : Entries, t.Distinct → change t = some t' → t'.Distinct

namespace Keeps

/-- A table may be made of nothing under a key that is not there, -/
theorem under_new (hchange : Keeps change) (h : entries.Distinct)
    (hnone : entries.lookup step = none)
    (hdefine : ((change []).map fun t => entries ++ [(step, .table kind t)]) = some entries') :
    entries'.Distinct := by
  obtain ⟨t, ht, rfl⟩ := Option.map_eq_some_iff.1 hdefine
  exact h.concat hnone (.table (hchange [] t .nil ht))

/-- and the table under a key that is there may be changed, -/
theorem under_table (hchange : Keeps change) (h : entries.Distinct) {t : Entries}
    (hlookup : entries.lookup step = some (.table kind t))
    (hdefine : ((change t).map fun t => entries.replace step (.table kind t)) = some entries') :
    entries'.Distinct := by
  obtain ⟨t', ht', rfl⟩ := Option.map_eq_some_iff.1 hdefine
  exact h.replace step (.table (hchange t t' (h.lookup hlookup).of_table ht'))

/-- or the last one of an array of tables. -/
theorem under_last (hchange : Keeps change) (h : entries.Distinct)
    (hlookup : entries.lookup step = some (.tables items))
    (hdefine : (do
      let t ← change (← items.getLast?)
      some (entries.replace step (.tables (items.dropLast ++ [t])))) = some entries') :
    entries'.Distinct := by
  obtain ⟨last, hlast, hdefine⟩ := Option.bind_eq_some_iff.1 hdefine
  obtain ⟨t, ht, hdefine⟩ := Option.bind_eq_some_iff.1 hdefine
  obtain rfl := Option.some_inj.1 hdefine
  have hitems := (h.lookup hlookup).of_tables
  have hrest : ∀ u ∈ items.dropLast, u.Distinct := fun u hu =>
    hitems u (List.dropLast_subset _ hu)
  have ht' : t.Distinct := hchange last t (hitems last (List.mem_of_getLast? hlast)) ht
  exact h.replace step (Value.Distinct.tables_concat hrest ht')

end Keeps

theorem keeps_insertDotted (hvalue : value.Distinct) (path : List Key) :
    Keeps (insertDotted key value path) := by
  induction path with
  | nil =>
    intro t t' h hdefine
    rw [insertDotted] at hdefine
    split at hdefine
    next hnone =>
      obtain rfl := Option.some_inj.1 hdefine
      exact h.concat hnone hvalue
    next => cases hdefine
  | cons step path ih =>
    intro t t' h hdefine
    rw [insertDotted] at hdefine
    split at hdefine
    next hnone => exact ih.under_new h hnone hdefine
    next hlookup => exact ih.under_table h hlookup hdefine
    next hlookup => exact ih.under_table h hlookup (Option.ite_none_left_eq_some.1 hdefine).2
    next hlookup => exact ih.under_last h hlookup (Option.ite_none_left_eq_some.1 hdefine).2
    next => cases hdefine

theorem Keeps.changeUnder (hchange : Keeps change) (path : List Key) :
    Keeps (changeUnder change path) := by
  induction path with
  | nil => exact hchange
  | cons step path ih =>
    intro t t' h hdefine
    rw [Entries.changeUnder] at hdefine
    split at hdefine
    next hnone => exact ih.under_new h hnone hdefine
    next => cases hdefine
    next hlookup => exact ih.under_table h hlookup hdefine
    next hlookup => exact ih.under_last h hlookup hdefine
    next => cases hdefine

theorem keeps_defineTable (key : Key) : Keeps (defineTable key) := by
  intro t t' h hdefine
  rw [defineTable] at hdefine
  split at hdefine
  next hnone =>
    obtain rfl := Option.some_inj.1 hdefine
    exact h.concat hnone (.table .nil)
  next hlookup =>
    obtain rfl := Option.some_inj.1 hdefine
    exact h.replace key (.table (h.lookup hlookup).of_table)
  next => cases hdefine

theorem keeps_addTable (key : Key) : Keeps (addTable key) := by
  intro t t' h hdefine
  rw [addTable] at hdefine
  split at hdefine
  next hnone =>
    obtain rfl := Option.some_inj.1 hdefine
    exact h.concat hnone (.tables fun t ht => List.mem_singleton.1 ht ▸ .nil)
  next hlookup =>
    obtain rfl := Option.some_inj.1 hdefine
    exact h.replace key (Value.Distinct.tables_concat (h.lookup hlookup).of_tables .nil)
  next => cases hdefine

end Entries

/-! ### Values -/

/-- If a value is read, it has no key twice. -/
def YieldsDistinct (reading : Option (Value × List Char)) : Prop :=
  ∀ value rest, reading = some (value, rest) → value.Distinct

namespace YieldsDistinct

variable {α : Type} {o : Option α} {value : Value} {rest : List Char}

theorem none : YieldsDistinct none := fun _ _ h => nomatch h

theorem some (h : value.Distinct) : YieldsDistinct (some (value, rest)) := by
  rintro _ _ ⟨⟩
  exact h

theorem map {f : α → Value × List Char} (h : ∀ a, o = Option.some a → (f a).1.Distinct) :
    YieldsDistinct (o.map f) := by
  intro value rest hread
  obtain ⟨a, ha, hvalue⟩ := Option.map_eq_some_iff.1 hread
  have hdistinct := h a ha
  rwa [hvalue] at hdistinct

theorem bind {f : α → Option (Value × List Char)}
    (h : ∀ a, o = Option.some a → YieldsDistinct (f a)) : YieldsDistinct (o >>= f) := by
  intro value rest hread
  obtain ⟨a, ha, hvalue⟩ := Option.bind_eq_some_iff.1 hread
  exact h a ha value rest hvalue

end YieldsDistinct

theorem distinct_of_scalar? {s : List Char} {value : Value} (h : scalar? s = some value) :
    value.Distinct := by
  rw [scalar?] at h
  split_ifs at h
  · cases h
    exact .boolean true
  · cases h
    exact .boolean false
  · cases h
    cases integer? s with
    | none => exact .noInteger
    | some n => exact .integer n
  · cases hreal : real? s with
    | none =>
      rw [hreal] at h
      obtain ⟨m, -, rfl⟩ := Option.map_eq_some_iff.1 (h : (moment? s).map .moment = some value)
      exact .moment m
    | some x =>
      rw [hreal] at h
      cases h
      exact .real x

theorem yieldsDistinct_leadingScalar? (s : List Char) : YieldsDistinct (leadingScalar? s) := by
  have honly : YieldsDistinct ((scalar? (s.takeWhile isScalarChar)).map
      (·, s.dropWhile isScalarChar)) := .map fun _ => distinct_of_scalar?
  rw [leadingScalar?]
  split
  · split_ifs
    · exact .map fun m _ => .moment m
    · exact honly
  · exact honly

/-- With so much fuel, whatever has been read within some brackets, a value is read in the end that
has no key twice. -/
structure ReadsDistinct (fuel : Nat) : Prop where
  value : ∀ depth s, YieldsDistinct (value? fuel depth s)
  items : ∀ depth items s, (∀ item ∈ items, Value.Distinct item) →
    YieldsDistinct (items? fuel depth items s)
  fields : ∀ depth entries s, Entries.Distinct entries →
    YieldsDistinct (fields? fuel depth entries s)

namespace ReadsDistinct

variable {fuel : Nat}

theorem value_succ (h : ReadsDistinct fuel) (depth : Nat) (s : List Char) :
    YieldsDistinct (value? (fuel + 1) depth s) := by
  rw [value?.eq_def]
  split
  next heq => cases heq
  next => exact .map fun _ _ => .text _
  next => exact .map fun _ _ => .text _
  next => exact .none
  next => exact .none
  next heq =>
    cases heq
    exact .bind fun _ _ => h.items _ _ _ fun _ hmem => nomatch hmem
  next heq =>
    cases heq
    exact .bind fun _ _ => h.fields _ _ _ .nil
  next => exact yieldsDistinct_leadingScalar? _

theorem items_succ (h : ReadsDistinct fuel) (depth : Nat) (items : List Value) (s : List Char)
    (hitems : ∀ item ∈ items, Value.Distinct item) :
    YieldsDistinct (items? (fuel + 1) depth items s) := by
  rw [items?.eq_def]
  split
  next heq => cases heq
  next => exact .some (.array hitems)
  next heq _ =>
    cases heq
    refine .bind fun (item, _) hitem => .bind fun _ _ => ?_
    have hmore := List.forall_mem_append.2
      ⟨hitems, List.forall_mem_singleton.2 (h.value _ _ item _ hitem)⟩
    split
    · exact .bind fun _ _ => h.items _ _ _ hmore
    · exact .some (.array hmore)
    · exact .none

theorem fields_succ (h : ReadsDistinct fuel) (depth : Nat) (entries : Entries) (s : List Char)
    (hentries : entries.Distinct) : YieldsDistinct (fields? (fuel + 1) depth entries s) := by
  rw [fields?.eq_def]
  split
  next heq => cases heq
  next => exact .some (.table hentries)
  next heq _ =>
    cases heq
    -- the key, the equals sign and what may stand around it
    refine .bind fun (path, key, _) _ => .bind fun _ _ => .bind fun _ _ => .bind fun _ _ => ?_
    refine .bind fun (value, _) hvalue => .bind fun more hmore => .bind fun _ _ => ?_
    have hdistinct : more.Distinct :=
      Entries.keeps_insertDotted (h.value _ _ value _ hvalue) path _ _ hentries hmore
    split
    · exact .bind fun _ _ => h.fields _ _ _ hdistinct
    · exact .some (.table hdistinct)
    · exact .none

end ReadsDistinct

theorem readsDistinct (fuel : Nat) : ReadsDistinct fuel := by
  induction fuel with
  | zero => exact ⟨fun _ _ => .none, fun _ _ _ _ => .none, fun _ _ _ _ => .none⟩
  | succ fuel ih => exact ⟨ih.value_succ, ih.items_succ, ih.fields_succ⟩

/-! ### Documents -/

/-- The value of an entry has no key twice. -/
def Statement.Distinct : Statement → Prop
  | .entry _ _ value => value.Distinct
  | .header .. | .item .. => True

theorem distinct_of_statement? {s rest : List Char} {statement : Statement}
    (h : statement? s = some (statement, rest)) : statement.Distinct := by
  rw [statement?.eq_def] at h
  split at h
  next =>
    obtain ⟨_, -, h⟩ := Option.bind_eq_some_iff.1 h
    obtain ⟨_, -, h⟩ := Option.bind_eq_some_iff.1 h
    obtain ⟨_, -, h⟩ := Option.bind_eq_some_iff.1 h
    cases h
    trivial
  next =>
    obtain ⟨_, -, h⟩ := Option.bind_eq_some_iff.1 h
    obtain ⟨_, -, h⟩ := Option.bind_eq_some_iff.1 h
    cases h
    trivial
  next =>
    obtain ⟨_, -, h⟩ := Option.bind_eq_some_iff.1 h
    obtain ⟨_, -, h⟩ := Option.bind_eq_some_iff.1 h
    obtain ⟨_, hread, h⟩ := Option.bind_eq_some_iff.1 h
    cases h
    exact (readsDistinct _).value _ _ _ _ hread

theorem distinct_of_statements? {fuel : Nat} {s : List Char} {statements : List Statement}
    (h : statements? fuel s = some statements) :
    ∀ statement ∈ statements, statement.Distinct := by
  induction fuel generalizing s statements with
  | zero => cases h
  | succ fuel ih =>
    rw [statements?.eq_def] at h
    obtain ⟨s, -, h⟩ := Option.bind_eq_some_iff.1 h
    split at h
    next =>
      cases h
      exact fun _ hmem => nomatch hmem
    next =>
      obtain ⟨⟨statement, more⟩, hfirst, h⟩ := Option.bind_eq_some_iff.1 h
      obtain ⟨-, h⟩ := Option.ite_none_right_eq_some.1 h
      obtain ⟨others, hothers, h⟩ := Option.bind_eq_some_iff.1 h
      cases h
      exact List.forall_mem_cons.2 ⟨distinct_of_statement? hfirst, ih hothers⟩

namespace Entries

theorem distinct_of_build? {statements : List Statement} {here : List Key}
    {root entries : Entries} (hstatements : ∀ statement ∈ statements, statement.Distinct)
    (hroot : root.Distinct) (h : build? here root statements = some entries) :
    entries.Distinct := by
  induction statements generalizing here root with
  | nil =>
    obtain rfl := Option.some_inj.1 h
    exact hroot
  | cons statement rest ih =>
    obtain ⟨hfirst, hrest⟩ := List.forall_mem_cons.1 hstatements
    cases statement with
    | entry path key value =>
      obtain ⟨next, hnext, h⟩ := Option.bind_eq_some_iff.1 h
      exact ih hrest ((keeps_insertDotted hfirst path).changeUnder here _ _ hroot hnext) h
    | header path key =>
      obtain ⟨next, hnext, h⟩ := Option.bind_eq_some_iff.1 h
      exact ih hrest ((keeps_defineTable key).changeUnder path _ _ hroot hnext) h
    | item path key =>
      obtain ⟨next, hnext, h⟩ := Option.bind_eq_some_iff.1 h
      exact ih hrest ((keeps_addTable key).changeUnder path _ _ hroot hnext) h

/-- **No table of a document has a key twice.** -/
theorem distinct_of_parse? {s : List Char} {entries : Entries} (h : parse? s = some entries) :
    entries.Distinct := by
  obtain ⟨statements, hread, hbuild⟩ := Option.bind_eq_some_iff.1 h
  exact distinct_of_build? (distinct_of_statements? hread) .nil hbuild

end Entries

end LineEditor.Toml
