import Binder.Syntax.Decl

/-!
# Packages

A package is written in several source units. Collecting it moves their declarations to one list for
each kind, keeps the first package clause and one import of those that say the same, and remembers
the order in which the members were written.

* `Package.collect`: the collection; units are kept, emptied.
* `Package.collect_collect`: there is nothing left to collect a second time.
* `Package.memberName?`: the name a reference to a member stands for.
-/

namespace Binder

/-- A declaration at the top level of a source unit. -/
inductive Declaration
  | clause (c : PackageClause)
  | use (i : Import)
  | function (f : Callable)
  | struct (s : Struct)
  | connector (c : Connector)
  | service (s : Service)
  | var (v : VarDecl)
deriving Inhabited

/-- The kinds of members of a package. -/
inductive MemberKind
  | function | struct | connector | service | var
deriving DecidableEq, Inhabited

/-- A member of a package, by its place among those of its kind. -/
structure MemberRef where
  kind : MemberKind
  index : Nat
deriving DecidableEq, Inhabited

/-- A source file. -/
structure SourceUnit where
  file : UInt32
  name : String
  declarations : List Declaration
deriving Inhabited

structure Package where
  span : Span := .origin
  units : List SourceUnit := []
  clause : Option PackageClause := none
  imports : List Import := []
  /-- The members in the order they were written, unit by unit. -/
  order : List MemberRef := []
  structs : List Struct := []
  connectors : List Connector := []
  services : List Service := []
  functions : List Callable := []
  vars : List VarDecl := []
  initializer : Option Callable := none
  symbol : Option SymbolId := none
deriving Inhabited

namespace Package

variable (p : Package)

/-- The package with one more declaration. -/
def add : Declaration → Package
  | .clause c => { p with clause := p.clause.or (some c) }
  | .use i => if p.imports.any (·.same i) then p else { p with imports := p.imports ++ [i] }
  | .function f =>
    { p with
      order := p.order ++ [⟨.function, p.functions.length⟩]
      functions := p.functions ++ [f] }
  | .struct s =>
    { p with
      order := p.order ++ [⟨.struct, p.structs.length⟩]
      structs := p.structs ++ [s] }
  | .connector c =>
    { p with
      order := p.order ++ [⟨.connector, p.connectors.length⟩]
      connectors := p.connectors ++ [c] }
  | .service s =>
    { p with
      order := p.order ++ [⟨.service, p.services.length⟩]
      services := p.services ++ [s] }
  | .var v =>
    { p with
      order := p.order ++ [⟨.var, p.vars.length⟩]
      vars := p.vars ++ [v] }

/-- The declarations not collected yet, in the order they are written. -/
def pending : List Declaration := p.units.flatMap (·.declarations)

/-- The package with its units emptied. -/
def drain : Package := { p with units := p.units.map fun u => { u with declarations := [] } }

/-- The package with the declarations of its units moved to the list of their kind. -/
def collect : Package := p.pending.foldl add p.drain

/-- The name of the member that `r` refers to. -/
def memberName? (r : MemberRef) : Option String :=
  match r.kind with
  | .function => p.functions[r.index]?.map (·.head.name.text)
  | .struct => p.structs[r.index]?.map (·.name.text)
  | .connector => p.connectors[r.index]?.map (·.name.text)
  | .service => p.services[r.index]?.map (·.name.text)
  | .var => p.vars[r.index]?.map (·.name.text)

/-! ## Collecting -/

@[simp] theorem units_add (d : Declaration) : (p.add d).units = p.units := by
  cases d with
  | use i => simp only [add]; split <;> rfl
  | _ => rfl

theorem units_foldl_add (ds : List Declaration) : (ds.foldl add p).units = p.units := by
  induction ds generalizing p with
  | nil => rfl
  | cons d ds ih => rw [List.foldl_cons, ih, units_add]

theorem units_collect : p.collect.units = p.drain.units := units_foldl_add _ _

theorem pending_collect : p.collect.pending = [] := by
  simp [pending, units_collect, drain]

theorem drain_of_pending {p : Package} (h : p.pending = []) : p.drain = p := by
  have hu : p.units.map (fun u => { u with declarations := [] }) = p.units := by
    refine List.map_congr_left (g := id) (fun u hu => ?_) |>.trans (List.map_id _)
    have : u.declarations = [] := List.flatMap_eq_nil_iff.1 h u hu
    exact congrArg (fun ds => { u with declarations := ds }) this.symm
  rw [drain, hu]

/-- There is nothing left to collect a second time. -/
theorem collect_collect : p.collect.collect = p.collect := by
  rw [collect, pending_collect, List.foldl_nil, drain_of_pending p.pending_collect]

end Package

end Binder
