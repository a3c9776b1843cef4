import Binder.Syntax.Package
import Mathlib.Data.List.Basic

/-!
# What collecting depends on

Collecting a package keeps the first package clause and one import of those that say the same; all
other declarations become members, each in the list of its kind. So in which order the latter are
written, and in which unit, makes a difference only to the order in these lists.

* `Package.members`: what is declared in a package, imports aside.
* `Package.members_collect`: collecting adds what is still in the units.
* `Package.Reorders`: two packages are written alike, but for the order of their members.
* `Package.Shuffles`: two packages that have been collected have the same members.
* `Package.Reorders.collect`: the former, once collected, are the latter.
-/

namespace Binder

/-! ## Declarations by kind -/

namespace Declaration

def clause? : Declaration → Option PackageClause
  | clause c => some c
  | _ => none

def use? : Declaration → Option Import
  | use i => some i
  | _ => none

def struct? : Declaration → Option Struct
  | struct d => some d
  | _ => none

def connector? : Declaration → Option Connector
  | connector d => some d
  | _ => none

def service? : Declaration → Option Service
  | service d => some d
  | _ => none

def function? : Declaration → Option Callable
  | function f => some f
  | _ => none

def var? : Declaration → Option VarDecl
  | var v => some v
  | _ => none

/-- Whether the declaration becomes a member of the package. -/
def isMember : Declaration → Bool
  | clause _ | use _ => false
  | _ => true

end Declaration

namespace Package

/-- What is declared in a package, imports aside. -/
def members (p : Package) : List Declaration :=
  p.structs.map .struct ++ p.connectors.map .connector ++ p.services.map .service ++
    p.functions.map .function ++ p.vars.map .var

/-- The members are kept by kind. -/
theorem filterMap_members (p : Package) :
    p.members.filterMap (·.struct?) = p.structs ∧
      p.members.filterMap (·.connector?) = p.connectors ∧
      p.members.filterMap (·.service?) = p.services ∧
      p.members.filterMap (·.function?) = p.functions ∧
      p.members.filterMap (·.var?) = p.vars := by
  simp [members, List.filterMap_map, Declaration.struct?, Declaration.connector?,
    Declaration.service?, Declaration.function?, Declaration.var?]

/-! ## Collecting -/

section

variable (p : Package)

/-- The imports with one more, unless one says the same. -/
def addImport (imports : List Import) (i : Import) : List Import :=
  if imports.any (·.same i) then imports else imports ++ [i]

theorem imports_add_use (i : Import) : (p.add (.use i)).imports = addImport p.imports i := by
  rw [add, addImport]
  split <;> rfl

theorem span_add (d : Declaration) : (p.add d).span = p.span := by
  cases d with
  | use i => rw [add]; split <;> rfl
  | _ => rfl

theorem clause_add (d : Declaration) : (p.add d).clause = p.clause.or d.clause? := by
  cases d with
  | clause c => rfl
  | use i => rw [add]; split <;> exact Option.or_none.symm
  | _ => exact Option.or_none.symm

theorem imports_add (d : Declaration) :
    (p.add d).imports = d.use?.toList.foldl addImport p.imports := by
  cases d with
  | use i => exact p.imports_add_use i
  | _ => rfl

/-- A declaration that becomes a member is added to the list of its kind. -/
theorem members_add (d : Declaration) :
    (p.add d).members.Perm (p.members ++ [d].filter (·.isMember)) := by
  -- What is added to an earlier list comes before all that is in the later ones.
  have hlast : ∀ {α : Type} {f : α → Declaration} (xs : List Declaration) (as : List α) (a : α),
      (xs ++ (as ++ [a]).map f).Perm (xs ++ as.map f ++ [f a]) := fun xs as a => by
    rw [List.map_append, List.append_assoc]
    exact .refl _
  have hlater : ∀ {xs ys zs : List Declaration} {d : Declaration}, xs.Perm (ys ++ [d]) →
      (xs ++ zs).Perm (ys ++ zs ++ [d]) := fun {xs ys zs d} h => by
    refine (h.append_right zs).trans ?_
    rw [List.append_assoc, List.append_assoc]
    exact List.perm_append_comm.append_left ys
  cases d with
  | clause c => exact .of_eq (List.append_nil p.members).symm
  | use i =>
    rw [add]
    split <;> exact .of_eq (List.append_nil p.members).symm
  | struct d => exact hlater (hlater (hlater (hlater (hlast [] p.structs d))))
  | connector d => exact hlater (hlater (hlater (hlast _ p.connectors d)))
  | service d => exact hlater (hlater (hlast _ p.services d))
  | function f => exact hlater (hlast _ p.functions f)
  | var v => exact hlast _ p.vars v

variable (ds : List Declaration)

theorem span_foldl_add : (ds.foldl add p).span = p.span := by
  induction ds generalizing p with
  | nil => rfl
  | cons d rest ih => rw [List.foldl_cons, ih, span_add]

theorem clause_foldl_add : (ds.foldl add p).clause = p.clause.or (ds.filterMap (·.clause?)).head? := by
  induction ds generalizing p with
  | nil => exact Option.or_none.symm
  | cons d rest ih =>
    rw [List.foldl_cons, ih, clause_add, Option.or_assoc]
    cases h : d.clause? with
    | none => rw [List.filterMap_cons_none h, Option.none_or]
    | some c => rw [List.filterMap_cons_some h, List.head?_cons, Option.some_or]

theorem imports_foldl_add :
    (ds.foldl add p).imports = (ds.filterMap (·.use?)).foldl addImport p.imports := by
  induction ds generalizing p with
  | nil => rfl
  | cons d rest ih =>
    rw [List.foldl_cons, ih, imports_add]
    cases h : d.use? with
    | none => rw [List.filterMap_cons_none h]; rfl
    | some i => rw [List.filterMap_cons_some h]; rfl

theorem members_foldl_add :
    (ds.foldl add p).members.Perm (p.members ++ ds.filter (·.isMember)) := by
  induction ds generalizing p with
  | nil => rw [List.filter_nil, List.append_nil]; exact .refl _
  | cons d rest ih =>
    have hsplit : (d :: rest).filter (·.isMember) =
        [d].filter (·.isMember) ++ rest.filter (·.isMember) :=
      List.filter_append [d] rest
    rw [List.foldl_cons, hsplit, ← List.append_assoc]
    exact (ih (p.add d)).trans ((p.members_add d).append_right _)

/-- Collecting adds what is still in the units to the members. -/
theorem members_collect : p.collect.members.Perm (p.members ++ p.pending.filter (·.isMember)) :=
  members_foldl_add p.drain p.pending

end

/-! ## Other orders -/

/-- The packages have the same place, clauses and imports, and the same further declarations, in
    whichever order and units those are written. -/
structure Reorders (p q : Package) : Prop where
  span : p.span = q.span
  clause : p.clause = q.clause
  clauses : p.pending.filterMap (·.clause?) = q.pending.filterMap (·.clause?)
  imports : p.imports = q.imports
  uses : p.pending.filterMap (·.use?) = q.pending.filterMap (·.use?)
  members : (p.members ++ p.pending.filter (·.isMember)).Perm
    (q.members ++ q.pending.filter (·.isMember))

/-- The packages, which have been collected, have the same members, but for their order. -/
structure Shuffles (p q : Package) : Prop where
  span : p.span = q.span
  clause : p.clause = q.clause
  imports : p.imports = q.imports
  structs : p.structs.Perm q.structs
  connectors : p.connectors.Perm q.connectors
  services : p.services.Perm q.services
  functions : p.functions.Perm q.functions
  vars : p.vars.Perm q.vars

theorem Shuffles.members {p q : Package} (h : p.Shuffles q) : p.members.Perm q.members :=
  ((((h.structs.map _).append (h.connectors.map _)).append (h.services.map _)).append
    (h.functions.map _)).append (h.vars.map _)

/-- Packages that are written alike are collected alike, but for the order of their members. -/
theorem Reorders.collect {p q : Package} (h : p.Reorders q) : p.collect.Shuffles q.collect := by
  have hmembers : p.collect.members.Perm q.collect.members :=
    p.members_collect.trans (h.members.trans q.members_collect.symm)
  obtain ⟨hstructs, hconnectors, hservices, hfunctions, hvars⟩ := p.collect.filterMap_members
  obtain ⟨hstructs', hconnectors', hservices', hfunctions', hvars'⟩ := q.collect.filterMap_members
  exact {
    span := by
      rw [Package.collect, Package.collect, span_foldl_add, span_foldl_add]
      exact h.span
    clause := by
      rw [Package.collect, Package.collect, clause_foldl_add, clause_foldl_add, h.clauses]
      exact congrArg (Option.or · _) h.clause
    imports := by
      rw [Package.collect, Package.collect, imports_foldl_add, imports_foldl_add, h.uses]
      exact congrArg (List.foldl addImport · _) h.imports
    structs := hstructs ▸ hstructs' ▸ hmembers.filterMap _
    connectors := hconnectors ▸ hconnectors' ▸ hmembers.filterMap _
    services := hservices ▸ hservices' ▸ hmembers.filterMap _
    functions := hfunctions ▸ hfunctions' ▸ hmembers.filterMap _
    vars := hvars ▸ hvars' ▸ hmembers.filterMap _ }

end Package

end Binder
