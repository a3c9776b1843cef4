import Binder.Proofs.Offer

/-!
# Runs

What entering declarations can do to a store, said once. A *run* leads from one store to another and
lists the symbols made in between, in order, as offers. It is put together from few kinds of moves:
a name is interned, a problem is reported, an array type is made, a struct type gets its fields, and
a symbol is made and offered to the scope of its container. The symbol of a callable is made first
and gets its type when all that is in the callable is entered, so a callable is a run around a run.

A run has a *mark*, and writes to nothing that is older than the mark: what is there when a package
begins to be entered is left alone.

* `Store.Run`: runs.
* `Store.Admits`: when a symbol can be made and offered.
* `Store.Usable`: the types that a declaration can get. The error type is one of them only if a
  problem has been reported that explains it.
-/

namespace Binder

/-- The numbers of symbols and types that are older than the mark. -/
structure Mark where
  symbols : Nat
  types : Nat

/-- The problems that concern the written types of declarations, and methods. -/
def Problem.concernsTypes : Problem → Bool
  | redeclared .. | cyclicImport _ | importFailed .. => false
  | unknownType _ | unknownPackage _ | receiverNotStruct .. | receiverNotLocal .. |
    fieldMethodClash .. => true

/-- The kinds of symbols that are types. -/
def SymbolKind.isType : SymbolKind → Bool
  | struct | connector | service => true
  | _ => false

/-- The kinds of symbols that are callables. -/
def SymbolKind.isCallable : SymbolKind → Bool
  | function | method | worker | action | resource => true
  | _ => false

theorem SymbolKind.of_isType {k : SymbolKind} (h : k.isType) : k ≠ .package ∧ k ≠ .var := by
  revert h
  cases k <;> decide

theorem SymbolKind.of_isCallable {k : SymbolKind} (h : k.isCallable) :
    k ≠ .package ∧ k ≠ .var ∧ ¬k.isType := by
  revert h
  cases k <;> decide

/-- The types in a signature. -/
def Signature.types (g : Signature) : List TypeId := g.params ++ g.returns ++ g.receiver.toList

/-- The symbol that is made for an offer. -/
def Offer.toSymbol (o : Offer) (name : Name) (pkg : PackageId) : Symbol :=
  { kind := o.kind, name, flags := o.flags, pkg, owner := o.container, ty := o.ty, span := o.span }

/-! ## Making symbols -/

namespace Table

variable (t : Table)

/-- The symbol made next. -/
def nextSymbol : SymbolId := ⟨t.symbols.size⟩

/-- The scope made next. -/
def nextScope : ScopeId := ⟨t.scopes.size⟩

/-- The table with one more symbol, which has a scope of its own. -/
def addOwner (sym : Symbol) (parent : Option ScopeId) : Table :=
  { t with
    symbols := t.symbols.push { sym with scope := some t.nextScope }
    scopes := t.scopes.push { owner := t.nextSymbol, parent } }

/-- The table with one more symbol, which has a scope of its own and is a type. -/
def addTypeOwner (sym : Symbol) (parent : Option ScopeId) : Table :=
  { t.addOwner { sym with ty := some ⟨t.types.size⟩ } parent with
    types := (t.types.alloc (.ofContainer sym.kind t.nextSymbol)).2 }

/-- The table with the callable `x` complete. -/
def complete (x : SymbolId) (signature : Signature) (links : Links) : Table :=
  { t with
    types := (t.types.alloc (.callable signature)).2
    symbols := t.symbols.modify x.index
      ({ · with ty := some ⟨t.types.size⟩, links := some links }) }

end Table

namespace Store

variable (s : Store)

/-- The mark that nothing in the store is newer than. -/
def mark : Mark := ⟨s.table.symbols.size, s.table.types.size⟩

/-- The codes of the problems that leave a declaration with the error type. -/
def typeErrorCodes : List String := ["E0001", "E0104", "E0101", "E0102"]

/-- A problem has been reported that leaves a declaration with the error type. -/
def Reported : Prop := ∃ d ∈ s.log, d.code ∈ typeErrorCodes

/-- A declaration can get the type: the type exists, and is not the error type unless that has been
    reported. -/
def Usable (ty : TypeId) : Prop := (s.table.types.get? ty).isSome ∧ (ty = .error → s.Reported)

/-- The symbol of the offer `o` can be made next, with the given name and in the given package, and
    offered to the scope of `c`. -/
structure Admits (m : Mark) (o : Offer) (c : SymbolId) (scope : ScopeId) (name : Name)
    (pkg : PackageId) : Prop where
  container : o.container = some c
  fresh : m.symbols ≤ c.index
  scopeOf : s.table.scopeOf c = some scope
  pkg : (s.table.symbol? c).map (·.pkg) = some pkg
  symbol : o.symbol = some s.table.nextSymbol
  text : s.names.text? name = some o.text

/-- The store with the symbol `sym` made next and offered to `scope`. -/
def offerNext (sym : Symbol) (scope : ScopeId) (table : Table) : Store :=
  (define sym.span scope sym.name s.table.nextSymbol { s with table }).2

/-- A run that begins with the first store, ends with the second one and makes the symbols listed,
    which are offered to symbols not older than the mark. -/
inductive Run (m : Mark) : Store → List Offer → Store → Prop
  | refl (s : Store) : Run m s [] s
  | trans {s s₁ s₂ : Store} {os os' : List Offer} :
    Run m s os s₁ → Run m s₁ os' s₂ → Run m s (os ++ os') s₂
  | intern (s : Store) (text : String) : Run m s [] (intern text s).2
  | report (s : Store) (p : Problem) (span : Span) :
    p.concernsTypes → Run m s [] (report p span s).2
  | array {s : Store} {element : TypeId} :
    s.Usable element → element ≠ .error → Run m s [] (arrayOf element s).2
  | setFields {s : Store} {id : TypeId} {fields : List Field} :
    m.types ≤ id.index → (∀ f ∈ fields, s.Usable f.ty) → Run m s [] (Store.setFields id fields s).2
  /-- The symbol of a variable. -/
  | var {s : Store} {o : Offer} {c : SymbolId} {scope : ScopeId} {name : Name} {pkg : PackageId}
      {ty : TypeId} :
    s.Admits m o c scope name pkg → o.kind = .var → o.ty = some ty → s.Usable ty →
    Run m s [o] (s.offerNext (o.toSymbol name pkg) scope
      (s.table.addSymbol (o.toSymbol name pkg)).2)
  /-- The symbol of a struct, connector or service. -/
  | container {s : Store} {o : Offer} {c : SymbolId} {scope : ScopeId} {name : Name}
      {pkg : PackageId} :
    s.Admits m o c scope name pkg → o.kind.isType → o.ty = none →
    (s.table.symbol? c).map (·.kind) = some .package →
    Run m s [o] (s.offerNext (o.toSymbol name pkg) scope
      (s.table.addTypeOwner (o.toSymbol name pkg) (some scope)))
  /-- A callable, with what is entered in it. -/
  | callable {s s₁ : Store} {o : Offer} {os : List Offer} {c : SymbolId} {scope : ScopeId}
      {name : Name} {pkg : PackageId} {signature : Signature} {links : Links} :
    s.Admits m o c scope name pkg → o.kind.isCallable → o.ty = none →
    Run m (s.offerNext (o.toSymbol name pkg) scope
      (s.table.addOwner (o.toSymbol name pkg) (some scope))) os s₁ →
    (∀ ty ∈ signature.types, s₁.Usable ty) → (signature.receiver.isSome ↔ o.kind = .method) →
    Run m s (o :: os) { s₁ with table := s₁.table.complete s.table.nextSymbol signature links }

end Store

end Binder
