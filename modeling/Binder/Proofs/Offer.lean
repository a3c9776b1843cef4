import Binder.Entry.Members

/-!
# Offers

Entering a package makes one symbol after another and offers each to the scope of the symbol it
belongs to, which takes it if the name is free and refuses it otherwise. What is offered can be read
off the declarations as they are entered: each carries its symbol, and the symbol of a container or
callable stands for its scope.

* `Offer`: a symbol offered to a scope.
* `Callable.offers`: what entering a callable offers, its workers included.
* `Package.memberOffers`: what entering the members of a package offers, in order.
-/

namespace Binder

/-- A symbol offered to the scope of another one. -/
structure Offer where
  /-- The symbol whose scope it is offered to. -/
  container : Option SymbolId
  /-- The name it is offered under. -/
  text : String
  kind : SymbolKind
  flags : Flags := .none
  /-- The type of a variable. -/
  ty : Option TypeId := none
  span : Span
  symbol : Option SymbolId
deriving DecidableEq

namespace Offer

/-- The place that an offer claims: a name in a scope. -/
def place (o : Offer) : Option SymbolId × String := (o.container, o.text)

/-- What a scope gets from an offer that it takes. -/
def binding (o : Offer) : String × Option SymbolId := (o.text, o.symbol)

/-- What is reported of an offer that is refused, and where. -/
def complaint (o : Offer) : Span × String :=
  (o.span, (Problem.redeclared o.kind.word o.text default).message)

end Offer

/-! ## Variables and callables -/

namespace VarDecl

/-- The offer of a variable to the scope of `container`. -/
def offer (container : Option SymbolId) (v : VarDecl) : Offer :=
  { container, text := v.name.text, kind := .var, flags := v.flags, ty := v.ty, span := v.span
    symbol := v.symbol }

/-- What a variable offers; an unnamed variable is not offered. -/
def offers (container : Option SymbolId) (v : VarDecl) : List Offer :=
  if v.name.text = "" then [] else [v.offer container]

end VarDecl

namespace CallableHead

/-- The offer of a callable under the name `text`. -/
def offer (container : Option SymbolId) (text : String) (kind : SymbolKind) (h : CallableHead) :
    Offer :=
  { container, text, kind, flags := h.flags, span := h.span, symbol := h.symbol }

/-- The parameters, the receiver and the returns of a callable. Only a method has a receiver that is
    entered. -/
def parts (kind : SymbolKind) (h : CallableHead) : List VarDecl :=
  h.params ++ (if kind = .method then h.receiver.toList else []) ++ h.returns

/-- The parts of a callable, as they are offered to its scope. -/
def partOffers (kind : SymbolKind) (h : CallableHead) : List Offer :=
  (h.parts kind).flatMap (·.offers h.symbol)

end CallableHead

namespace Callable

mutual

/-- What a callable offers: itself, under the name `text`, and what is in it. -/
def offers (container : Option SymbolId) (text : String) (kind : SymbolKind) :
    Callable → List Offer
  | mk head workers =>
    head.offer container text kind :: (head.partOffers kind ++ workerOffers head.symbol workers)

/-- What the workers of a callable offer. -/
def workerOffers (container : Option SymbolId) : List Callable → List Offer
  | [] => []
  | worker :: rest =>
    offers container worker.head.name.text .worker worker ++ workerOffers container rest

end

mutual

/-- The parts of a callable and of the workers nested in it. -/
def allParts (kind : SymbolKind) : Callable → List VarDecl
  | mk head workers => head.parts kind ++ workerParts workers

/-- The parts of workers and of those nested in them. -/
def workerParts : List Callable → List VarDecl
  | [] => []
  | worker :: rest => allParts .worker worker ++ workerParts rest

end

/-- What is in a callable, as it is offered to its scope and those of its workers. -/
def innerOffers (kind : SymbolKind) (c : Callable) : List Offer :=
  c.head.partOffers kind ++ workerOffers c.head.symbol c.workers

theorem offers_eq (container : Option SymbolId) (text : String) (kind : SymbolKind) (c : Callable) :
    c.offers container text kind = c.head.offer container text kind :: c.innerOffers kind := by
  cases c
  rw [offers, innerOffers, head, workers]

/-- A function with a receiver is a method. -/
def functionKind (f : Callable) : SymbolKind :=
  if f.head.receiver.isSome then .method else .function

/-- The name that a function or method is offered under. -/
def functionName (f : Callable) : String :=
  match f.head.receiver with
  | some receiver => methodName receiver.type f.head.name
  | none => f.head.name.text

/-- The parts of a function or method and of the workers nested in it. -/
def functionParts (f : Callable) : List VarDecl := f.allParts f.functionKind

/-- The offer of a function or method itself. -/
def functionOffer (container : Option SymbolId) (f : Callable) : Offer :=
  f.head.offer container f.functionName f.functionKind

/-- What a function or method offers. -/
def functionOffers (container : Option SymbolId) (f : Callable) : List Offer :=
  f.offers container f.functionName f.functionKind

/-- The offer of an action or resource itself. -/
def memberOffer (container : Option SymbolId) (kind : SymbolKind) (m : Callable) : Offer :=
  m.head.offer container m.head.name.text kind

/-- What an action or resource offers. -/
def memberOffers (container : Option SymbolId) (kind : SymbolKind) (m : Callable) : List Offer :=
  m.offers container m.head.name.text kind

end Callable

/-! ## Containers -/

namespace Struct

def offer (container : Option SymbolId) (d : Struct) : Offer :=
  { container, text := d.name.text, kind := .struct, flags := d.flags, span := d.span
    symbol := d.symbol }

/-- The fields, as they are offered to the scope of the struct. -/
def fieldOffers (d : Struct) : List Offer := d.fields.flatMap (·.offers d.symbol)

end Struct

namespace Connector

def offer (container : Option SymbolId) (d : Connector) : Offer :=
  { container, text := d.name.text, kind := .connector, flags := d.flags, span := d.span
    symbol := d.symbol }

/-- What the initializer offers. -/
def initializerOffers (container : Option SymbolId) (d : Connector) : List Offer :=
  d.initializer.toList.flatMap (·.functionOffers container)

/-- What the actions offer. -/
def actionOffers (d : Connector) : List Offer :=
  d.actions.flatMap (·.memberOffers d.symbol .action)

/-- The parts of the initializer and of the actions. -/
def allVars (d : Connector) : List VarDecl :=
  d.initializer.toList.flatMap (·.functionParts) ++ d.actions.flatMap (·.allParts .action)

end Connector

namespace Service

def offer (container : Option SymbolId) (d : Service) : Offer :=
  { container, text := d.name.text, kind := .service, flags := d.flags, span := d.span
    symbol := d.symbol }

/-- What the initializer offers. -/
def initializerOffers (container : Option SymbolId) (d : Service) : List Offer :=
  d.initializer.toList.flatMap (·.functionOffers container)

/-- What the resources offer. -/
def resourceOffers (d : Service) : List Offer :=
  d.resources.flatMap (·.memberOffers d.symbol .resource)

/-- The parts of the initializer and of the resources. -/
def allVars (d : Service) : List VarDecl :=
  d.initializer.toList.flatMap (·.functionParts) ++ d.resources.flatMap (·.allParts .resource)

end Service

/-! ## Packages -/

/-- The offer of an imported package under the local name of the import. -/
def Import.offer (container : Option SymbolId) (i : Import) : Offer :=
  { container, text := i.localName, kind := .package, span := i.span, symbol := i.symbol }

/-- What the members of a package offer, `container` being the symbol of the package. -/
def Package.memberOffers (container : Option SymbolId) (p : Package) : List Offer :=
  p.structs.map (·.offer container) ++
    p.connectors.flatMap (fun d => d.offer container :: d.initializerOffers container) ++
    p.services.map (·.offer container) ++
    p.structs.flatMap (·.fieldOffers) ++
    p.connectors.flatMap (·.actionOffers) ++
    p.functions.flatMap (·.functionOffers container) ++
    p.services.flatMap (fun d => d.initializerOffers container ++ d.resourceOffers) ++
    p.vars.flatMap (·.offers container) ++
    p.initializer.toList.flatMap (·.functionOffers container)

/-- The variables that are declared in a package: the fields of structs, the parts of callables,
    workers included, and the module variables. -/
def Package.allVars (p : Package) : List VarDecl :=
  p.structs.flatMap (·.fields) ++ p.connectors.flatMap (·.allVars) ++
    p.functions.flatMap (·.functionParts) ++ p.services.flatMap (·.allVars) ++ p.vars ++
    p.initializer.toList.flatMap (·.functionParts)

end Binder
