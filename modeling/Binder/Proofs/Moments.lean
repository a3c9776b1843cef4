import Binder.Proofs.Untouched

/-!
# Moments

The moments of a history, in order: all the sessions that come up while requests are answered, also
in the middle of loads that are nested in one another. At some of them a package is handed out, by a
load to who asked for it or by an import to the scope of the importing package, and at some the
entry of a package ends with success. Between two moments at most the members of one package are
entered, whose points on the way are counted in.

* `Moment`: a session on the way, and what happens there.
* `Package.moments`, `Session.momentsWithin`, `Request.moments`: the moments of an entry, of a load
  and of a request.
* `Request.moments_eq`: the last moment of a request is its end.
* `Moment.Reaches`: the stores that come up from a moment to the next one.
-/

namespace Binder

/-- A session that comes up on the way. -/
structure Moment where
  session : Session
  /-- A package that is handed out here, and the name it was asked for by. -/
  handed : Option (PackageName × SymbolId) := none
  /-- A package whose entry ends here with success, and the session in which it began. -/
  completed : Option (Session × SymbolId) := none
  /-- What the members of a package offer, if members are entered next. -/
  entering : Option (List Offer) := none

/-- The stores that come up from here on before the next moment. -/
def Moment.Reaches (m : Moment) (u : Store) : Prop :=
  u = m.session.store ∨ ∃ mark os os', m.entering = some os ∧ os' <+: os ∧
    Store.Reaches mark m.session.store os' u

/-- The moments of loads. -/
abbrev Tracer := PackageName → Session → List Moment

namespace Import

variable (load : Loader) (trace : Tracer) (site : Site)

/-- The moments of an import. In the end its local name is bound to what was loaded, or it is
    reported why there is nothing. -/
def moments (i : Import) (s : Session) : List Moment :=
  let (name, s₁) := i.targetName s
  { session := s₁ } :: trace name s₁ ++
    [{ session := (i.enter load site s).2
       handed := (load name s₁).1.toOption.map (name, ·) }]

/-- The moments of imports that are entered one after another. -/
def allMoments : List Import → Session → List Moment
  | [], _ => []
  | i :: rest, s => i.moments load trace site s ++ allMoments rest (i.enter load site s).2

end Import

/-- The moments of the entry of a package: it has its symbol, its imports are entered, and then its
    members unless an import failed. -/
def Package.moments (load : Loader) (trace : Tracer) (path : Option PackageName) (p : Package)
    (s : Session) : List Moment :=
  let (_, site, s₁) := p.collect.opened path s
  let ((_, failure), s₂) := Import.enterAll load site p.collect.imports s₁
  let ((p₃, _), s₃) := { p.collect with symbol := some site.package }.enterContents load site s₁
  let ((_, outcome), s₄) := p.enterWith load path s
  { session := s₁ } :: Import.allMoments load trace site p.collect.imports s₁ ++
    [{ session := s₂
       entering := if failure.isNone then some (p₃.memberOffers (some site.package)) else none },
      { session := s₃ }, { session := s₄, completed := outcome.toOption.map (s, ·) }]

namespace Session

/-- The end of a load. -/
def loadMoment (load : Loader) (name : PackageName) (s : Session) : Moment :=
  { session := (load name s).2, handed := (load name s).1.toOption.map (name, ·) }

/-- The moments of a load, with loads nested at most `depth` deep in one another. -/
def momentsWithin : Nat → Tracer
  | 0, name, s => [loadMoment (loadWithin 0) name s]
  | depth + 1, name, s =>
    (match s.settled? name, s.fetch? name with
      | none, some p =>
        let s₁ := (setState name .inProgress s).2
        { session := s₁ } ::
          p.moments (loadWithin depth) (momentsWithin depth) (some name) s₁
      | _, _ => []) ++ [loadMoment (loadWithin (depth + 1)) name s]

end Session

open Session

/-- The moments of a request. -/
def Request.moments (s : Session) : Request → List Moment
  | .define p => p.moments (loadWithin s.depthBound) (momentsWithin s.depthBound) none s
  | .enterAs path version p =>
    let (name, s₁) := onStore (Store.internPackage path version) s
    { session := s₁ } ::
      p.moments (loadWithin s₁.depthBound) (momentsWithin s₁.depthBound) (some name) s₁
  | .load path version =>
    let (name, s₁) := onStore (Store.internPackage path version) s
    { session := s₁ } :: momentsWithin s₁.depthBound name s₁

/-- The moments of requests that are answered one after another. -/
def Session.moments (s : Session) : List Request → List Moment
  | [] => []
  | r :: rest => r.moments s ++ (respond r s).2.moments rest

/-! ## The last moments -/

theorem Package.moments_eq (load : Loader) (trace : Tracer) (path : Option PackageName)
    (p : Package) (s : Session) : ∃ l m, p.moments load trace path s = l ++ [m] ∧
      m.session = (p.enterWith load path s).2 :=
  ⟨_ ++ [_, _], _, (List.append_assoc _ [_, _] [_]).symm, rfl⟩

theorem Session.momentsWithin_eq (depth : Nat) (name : PackageName) (s : Session) :
    ∃ l m, momentsWithin depth name s = l ++ [m] ∧ m.session = (loadWithin depth name s).2 := by
  cases depth with
  | zero => exact ⟨[], _, rfl, rfl⟩
  | succ depth => exact ⟨_, _, rfl, rfl⟩

/-- The last moment of a request is the session that it leaves. -/
theorem Request.moments_eq (r : Request) (s : Session) :
    ∃ l m, r.moments s = l ++ [m] ∧ m.session = (respond r s).2 := by
  cases r with
  | define p => exact p.moments_eq _ _ none s
  | enterAs path version p =>
    let r := onStore (Store.internPackage path version) s
    obtain ⟨l, m, hl, hm⟩ := p.moments_eq _ _ (some r.1) r.2
    exact ⟨_ :: l, m, congrArg (_ :: ·) hl, hm⟩
  | load path version =>
    let r := onStore (Store.internPackage path version) s
    obtain ⟨l, m, hl, hm⟩ := momentsWithin_eq _ r.1 r.2
    exact ⟨_ :: l, m, congrArg (_ :: ·) hl, hm⟩

end Binder
