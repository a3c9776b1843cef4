import Binder.Proofs.BoundTexts
import Binder.Proofs.Entry.Report
import Binder.Proofs.ImportLoading
import Binder.Proofs.Redeclared

/-!
# The order of declarations

In which order the members of a package are written, and in which units, makes no difference to what
they mean, as long as no two of the names that are declared in the scope of the package are the same:
the package comes to the same, the same is reported, though in another order, the same names are bound
to symbols of the same kinds, and all types have the same texts.

* `Package.Shuffles.headings`, `Package.Shuffles.clashes`, `Package.Shuffles.reports`: what members
  come to, one by one.
* `Package.Entered.log_perm`, `Package.Entered.kinds_eq`: what entering members comes to, if no two
  have one name.
* `Session.SameUpToOrder`: what two packages come to is the same, but for the order.
* `Session.Reachable.define_reordered`: packages that are written in different orders come to the same.
-/

namespace Binder

open Store

namespace Package

/-! ## Members one by one -/

namespace Shuffles

variable {p q : Package} (h : p.Shuffles q)
include h

theorem bare : p.bare.Shuffles q.bare where
  span := h.span
  clause := h.clause
  imports := congrArg (List.map _) h.imports
  structs := h.structs.map _
  connectors := h.connectors.map _
  services := h.services.map _
  functions := h.functions.map _
  vars := h.vars.map _

/-- Members are equipped one by one. -/
theorem equipped (config : Config) (title : String) (vars vars' : List VarDecl) :
    (p.equipped config title vars).unbound.Shuffles (q.equipped config title vars').unbound where
  span := h.span
  clause := h.clause
  imports := congrArg (List.map _) h.imports
  structs := (h.structs.map _).map _
  connectors := (h.connectors.map _).map _
  services := (h.services.map _).map _
  functions := (h.functions.map _).map _
  vars := h.vars.map _

/-- The same names are declared. -/
theorem headings (config : Config) (title : String) :
    (p.headings config title).Perm (q.headings config title) := by
  rw [Package.headings, Package.headings, h.imports, h.span]
  exact ((((((((List.Perm.refl _).append (h.structs.map _)).append
    (h.connectors.flatMap_right _)).append (h.services.map _)).append (h.functions.map _)).append
      (h.services.map _)).append ((h.vars.filter _).map _)).append_right _)

/-- The same names are declared twice within members. -/
theorem clashes : p.clashes.Perm q.clashes :=
  have htypes := ((h.structs.map _).append (h.connectors.map _)).append (h.services.map _)
  (((htypes.flatMap_right _).append (h.connectors.flatMap_right _)).append
    (h.functions.flatMap_right _)).append (h.services.flatMap_right _)

/-- The same is reported of written types. -/
theorem reports (s : Store) (c : SymbolId) : (p.reports s c).Perm (q.reports s c) :=
  (((((h.connectors.flatMap_right _).append (h.structs.flatMap_right _)).append
    (h.connectors.flatMap_right _)).append (h.functions.flatMap_right _)).append
      (h.services.flatMap_right _)).append (h.vars.flatMap_right _)

end Shuffles

theorem bare_unbound (p : Package) : p.unbound.bare = p.bare := by
  simp only [unbound, bare, Struct.unbound, Struct.bare, Connector.unbound, Connector.bare,
    Service.unbound, Service.bare, List.map_map, Function.comp_def, VarDecl.bare_unbound,
    Callable.bare_unbound, Import.bare]

theorem members_unbound (p : Package) : p.unbound.members = p.members.map (·.unbound) := by
  simp only [members, unbound, List.map_append, List.map_map]
  rfl

namespace Shuffles

variable {p q : Package} (h : p.unbound.Shuffles q.unbound)
include h

/-- What binding has found out about members makes no difference to how they are called and to what
    is reported of them. -/
theorem bare_of_unbound : p.bare.Shuffles q.bare := by
  rw [← p.bare_unbound, ← q.bare_unbound]
  exact h.bare

theorem headings_of_unbound (config : Config) (title : String) :
    (p.headings config title).Perm (q.headings config title) := by
  rw [← p.headings_bare, ← q.headings_bare]
  exact h.bare_of_unbound.headings config title

theorem clashes_of_unbound : p.clashes.Perm q.clashes := by
  rw [← p.clashes_bare, ← q.clashes_bare]
  exact h.bare_of_unbound.clashes

theorem reports_of_unbound (s : Store) (c : SymbolId) : (p.reports s c).Perm (q.reports s c) := by
  rw [← p.reports_bare, ← q.reports_bare]
  exact h.bare_of_unbound.reports s c

end Shuffles

/-! ## Members that are entered -/

end Package

/-- The names that are bound in the scope of a symbol, each with the kind of what it means. -/
def Store.kinds (s : Store) (c : SymbolId) : List (String × Option SymbolKind) :=
  (s.bindings c).map fun b => (b.1, b.2.bind s.table.kindOf)

namespace Package

/-- The members of a package as they are written, each with the texts of the types that it has. -/
def typedMembers (s : Store) (p : Package) : List (Declaration × List (Option String)) :=
  p.members.map fun d => (d.unbound, d.boundTexts s)

namespace Entered

variable {load : Loader} {site : Site} {s₀ s s₁ s' t' : Session} {imports imports' : List Import}
  {p q : Package}

section

variable (h : Entered load site s₀ s s₁ imports p s') (hempty : s.store.bindings site.package = [])
  (hdistinct : ((p.headings s₀.config (s.store.symbolText site.package)).map (·.1)).Nodup)
include h hdistinct

theorem nodup_texts : ((p.scopeOffers site.package).map Offer.text).Nodup := by
  rw [← h.initialized.map_heading_scopeOffers site.package, List.map_map] at hdistinct
  exact hdistinct

include hempty

/-- What is reported of the members is what is declared twice within each of them, and what is wrong
    with their written types and receivers. -/
theorem log_perm (hothers : s'.store.others =
      s₁.store.others ++ p.reports s'.store site.package) :
    s'.store.log.Perm (s₁.store.log ++ (p.clashes ++ p.reports s'.store site.package)) := by
  -- Redeclarations are reported in between, so the log is sorted into them and the rest.
  have hsplit : ∀ l : Log, (l.refusals ++ l.others).Perm l := fun l =>
    List.filter_append_perm (fun d : Diagnostic => d.code == "E0004") l
  have hrefusals := h.refusals_perm hempty (h.nodup_texts hdistinct)
  calc
    List.Perm s'.store.log (s'.store.refusals ++ s'.store.others) := (hsplit _).symm
    List.Perm _ (s₁.store.refusals ++ p.clashes ++
        (s₁.store.others ++ p.reports s'.store site.package)) :=
      hothers ▸ hrefusals.append_right _
    List.Perm _ (s₁.store.refusals ++ s₁.store.others ++
        (p.clashes ++ p.reports s'.store site.package)) := by
      rw [List.append_assoc, List.append_assoc]
      exact (List.perm_append_comm_assoc _ _ _).append_left _
    List.Perm _ _ := (hsplit _).append_right _

/-- The names that are declared are bound to symbols of their kinds. -/
theorem kinds_eq : s'.store.kinds site.package =
    (p.headings s₀.config (s.store.symbolText site.package)).map fun d => (d.1, some d.2.1) := by
  rw [Store.kinds, h.bindings_of_distinct hempty (h.nodup_texts hdistinct),
    ← h.initialized.map_heading_scopeOffers site.package, List.map_map, List.map_map]
  refine List.map_congr_left fun o ho => ?_
  obtain ⟨x, hx, hk⟩ := h.kindOf_of_mem_scopeOffers ho
  exact congrArg (o.text, ·) (by rw [Offer.binding, hx]; exact hk)

end

/-- What the types in the members are called can be read off what is written. -/
theorem typedMembers_eq (h : Entered load site s₀ s s₁ imports p s')
    (hcomplete : p.CompleteIn s'.store site.package) (ht : s'.store.table.Stratified) :
    p.typedMembers s'.store =
      p.unbound.members.map fun d => (d, (d.texts s'.store site.package).map some) := by
  rw [members_unbound, List.map_map]
  refine List.map_congr_left fun d hd => ?_
  rw [h.boundTexts_eq hcomplete ht hd, Function.comp_apply, d.texts_unbound]

section

variable (h : Entered load site s₀ s s₁ imports p s') (h' : Entered load site s₀ s s₁ imports' q t')
  (hempty : s.store.bindings site.package = []) (hpq : p.unbound.Shuffles q.unbound)
  (hdistinct : ((p.headings s₀.config (s.store.symbolText site.package)).map (·.1)).Nodup)
  (hcomplete : p.CompleteIn s'.store site.package) (hcomplete' : q.CompleteIn t'.store site.package)
include h h' hempty hpq hdistinct hcomplete hcomplete'

/-- The stores agree on names when the same members have been entered instead of one another. -/
theorem agrees_of_shuffles : s'.store.Agrees t'.store site.package := by
  refine agrees h h' hempty (h.nodup_texts hdistinct) ?_ hpq.structs hcomplete.sealed
    hcomplete'.sealed
  rw [h.initialized.map_heading_scopeOffers, h'.initialized.map_heading_scopeOffers]
  exact hpq.headings_of_unbound _ _

/-- The same is reported, the same names are bound to symbols of the same kinds, and the members get
    types with the same texts. -/
theorem perm_of_shuffles (ht : s'.store.table.Stratified) (ht' : t'.store.table.Stratified)
    (hothers : s'.store.others = s₁.store.others ++ p.reports s'.store site.package)
    (hothers' : t'.store.others = s₁.store.others ++ q.reports t'.store site.package) :
    s'.store.log.Perm t'.store.log ∧
      (s'.store.kinds site.package).Perm (t'.store.kinds site.package) ∧
      (p.typedMembers s'.store).Perm (q.typedMembers t'.store) := by
  have hagrees := agrees_of_shuffles h h' hempty hpq hdistinct hcomplete hcomplete'
  have hheadings := hpq.headings_of_unbound s₀.config (s.store.symbolText site.package)
  have hdistinct' := (hheadings.map (·.1)).nodup_iff.1 hdistinct
  refine ⟨?_, ?_, ?_⟩
  · have hlog := h'.log_perm hempty hdistinct' hothers'
    rw [hagrees.reports_eq] at hlog
    exact (h.log_perm hempty hdistinct hothers).trans
      (((hpq.clashes_of_unbound.append (hpq.reports_of_unbound _ _)).append_left _).trans hlog.symm)
  · rw [h.kinds_eq hempty hdistinct, h'.kinds_eq hempty hdistinct']
    exact hheadings.map _
  · rw [h.typedMembers_eq hcomplete ht, h'.typedMembers_eq hcomplete' ht']
    simp only [hagrees.texts_eq]
    exact hpq.members.map _

end

end Entered

/-- Opening a package depends on its clause and its place. -/
theorem opened_congr {s : Session} {path : Option PackageName} {p q : Package}
    (hclause : p.clause = q.clause) (hspan : p.span = q.span) :
    p.opened path s = q.opened path s := by
  have hnaming : p.naming s.config path = q.naming s.config path := by
    unfold naming
    rw [hclause]
  have hdeclare : ∀ name, p.declare name = q.declare name := fun name => by
    unfold declare
    rw [hspan]
  simp only [opened, hnaming, hdeclare]

end Package

/-! ## Packages in other orders -/

namespace Session

/-- What two packages come to in the session `s` is the same, but for the order in which things are
    declared and reported. -/
structure SameUpToOrder (s : Session) (r r' : (Package × Except EnterError SymbolId) × Session) :
    Prop where
  outcome : r'.1.2 = r.1.2
  /-- The same diagnostics are added to the log. -/
  reported : ∃ l l', r.2.store.log = s.store.log ++ l ∧ r'.2.store.log = s.store.log ++ l' ∧ l.Perm l'
  /-- The packages get the same symbol, and in their scopes the same names mean what is of the same
      kinds. -/
  bound : ∃ x, r.1.1.symbol = some x ∧ r'.1.1.symbol = some x ∧ (∀ y, r.1.2 = .ok y → y = x) ∧
    (r.2.store.kinds x).Perm (r'.2.store.kinds x)
  /-- The same declarations come out, and the types in them have the same texts. -/
  typed : (r.1.1.typedMembers r.2.store).Perm (r'.1.1.typedMembers r'.2.store)

end Session

theorem Log.exists_added_perm {log log' before : Log} (h : before <+: log) (h' : before <+: log')
    (hperm : log.Perm log') : ∃ l l', log = before ++ l ∧ log' = before ++ l' ∧ l.Perm l' := by
  obtain ⟨l, rfl⟩ := h
  obtain ⟨l', rfl⟩ := h'
  exact ⟨l, l', rfl, rfl, (List.perm_append_left_iff before).1 hperm⟩

/-- The contents of packages with the same members come to the same, if no two of the names in their
    scopes are the same. -/
theorem Package.enterContents_of_shuffles {load : Loader} {site : Site} {title : String}
    {s₀ s : Session} {p q : Package} (hload : load.Sound) (hcourses : load.Courses)
    (h : Opened title site s₀ s) (ht : s.store.table.Stratified) (hpq : p.Shuffles q)
    (hp : p.symbol = some site.package) (hq : q.symbol = some site.package)
    (hdistinct : ((p.headings s₀.config title).map (·.1)).Nodup) :
    s₀.SameUpToOrder (p.enterContents load site s) (q.enterContents load site s) := by
  have hcourse := Import.course_enterAll hload hcourses p.imports h.opens
  have hopens := (Import.enterAll_opens hload p.imports h.opens).1
  have hsymbol := p.symbol_enterContents load site s
  have hsymbol' := q.symbol_enterContents load site s
  have hbare := p.bare_enterContents load site s
  -- The imports come first, and to the same.
  cases hall : Import.enterAll load site p.imports s with
  | mk r s₁ =>
  obtain ⟨imports, failure⟩ := r
  have hall' := hall
  rw [hpq.imports] at hall'
  rw [hall] at hcourse hopens
  have hlog := hopens.leads.keeps.log
  cases failure with
  | some e =>
    rw [enterContents_of_error hall, enterContents_of_error hall']
    exact ⟨rfl, Log.exists_added_perm hlog hlog (.refl _),
      ⟨site.package, hp, hq, nofun, .refl _⟩, hpq.members.map _⟩
  | none =>
  have ht₁ := hcourse.stratified ht
  cases hm : { p with imports }.enterMembers s₁.config site s₁.store with
  | mk p' st =>
  cases hm' : { q with imports }.enterMembers s₁.config site s₁.store with
  | mk q' st' =>
  have hentered := entered_enterMembers hload h.opens hall hm
  have hentered' := entered_enterMembers hload h.opens hall' hm'
  obtain ⟨hcomplete, hstratified, hothers, hunbound⟩ := enterMembers_spec hopens.top ht₁ hm
  obtain ⟨hcomplete', hstratified', hothers', hunbound'⟩ := enterMembers_spec hopens.top ht₁ hm'
  have hshuffles : p'.unbound.Shuffles q'.unbound := by
    have hsame : Shuffles { p with imports } { q with imports } := { hpq with imports := rfl }
    rw [hunbound, hunbound']
    exact hsame.equipped _ _ _ _
  rw [enterContents_of_none hall hm] at hsymbol hbare
  rw [enterContents_of_none hall' hm'] at hsymbol'
  have hnames : ((p'.headings s₀.config (s.store.symbolText site.package)).map (·.1)).Nodup := by
    rw [h.text, ← p'.headings_bare, hbare, p.headings_bare]
    exact hdistinct
  obtain ⟨hperm, hkinds, htyped⟩ := Entered.perm_of_shuffles hentered hentered' h.bindings
    hshuffles hnames hcomplete hcomplete' hstratified hstratified' hothers hothers'
  have hgrown := (hentered.members.grows hopens.sound.store).log
  have hgrown' := (hentered'.members.grows hopens.sound.store).log
  rw [enterContents_of_none hall hm, enterContents_of_none hall' hm']
  exact ⟨rfl, Log.exists_added_perm (hlog.trans hgrown) (hlog.trans hgrown') hperm,
    ⟨site.package, hsymbol.trans hp, hsymbol'.trans hq, fun _ hy => (Except.ok.inj hy).symm, hkinds⟩,
    htyped⟩

namespace Session

variable {s : Session} {path : Option PackageName} {p q : Package} {depth : Nat}

/-- Packages that are written in different orders come to the same in every session in which packages
    are entered, if no two of the names in their scopes are the same. -/
theorem Enters.reordered (h : Enters depth path p s) (hpq : p.Reorders q)
    (hdistinct : let title := p.collect.title s.config (path.map (·.key s.store.names))
      ((p.collect.headings s.config (PackageName.render title.1 title.2)).map (·.1)).Nodup) :
    s.SameUpToOrder (p.enterWith (loadWithin depth) path s)
      (q.enterWith (loadWithin depth) path s) := by
  obtain ⟨hs, hpath⟩ := h.sound
  obtain ⟨hopened, _⟩ := p.collect.opened_spec hs hpath
  have hcourse := p.collect.course_opened hpath
  have hcollect := hpq.collect
  have hsame : q.collect.opened path s = p.collect.opened path s :=
    (Package.opened_congr hcollect.clause hcollect.span).symm
  cases ho : p.collect.opened path s with
  | mk key r =>
  obtain ⟨site, s₁⟩ := r
  rw [ho] at hopened hcourse hsame
  have ht : s₁.store.table.Stratified := by
    obtain ⟨names, config, library, hstart⟩ := h.course
    exact (hstart.trans hcourse).stratified (stratified_start names config library)
  let p₀ : Package := { p.collect with symbol := some site.package }
  let q₀ : Package := { q.collect with symbol := some site.package }
  have hcontents : s.SameUpToOrder (p₀.enterContents (loadWithin depth) site s₁)
      (q₀.enterContents (loadWithin depth) site s₁) :=
    Package.enterContents_of_shuffles (loadWithin_sound depth) (loadWithin_courses depth) hopened ht
      { hcollect with } rfl rfl hdistinct
  rw [Package.enterWith_eq ho rfl, Package.enterWith_eq hsame rfl]
  exact { hcontents with }

/-- Packages that the caller writes in different orders come to the same. -/
theorem Reachable.define_reordered (h : s.Reachable) (hpq : p.Reorders q)
    (hdistinct : let title := p.collect.title s.config none
      ((p.collect.headings s.config (PackageName.render title.1 title.2)).map (·.1)).Nodup) :
    s.SameUpToOrder (define p s) (define q s) :=
  (Enters.define p h).reordered hpq hdistinct

/-- A struct with a field declared twice, a function with an unknown type and a method called as a
    field, which all refer to what is written later, in two units or the other way round in one. -/
theorem define_reordered_backwards :
    let name (text : String) : Ident := ⟨text, .origin⟩
    let var (text : String) (type : TypeRef) : VarDecl := { span := .origin, name := name text, type }
    let named (text : String) : TypeRef := .ofName (name text)
    let ds : List Declaration :=
      [.use { span := .origin, path := [name "a"] },
        .var (var "u" (.array (named "T") .origin none)),
        .function (.mk { span := .origin, name := name "f", params := [var "x" (named "U")] } []),
        .function (.mk { span := .origin, name := name "k", receiver := some (var "t" (named "T")) } [])]
    let ds' : List Declaration :=
      [.connector { span := .origin, name := name "C" },
        .struct { span := .origin, name := name "T"
                  fields := [var "k" (named "C"), var "k" (named "T")] }]
    let p : Package := { units := [⟨0, "p", ds⟩, ⟨1, "q", ds'⟩] }
    let q : Package := { units := [⟨0, "q", ds'.reverse ++ ds.reverse⟩] }
    let s := start {} {} (Library.insert {} "a" none {})
    s.Reachable ∧ p.Reorders q ∧ (define p s).1.2 = .ok ⟨1⟩ ∧
      (define p s).2.store.log.map (·.code) = ["E0004", "E0001", "E0103"] ∧
      (define q s).2.store.log.map (·.code) = ["E0004", "E0103", "E0001"] ∧
      (define p s).1.1.functions.map (fun f => f.boundTexts (define p s).2.store f.functionKind) =
        [[some "function(<error>) ()", some "<error>", some "<error>"],
          [some "function() ()", some "T", some "T"]] ∧
      s.SameUpToOrder (define p s) (define q s) := by
  intro name var named ds ds' p q s
  have h : s.Reachable := .start {} {} _
  have hpq : p.Reorders q :=
    { span := rfl, clause := rfl, clauses := rfl, imports := rfl, uses := rfl
      members := (List.reverse_perm _).symm }
  exact ⟨h, hpq, by decide +kernel, by decide +kernel, by decide +kernel, by decide +kernel,
    h.define_reordered hpq (by decide +kernel)⟩

end Session

end Binder
