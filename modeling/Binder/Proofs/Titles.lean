import Mathlib.Data.List.Basic
import Binder.Proofs.PackageIdentity
import Binder.Proofs.Replay

/-!
# How packages are called

The name of a package is shown as one text, with dots between the components of the path and a colon
before the version. If the components have neither dots nor colons, what is shown is the name: it
can be read back, whatever the version looks like. The symbol of a package carries this text, and
the initializer of the package carries a text that is made from it. So in one session packages that
are called otherwise have symbols and initializers that are called otherwise.

* `PackageName.render_eq_iff`: the text of a name can be read back.
* `Store.Titled`: the symbols of packages are called like the packages.
* `Session.Course.titled`: they are, whatever a session goes through.
* `Session.HasEntered`: a package that has been entered with success.
* `Session.TellsApart`: what packages are called in a session.
* `Session.Course.tellsApart`: every session that comes from a new one.
-/

namespace Binder

/-! ## Names as texts -/

namespace PackageName

/-- There is a path, and its components have neither dots nor colons. -/
def Plain (path : List String) : Prop :=
  path ≠ [] ∧ ∀ text ∈ path, '.' ∉ text.toList ∧ ':' ∉ text.toList

/-- What is in neither the parts nor the separator is not between them. -/
theorem not_mem_intercalate {c : Char} {separator : List Char} {parts : List (List Char)}
    (hseparator : c ∉ separator) (hparts : ∀ part ∈ parts, c ∉ part) :
    c ∉ separator.intercalate parts := by
  induction parts with
  | nil => exact List.not_mem_nil
  | cons part rest ih =>
    have hpart := hparts part List.mem_cons_self
    have hrest := ih fun part hmem => hparts part (List.mem_cons_of_mem _ hmem)
    cases rest with
    | nil => rwa [List.intercalate_singleton]
    | cons next rest =>
      rw [List.intercalate_cons_cons, List.mem_append, List.mem_append, not_or, not_or]
      exact ⟨⟨hpart, hseparator⟩, hrest⟩

variable {path path' : List String} {version version' : Option String}

/-- The components can be told from their text. -/
theorem eq_of_intercalate (h : Plain path) (h' : Plain path')
    (heq : (".".intercalate path).toList = (".".intercalate path').toList) : path = path' := by
  have hsplit : ∀ {path}, Plain path →
      (".".intercalate path).toList.splitOn '.' = path.map String.toList := by
    intro path h
    rw [String.toList_intercalate]
    refine List.splitOn_intercalate '.' (fun l hl => ?_) (mt List.map_eq_nil_iff.1 h.1)
    obtain ⟨text, htext, rfl⟩ := List.mem_map.1 hl
    exact (h.2 text htext).1
  refine List.map_injective_iff.2 (fun _ _ => String.toList_inj.1) ?_
  rw [← hsplit h, heq, hsplit h']

theorem Plain.colon_not_mem (h : Plain path) : ':' ∉ (".".intercalate path).toList := by
  rw [String.toList_intercalate]
  refine not_mem_intercalate (by decide) fun l hl => ?_
  obtain ⟨text, htext, rfl⟩ := List.mem_map.1 hl
  exact (h.2 text htext).2

theorem toList_render_none (path : List String) :
    (render path none).toList = (".".intercalate path).toList := by
  rw [render, String.toList_append]
  exact List.append_nil _

theorem toList_render_some (path : List String) (version : String) :
    (render path (some version)).toList =
      (".".intercalate path).toList ++ ':' :: version.toList := by
  simp only [render, String.toList_append]
  rfl

/-- The text of a name can be read back: the first colon ends the path. -/
theorem render_eq_iff (h : Plain path) (h' : Plain path') :
    render path version = render path' version' ↔ path = path' ∧ version = version' := by
  refine ⟨fun heq => ?_, fun ⟨hpath, hversion⟩ => hpath ▸ hversion ▸ rfl⟩
  have hlist := congrArg String.toList heq
  cases version with
  | none =>
    cases version' with
    | none =>
      rw [toList_render_none, toList_render_none] at hlist
      exact ⟨eq_of_intercalate h h' hlist, rfl⟩
    | some v' =>
      rw [toList_render_none, toList_render_some] at hlist
      refine absurd ?_ h.colon_not_mem
      rw [hlist]
      exact List.mem_append_right _ List.mem_cons_self
  | some v =>
    cases version' with
    | none =>
      rw [toList_render_some, toList_render_none] at hlist
      refine absurd ?_ h'.colon_not_mem
      rw [← hlist]
      exact List.mem_append_right _ List.mem_cons_self
    | some v' =>
      rw [toList_render_some, toList_render_some] at hlist
      obtain ⟨hpath, hversion⟩ := eq_of_append_cons h.colon_not_mem h'.colon_not_mem hlist
      exact ⟨eq_of_intercalate h h' hpath, congrArg some (String.toList_inj.1 hversion)⟩

theorem render_key_eq_iff {key key' : PackageKey} (h : Plain key.1) (h' : Plain key'.1) :
    render key.1 key.2 = render key'.1 key'.2 ↔ key = key' :=
  (render_eq_iff h h').trans Prod.ext_iff.symm

/-- Names are the same if they are shown alike. -/
theorem text_eq_iff {p q : PackageName} {names : Names} (hp : p.Known names) (hq : q.Known names)
    (hplain : Plain (p.pathTexts names)) (hplain' : Plain (q.pathTexts names)) :
    p.text names = q.text names ↔ p = q := by
  rw [text_eq_render, text_eq_render, render_key_eq_iff hplain hplain']
  exact ⟨eq_of_key hp hq, fun h => h ▸ rfl⟩

/-- A name is shown in one way for good. -/
theorem Known.text_eq {p : PackageName} {names names' : Names} (h : p.Known names)
    (g : names.texts <+: names'.texts) : p.text names' = p.text names := by
  rw [text_eq_render, text_eq_render, h.key_eq g]

end PackageName

/-! ## Symbols of packages -/

namespace Store

variable {s s' : Store} {sym : Symbol}

/-- The symbol is called like the package that it belongs to. -/
def CallsPackage (s : Store) (sym : Symbol) : Prop :=
  ∃ name, s.table.packageName? sym.pkg = some name ∧ name.Known s.names ∧
    s.names.text? sym.name = some (name.text s.names)

/-- The symbols of packages are called like the packages. -/
def Titled (s : Store) : Prop :=
  ∀ x sym, s.table.symbol? x = some sym → sym.kind = .package → s.CallsPackage sym

theorem CallsPackage.mono (h : s.CallsPackage sym)
    (hpackages : s.table.packages <+: s'.table.packages)
    (hnames : s.names.texts <+: s'.names.texts) : s'.CallsPackage sym := by
  obtain ⟨name, hname, hknown, htext⟩ := h
  refine ⟨name, ?_, hknown.mono hnames, ?_⟩
  · obtain ⟨rest, hrest⟩ := hpackages
    have hlt := (List.getElem?_eq_some_iff.1 hname).1
    rw [Table.packageName?, ← hrest, List.getElem?_append_left hlt]
    exact hname
  · rw [hknown.text_eq hnames]
    exact Names.text?_mono hnames htext

/-- A symbol that is retained is called as before. -/
theorem Retains.symbolText_eq (h : s.Retains s') {x : SymbolId}
    (hx : s.table.symbol? x = some sym) (hname : (s.names.text? sym.name).isSome) :
    s'.symbolText x = s.symbolText x := by
  rw [symbolText_of_symbol? (h.symbol hx), symbolText_of_symbol? hx,
    Names.text_mono h.names hname]

/-- How the symbol of a package is called, by the name of the package. -/
theorem Titled.symbolText_eq (h : s.Titled) {x : SymbolId} (hx : s.table.symbol? x = some sym)
    (hkind : sym.kind = .package) {key : PackageKey} (hkey : s.packageKey x = some key) :
    s.symbolText x = PackageName.render key.1 key.2 := by
  obtain ⟨name, hname, _, htext⟩ := h x sym hx hkind
  have hpkg : s.table.pkgOf x = some sym.pkg := by rw [Table.pkgOf, hx, Option.map_some]
  rw [packageKey, hpkg, Option.bind_some, hname, Option.map_some] at hkey
  rw [symbolText_of_symbol? hx, Names.text, htext, Option.getD_some, PackageName.text_eq_render,
    Option.some.inj hkey]

/-- A run makes no symbols of packages. -/
theorem Run.symbol?_of_package {m : Mark} {os : List Offer} (h : Run m s os s') {x : SymbolId}
    (hx : s'.table.symbol? x = some sym) (hkind : sym.kind = .package) :
    s.table.symbol? x = some sym := by
  -- What is made next and offered has the kind of the offer.
  have hmade : ∀ {s : Store} {o : Offer} {name : Name} {pkg : PackageId} {scope : ScopeId}
      {table : Table} {made : Symbol}, o.kind ≠ .package → made.kind = o.kind →
      (∀ y, table.symbol? y =
        if y = s.table.nextSymbol then some made else s.table.symbol? y) →
      (s.offerNext (o.toSymbol name pkg) scope table).table.symbol? x = some sym →
      s.table.symbol? x = some sym := by
    intro s o name pkg scope table made hne hsame hsymbol hx
    rw [symbol?_offerNext, hsymbol] at hx
    split at hx
    · cases hx
      exact absurd (hsame.symm.trans hkind) hne
    · exact hx
  induction h with
  | trans _ _ ih ih' => exact ih (ih' hx)
  | setFields =>
    simp only [Store.setFields] at hx
    split at hx <;> exact hx
  | var _ hk =>
    exact hmade (by rw [hk]; decide) rfl (Table.symbol?_addSymbol _ _) hx
  | container _ hk =>
    exact hmade (SymbolKind.of_isType hk).1 rfl (Table.symbol?_addTypeOwner _ _ _) hx
  | @callable s s₁ o os c scope name pkg signature links _ hk _ hrun _ _ ih =>
    have hne := (SymbolKind.of_isCallable hk).1
    rw [Table.symbol?_complete] at hx
    split at hx
    · next heq =>
      have hown := hrun.retains.symbol (s.symbol?_offerNext_addOwner (o.toSymbol name pkg) scope _)
      rw [heq, hown, Option.map_some, Option.some.injEq] at hx
      rw [← hx] at hkind
      exact absurd hkind hne
    · exact hmade hne rfl (Table.symbol?_addOwner _ _ _) (ih hx)
  | _ => exact hx

end Store

/-! ## Sessions -/

namespace Session

variable {s s' u : Session}

theorem Course.config (h : s.Course s') : s'.config = s.config := by
  induction h with
  | trans _ _ ih ih' => exact ih'.trans ih
  | _ => rfl

theorem titled_start (names : Names) (config : Config) (library : Library) :
    (start names config library).store.Titled := fun x sym hx _ => by
  have hindex : x.index < 1 := (Array.getElem?_eq_some_iff.1 hx).1
  obtain rfl : x = Table.root := congrArg SymbolId.mk (Nat.lt_one_iff.1 hindex)
  cases hx
  exact ⟨⟨[], none⟩, rfl, nofun, names.text?_unnamed⟩

/-- Whatever a session goes through, the symbols of packages are called like the packages. -/
theorem Course.titled (h : s.Course s') (hs : s.store.Titled) : s'.store.Titled := by
  induction h with
  | trans _ _ ih ih' => exact ih' (ih hs)
  | run hrun =>
    intro x sym hx hkind
    exact (hs x sym (hrun.symbol?_of_package hx hkind) hkind).mono
      (hrun.packages ▸ List.prefix_rfl) hrun.names
  | @declare s name p hname =>
    intro x sym hx hkind
    have hdeclare := Course.declare p hname
    obtain ⟨packages, pkg, _, heq⟩ := p.declare_eq name s.store
    have hsymbol : (onStore (p.declare name) s).2.store.table.symbol? x =
        (s.store.table.addOwner _ none).symbol? x := congrArg (·.2.table.symbol? x) heq
    rw [hsymbol, Table.symbol?_addOwner] at hx
    split at hx
    -- The symbol that is made is called like the name that is put down for it.
    · cases hx
      have hpkg : (s.store.table.addPackage name).1 = pkg := congrArg (·.1.pkg) heq
      have hgrows := s.store.names.prefix_intern (name.text s.store.names)
      refine ⟨name, ?_, hname.mono hgrows, ?_⟩
      · exact hpkg ▸ s.store.table.packageName?_addPackage name
      · exact (s.store.names.text?_intern _).trans (congrArg some (hname.text_eq hgrows).symm)
    · exact (hs x sym hx hkind).mono hdeclare.packages hdeclare.retains.names
  | offer s span scope name x =>
    intro y sym hy hkind
    have hoffer := Course.offer s span scope name x
    have hold := (Store.symbol?_define span scope name x s.store y).symm.trans hy
    exact (hs y sym hold hkind).mono hoffer.packages hoffer.retains.names
  | _ => exact hs

/-- Some package that is called `title` has been entered with success on the way to `u`: it is `p`
    since, and its symbol is `x`. -/
def HasEntered (u : Session) (title : PackageKey) (p : Package) (x : SymbolId) : Prop :=
  ∃ depth path written s s', Enters depth path written s ∧
    written.enterWith (loadWithin depth) path s = ((p, .ok x), s') ∧ s'.Course u ∧
    title = written.collect.title s.config (path.map (·.key s.store.names))

theorem HasEntered.mono {title : PackageKey} {p : Package} {x : SymbolId}
    (h : s.HasEntered title p x) (hcourse : s.Course u) : u.HasEntered title p x := by
  obtain ⟨depth, path, written, s₀, s₁, hentry, hp, hcourse₁, htitle⟩ := h
  exact ⟨depth, path, written, s₀, s₁, hentry, hp, hcourse₁.trans hcourse, htitle⟩

/-- A package of the caller that is defined with success. -/
theorem Reachable.hasEntered {p p' : Package} {x : SymbolId} (h : s.Reachable)
    (hp : define p s = ((p', .ok x), s')) : s.Course s' ∧ s'.Reachable ∧
      s'.HasEntered (p.collect.title s.config none) p' x := by
  have hcourse := course_respond (.define p) h.sound
  have hreachable := h.step (.define p)
  rw [show (respond (.define p) s).2 = s' from congrArg Prod.snd hp] at hcourse hreachable
  exact ⟨hcourse, hreachable, _, none, p, s, s', .define p h, hp, .refl s', rfl⟩

/-- Packages that have been entered have symbols and initializers that are called like them. -/
theorem HasEntered.symbolTexts {title : PackageKey} {p : Package} {x : SymbolId}
    (h : u.HasEntered title p x) :
    u.store.symbolText x = PackageName.render title.1 title.2 ∧
      ∃ i, p.initializer.bind (·.head.symbol) = some i ∧
        u.store.symbolText i = u.config.initName (PackageName.render title.1 title.2) := by
  obtain ⟨depth, path, written, s, s', h, hp, hcourse, rfl⟩ := h
  obtain ⟨hs, hpath⟩ := h.sound
  obtain ⟨hopened, _⟩ := written.collect.opened_spec hs hpath
  cases ho : written.collect.opened path s with
  | mk key r =>
    obtain ⟨site, s₁⟩ := r
    rw [ho] at hopened
    obtain ⟨imports, s₂, himports, rfl, _, hentered⟩ :=
      Package.exists_members (loadWithin_sound depth) hs hpath ho hp
    have hretains : s₁.store.Retains u.store := by
      have hload := Import.course_enterAll (loadWithin_sound depth) (loadWithin_courses depth)
        written.collect.imports hopened.opens
      rw [himports] at hload
      exact (hload.retains.trans hentered.members.retains).trans hcourse.retains
    have hconfig : u.config = s.config := by
      have hentry := written.course_enterWith (loadWithin_sound depth) (loadWithin_courses depth)
        hs hpath
      rw [hp] at hentry
      exact hcourse.config.trans hentry.config
    obtain ⟨sym, hsym⟩ := hopened.opens.exists_symbol
    have hsymbol := hretains.symbolText_eq hsym (hopened.opens.sound.store.symbolText _ sym hsym)
    obtain ⟨f, hf, hheading⟩ := hentered.initialized.exists_initializer
    have hoffer : f.functionOffer (some site.package) ∈ p.memberOffers (some site.package) := by
      have hscope := Package.initializerOffer_mem_scopeOffers site.package
        (List.mem_append_right p.memberInitializers (Option.mem_toList.2 hf))
      exact Package.mem_memberOffers (Package.mem_offers_iff.2 (.inl hscope))
        (SymbolKind.of_isCallable f.isCallable_functionKind).1
    obtain ⟨i, made, hi, hmade, _, _, _, _, htext, _⟩ := hentered.follows.has _ hoffer
    have hname : f.functionName = s.config.initName (s₁.store.symbolText site.package) :=
      congrArg Prod.fst hheading
    refine ⟨hsymbol.trans hopened.text, i, by rw [hf]; exact hi, ?_⟩
    rw [Store.symbolText_of_symbol? (hcourse.retains.symbol hmade), Names.text,
      Names.text?_mono hcourse.retains.names htext, Option.getD_some, hconfig, ← hopened.text]
    exact hname

/-- How packages are called in a session, if the components of their paths have neither dots nor
    colons. -/
structure TellsApart (u : Session) : Prop where
  /-- In every table of names, package names that are shown alike are the same. -/
  names : ∀ (names : Names) (p q : PackageName), p.Known names → q.Known names →
    PackageName.Plain (p.pathTexts names) → PackageName.Plain (q.pathTexts names) →
    (p.text names = q.text names ↔ p = q)
  /-- Symbols of packages are called alike if they belong to packages of the same name. -/
  symbols : ∀ x y key key', u.store.table.kindOf x = some .package →
    u.store.table.kindOf y = some .package → u.store.packageKey x = some key →
    u.store.packageKey y = some key' → PackageName.Plain key.1 → PackageName.Plain key'.1 →
    (u.store.symbolText x = u.store.symbolText y ↔ key = key')
  /-- Initializers of packages are called alike if they belong to packages of the same name. -/
  initializers : ∀ title title' p p' x x', u.HasEntered title p x → u.HasEntered title' p' x' →
    PackageName.Plain title.1 → PackageName.Plain title'.1 →
    (u.store.symbolText x = u.store.symbolText x' ↔ title = title') ∧
    ∃ i i', p.initializer.bind (·.head.symbol) = some i ∧
      p'.initializer.bind (·.head.symbol) = some i' ∧
      (u.store.symbolText i = u.store.symbolText i' ↔ title = title')

/-- In every session that comes from a new one, packages whose names differ can be told apart by
    what they and their initializers are called. -/
theorem Course.tellsApart {names : Names} {config : Config} {library : Library}
    (h : (start names config library).Course u) : u.TellsApart where
  names _ _ _ hp hq hplain hplain' := PackageName.text_eq_iff hp hq hplain hplain'
  symbols x y key key' hx hy hkey hkey' hplain hplain' := by
    obtain ⟨sym, hsym, hkind⟩ := Option.map_eq_some_iff.1 hx
    obtain ⟨sym', hsym', hkind'⟩ := Option.map_eq_some_iff.1 hy
    have htitled := h.titled (titled_start names config library)
    rw [htitled.symbolText_eq hsym hkind hkey, htitled.symbolText_eq hsym' hkind' hkey']
    exact PackageName.render_key_eq_iff hplain hplain'
  initializers title title' p p' x x' hp hp' hplain hplain' := by
    obtain ⟨hx, i, hi, hname⟩ := hp.symbolTexts
    obtain ⟨hx', i', hi', hname'⟩ := hp'.symbolTexts
    have hrender := PackageName.render_key_eq_iff hplain hplain'
    refine ⟨by rw [hx, hx', hrender], i, i', hi, hi', ?_⟩
    rw [hname, hname', u.config.initName_injective.eq_iff, hrender]

/-- A package without a version, and one whose version has what is between components and before
    versions. -/
theorem tellsApart_version :
    let clause (path : List String) (version : Option String) : PackageClause :=
      { span := .origin, path := path.map (⟨·, .origin⟩), version := version.map (⟨·, .origin⟩) }
    let p : Package := { clause := some (clause ["a", "b"] none) }
    let q : Package := { clause := some (clause ["a"] (some "b:c.d")) }
    let s := start {} {} {}
    let r := define p s
    let r' := define q r.2
    let u := r'.2
    s.Course u ∧ u.TellsApart ∧ u.HasEntered (["a", "b"], none) r.1.1 ⟨1⟩ ∧
      u.HasEntered (["a"], some "b:c.d") r'.1.1 ⟨3⟩ ∧
      PackageName.Plain ["a", "b"] ∧ PackageName.Plain ["a"] ∧
      [⟨1⟩, ⟨2⟩, ⟨3⟩, ⟨4⟩].map u.store.symbolText =
        ["a.b", "a.b.<init>", "a:b:c.d", "a:b:c.d.<init>"] := by
  intro clause p q s r r' u
  have hok : r.1.2 = .ok ⟨1⟩ := by decide +kernel
  have hok' : r'.1.2 = .ok ⟨3⟩ := by decide +kernel
  have hp : r = ((r.1.1, .ok ⟨1⟩), r.2) := eq_of_outcome hok
  have hq : r' = ((r'.1.1, .ok ⟨3⟩), u) := eq_of_outcome hok'
  obtain ⟨hcourse, hreachable, hentered⟩ := (Reachable.start {} {} {}).hasEntered hp
  obtain ⟨hcourse', _, hentered'⟩ := hreachable.hasEntered hq
  have htitle : p.collect.title s.config none = (["a", "b"], none) := by decide +kernel
  have htitle' : q.collect.title r.2.config none = (["a"], some "b:c.d") := by decide +kernel
  rw [htitle] at hentered
  rw [htitle'] at hentered'
  have h : s.Course u := hcourse.trans hcourse'
  exact ⟨h, h.tellsApart, hentered.mono hcourse', hentered', ⟨by decide, by decide⟩,
    ⟨by decide, by decide⟩, by decide +kernel⟩

end Session

end Binder
