import Binder.Proofs.Frame
import Binder.Proofs.Receiver
import Binder.Proofs.Retention

/-!
# The identity of packages

What is declared in a package carries the handle of the name of the package, and there is one handle
for a name. So packages that are called alike cannot be told apart by their handles, by whatever
paths they were loaded and however often a package is entered. A method may have a receiver whose
struct is declared in another package, if that one is called like its own; it is rejected, and
reported, if that one is called otherwise.

* `Store.NamedPackages`: there is one handle for a name.
* `Store.NamedPackages.pkgOf_eq_iff`: handles are the same just if the names are.
* `Session.Course.namedPackages`: there is one handle for a name in every session.
* `Package.Identified`: what the handle of a package is good for.
* `Session.Enters.identified`: the packages that are entered with success.
-/

namespace Binder

/-! ## Names of packages -/

/-- The handle of a name has the name. -/
theorem Table.packageName?_addPackage (t : Table) (p : PackageName) :
    (t.addPackage p).2.packageName? (t.addPackage p).1 = some p := by
  unfold addPackage packageName?
  split
  · next h => exact List.getElem?_idxOf h
  · next h =>
    rw [List.idxOf_eq_length h, List.getElem?_append_right (Nat.le_refl _), Nat.sub_self]
    rfl

namespace Store

/-- The texts of the name of the package that a symbol is declared in, by the handle it carries. -/
def packageKey (s : Store) (x : SymbolId) : Option PackageKey :=
  ((s.table.pkgOf x).bind s.table.packageName?).map (·.key s.names)

/-- The names of packages are known, and none of them has two handles. -/
structure NamedPackages (s : Store) : Prop where
  nodup : s.table.packages.Nodup
  known : ∀ name ∈ s.table.packages, name.Known s.names

namespace NamedPackages

variable {s s' : Store} (h : s.NamedPackages)
include h

theorem mono (hpackages : s'.table.packages = s.table.packages)
    (hnames : s.names.texts <+: s'.names.texts) : s'.NamedPackages where
  nodup := hpackages ▸ h.nodup
  known name hname := (h.known name (hpackages ▸ hname)).mono hnames

/-- A package gets the handle of its name, which may be a new one. -/
theorem declare {name : PackageName} (hname : name.Known s.names) (p : Package) :
    (p.declare name s).2.NamedPackages := by
  have hnames : s.names.texts <+: (p.declare name s).2.names.texts := s.names.prefix_intern _
  have hpackages : (p.declare name s).2.table.packages = (s.table.addPackage name).2.packages := rfl
  by_cases hmem : name ∈ s.table.packages
  · refine h.mono (hpackages.trans ?_) hnames
    simp only [Table.addPackage, if_pos hmem]
  · have hadd : (s.table.addPackage name).2.packages = s.table.packages ++ [name] := by
      simp only [Table.addPackage, if_neg hmem]
    rw [hadd] at hpackages
    refine ⟨?_, fun n hn => ?_⟩
    · rw [hpackages]
      exact List.nodup_append.2 ⟨h.nodup, List.pairwise_singleton _ _, fun _ ha _ hb hab =>
        hmem (List.mem_singleton.1 hb ▸ hab ▸ ha)⟩
    · rw [hpackages, List.mem_append, List.mem_singleton] at hn
      rcases hn with hn | rfl
      · exact (h.known n hn).mono hnames
      · exact hname.mono hnames

/-- Handles are the same just if the names are. -/
theorem pkgOf_eq_iff {x y : SymbolId} {key : PackageKey} (hx : s.packageKey x = some key) :
    s.table.pkgOf y = s.table.pkgOf x ↔ s.packageKey y = some key := by
  refine ⟨fun heq => ?_, fun hy => ?_⟩
  · rw [packageKey, heq]
    exact hx
  · obtain ⟨p, hp, hpkey⟩ := Option.map_eq_some_iff.1 hx
    obtain ⟨q, hq, hqkey⟩ := Option.map_eq_some_iff.1 hy
    obtain ⟨a, ha, hpa⟩ := Option.bind_eq_some_iff.1 hp
    obtain ⟨b, hb, hqb⟩ := Option.bind_eq_some_iff.1 hq
    have hname : p = q := PackageName.eq_of_key (h.known p (List.mem_of_getElem? hpa))
      (h.known q (List.mem_of_getElem? hqb)) (hpkey.trans hqkey.symm)
    have hlt := (List.getElem?_eq_some_iff.1 hpa).1
    have hindex : a.index = b.index :=
      (List.getElem?_inj hlt h.nodup).1 (hpa.trans (hname ▸ hqb.symm))
    rw [ha, hb]
    cases a
    cases b
    exact congrArg (fun i => some (PackageId.mk i)) hindex.symm

/-- The name of a package stays what it is. -/
theorem packageKey_eq {x : SymbolId} {key : PackageKey} (hx : s.packageKey x = some key)
    (g : s.Grows s') (hpackages : s.table.packages <+: s'.table.packages) :
    s'.packageKey x = some key := by
  obtain ⟨p, hp, hkey⟩ := Option.map_eq_some_iff.1 hx
  obtain ⟨a, ha, hpa⟩ := Option.bind_eq_some_iff.1 hp
  have hpa' : s'.table.packageName? a = some p := by
    obtain ⟨rest, hrest⟩ := hpackages
    have hlt := (List.getElem?_eq_some_iff.1 hpa).1
    rw [Table.packageName?, ← hrest, List.getElem?_append_left hlt]
    exact hpa
  rw [packageKey, g.table.pkgOf ha, Option.bind_some, hpa', Option.map_some,
    (h.known p (List.mem_of_getElem? hpa)).key_eq g.names, hkey]

end NamedPackages

end Store

namespace Session

variable {s s' : Session}

/-- Whatever a session goes through, there is one handle for a name. -/
theorem Course.namedPackages (h : s.Course s') (hs : s.store.NamedPackages) :
    s'.store.NamedPackages := by
  induction h with
  | trans _ _ ih ih' => exact ih' (ih hs)
  | run hrun => exact hs.mono hrun.packages hrun.names
  | declare p hname => exact hs.declare hname p
  | offer s span scope name x =>
    exact hs.mono (Store.packages_define span scope name x s.store)
      (Store.prefix_names_define span scope name x s.store)
  | refl => exact hs
  | _ => exact hs.mono rfl List.prefix_rfl

theorem namedPackages_start (names : Names) (config : Config) (library : Library) :
    (start names config library).store.NamedPackages where
  nodup := List.pairwise_singleton _ _
  known name hname := by
    rw [List.mem_singleton.1 hname]
    exact fun n hn => absurd hn List.not_mem_nil

end Session

/-! ## Packages that are entered -/

namespace Package

variable {s : Session} {path : Option PackageName}

/-- The handle of a package has the name of the package. -/
theorem packageKey_opened (p : Package) (hs : s.Sound)
    (hpath : ∀ name ∈ path, name.Known s.store.names) :
    (p.opened path s).2.2.store.packageKey (p.opened path s).2.1.package =
      some (p.title s.config (path.map (·.key s.store.names))) := by
  obtain ⟨_, hknown, hkey⟩ := p.naming_spec s.store.mark s.config hpath
  obtain ⟨hopened, _⟩ := p.opened_spec hs hpath
  have hname := Table.packageName?_addPackage (p.naming s.config path s.store).2.table
    (p.naming s.config path s.store).1
  rw [Store.packageKey, hopened.opens.pkgOf, Option.bind_some]
  refine (congrArg (Option.map _) hname).trans (congrArg some ?_)
  exact (hknown.key_eq (Names.prefix_intern _ _)).trans hkey

end Package

/-- The package `p`, which has the symbol `c`, and what its handle is good for: it says how the
    package is called, and nothing else. -/
structure Package.Identified (s : Store) (c : SymbolId) (title : PackageKey) (p : Package) : Prop where
  /-- What carries the handle of the package is what is declared in packages that are called like
      it. -/
  pkgOf_eq_iff : ∀ y, s.table.pkgOf y = s.table.pkgOf c ↔ s.packageKey y = some title
  /-- What is found through an import carries the handle of the imported package. -/
  imported : ∀ imported c' name y, s.member? c imported .package = some c' →
    s.member? c' name .type = some y → s.table.pkgOf y = s.table.pkgOf c'
  /-- A receiver is accepted if its struct is found in a package that is called alike. -/
  received : ∀ f ∈ p.functions, ∀ r, f.head.receiver = some r → r.ReceivedIn s c f.head.name

namespace Session

variable {s s' : Session} {path : Option PackageName} {p p' : Package} {depth : Nat} {x : SymbolId}

/-- Every package that is entered with success is identified by its name: its methods can have
    structs of those packages as receivers that are called like it, and of no others. -/
theorem Enters.identified (h : Enters depth path p s)
    (hp : p.enterWith (loadWithin depth) path s = ((p', .ok x), s')) :
    p'.Identified s'.store x (p.collect.title s.config (path.map (·.key s.store.names))) := by
  obtain ⟨hs, hpath⟩ := h.sound
  obtain ⟨names, config, library, hcourse⟩ := h.course
  have hopen := p.collect.course_opened hpath
  have hkey := p.collect.packageKey_opened hs hpath
  obtain ⟨hopened, _⟩ := p.collect.opened_spec hs hpath
  cases ho : p.collect.opened path s with
  | mk key r =>
    obtain ⟨site, s₁⟩ := r
    rw [ho] at hopened hopen hkey
    let q : Package := { p.collect with symbol := some site.package }
    obtain ⟨hopens, hg, _⟩ := Package.enterContents_spec (loadWithin_sound depth) hopened.opens q
    have hcontents := Package.course_enterContents (loadWithin_sound depth)
      (loadWithin_courses depth) hopened.opens q
    obtain ⟨himports, _⟩ := Import.enterAll_opens (loadWithin_sound depth) q.imports hopened.opens
    have hok := @Package.enterContents_of_ok (loadWithin depth) site s₁ q x
    cases hc : q.enterContents (loadWithin depth) site s₁ with
    | mk r s₂ =>
      obtain ⟨p₂, outcome⟩ := r
      rw [Package.enterWith_eq ho hc] at hp
      cases hp
      rw [hc] at hopens hg hcontents hok
      obtain ⟨_, rfl, rfl, hstore⟩ := hok rfl
      have hnamed := (hcourse.trans hopen).namedPackages (namedPackages_start names config library)
      have hkey' := hnamed.packageKey_eq hkey hg hcontents.packages
      refine ⟨fun y => (hcontents.namedPackages hnamed).pkgOf_eq_iff hkey', ?_, ?_⟩
      · exact fun _ _ _ _ _ hy => (hopens.sound.store.pkgOf_of_member? hy).2
      · intro f hf r hr
        have hreceived := Package.received_enterMembers _ _ himports.top hf hr
        rw [← hstore] at hreceived
        exact hreceived

/-- Two methods whose receivers are structs of imported packages, one of which is called like the
    importing one. -/
theorem identified_called_alike :
    let clause (text : String) : PackageClause := { span := .origin, path := [⟨text, .origin⟩] }
    let T : Struct := { span := .origin, name := ⟨"T", .origin⟩ }
    let i (text : String) : Import := { span := .origin, path := [⟨text, .origin⟩] }
    let f (text : String) : Callable := .mk
      { span := .origin, name := ⟨"f", .origin⟩
        receiver := some
          { span := .origin, name := ⟨"t", .origin⟩
            type := .named (some ⟨text, .origin⟩) T.name .origin none } } []
    let p : Package :=
      { clause := some (clause "app"), imports := [i "a", i "b"], functions := [f "a", f "b"] }
    let library := (Library.insert {} "a" none { clause := some (clause "app"), structs := [T] }).insert
      "b" none { structs := [T] }
    let s := start {} {} library
    let r := p.enterWith (loadWithin s.depthBound) none s
    Enters s.depthBound none p s ∧ r.1.2 = .ok ⟨1⟩ ∧
      r.1.1.Identified r.2.store ⟨1⟩ (["app"], none) ∧
      (r.1.1.functions.map fun f => f.head.receiver.bind (·.ty)) = [some ⟨12⟩, some .error] ∧
      r.2.store.log.map (·.code) = ["E0102"] := by
  intro clause T i f p library s r
  have h : Enters s.depthBound none p s := .define p (.start {} {} library)
  have hok : r.1.2 = .ok ⟨1⟩ := by decide +kernel
  have hp : r = ((r.1.1, .ok ⟨1⟩), r.2) := eq_of_outcome hok
  have htitle : p.collect.title s.config none = (["app"], none) := by decide +kernel
  have hidentified := h.identified hp
  rw [Option.map_none, htitle] at hidentified
  exact ⟨h, hok, hidentified, by decide +kernel, by decide +kernel⟩

/-- A struct of an imported package carries the handle of the importing one if the two are called
    alike, and then a method can receive it, though it was not declared together with the method. -/
theorem not_identified_apart :
    let app : PackageClause := { span := .origin, path := [⟨"app", .origin⟩] }
    let T : Struct := { span := .origin, name := ⟨"T", .origin⟩ }
    let b : Ident := ⟨"b", .origin⟩
    let m : Callable := .mk
      { span := .origin, name := ⟨"m", .origin⟩
        receiver := some
          { span := .origin, name := ⟨"t", .origin⟩
            type := .named (some b) T.name .origin none } } []
    let p : Package :=
      { clause := some app, imports := [{ span := .origin, path := [b] }], functions := [m] }
    let s := start {} {} (Library.insert {} "b" none { clause := some app, structs := [T] })
    let r := p.enterWith (loadWithin s.depthBound) none s
    Enters s.depthBound none p s ∧ r.1.2 = .ok ⟨1⟩ ∧
      r.2.store.member? ⟨1⟩ "b" .package = some ⟨2⟩ ∧
      r.2.store.member? ⟨2⟩ "T" .type = some ⟨3⟩ ∧
      r.2.store.table.pkgOf ⟨3⟩ = r.2.store.table.pkgOf ⟨1⟩ ∧
      (r.1.1.functions.map fun f => f.head.receiver.bind (·.ty)) =
        [some (r.2.store.table.typeOf ⟨3⟩)] ∧
      r.2.store.table.typeOf ⟨3⟩ ≠ .error ∧ r.2.store.log = [] := by
  intro app T b m p s r
  refine ⟨.define p (.start {} {} _), ?_, ?_, ?_, ?_, ?_, ?_, ?_⟩ <;> decide +kernel

end Session

end Binder
