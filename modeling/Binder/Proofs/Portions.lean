import Binder.Proofs.Collecting
import Binder.Proofs.Occurrence

/-!
# Collecting in portions

The units of a package may come in portions, and what has come may be collected whenever that is
wanted, and more than once. None of this makes a difference once everything has come and is
collected: each declaration is found where it belongs, in the order in which it was written.

* `Import.same_eq`: two imports that say the same do so component by component.
* `Package.read`: what may happen to a package while it is read.
* `Package.collect_foldl_read`: when a package has been collected before does not matter.
* `Package.membersOf_foldl_add`: the members of one kind are the declarations of this kind.
* `Package.Files`: the order in which the members were declared is recorded.
* `Package.Sorts`: what becomes of the declarations of some units.
-/

namespace Binder

/-! ## Imports that say the same -/

namespace Import

theorem same_equivalence : Equivalence fun i j : Import => i.same j = true where
  refl _ := same_iff.2 rfl
  symm h := same_iff.2 (same_iff.1 h).symm
  trans h h' := same_iff.2 ((same_iff.1 h).trans (same_iff.1 h'))

theorem map_text_beq (xs ys : List Ident) : (xs.map (·.text) == ys.map (·.text)) =
    (xs.length == ys.length && (xs.zip ys).all fun x => x.1.text == x.2.text) := by
  induction xs generalizing ys with
  | nil => cases ys <;> rfl
  | cons x xs ih =>
    cases ys with
    | nil => rfl
    | cons y ys =>
      have hlength : ((x :: xs).length == (y :: ys).length) = (xs.length == ys.length) :=
        Bool.eq_iff_iff.2 (by simp)
      rw [List.map_cons, List.map_cons, List.cons_beq_cons, ih, List.zip_cons_cons, List.all_cons,
        hlength, Bool.and_left_comm]

/-- Two imports say the same if their paths are as long as one another and agree component by
    component, and their versions and aliases agree. -/
theorem same_eq (i j : Import) : i.same j =
    (i.path.length == j.path.length && ((i.path.zip j.path).all fun x => x.1.text == x.2.text) &&
      (i.version.map (·.text) == j.version.map (·.text) &&
        i.asName.map (·.text) == j.asName.map (·.text))) := by
  rw [← map_text_beq]
  rfl

end Import

namespace Package

/-- The imports kept are those already there, and the first ones that say something else. -/
theorem foldl_addImport (uses kept : List Import) : uses.foldl addImport kept =
    kept ++ firsts Import.key (fun k => (kept.map Import.key).contains k) uses := by
  induction uses generalizing kept with
  | nil => exact (List.append_nil kept).symm
  | cons i uses ih =>
    have hany : kept.any (·.same i) = (kept.map Import.key).contains i.key := by
      rw [List.contains_eq_any_beq, List.any_map]
      exact congrArg kept.any (funext fun j => Bool.eq_iff_iff.2 (by
        rw [Import.same_iff, Function.comp, beq_iff_eq, eq_comm]))
    rw [List.foldl_cons, ih, addImport, firsts_cons, hany]
    split
    · next h =>
      refine congrArg (kept ++ ·) (firsts_congr fun j _ => ?_)
      cases hj : j.key == i.key
      · rfl
      · rw [eq_of_beq hj, h]
        rfl
    · rw [← List.append_assoc]
      refine congrArg (kept ++ [i] ++ ·) (firsts_congr fun (j : Import) _ => ?_)
      rw [List.map_append, List.contains_append, Bool.or_comm]
      exact congrArg (· || _) (Bool.or_false _)

/-! ## Portions -/

/-- What may happen to a package while it is read: more units come, or those that have come are
    collected. -/
inductive Portion
  | units (us : List SourceUnit)
  | collect

/-- The units that have come. -/
def Portion.brought : Portion → List SourceUnit
  | units us => us
  | collect => []

variable (p : Package)

/-- The package with other units. -/
def withUnits (us : List SourceUnit) : Package := { p with units := us }

/-- The package after more units have come. -/
def more (us : List SourceUnit) : Package := p.withUnits (p.units ++ us)

/-- The package after one more portion. -/
def read : Portion → Package
  | .units us => p.more us
  | .collect => p.collect

/-- A declaration is collected in the same way whatever the units are. -/
theorem add_withUnits (us : List SourceUnit) (d : Declaration) :
    (p.withUnits us).add d = (p.add d).withUnits us := by
  cases d with
  | use i =>
    exact (apply_ite (withUnits · us) (p.imports.any (·.same i) = true) p
      { p with imports := p.imports ++ [i] }).symm
  | _ => rfl

theorem foldl_add_withUnits (us : List SourceUnit) (ds : List Declaration) :
    ds.foldl add (p.withUnits us) = (ds.foldl add p).withUnits us := by
  induction ds generalizing p with
  | nil => rfl
  | cons d ds ih => rw [List.foldl_cons, add_withUnits, ih, List.foldl_cons]

/-- Collecting before more units come makes no difference once these are collected. -/
theorem collect_more (us : List SourceUnit) : (p.collect.more us).collect = (p.more us).collect := by
  have hpending : (p.collect.more us).pending = us.flatMap (·.declarations) :=
    (List.flatMap_append ..).trans (congrArg (· ++ _) p.pending_collect)
  have hunits : (p.collect.more us).drain.units = (p.more us).drain.units := by
    simp [drain, more, withUnits, units_collect]
  have hdrain : (p.collect.more us).drain = p.pending.foldl add (p.more us).drain := calc
    (p.collect.more us).drain
      = (p.pending.foldl add p.drain).withUnits (p.collect.more us).drain.units := rfl
    _ = p.pending.foldl add (p.drain.withUnits (p.more us).drain.units) := by
      rw [hunits, foldl_add_withUnits]
    _ = p.pending.foldl add (p.more us).drain := rfl
  rw [collect, hpending, hdrain, ← List.foldl_append, collect]
  exact congrArg (List.foldl add _ ·) (List.flatMap_append ..).symm

/-- When a package has been collected before does not matter, nor which units came together. -/
theorem collect_foldl_read (portions : List Portion) :
    (portions.foldl read p).collect = (p.more (portions.flatMap (·.brought))).collect := by
  induction portions generalizing p with
  | nil => exact congrArg (fun us => (p.withUnits us).collect) (List.append_nil p.units).symm
  | cons portion portions ih =>
    rw [List.foldl_cons, ih, List.flatMap_cons]
    cases portion with
    | units us => exact congrArg (fun us => (p.withUnits us).collect) (List.append_assoc ..)
    | collect => rw [read, collect_more]; rfl

end Package

/-! ## Members by kind -/

namespace Declaration

/-- The kind of member that a declaration becomes. -/
def kind? : Declaration → Option MemberKind
  | clause _ | use _ => none
  | function _ => some .function
  | struct _ => some .struct
  | connector _ => some .connector
  | service _ => some .service
  | var _ => some .var

/-- The name of a member. -/
def name? : Declaration → Option Ident
  | clause _ | use _ => none
  | function f => some f.head.name
  | struct d => some d.name
  | connector d => some d.name
  | service d => some d.name
  | var v => some v.name

theorem isMember_eq (d : Declaration) : d.isMember = d.kind?.isSome := by
  cases d <;> rfl

end Declaration

namespace Package

variable (p : Package)

/-- The members of one kind. -/
def membersOf : MemberKind → List Declaration
  | .function => p.functions.map .function
  | .struct => p.structs.map .struct
  | .connector => p.connectors.map .connector
  | .service => p.services.map .service
  | .var => p.vars.map .var

/-- The member that `r` refers to. -/
def memberAt? (r : MemberRef) : Option Declaration := (p.membersOf r.kind)[r.index]?

theorem memberName?_eq (r : MemberRef) :
    p.memberName? r = (p.memberAt? r).bind fun d => d.name?.map (·.text) := by
  obtain ⟨kind, index⟩ := r
  cases kind <;> rw [memberAt?, membersOf, List.getElem?_map, Option.bind_map] <;>
    exact Option.map_eq_bind

theorem membersOf_add (d : Declaration) (k : MemberKind) :
    (p.add d).membersOf k = p.membersOf k ++ [d].filter (·.kind? == some k) := by
  cases d with
  | use i => rw [add]; split <;> exact (List.append_nil _).symm
  | clause c => exact (List.append_nil _).symm
  | function f | struct d | connector d | service d | var v =>
    cases k <;> first | exact List.map_append | exact (List.append_nil _).symm

theorem membersOf_foldl_add (ds : List Declaration) (k : MemberKind) :
    (ds.foldl add p).membersOf k = p.membersOf k ++ ds.filter (·.kind? == some k) := by
  induction ds generalizing p with
  | nil => exact (List.append_nil _).symm
  | cons d ds ih =>
    rw [List.foldl_cons, ih, membersOf_add, List.append_assoc, ← List.filter_append]
    rfl

/-- If `f` finds the declarations of one kind, these are added to the members of this kind. -/
theorem eq_append_filterMap {α : Type} (ds : List Declaration) {k : MemberKind}
    {c : α → Declaration} {xs ys : List α} (hxs : p.membersOf k = xs.map c)
    (hys : (ds.foldl add p).membersOf k = ys.map c) {f : Declaration → Option α}
    (hc : ∀ x, f (c x) = some x) (hf : ∀ d, d.kind? ≠ some k → f d = none) :
    ys = xs ++ ds.filterMap f := by
  have hmap : ∀ zs : List α, (zs.map c).filterMap f = zs := fun zs => by
    rw [List.filterMap_map, show f ∘ c = some from funext hc, List.filterMap_some]
  have hfilter : (ds.filter (·.kind? == some k)).filterMap f = ds.filterMap f := by
    rw [List.filterMap_filter]
    refine List.filterMap_congr fun d _ => ?_
    split
    · rfl
    · next hne => exact (hf d fun hk => hne (beq_iff_eq.2 hk)).symm
  rw [← hmap ys, ← hys, membersOf_foldl_add, List.filterMap_append, hxs, hmap, hfilter]

/-- The module variables are those of all units. -/
theorem vars_collect : p.collect.vars = p.vars ++ p.pending.filterMap (·.var?) :=
  eq_append_filterMap p.drain p.pending (k := .var) rfl rfl (fun _ => rfl) fun d hd => by
    cases d <;> first | rfl | exact absurd rfl hd

theorem order_add (d : Declaration) : (p.add d).order =
    p.order ++ (d.kind?.map fun k => ⟨k, (p.membersOf k).length⟩).toList := by
  cases d with
  | use i => rw [add]; split <;> exact (List.append_nil _).symm
  | clause c => exact (List.append_nil _).symm
  | function f | struct d | connector d | service d | var v =>
    simp [add, Declaration.kind?, membersOf]

/-- `r` refers to the member `d`. -/
structure RefersTo (r : MemberRef) (d : Declaration) : Prop where
  kind : d.kind? = some r.kind
  member : p.memberAt? r = some d
  name : p.memberName? r = d.name?.map (·.text)

/-- The members of the package are those among the declarations `ds`, and the order of all of them
    is recorded. -/
structure Files (ds : List Declaration) : Prop where
  order : List.Forall₂ p.RefersTo p.order (ds.filter (·.isMember))
  nodup : p.order.Nodup
  complete {r : MemberRef} : (p.memberAt? r).isSome → r ∈ p.order

variable {p}

theorem RefersTo.mk' {r : MemberRef} {d : Declaration} (hkind : d.kind? = some r.kind)
    (hmember : p.memberAt? r = some d) : p.RefersTo r d :=
  ⟨hkind, hmember, by rw [memberName?_eq, hmember, Option.bind_some]⟩

/-- What is added comes after what a reference refers to. -/
theorem RefersTo.add {r : MemberRef} {d : Declaration} (h : p.RefersTo r d) (e : Declaration) :
    (p.add e).RefersTo r d := by
  refine .mk' h.kind ?_
  rw [memberAt?, membersOf_add, List.getElem?_append_left (List.getElem?_eq_some_iff.1 h.member).1]
  exact h.member

/-- What is recorded refers to a member. -/
theorem Files.exists_refersTo {ds : List Declaration} (h : p.Files ds) {r : MemberRef}
    (hr : r ∈ p.order) : ∃ d, p.RefersTo r d := by
  obtain ⟨i, hi, rfl⟩ := List.getElem_of_mem hr
  exact ⟨_, h.order.get hi (h.order.length_eq ▸ hi)⟩

theorem Files.add {ds : List Declaration} (h : p.Files ds) (d : Declaration) :
    (p.add d).Files (ds ++ [d]) where
  order := by
    have hearlier : List.Forall₂ (p.add d).RefersTo p.order (ds.filter (·.isMember)) :=
      h.order.imp fun _ _ hr => hr.add d
    rw [order_add, List.filter_append]
    refine List.rel_append hearlier ?_
    cases hkind : d.kind? with
    | none => rw [List.filter_cons_of_neg (by simp [d.isMember_eq, hkind])]; exact .nil
    | some k =>
      rw [List.filter_cons_of_pos (by simp [d.isMember_eq, hkind])]
      refine .cons (.mk' hkind ?_) .nil
      rw [memberAt?, membersOf_add, List.getElem?_append_right (Nat.le_refl _), Nat.sub_self,
        List.filter_cons_of_pos (by simp [hkind])]
      rfl
  nodup := by
    rw [order_add]
    cases d.kind? with
    | none => rw [Option.map_none, Option.toList_none, List.append_nil]; exact h.nodup
    | some k =>
      -- A reference recorded earlier is in range, and the new one is not.
      refine List.nodup_append.2 ⟨h.nodup, List.pairwise_singleton _ _, fun r hr r' hr' hne => ?_⟩
      obtain ⟨e, he⟩ := h.exists_refersTo hr
      have hlt := (List.getElem?_eq_some_iff.1 he.member).1
      rw [hne, List.mem_singleton.1 hr'] at hlt
      exact absurd hlt (Nat.lt_irrefl _)
  complete {r} hr := by
    rw [memberAt?, membersOf_add, List.getElem?_append] at hr
    rw [order_add, List.mem_append]
    split at hr
    · exact .inl (h.complete hr)
    · next hge =>
      have hlt := (List.getElem?_eq_some_iff.1 (Option.eq_some_of_isSome hr)).1
      have hkind : d.kind? = some r.kind := by
        by_contra hne
        rw [List.filter_cons_of_neg (by simpa using hne)] at hlt
        exact absurd hlt (Nat.not_lt_zero _)
      have hlength := Nat.lt_of_lt_of_le hlt (List.length_filter_le _ [d])
      refine .inr ?_
      rw [hkind, Option.map_some, Option.toList_some, List.mem_singleton]
      refine congrArg (MemberRef.mk r.kind) ?_
      rw [List.length_singleton] at hlength
      omega

theorem Files.foldl_add {ds : List Declaration} (h : p.Files ds) (es : List Declaration) :
    (es.foldl Package.add p).Files (ds ++ es) := by
  induction es generalizing p ds with
  | nil => rw [List.append_nil]; exact h
  | cons e es ih =>
    have := ih (h.add e)
    rwa [List.append_assoc] at this

/-- There is nothing yet in a package with nothing but units. -/
theorem files_nil (span : Span) (us : List SourceUnit) :
    (Package.drain { span := span, units := us }).Files [] where
  order := .nil
  nodup := .nil
  complete {r} hr := by
    obtain ⟨kind, index⟩ := r
    cases kind <;> cases hr

/-! ## What becomes of the declarations -/

/-- What is declared in the units, in order. -/
def declared (us : List SourceUnit) : List Declaration := us.flatMap (·.declarations)

/-- The package consists of what is declared in the units `us`. -/
structure Sorts (p : Package) (us : List SourceUnit) : Prop where
  units : p.units = us.map fun u => { u with declarations := [] }
  clause : p.clause = ((declared us).filterMap (·.clause?)).head?
  structs : p.structs = (declared us).filterMap (·.struct?)
  connectors : p.connectors = (declared us).filterMap (·.connector?)
  services : p.services = (declared us).filterMap (·.service?)
  functions : p.functions = (declared us).filterMap (·.function?)
  vars : p.vars = (declared us).filterMap (·.var?)
  /-- The first imports of those that say the same are kept. -/
  imports : p.imports = firsts Import.key (fun _ => false) ((declared us).filterMap (·.use?))
  imports_sublist : p.imports.Sublist ((declared us).filterMap (·.use?))
  imports_differ : p.imports.Pairwise fun i j => j.same i = false
  import_kept {before after : List Import} {i : Import} :
    (declared us).filterMap (·.use?) = before ++ i :: after →
      ∃ j ∈ before ++ [i], j ∈ p.imports ∧ j.same i = true
  /-- Each member is recorded when its turn comes, by a reference of its own. -/
  order : List.Forall₂ p.RefersTo p.order ((declared us).filter (·.isMember))
  order_nodup : p.order.Nodup
  mem_order {r : MemberRef} : r ∈ p.order ↔ (p.memberAt? r).isSome

/-- An import is kept, or one that says the same and is written before. -/
theorem exists_mem_firsts {uses before after : List Import} {i : Import}
    (h : uses = before ++ i :: after) :
    ∃ j ∈ before ++ [i], j ∈ firsts Import.key (fun _ => false) uses ∧ j.same i = true := by
  have hkey : i.key ∈ (firsts Import.key (fun _ => false) (before ++ [i])).map Import.key :=
    ((mem_keys_firsts_or i.key).2 (.inl (by simp))).resolve_right Bool.false_ne_true
  obtain ⟨j, hj, hsame⟩ := List.mem_map.1 hkey
  refine ⟨j, mem_of_mem_firsts hj, ?_, Import.same_iff.2 hsame⟩
  rw [h, ← List.singleton_append, ← List.append_assoc, firsts_append]
  exact List.mem_append_left _ hj

/-- Collecting a package with nothing but units puts each declaration where it belongs. -/
theorem sorts_collect (span : Span) (us : List SourceUnit) :
    (Package.collect { span := span, units := us }).Sorts us := by
  have hfiles : (Package.collect { span := span, units := us }).Files (declared us) :=
    (files_nil span _).foldl_add _
  have himports : (Package.collect { span := span, units := us }).imports =
      firsts Import.key (fun _ => false) ((declared us).filterMap (·.use?)) :=
    (imports_foldl_add _ _).trans (foldl_addImport _ [])
  exact {
    units := units_collect _
    clause := (clause_foldl_add _ _).trans (Option.none_or ..)
    structs := eq_append_filterMap _ _ (k := .struct) rfl rfl (fun _ => rfl) fun d hd => by
      cases d <;> first | rfl | exact absurd rfl hd
    connectors := eq_append_filterMap _ _ (k := .connector) rfl rfl (fun _ => rfl) fun d hd => by
      cases d <;> first | rfl | exact absurd rfl hd
    services := eq_append_filterMap _ _ (k := .service) rfl rfl (fun _ => rfl) fun d hd => by
      cases d <;> first | rfl | exact absurd rfl hd
    functions := eq_append_filterMap _ _ (k := .function) rfl rfl (fun _ => rfl) fun d hd => by
      cases d <;> first | rfl | exact absurd rfl hd
    vars := eq_append_filterMap _ _ (k := .var) rfl rfl (fun _ => rfl) fun d hd => by
      cases d <;> first | rfl | exact absurd rfl hd
    imports := himports
    imports_sublist := himports ▸ firsts_sublist _
    imports_differ := himports ▸ pairwise_firsts _
    import_kept := fun huses => himports ▸ exists_mem_firsts huses
    order := hfiles.order
    order_nodup := hfiles.nodup
    mem_order := fun {r} => by
      refine ⟨fun hr => ?_, hfiles.complete⟩
      obtain ⟨d, hd⟩ := hfiles.exists_refersTo hr
      exact Option.isSome_of_mem hd.member }

/-- However the units of a package come, and whenever those that have come are collected, each
    declaration ends up where it belongs. Saying the same is an equivalence of imports. -/
theorem sorts_collect_foldl_read :
    (Equivalence fun i j : Import => i.same j = true) ∧
      ∀ (span : Span) (portions : List Portion),
        (portions.foldl read { span := span }).collect.Sorts (portions.flatMap (·.brought)) := by
  refine ⟨Import.same_equivalence, fun span portions => ?_⟩
  rw [collect_foldl_read]
  exact sorts_collect span _

end Package

end Binder
