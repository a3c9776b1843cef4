import Mathlib.Data.List.Forall2
import Binder.Entry.Function
import Binder.Proofs.Action
import Binder.Proofs.PackageName

/-!
# Twins

Two stores, each with its own table of names, are *twins* if they are the same up to the places of
their texts: wherever the one has a name, the other has the name that stands for the same text. All
handles are the same, and so are the orders in which things were made.

Twin names are equal exactly if their texts are, so twins cannot be told apart by what is asked of
them here: a look-up finds the same, and a text is the same text.

* `Names.Twin`, `Table.Twin`, `Store.Twin`: twins.
* `Names.Twin.eq_iff`: a name has one twin.
* `Table.Twin.lookup`, `Table.Twin.typeText?`: look-ups and texts.
* `Table.Twin.addSymbol` and its companions: what is done to both twins leaves twins.
-/

namespace Binder

/-! ## Names -/

namespace Names

/-- Two names that have the same text, each in its own table. -/
def Twin (t t' : Names) (n n' : Name) : Prop :=
  ∃ text, t.text? n = some text ∧ t'.text? n' = some text

variable {t t' : Names} {m m' n n' : Name}

theorem Twin.mono {u u' : Names} (h : t.Twin t' n n') (g : t.texts <+: u.texts)
    (g' : t'.texts <+: u'.texts) : u.Twin u' n n' := by
  obtain ⟨text, hn, hn'⟩ := h
  exact ⟨text, text?_mono g hn, text?_mono g' hn'⟩

theorem Twin.text_eq (h : t.Twin t' n n') : t'.text n' = t.text n := by
  obtain ⟨text, hn, hn'⟩ := h
  rw [Names.text, Names.text, hn, hn']

/-- A name has one twin, and is the twin of one name. -/
theorem Twin.eq_iff (hm : t.Twin t' m m') (hn : t.Twin t' n n') : m = n ↔ m' = n' := by
  obtain ⟨text, htm, htm'⟩ := hm
  obtain ⟨text', htn, htn'⟩ := hn
  constructor
  · rintro rfl
    exact t'.text?_inj htm' (htn'.trans (htn.symm.trans htm))
  · rintro rfl
    exact t.text?_inj htm (htn.trans (htn'.symm.trans htm'))

theorem twin_unnamed : t.Twin t' .unnamed .unnamed := ⟨"", t.text?_unnamed, t'.text?_unnamed⟩

theorem Twin.isUnnamed_eq (h : t.Twin t' n n') : n'.isUnnamed = n.isUnnamed := by
  have hunnamed : ∀ m : Name, m.isUnnamed = true ↔ m = .unnamed := fun m => by
    cases m
    simp [Name.isUnnamed, Name.unnamed]
  rw [Bool.eq_iff_iff, hunnamed, hunnamed]
  exact (h.eq_iff twin_unnamed).symm

theorem twin_intern (t t' : Names) (text : String) :
    (t.intern text).2.Twin (t'.intern text).2 (t.intern text).1 (t'.intern text).1 :=
  ⟨text, t.text?_intern text, t'.text?_intern text⟩

end Names

/-- Two package names that are made of the same texts. -/
structure PackageName.Twin (t t' : Names) (p p' : PackageName) : Prop where
  known : p.Known t
  known' : p'.Known t'
  key : p'.key t' = p.key t

namespace PackageName.Twin

variable {t t' : Names} {p p' q q' : PackageName}

theorem mono {u u' : Names} (h : PackageName.Twin t t' p p') (g : t.texts <+: u.texts)
    (g' : t'.texts <+: u'.texts) : PackageName.Twin u u' p p' where
  known := h.known.mono g
  known' := h.known'.mono g'
  key := by rw [h.known.key_eq g, h.known'.key_eq g', h.key]

theorem text_eq (h : PackageName.Twin t t' p p') : p'.text t' = p.text t := by
  rw [text_eq_render, text_eq_render, h.key]

theorem eq_iff (hp : PackageName.Twin t t' p p') (hq : PackageName.Twin t t' q q') :
    p = q ↔ p' = q' := by
  constructor
  · rintro rfl
    exact eq_of_key hp.known' hq.known' (hp.key.trans hq.key.symm)
  · rintro rfl
    exact eq_of_key hp.known hq.known (hp.key.symm.trans hq.key)

theorem ofTexts (t t' : Names) (path : List String) (version : Option String) :
    PackageName.Twin (PackageName.ofTexts path version t).2 (PackageName.ofTexts path version t').2
      (PackageName.ofTexts path version t).1 (PackageName.ofTexts path version t').1 where
  known := (ofTexts_spec path version t).2.1
  known' := (ofTexts_spec path version t').2.1
  key := (ofTexts_spec path version t').2.2.trans (ofTexts_spec path version t).2.2.symm

end PackageName.Twin

/-! ## Related lists, options and arrays -/

section

variable {α α' β β' : Type}

theorem map_eq_of_rel {R : α → α' → Prop} {f : α → β} {f' : α' → β}
    (hf : ∀ a a', R a a' → f' a' = f a) {o : Option α} {o' : Option α'} (h : Option.Rel R o o') :
    o'.map f' = o.map f := by
  cases h with
  | some h => exact congrArg some (hf _ _ h)
  | none => rfl

theorem bind_eq_of_rel {R : α → α' → Prop} {f : α → Option β} {f' : α' → Option β}
    (hf : ∀ a a', R a a' → f' a' = f a) {o : Option α} {o' : Option α'} (h : Option.Rel R o o') :
    o'.bind f' = o.bind f := by
  cases h with
  | some h => exact hf _ _ h
  | none => rfl

theorem eq_of_rel {o o' : Option α} (h : Option.Rel (fun a a' => a' = a) o o') : o' = o := by
  cases h with
  | some h => rw [h]
  | none => rfl

theorem eq_of_forall₂ {l l' : List α} (h : List.Forall₂ (fun a a' => a' = a) l l') : l' = l := by
  induction h with
  | nil => rfl
  | cons h _ ih => rw [h, ih]

/-- Where related elements are equal to `k` and `k'` at once, these are found at one place. -/
theorem idxOf_eq_of_forall₂ [DecidableEq α] [DecidableEq α'] {R : α → α' → Prop} {l : List α}
    {l' : List α'} (h : List.Forall₂ R l l') {k : α} {k' : α'}
    (hk : ∀ a a', R a a' → (a = k ↔ a' = k')) : l'.idxOf k' = l.idxOf k ∧ (k ∈ l ↔ k' ∈ l') := by
  induction h with
  | nil => exact ⟨rfl, by simp⟩
  | @cons a a' l l' ha _ ih =>
    rw [List.idxOf_cons, List.idxOf_cons, List.mem_cons, List.mem_cons, ih.1, ih.2,
      eq_comm (a := k), eq_comm (a := k'), hk a a' ha]
    by_cases h : a = k
    · simp [h, (hk a a' ha).1 h]
    · rw [beq_eq_false_iff_ne.2 h, beq_eq_false_iff_ne.2 fun h' => h ((hk a a' ha).2 h')]
      exact ⟨rfl, .rfl⟩

section

variable {κ κ' ν ν' : Type} [BEq κ] [LawfulBEq κ] [BEq κ'] [LawfulBEq κ'] {R : κ → κ' → Prop}
  {S : ν → ν' → Prop} {l : List (κ × ν)} {l' : List (κ' × ν')} {k : κ} {k' : κ'}

theorem lookup_of_forall₂ (h : List.Forall₂ (fun e e' => R e.1 e'.1 ∧ S e.2 e'.2) l l')
    (hk : ∀ a a', R a a' → (a = k ↔ a' = k')) : Option.Rel S (l.lookup k) (l'.lookup k') := by
  induction h with
  | nil => exact .none
  | @cons e e' _ _ he _ ih =>
    have hiff := hk _ _ he.1
    rw [List.lookup_cons, List.lookup_cons]
    by_cases h : e.1 = k
    · rw [beq_iff_eq.2 h.symm, beq_iff_eq.2 (hiff.1 h).symm]
      exact .some he.2
    · rw [beq_eq_false_iff_ne.2 (Ne.symm h), beq_eq_false_iff_ne.2 fun h' => h (hiff.2 h'.symm)]
      exact ih

theorem forall₂_put {v : ν} {v' : ν'} (h : List.Forall₂ (fun e e' => R e.1 e'.1 ∧ S e.2 e'.2) l l')
    (hk : ∀ a a', R a a' → (a = k ↔ a' = k')) (hR : R k k') (hS : S v v') :
    List.Forall₂ (fun e e' => R e.1 e'.1 ∧ S e.2 e'.2) (Assoc.put k v l) (Assoc.put k' v' l') := by
  induction h with
  | nil => exact .cons ⟨hR, hS⟩ .nil
  | @cons e e' _ _ he hl ih =>
    have hiff := hk _ _ he.1
    obtain ⟨a, x⟩ := e
    obtain ⟨a', x'⟩ := e'
    rw [Assoc.put, Assoc.put]
    by_cases h : a = k
    · rw [if_pos (beq_iff_eq.2 h), if_pos (beq_iff_eq.2 (hiff.1 h))]
      exact .cons ⟨he.1, hS⟩ hl
    · rw [if_neg (mt beq_iff_eq.1 h), if_neg (mt beq_iff_eq.1 fun h' => h (hiff.2 h'))]
      exact .cons he ih

end

/-- Arrays that are related place by place. -/
def Pointwise (R : α → β → Prop) (a : Array α) (b : Array β) : Prop :=
  ∀ i : Nat, Option.Rel R a[i]? b[i]?

namespace Pointwise

variable {R : α → β → Prop} {a : Array α} {b : Array β}

theorem mono {S : α → β → Prop} (h : Pointwise R a b) (hRS : ∀ x y, R x y → S x y) :
    Pointwise S a b := fun i => by
  rcases ha : a[i]? with _ | x <;> rcases hb : b[i]? with _ | y <;> cases hb ▸ ha ▸ h i
  · exact .none
  · exact .some (hRS _ _ ‹_›)

theorem size_eq (h : Pointwise R a b) : b.size = a.size := by
  have hiff : ∀ i : Nat, b.size ≤ i ↔ a.size ≤ i := fun i => by
    rw [← Array.getElem?_eq_none_iff, ← Array.getElem?_eq_none_iff]
    rcases ha : a[i]? with _ | x <;> rcases hb : b[i]? with _ | y <;> cases hb ▸ ha ▸ h i <;> simp
  exact Nat.le_antisymm ((hiff _).2 (Nat.le_refl _)) ((hiff _).1 (Nat.le_refl _))

theorem push (h : Pointwise R a b) {x : α} {y : β} (hxy : R x y) :
    Pointwise R (a.push x) (b.push y) := fun i => by
  rw [Array.getElem?_push, Array.getElem?_push, h.size_eq]
  split
  · exact .some hxy
  · exact h i

theorem modify (h : Pointwise R a b) (i : Nat) {f : α → α} {g : β → β}
    (hfg : ∀ x y, R x y → R (f x) (g y)) : Pointwise R (a.modify i f) (b.modify i g) := fun j => by
  rw [Array.getElem?_modify, Array.getElem?_modify]
  split
  · rcases ha : a[j]? with _ | x <;> rcases hb : b[j]? with _ | y <;> cases hb ▸ ha ▸ h j
    · exact .none
    · exact .some (hfg _ _ ‹_›)
  · exact h j

end Pointwise

end

/-! ## Symbols, scopes and types -/

structure Symbol.Twin (t t' : Names) (x x' : Symbol) : Prop where
  name : t.Twin t' x.name x'.name
  eq : x' = { x with name := x'.name }

/-- The bindings are twins in order. -/
structure Scope.Twin (t t' : Names) (sc sc' : Scope) : Prop where
  entries : List.Forall₂ (fun e e' => t.Twin t' e.1 e'.1 ∧ e'.2 = e.2) sc.entries sc'.entries
  eq : sc' = { sc with entries := sc'.entries }

structure Field.Twin (t t' : Names) (f f' : Field) : Prop where
  name : t.Twin t' f.name f'.name
  ty : f'.ty = f.ty

/-- Only the fields of a struct have names. -/
inductive Ty.Twin (t t' : Names) : Ty → Ty → Prop
  | sealed {x : SymbolId} {fields fields' : List Field} :
    List.Forall₂ (Field.Twin t t') fields fields' →
      Twin t t' (.struct ⟨x, some fields⟩) (.struct ⟨x, some fields'⟩)
  | same {ty : Ty} (h : ∀ x fields, ty ≠ .struct ⟨x, some fields⟩) : Twin t t' ty ty

section

variable {t t' u u' : Names} (g : t.texts <+: u.texts) (g' : t'.texts <+: u'.texts)
include g g'

theorem Symbol.Twin.mono {x x' : Symbol} (h : Symbol.Twin t t' x x') : Symbol.Twin u u' x x' :=
  ⟨h.name.mono g g', h.eq⟩

theorem Scope.Twin.mono {sc sc' : Scope} (h : Scope.Twin t t' sc sc') : Scope.Twin u u' sc sc' :=
  ⟨h.entries.imp fun _ _ he => ⟨he.1.mono g g', he.2⟩, h.eq⟩

theorem Field.Twin.mono {f f' : Field} (h : Field.Twin t t' f f') : Field.Twin u u' f f' :=
  ⟨h.name.mono g g', h.ty⟩

theorem Ty.Twin.mono {ty ty' : Ty} (h : Ty.Twin t t' ty ty') : Ty.Twin u u' ty ty' := by
  cases h with
  | sealed h => exact .sealed (h.imp fun _ _ hf => hf.mono g g')
  | same h => exact .same h

end

namespace Symbol.Twin

variable {t t' : Names} {x x' : Symbol} (h : Symbol.Twin t t' x x')
include h

theorem kind_eq : x'.kind = x.kind := by rw [h.eq]

theorem pkg_eq : x'.pkg = x.pkg := by rw [h.eq]

theorem scope_eq : x'.scope = x.scope := by rw [h.eq]

theorem ty_eq : x'.ty = x.ty := by rw [h.eq]

theorem span_eq : x'.span = x.span := by rw [h.eq]

end Symbol.Twin

namespace Scope.Twin

variable {t t' : Names} {sc sc' : Scope} {n n' : Name} (h : Scope.Twin t t' sc sc')
include h

theorem owner_eq : sc'.owner = sc.owner := by rw [h.eq]

theorem parent_eq : sc'.parent = sc.parent := by rw [h.eq]

theorem get? (hn : t.Twin t' n n') : sc'.get? n' = sc.get? n :=
  eq_of_rel (lookup_of_forall₂ h.entries fun _ _ ha => ha.eq_iff hn)

theorem define? (hn : t.Twin t' n n') (x : SymbolId) :
    Scope.Twin t t' ((sc.define? n x).getD sc) ((sc'.define? n' x).getD sc') := by
  rw [Scope.define?, Scope.define?, h.get? hn]
  cases sc.get? n with
  | some y => exact h
  | none =>
    refine ⟨List.rel_append h.entries (.cons ⟨hn, rfl⟩ .nil), ?_⟩
    simp [h.owner_eq, h.parent_eq]

end Scope.Twin

/-- Twin types belong to the same symbol. -/
theorem Ty.Twin.struct?_eq {t t' : Names} {ty ty' : Ty} (h : Ty.Twin t t' ty ty') :
    ty'.struct?.map (·.symbol) = ty.struct?.map (·.symbol) := by
  cases h with
  | sealed => rfl
  | same => rfl

/-! ## Tables of types -/

structure Types.Twin (t t' : Names) (T T' : Types) : Prop where
  types : Pointwise (Ty.Twin t t') T.types T'.types
  arrays : T'.arrays = T.arrays

namespace Types.Twin

variable {t t' : Names} {T T' : Types} (h : Types.Twin t t' T T')
include h

theorem get? (id : TypeId) : Option.Rel (Ty.Twin t t') (T.get? id) (T'.get? id) := h.types id.index

theorem size_eq : T'.size = T.size := h.types.size_eq

theorem struct?_eq (id : TypeId) :
    (T'.struct? id).map (·.symbol) = (T.struct? id).map (·.symbol) := by
  rw [Types.struct?, Types.struct?, Option.map_bind, Option.map_bind]
  exact bind_eq_of_rel (fun _ _ hty => hty.struct?_eq) (h.get? id)

theorem alloc {ty ty' : Ty} (hty : Ty.Twin t t' ty ty') :
    (T'.alloc ty').1 = (T.alloc ty).1 ∧ Types.Twin t t' (T.alloc ty).2 (T'.alloc ty').2 :=
  ⟨congrArg TypeId.mk h.size_eq, h.types.push hty, h.arrays⟩

theorem arrayOf (element : TypeId) : (T'.arrayOf element).1 = (T.arrayOf element).1 ∧
    Types.Twin t t' (T.arrayOf element).2 (T'.arrayOf element).2 := by
  rw [Types.arrayOf, Types.arrayOf, h.arrays]
  cases T.arrays.lookup element with
  | some id => exact ⟨rfl, h⟩
  | none =>
    have hty : Ty.Twin t t' (.array element) (.array element) := .same fun _ _ h => by cases h
    obtain ⟨hid, htypes, harrays⟩ := h.alloc hty
    exact ⟨hid, htypes, by simp only [hid, harrays]⟩

theorem setFields? (id : TypeId) {fields fields' : List Field}
    (hfields : List.Forall₂ (Field.Twin t t') fields fields') :
    Option.Rel (Types.Twin t t') (T.setFields? id fields) (T'.setFields? id fields') := by
  have hget := h.get? id
  rw [Types.setFields?, Types.setFields?, Types.struct?, Types.struct?]
  generalize T.get? id = o at hget
  generalize T'.get? id = o' at hget
  rcases hget with @⟨ty, ty', hty⟩ | _
  · cases hty with
    | sealed => exact .none
    | same hty =>
      cases ty with
      | struct st =>
        obtain ⟨x, _ | fields⟩ := st
        · exact .some ⟨h.types.modify id.index fun _ _ _ => .sealed hfields, h.arrays⟩
        · exact absurd rfl (hty x fields)
      | _ => exact .none
  · exact .none

end Types.Twin

/-! ## Symbol tables -/

structure Table.Twin (t t' : Names) (T T' : Table) : Prop where
  symbols : Pointwise (Symbol.Twin t t') T.symbols T'.symbols
  scopes : Pointwise (Scope.Twin t t') T.scopes T'.scopes
  types : Types.Twin t t' T.types T'.types
  packages : List.Forall₂ (PackageName.Twin t t') T.packages T'.packages

namespace Table.Twin

variable {t t' : Names} {T T' : Table}

theorem mono {u u' : Names} (h : Table.Twin t t' T T') (g : t.texts <+: u.texts)
    (g' : t'.texts <+: u'.texts) : Table.Twin u u' T T' where
  symbols := h.symbols.mono fun _ _ hx => hx.mono g g'
  scopes := h.scopes.mono fun _ _ hsc => hsc.mono g g'
  types := ⟨h.types.types.mono fun _ _ hty => hty.mono g g', h.types.arrays⟩
  packages := h.packages.imp fun _ _ hp => hp.mono g g'

theorem initial (t t' : Names) : Table.Twin t t' .initial .initial where
  symbols
    | 0 => .some ⟨Names.twin_unnamed, rfl⟩
    | _ + 1 => .none
  scopes
    | 0 => .some ⟨.nil, rfl⟩
    | _ + 1 => .none
  types := ⟨fun i => by
    show Option.Rel _ (Ty.builtins.toArray[i]?) (Ty.builtins.toArray[i]?)
    rcases hty : Ty.builtins.toArray[i]? with _ | ty
    · exact .none
    · refine .some (.same fun x fields h => ?_)
      have hmem := List.mem_of_getElem? (List.getElem?_toArray ▸ hty)
      subst h
      revert hmem
      simp [Ty.builtins], rfl⟩
  packages := .cons ⟨nofun, nofun, rfl⟩ .nil

variable (h : Table.Twin t t' T T') {n n' : Name}
include h

/-! ### Access and look-up -/

theorem symbol? (x : SymbolId) : Option.Rel (Symbol.Twin t t') (T.symbol? x) (T'.symbol? x) :=
  h.symbols x.index

theorem scope? (i : ScopeId) : Option.Rel (Scope.Twin t t') (T.scope? i) (T'.scope? i) :=
  h.scopes i.index

theorem ownerOf (i : ScopeId) : T'.ownerOf i = T.ownerOf i :=
  map_eq_of_rel (fun _ _ hsc => hsc.owner_eq) (h.scope? i)

theorem scopeOf (x : SymbolId) : T'.scopeOf x = T.scopeOf x :=
  bind_eq_of_rel (fun _ _ hx => hx.scope_eq) (h.symbol? x)

theorem typeOf (x : SymbolId) : T'.typeOf x = T.typeOf x :=
  congrArg (Option.getD · TypeId.error) (bind_eq_of_rel (fun _ _ hx => hx.ty_eq) (h.symbol? x))

theorem chain (i : ScopeId) : T'.chain i = T.chain i := by
  have hwithin : ∀ bound i, T'.chainWithin bound i = T.chainWithin bound i := fun bound => by
    induction bound with
    | zero => exact fun _ => rfl
    | succ bound ih =>
      intro i
      have hparent : (T'.scope? i).bind (·.parent) = (T.scope? i).bind (·.parent) :=
        bind_eq_of_rel (fun _ _ hsc => hsc.parent_eq) (h.scope? i)
      rw [chainWithin, chainWithin, hparent]
      cases (T.scope? i).bind (·.parent) with
      | none => rfl
      | some j => exact congrArg (i :: ·) (ih j)
  rw [Table.chain, Table.chain, h.scopes.size_eq]
  exact hwithin _ i

theorem get? (i : ScopeId) (hn : t.Twin t' n n') :
    (T'.scope? i).bind (·.get? n') = (T.scope? i).bind (·.get? n) :=
  bind_eq_of_rel (fun _ _ hsc => hsc.get? hn) (h.scope? i)

theorem bound? (i : ScopeId) (hn : t.Twin t' n n') :
    Option.Rel (Symbol.Twin t t') (T.bound? i n) (T'.bound? i n') := by
  rw [Table.bound?, Table.bound?, h.get? i hn]
  cases (T.scope? i).bind (·.get? n) with
  | none => exact .none
  | some x => exact h.symbol? x

theorem lookupMember (i : ScopeId) (hn : t.Twin t' n n') (mask : KindMask) :
    T'.lookupMember i n' mask = T.lookupMember i n mask := by
  have hscope := h.scope? i
  rw [Table.lookupMember, Table.lookupMember]
  generalize T.scope? i = o at hscope
  generalize T'.scope? i = o' at hscope
  rcases hscope with hsc | _
  · simp only [hsc.get? hn]
    split
    · rfl
    · next x _ =>
      have hsymbol := h.symbol? x
      generalize T.symbol? x = o at hsymbol
      generalize T'.symbol? x = o' at hsymbol
      rcases hsymbol with hx | _
      · simp only [hx.kind_eq]
      · rfl
  · rfl

theorem lookup (i : ScopeId) (hn : t.Twin t' n n') (mask : KindMask) :
    T'.lookup i n' mask = T.lookup i n mask := by
  rw [Table.lookup, Table.lookup, h.chain i]
  induction T.chain i with
  | nil => rfl
  | cons j rest ih => rw [lookupIn, lookupIn, h.lookupMember j hn, ih]

theorem importedScope? (i : ScopeId) (hn : t.Twin t' n n') :
    T'.importedScope? i n' = T.importedScope? i n := by
  rw [Table.importedScope?, Table.importedScope?, h.lookup i hn]
  cases (T.lookup i n .package).symbol? with
  | none => rfl
  | some x => exact h.scopeOf x

/-- The symbol of a struct type. -/
theorem structSymbol (ty : TypeId) : Option.Rel (Symbol.Twin t t')
    ((T.types.struct? ty).bind fun st => T.symbol? st.symbol)
    ((T'.types.struct? ty).bind fun st => T'.symbol? st.symbol) := by
  have hmap : ∀ U : Table, ((U.types.struct? ty).bind fun st => U.symbol? st.symbol) =
      ((U.types.struct? ty).map (·.symbol)).bind U.symbol? := fun U => by
    rw [Option.bind_map]
    rfl
  rw [hmap, hmap, h.types.struct?_eq ty]
  cases (T.types.struct? ty).map (·.symbol) with
  | none => exact .none
  | some x => exact h.symbol? x

theorem fieldScope? (ty : TypeId) : T'.fieldScope? ty = T.fieldScope? ty := by
  have hmap : ∀ U : Table, U.fieldScope? ty =
      ((U.types.struct? ty).bind fun st => U.symbol? st.symbol).bind (·.scope) := fun U => by
    rw [Option.bind_assoc]
    rfl
  rw [hmap, hmap]
  exact bind_eq_of_rel (fun _ _ hx => hx.scope_eq) (h.structSymbol ty)

theorem typeText? (id : TypeId) : T'.typeText? t' id = T.typeText? t id := by
  have hname : ∀ x, ((T'.symbol? x).map fun s => t'.text s.name) =
      (T.symbol? x).map fun s => t.text s.name := fun x =>
    map_eq_of_rel (fun _ _ hx => hx.name.text_eq) (h.symbol? x)
  have hwithin : ∀ bound, T'.typeTextWithin t' bound = T.typeTextWithin t bound := fun bound => by
    induction bound with
    | zero => rfl
    | succ bound ih =>
      funext id
      have hget := h.types.get? id
      rw [typeTextWithin, typeTextWithin, ih]
      generalize T.types.get? id = o at hget
      generalize T'.types.get? id = o' at hget
      rcases hget with @⟨ty, ty', hty⟩ | _
      · cases hty with
        | sealed => exact hname _
        | same =>
          cases ty with
          | struct | connector | service => exact hname _
          | _ => rfl
      · rfl
  rw [Table.typeText?, Table.typeText?, h.types.size_eq, hwithin]

/-! ### Changes -/

theorem addSymbol {x x' : Symbol} (hx : Symbol.Twin t t' x x') :
    (T'.addSymbol x').1 = (T.addSymbol x).1 ∧
      Table.Twin t t' (T.addSymbol x).2 (T'.addSymbol x').2 :=
  ⟨congrArg SymbolId.mk h.symbols.size_eq, { h with symbols := h.symbols.push hx }⟩

theorem modifySymbol (x : SymbolId) {f f' : Symbol → Symbol}
    (hf : ∀ x x', Symbol.Twin t t' x x' → Symbol.Twin t t' (f x) (f' x')) :
    Table.Twin t t' (T.modifySymbol x f) (T'.modifySymbol x f') :=
  { h with symbols := h.symbols.modify x.index hf }

theorem addScope (owner : SymbolId) (parent : Option ScopeId) :
    (T'.addScope owner parent).1 = (T.addScope owner parent).1 ∧
      Table.Twin t t' (T.addScope owner parent).2 (T'.addScope owner parent).2 := by
  have hid : ScopeId.mk T'.scopes.size = ⟨T.scopes.size⟩ := congrArg ScopeId.mk h.scopes.size_eq
  refine ⟨hid, { h with scopes := h.scopes.push ⟨.nil, rfl⟩, symbols := ?_ }⟩
  refine h.symbols.modify owner.index fun x x' hx => ⟨hx.name, ?_⟩
  rw [hid, hx.eq]

theorem addPackage {p p' : PackageName} (hp : PackageName.Twin t t' p p') :
    (T'.addPackage p').1 = (T.addPackage p).1 ∧
      Table.Twin t t' (T.addPackage p).2 (T'.addPackage p').2 := by
  obtain ⟨hplace, hmem⟩ := idxOf_eq_of_forall₂ h.packages fun _ _ hq => hq.eq_iff hp
  refine ⟨congrArg PackageId.mk hplace, ?_⟩
  rw [Table.addPackage, Table.addPackage]
  by_cases hnew : p ∈ T.packages
  · rw [if_pos hnew, if_pos (hmem.1 hnew)]
    exact h
  · rw [if_neg hnew, if_neg (mt hmem.2 hnew)]
    exact { h with packages := List.rel_append h.packages (.cons hp .nil) }

theorem bind (i : ScopeId) (hn : t.Twin t' n n') (x : SymbolId) :
    Table.Twin t t' (T.bind i n x) (T'.bind i n' x) :=
  { h with scopes := h.scopes.modify i.index fun _ _ hsc => hsc.define? hn x }

theorem withTypes {types types' : Types} (htypes : Types.Twin t t' types types') :
    Table.Twin t t' { T with types } { T' with types := types' } :=
  { h with types := htypes }

end Table.Twin

end Binder
