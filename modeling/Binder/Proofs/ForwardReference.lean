import Binder.Proofs.Entry.Load

/-!
# Forward references

What is written in a package means what the scope of the package says in the end. A written type is
resolved while the scope is still being filled, but whatever it could mean is bound by then: types
and imports come first, and nothing that comes later is a type or an import. So it does not matter
where a type is written, and whether what declares it stands before or after.

* `TypeRef.shape`: what a written type says, wherever it is written.
* `Store.Means.eq_of_shape`: written types that say the same mean the same.
* `Session.Enters.resolvedIn`: the types written in a package that is entered with success.
* `Session.Reachable.resolvedIn_after`: they mean the same ever after.
-/

namespace Binder

/-- What a written type says, wherever it is written. -/
def TypeRef.shape : TypeRef → TypeRef
  | primitive p _ _ => primitive p .origin none
  | named qualifier name _ _ =>
    named (qualifier.map fun q => ⟨q.text, .origin⟩) ⟨name.text, .origin⟩ .origin none
  | array element _ _ => array element.shape .origin none

namespace Store

variable {s : Store} {p : SymbolId}

/-- An element type has one array type. -/
theorem IsArrayOf.eq {element array array' : TypeId} (h : s.IsArrayOf element array)
    (h' : s.IsArrayOf element array') : array = array' := by
  unfold IsArrayOf at h h'
  split at h
  · next he =>
    rw [if_pos he] at h'
    exact h.trans h'.symm
  · next he =>
    rw [if_neg he] at h'
    exact Option.some.inj (h.1.symm.trans h'.1)

/-- Written types that say the same mean the same. -/
theorem Means.eq_of_shape {r r' : TypeRef} {ty ty' : TypeId} (h : s.Means p r ty)
    (h' : s.Means p r' ty') (hshape : r.shape = r'.shape) : ty = ty' := by
  induction r generalizing r' ty ty' with
  | primitive k =>
    cases r' with
    | primitive k' =>
      cases hshape
      exact h.trans h'.symm
    | named | array => cases hshape
  | named q n =>
    cases r' with
    | named q' n' =>
      obtain ⟨hq, hn⟩ := TypeRef.named.inj hshape |>.imp id And.left
      have hname : n.text = n'.text := (Ident.mk.inj hn).1
      refine h.trans (Eq.trans ?_ h'.symm)
      cases q with
      | none =>
        rw [Option.map_eq_none_iff.1 hq.symm, meaning, meaning, hname]
      | some i =>
        obtain ⟨i', rfl, hi⟩ := Option.map_eq_some_iff.1 hq.symm
        rw [meaning, meaning, hname, (Ident.mk.inj hi).1]
    | primitive | array => cases hshape
  | array e _ _ ih =>
    cases r' with
    | array e' =>
      obtain ⟨inner, hinner, harray⟩ := h
      obtain ⟨inner', hinner', harray'⟩ := h'
      have heq := ih hinner hinner' (TypeRef.array.inj hshape).1
      exact harray.eq (heq ▸ harray')
    | primitive | named => cases hshape

end Store

namespace Session

variable {s s' : Session} {path : Option PackageName} {p p' : Package} {depth : Nat} {x : SymbolId}

/-- Every type written in a package that is entered with success means what the scope of the package
    says when the package is entered, and no two that say the same mean different types. -/
theorem Enters.resolvedIn (h : Enters depth path p s)
    (hp : p.enterWith (loadWithin depth) path s = ((p', .ok x), s')) :
    p'.bare = p.collect.bare ∧ (∀ v ∈ p'.allVars, v.type.ResolvedIn s'.store x) ∧
      ∀ v ∈ p'.allVars, ∀ w ∈ p'.allVars, v.type.shape = w.type.shape → v.type.ty = w.type.ty := by
  have hbare := p.bare_enterWith (loadWithin depth) path s
  obtain ⟨hs, hpath⟩ := h.sound
  obtain ⟨_, hok⟩ := Package.enterWith_spec (loadWithin_sound depth) p hs hpath
  rw [hp] at hbare hok
  obtain ⟨hx, s₁, hentered⟩ := hok x rfl
  have hresolved : ∀ v ∈ p'.allVars, v.type.ResolvedIn s'.store x := fun v hv => by
    rw [hx]
    exact (hentered.vars v hv).type
  refine ⟨hbare, hresolved, fun v hv w hw hshape => ?_⟩
  obtain ⟨ty, hty, hmeans⟩ := (hresolved v hv).means
  obtain ⟨ty', hty', hmeans'⟩ := (hresolved w hw).means
  rw [hty, hty', hmeans.eq_of_shape hmeans' hshape]

/-- A field whose written type is declared later, and once more after that. -/
theorem resolvedIn_declared_later :
    let T : Ident := ⟨"T", .origin⟩
    let f : VarDecl :=
      { span := .origin, name := ⟨"f", .origin⟩, type := .array (.ofName T) .origin none }
    let p : Package :=
      { structs := [{ span := .origin, name := ⟨"S", .origin⟩, fields := [f] },
          { span := .origin, name := T }, { span := .origin, name := T }] }
    let s := start {} {} {}
    let r := p.enterWith (loadWithin s.depthBound) none s
    Enters s.depthBound none p s ∧ r.1.2 = .ok ⟨1⟩ ∧ r.2.store.meaning ⟨1⟩ none T = ⟨13⟩ ∧
      ∀ v ∈ r.1.1.allVars, v.type.ResolvedIn r.2.store ⟨1⟩ := by
  intro T f p s r
  have h : Enters s.depthBound none p s := .define p (.start {} {} {})
  have hok : r.1.2 = .ok ⟨1⟩ := by decide +kernel
  have hmeaning : r.2.store.meaning ⟨1⟩ none T = ⟨13⟩ := by decide +kernel
  have hp : r = ((r.1.1, .ok ⟨1⟩), r.2) := eq_of_outcome hok
  exact ⟨h, hok, hmeaning, (h.resolvedIn hp).2.1⟩

/-- What is written in a package means the same ever after, whatever is requested. -/
theorem Reachable.resolvedIn_after (h : s.Reachable) (hp : define p s = ((p', .ok x), s'))
    (requests : List Request) :
    ∀ v ∈ p'.allVars, v.type.ResolvedIn (s'.after requests).store x := by
  have hpath : ∀ name ∈ (none : Option PackageName), name.Known s.store.names := nofun
  obtain ⟨hopens, hok⟩ :=
    Package.enterWith_spec (loadWithin_sound s.depthBound) p h.sound hpath
  rw [show p.enterWith (loadWithin s.depthBound) none s = _ from hp] at hopens hok
  obtain ⟨hx, s₁, hentered⟩ := hok x rfl
  obtain ⟨sym, hsym⟩ := hopens.exists_symbol
  have hs' : (respond (.define p) s).2 = s' := congrArg Prod.snd hp
  have hl := (h.step (.define p)).leads_after requests
  rw [hs'] at hl
  intro v hv
  rw [hx]
  exact (hentered.vars v hv).type.of_keeps hl.keeps hopens.sound.store hsym

end Session

end Binder
