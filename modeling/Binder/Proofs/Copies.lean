import Binder.Proofs.Resolution

/-!
# Copies of container variables

The initializer of a connector or service defines the variables of its container over again. What it
defines are copies: they have no symbol and no type, and say the same as the variables in the same
places.

The written type of a copy starts unresolved at its outermost level only. The levels under it are
copied as they are, so if the elements of an array are resolved, the copy of the array is resolved in
part.

* `VarDef.AnewAs`: what a copy has in common with the definition it is a copy of.
* `Callable.Replays`: the body of an initializer made from copies.
* `VarDef.AnewAs.unannotated_iff`: when no level of a copy is resolved.
* `replays_containers`: what is in the bodies of the initializers of connectors and services.
-/

namespace Binder

/-! ## Written types -/

namespace TypeRef

theorem bare_withTy (t : Option TypeId) (r : TypeRef) : (r.withTy t).bare = r.bare := by
  cases r <;> rfl

/-- Only the outermost level is resolved anew. -/
theorem annotations_withTy (t : Option TypeId) (r : TypeRef) :
    (r.withTy t).annotations = r.annotations.dropLast ++ [t] := by
  cases r with
  | primitive | named => rfl
  | array element span ty => rw [withTy, annotations, annotations, List.dropLast_concat]

theorem unannotated_iff (r : TypeRef) : r.Unannotated ↔ ∀ a ∈ r.annotations, a = none := by
  induction r with
  | primitive | named => exact (List.forall_mem_singleton (p := (· = none))).symm
  | array element span ty ih =>
    rw [Unannotated, annotations, List.forall_mem_append, List.forall_mem_singleton, ih, and_comm]

end TypeRef

/-! ## Copies -/

/-- `e` defines anew what `d` defines: it says the same in the same places, and has no symbol and no
    type. Of what the written type is resolved to, the outermost level is left out. -/
structure VarDef.AnewAs (d e : VarDef) : Prop where
  /-- Places, name, modifiers and initial value are those of `d`. -/
  eq : e = ⟨d.span, { d.var with type := e.var.type, symbol := none, ty := none }⟩
  /-- The type is written alike. -/
  written : e.var.type.bare = d.var.type.bare
  annotations : e.var.type.annotations = d.var.type.annotations.dropLast ++ [none]

theorem VarDef.anewAs_fresh (d : VarDef) : d.AnewAs d.fresh :=
  ⟨rfl, d.var.type.bare_withTy none, d.var.type.annotations_withTy none⟩

/-- No level of a copy is resolved just if none under the outermost was. -/
theorem VarDef.AnewAs.unannotated_iff {d e : VarDef} (h : d.AnewAs e) :
    e.var.type.Unannotated ↔ ∀ a ∈ d.var.type.annotations.dropLast, a = none := by
  rw [e.var.type.unannotated_iff, h.annotations, List.forall_mem_append, List.forall_mem_singleton]
  exact and_iff_left rfl

/-- The body of `f` makes the definitions `copies`, which are copies of `defs` in their order, and
    returns. -/
structure Callable.Replays (span : Span) (defs copies : List VarDef) (f : Callable) : Prop where
  body : f.head.body = some (.defining span copies)
  copies : List.Forall₂ VarDef.AnewAs defs copies

theorem Callable.Replays.unannotated_iff {span : Span} {defs copies : List VarDef} {f : Callable}
    (h : f.Replays span defs copies) : (∀ e ∈ copies, e.var.type.Unannotated) ↔
      ∀ d ∈ defs, ∀ a ∈ d.var.type.annotations.dropLast, a = none := by
  have hcopies := h.copies
  clear h
  induction hcopies with
  | nil => exact iff_of_true nofun nofun
  | cons hd _ ih =>
    rw [List.forall_mem_cons, List.forall_mem_cons]
    exact and_congr hd.unannotated_iff ih

theorem Callable.replays_initializer (span : Span) (name : String) (params : List VarDecl)
    (defs : List VarDef) :
    (initializer span name params (defs.map (·.fresh))).Replays span defs (defs.map (·.fresh)) :=
  ⟨rfl, List.forall₂_map_right_iff.2 (List.forall₂_same.2 fun d _ => d.anewAs_fresh)⟩

/-- The initializers of connectors and services replay the variables of their containers, each by a
    copy that starts anew. The copies are unresolved at every level if and only if no variable of the
    container has an array type whose element is resolved at some level. -/
theorem replays_containers (config : Config) :
    (∀ c : Connector, ∃ copies, (c.makeInitializer config).Replays c.span c.vars copies ∧
      ((∀ e ∈ copies, e.var.type.Unannotated) ↔
        ∀ d ∈ c.vars, ∀ a ∈ d.var.type.annotations.dropLast, a = none)) ∧
    (∀ c : Service, ∃ copies, (c.makeInitializer config).Replays c.span c.vars copies ∧
      ((∀ e ∈ copies, e.var.type.Unannotated) ↔
        ∀ d ∈ c.vars, ∀ a ∈ d.var.type.annotations.dropLast, a = none)) := by
  constructor
  · intro c
    have h := Callable.replays_initializer c.span (config.initName c.name.text)
      [c.initParam config] c.vars
    exact ⟨_, h, h.unannotated_iff⟩
  · intro c
    have h := Callable.replays_initializer c.span (config.initName c.name.text) [] c.vars
    exact ⟨_, h, h.unannotated_iff⟩

/-- If the element of an array is resolved, the copy of the array is not unresolved at every level. -/
theorem not_unannotated_array :
    let type : TypeRef := .array (.primitive .int .origin (some Primitive.int.typeId)) .origin none
    let a : VarDecl := { span := .origin, name := ⟨"a", .origin⟩, type }
    let b : Connector := { span := .origin, name := ⟨"B", .origin⟩, vars := [.ofVar a] }
    let c : Service := { span := .origin, name := ⟨"C", .origin⟩, vars := [.ofVar a] }
    ∃ d : VarDef,
      (b.makeInitializer {}).head.body = some ⟨.origin, [.define d, .ret .origin []]⟩ ∧
      (c.makeInitializer {}).head.body = some ⟨.origin, [.define d, .ret .origin []]⟩ ∧
      d.var.symbol = none ∧ d.var.ty = none ∧
      d.var.type.annotations = [some Primitive.int.typeId, none] ∧ ¬ d.var.type.Unannotated := by
  intro type a b c
  exact ⟨_, rfl, rfl, rfl, rfl, rfl, fun h => nomatch h.2⟩

end Binder
