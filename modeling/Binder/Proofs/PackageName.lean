import Binder.Proofs.Follows

/-!
# Package names and their texts

A package name made of texts has these texts, and keeps them while names are added. Within one table,
package names with the same texts are the same, so a package may be known by its texts.

* `PackageName.key`: the texts of a package name.
* `PackageName.Known`: the table has all names in a package name.
* `PackageName.ofTexts_spec`: the package name made of texts.
* `PackageName.eq_of_key`: package names with the same texts are the same.
* `Store.internPackage_of_known`: a package name that is known is made without a change.
-/

namespace Binder

/-- The texts that a package is known by: the components of its path and its version. -/
abbrev PackageKey := List String × Option String

namespace Names

/-- Later tables have all texts of earlier ones, under the same names. -/
theorem text_mono {t t' : Names} (g : t.texts <+: t'.texts) {n : Name}
    (h : (t.text? n).isSome) : t'.text n = t.text n := by
  obtain ⟨u, hu⟩ := Option.isSome_iff_exists.1 h
  rw [text, text, hu, text?_mono g hu]

theorem isSome_mono {t t' : Names} (g : t.texts <+: t'.texts) {n : Name}
    (h : (t.text? n).isSome) : (t'.text? n).isSome := by
  obtain ⟨u, hu⟩ := Option.isSome_iff_exists.1 h
  rw [text?_mono g hu]
  rfl

theorem isSome_text?_intern (t : Names) (u : String) :
    ((t.intern u).2.text? (t.intern u).1).isSome := by
  rw [text?_intern]
  rfl

theorem text_intern (t : Names) (u : String) : (t.intern u).2.text (t.intern u).1 = u := by
  rw [text, text?_intern]
  rfl

theorem eq_of_text_eq (t : Names) {m n : Name} (hm : (t.text? m).isSome) (hn : (t.text? n).isSome)
    (h : t.text m = t.text n) : m = n := by
  obtain ⟨u, hu⟩ := Option.isSome_iff_exists.1 hm
  obtain ⟨v, hv⟩ := Option.isSome_iff_exists.1 hn
  rw [text, text, hu, hv] at h
  exact t.text?_inj hu (hv.trans (congrArg some h.symm))

theorem eq_of_map_text_eq (t : Names) {ms ns : List Name} (hms : ∀ n ∈ ms, (t.text? n).isSome)
    (hns : ∀ n ∈ ns, (t.text? n).isSome) (h : ms.map t.text = ns.map t.text) : ms = ns := by
  induction ms generalizing ns with
  | nil => exact (List.map_eq_nil_iff.1 h.symm).symm
  | cons m rest ih =>
    obtain ⟨n, rest', rfl, hn, hrest⟩ := List.map_eq_cons_iff.1 h.symm
    rw [t.eq_of_text_eq (hms m List.mem_cons_self) (hns n List.mem_cons_self) hn.symm,
      ih (fun l hl => hms l (List.mem_cons_of_mem _ hl))
        (fun l hl => hns l (List.mem_cons_of_mem _ hl)) hrest.symm]

/-- A text that is there keeps its name, and the table does not change. -/
theorem intern_text (t : Names) {n : Name} (h : (t.text? n).isSome) :
    t.intern (t.text n) = (n, t) := by
  obtain ⟨u, hu⟩ := Option.isSome_iff_exists.1 h
  have htext : t.text n = u := by rw [text, hu, Option.getD_some]
  have hinsert : t.insert u = t := dif_pos (List.mem_of_getElem? hu)
  have hname := t.text?_intern u
  rw [show (t.intern u).2 = t from hinsert] at hname
  rw [htext]
  exact Prod.ext (t.text?_inj hname hu) hinsert

theorem internAll_map_text (t : Names) {ns : List Name} (h : ∀ n ∈ ns, (t.text? n).isSome) :
    t.internAll (ns.map t.text) = (ns, t) := by
  induction ns with
  | nil => rfl
  | cons n rest ih =>
    have hrest := ih fun m hm => h m (List.mem_cons_of_mem _ hm)
    simp only [List.map_cons, internAll, t.intern_text (h n List.mem_cons_self), hrest]

theorem internAll_spec (t : Names) (texts : List String) :
    t.texts <+: (t.internAll texts).2.texts ∧
      (t.internAll texts).1.map (t.internAll texts).2.text = texts ∧
      ∀ n ∈ (t.internAll texts).1, ((t.internAll texts).2.text? n).isSome := by
  induction texts generalizing t with
  | nil => exact ⟨List.prefix_rfl, rfl, fun n hn => absurd hn List.not_mem_nil⟩
  | cons u rest ih =>
    obtain ⟨hgrows, htexts, hknown⟩ := ih (t.intern u).2
    rw [internAll]
    refine ⟨(t.prefix_intern u).trans hgrows, ?_, fun n hn => ?_⟩
    · rw [List.map_cons, htexts, text_mono hgrows (t.isSome_text?_intern u), t.text_intern]
    · rcases List.mem_cons.1 hn with rfl | hn
      · exact isSome_mono hgrows (t.isSome_text?_intern u)
      · exact hknown n hn

end Names

namespace PackageName

/-- The texts of a package name. -/
def key (p : PackageName) (names : Names) : PackageKey := (p.pathTexts names, p.versionText names)

/-- The table has all names in the package name. -/
def Known (p : PackageName) (names : Names) : Prop :=
  ∀ n ∈ p.path ++ p.version.toList, (names.text? n).isSome

theorem text_eq_render (p : PackageName) (names : Names) :
    p.text names = render (p.key names).1 (p.key names).2 := rfl

theorem Known.mono {p : PackageName} {names names' : Names} (h : p.Known names)
    (g : names.texts <+: names'.texts) : p.Known names' := fun n hn =>
  Names.isSome_mono g (h n hn)

/-- A package name keeps its texts. -/
theorem Known.key_eq {p : PackageName} {names names' : Names} (h : p.Known names)
    (g : names.texts <+: names'.texts) : p.key names' = p.key names := by
  refine Prod.ext (List.map_congr_left fun n hn => ?_) ?_
  · exact Names.text_mono g (h n (List.mem_append_left _ hn))
  · simp only [key, versionText]
    cases hv : p.version with
    | none => rfl
    | some v =>
      have hknown := h v (List.mem_append_right _ (by rw [hv]; exact List.mem_singleton_self v))
      rw [Option.map_some, Option.map_some, Names.text_mono g hknown]

/-- Package names with the same texts are the same. -/
theorem eq_of_key {p q : PackageName} {names : Names} (hp : p.Known names) (hq : q.Known names)
    (h : p.key names = q.key names) : p = q := by
  obtain ⟨path, version⟩ := p
  obtain ⟨path', version'⟩ := q
  obtain ⟨hpath, hversion⟩ := Prod.mk.inj h
  have hmem : ∀ n ∈ path, (names.text? n).isSome := fun n hn => hp n (List.mem_append_left _ hn)
  have hmem' : ∀ n ∈ path', (names.text? n).isSome := fun n hn =>
    hq n (List.mem_append_left _ hn)
  have hpaths : path = path' := names.eq_of_map_text_eq hmem hmem' hpath
  have hversions : version = version' := by
    change version.map names.text = version'.map names.text at hversion
    cases version with
    | none => exact (Option.map_eq_none_iff.1 hversion.symm).symm
    | some v =>
      obtain ⟨v', rfl, hv⟩ := Option.map_eq_some_iff.1 hversion.symm
      have hknown := hp v (List.mem_append_right _ (List.mem_singleton_self v))
      have hknown' := hq v' (List.mem_append_right _ (List.mem_singleton_self v'))
      rw [names.eq_of_text_eq hknown hknown' hv.symm]
  rw [hpaths, hversions]

/-- The package name made of texts has these texts. -/
theorem ofTexts_spec (path : List String) (version : Option String) (names : Names) :
    names.texts <+: (ofTexts path version names).2.texts ∧
      (ofTexts path version names).1.Known (ofTexts path version names).2 ∧
      (ofTexts path version names).1.key (ofTexts path version names).2 = (path, version) := by
  obtain ⟨hgrows, htexts, hknown⟩ := names.internAll_spec path
  cases version with
  | none =>
    refine ⟨hgrows, fun n hn => hknown n ?_, Prod.ext htexts rfl⟩
    exact (List.append_nil (names.internAll path).1) ▸ hn
  | some v =>
    have hgrows' := (names.internAll path).2.prefix_intern v
    refine ⟨hgrows.trans hgrows', fun n hn => ?_, Prod.ext ?_ ?_⟩
    · rcases List.mem_append.1 hn with hn | hn
      · exact Names.isSome_mono hgrows' (hknown n hn)
      · rw [List.mem_singleton.1 hn]
        exact Names.isSome_text?_intern _ v
    · refine (List.map_congr_left fun n hn => ?_).trans htexts
      exact Names.text_mono hgrows' (hknown n hn)
    · exact congrArg some (Names.text_intern _ v)

/-- A package name that is known is made of its texts without a change. -/
theorem Known.ofTexts_key {p : PackageName} {names : Names} (h : p.Known names) :
    ofTexts (p.key names).1 (p.key names).2 names = (p, names) := by
  have hpath := names.internAll_map_text fun n hn => h n (List.mem_append_left _ hn)
  obtain ⟨path, version⟩ := p
  cases version with
  | none => simp only [ofTexts, key, pathTexts, versionText, Option.map_none, hpath]
  | some v =>
    have hv := names.intern_text (h v (List.mem_append_right _ (List.mem_singleton_self v)))
    simp only [ofTexts, key, pathTexts, versionText, Option.map_some, hpath, hv]

end PackageName

namespace Store

/-- Making a package name is a run. -/
theorem run_internPackage (m : Mark) (path : List String) (version : Option String) (s : Store) :
    Run m s [] (internPackage path version s).2 := by
  have hall : ∀ (texts : List String) (s : Store),
      Run m s [] { s with names := (s.names.internAll texts).2 } := fun texts => by
    induction texts with
    | nil => exact fun s => .refl s
    | cons u rest ih => exact fun s => Run.trans (.intern s u) (ih (intern u s).2)
  cases version with
  | none => exact hall path s
  | some v => exact Run.trans (hall path s) (.intern _ v)

theorem internPackage_spec (path : List String) (version : Option String) (s : Store) :
    (internPackage path version s).1.Known (internPackage path version s).2.names ∧
      (internPackage path version s).1.key (internPackage path version s).2.names =
        (path, version) :=
  (PackageName.ofTexts_spec path version s.names).2

/-- A package name that is known is made without a change. -/
theorem internPackage_of_known {name : PackageName} {s : Store} (h : name.Known s.names)
    {key : PackageKey} (hkey : name.key s.names = key) :
    internPackage key.1 key.2 s = (name, s) := by
  rw [← hkey, internPackage, h.ofTexts_key]

end Store

end Binder
